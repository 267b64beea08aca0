import Mathlib.Data.List.Basic

/-!
# Loops That Collect

A loop that goes over a list and collects values until it has enough. It looks
at each element in the state it is in. A look may change the state, and it may
pick a value; a picked value is appended to the ones collected so far.

The loop compares after it has appended. A limit of one or more therefore bounds
the result, but with the limit zero the loop still picks one value before it
notices. `collect_length_le_iff` says so: a result within the limit is a limit
that is not zero or a loop that picks nothing. The remaining rules say when a
loop picks nothing.

## Main definitions

* `collect`: The loop.

## Theorems

* `collect_length_le`: How much a loop collects.
* `collect_length_le_iff`: When a loop keeps within its limit.
* `collect_eq_nil_iff`: When a loop collects nothing.
-/

namespace Library

variable {σ ι α : Type} (look : σ → ι → σ × Option α)

/-- Look at the elements one by one, append what is picked and stop when there is
    enough. -/
def collect (limit : Nat) : List ι → σ → List α → σ × List α
  | [], s, picked => (s, picked)
  | i :: l, s, picked =>
    match look s i with
    | (s, none) => collect limit l s picked
    | (s, some a) =>
        if (picked ++ [a]).length ≥ limit then (s, picked ++ [a])
        else collect limit l s (picked ++ [a])

/-- At most the limit is collected, or one value more than there was. -/
theorem collect_length_le (limit : Nat) (l : List ι) :
    ∀ s picked, (collect look limit l s picked).2.length ≤ max limit (picked.length + 1) := by
  induction l with
  | nil =>
      intro s picked
      simp only [collect]
      omega
  | cons i l ih =>
      intro s picked
      rw [collect]
      -- The look picks nothing and the loop goes on, or it picks a value.
      rcases look s i with ⟨s', _ | a⟩
      · exact ih s' picked
      · simp only [List.length_append, List.length_singleton]
        split
        · -- The loop ends with one value more than it had.
          simp only [List.length_append, List.length_singleton]
          omega
        · -- Below the limit there is room for the next value too.
          have hrest := ih s' (picked ++ [a])
          simp only [List.length_append, List.length_singleton] at hrest
          omega

/-- What is collected stays collected. The loop only appends, so a value once
    picked is still there at the end. -/
theorem prefix_collect (limit : Nat) (l : List ι) :
    ∀ s picked, picked <+: (collect look limit l s picked).2 := by
  induction l with
  | nil => exact fun _ _ => List.prefix_rfl
  | cons i l ih =>
      intro s picked
      rw [collect]
      rcases look s i with ⟨s', _ | a⟩
      · exact ih s' picked
      · simp only
        split
        · exact List.prefix_append picked [a]
        · exact (List.prefix_append picked [a]).trans (ih s' (picked ++ [a]))

/-- A loop keeps within its limit if that is not zero, and with the limit zero
    if it collects nothing. -/
theorem collect_length_le_iff (limit : Nat) (l : List ι) (s : σ) :
    (collect look limit l s []).2.length ≤ limit ↔
      (limit = 0 → (collect look limit l s []).2 = []) := by
  have hbound := collect_length_le look limit l s []
  rw [List.length_nil] at hbound
  constructor
  · intro hle hzero
    exact List.length_eq_zero_iff.mp (by omega)
  · intro hnil
    -- From one up the bound is the limit itself, since nothing was there at first.
    by_cases hzero : limit = 0
    · rw [hnil hzero]
      exact Nat.zero_le limit
    · omega

variable {look}

/-- A loop that picks nothing at its first element has the rest still before it,
    in the state that the look has left. -/
theorem collect_cons_eq_nil_iff (limit : Nat) (i : ι) (l : List ι) (s : σ) :
    (collect look limit (i :: l) s []).2 = [] ↔
      (look s i).2 = none ∧ (collect look limit l (look s i).1 []).2 = [] := by
  rw [collect]
  rcases look s i with ⟨s', _ | a⟩
  · exact (and_iff_right rfl).symm
  · refine iff_of_false (fun hnil => ?_) (fun h => absurd h.1 (Option.some_ne_none a))
    simp only at hnil
    split at hnil
    · cases hnil
    · -- What was picked would still be there at the end.
      have hprefix := prefix_collect look limit l s' ([] ++ [a])
      rw [hnil] at hprefix
      exact absurd (List.prefix_nil.mp hprefix) (List.cons_ne_nil a [])

/-- Where only a pick changes the state, a loop collects nothing if the state it
    begins in lets it pick nothing. -/
theorem collect_eq_nil_iff (hkeep : ∀ s i, (look s i).2 = none → (look s i).1 = s) (limit : Nat)
    (l : List ι) (s : σ) :
    (collect look limit l s []).2 = [] ↔ ∀ i ∈ l, (look s i).2 = none := by
  induction l with
  | nil => exact iff_of_true rfl (fun _ h => absurd h List.not_mem_nil)
  | cons i l ih =>
      rw [collect_cons_eq_nil_iff, List.forall_mem_cons]
      -- Nothing was picked, so the rest is looked at in the same state.
      refine and_congr_right (fun hnone => ?_)
      rw [hkeep s i hnone]
      exact ih

end Library
