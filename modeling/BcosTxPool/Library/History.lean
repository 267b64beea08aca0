import Mathlib.Data.List.Induction
import BcosTxPool.Library.Run

/-!
# Looking Back on a Run

Some properties of a run are about its past: that every operation met a
condition when it happened, or that something happened once and has not been
undone since. Such a property is a predicate of the list of operations, and it
is established by adding one operation at the end.

`Throughout` is a condition on an operation and on all that came before it,
and `throughout_invariant` is the induction over the run. `Since` is the past
operator of temporal logic: at some operation `P` held, and `Q` has held in
every state from then on. `Once` is the same with nothing asked of what came
after. `since_concat` and `once_concat` unfold them by the last operation,
which is all that an induction at the end of a run needs.

## Main definitions

* `Throughout`: A condition on every operation and what came before it.
* `Since`: Something happened, and a property has held ever since.
* `Once`: Something happened.

## Theorems

* `throughout_concat`, `since_concat`, `once_concat`: The three by the last
  operation.
* `throughout_invariant`, `throughout_and_invariant`: What every such
  operation preserves.
* `along_iff_throughout`: Conditions on the state are conditions on the past.
-/

namespace Library

variable {σ ι : Type}

/-- A condition on what came before and what is done next, met at every
    operation of a list. -/
def Throughout (C : List ι → ι → Prop) (l : List ι) : Prop :=
  ∀ pre i post, l = pre ++ i :: post → C pre i

theorem throughout_nil (C : List ι → ι → Prop) : Throughout C [] := by
  intro pre i post h
  exact absurd h.symm (List.append_ne_nil_of_right_ne_nil pre (List.cons_ne_nil i post))

/-- An element split off a list is its last one, or it is split off the rest. -/
theorem concat_eq_append_cons {l pre post : List ι} {i j : ι} (h : l ++ [i] = pre ++ j :: post) :
    (l = pre ∧ i = j ∧ post = []) ∨ ∃ rest, post = rest ++ [i] ∧ l = pre ++ j :: rest := by
  -- What stands after the element is empty, or it ends with the last one.
  rcases List.eq_nil_or_concat post with rfl | ⟨rest, k, rfl⟩
  · rcases List.append_inj' h rfl with ⟨hl, hlast⟩
    exact Or.inl ⟨hl, List.singleton_inj.mp hlast, rfl⟩
  · rw [List.concat_eq_append, ← List.cons_append, ← List.append_assoc] at h
    rcases List.append_inj' h rfl with ⟨hl, hlast⟩
    refine Or.inr ⟨rest, ?_, hl⟩
    rw [List.concat_eq_append, List.singleton_inj.mp hlast]

theorem throughout_concat (C : List ι → ι → Prop) (l : List ι) (i : ι) :
    Throughout C (l ++ [i]) ↔ Throughout C l ∧ C l i := by
  constructor
  · intro h
    refine ⟨fun pre j post hl => h pre j (post ++ [i]) ?_, h l i [] rfl⟩
    rw [hl, List.append_assoc, List.cons_append]
  · intro hcond pre j post hl
    -- The operation split off is the last one, or it is one of the others.
    rcases concat_eq_append_cons hl with ⟨rfl, rfl, _⟩ | ⟨rest, _, hrest⟩
    · exact hcond.2
    · exact hcond.1 pre j rest hrest

/-- What every operation preserves that meets the condition on its past holds
    of every list along which the condition is met. -/
theorem throughout_invariant (C : List ι → ι → Prop) (Inv : List ι → Prop) (hnil : Inv [])
    (hstep : ∀ l i, C l i → Inv l → Inv (l ++ [i])) (l : List ι) (hl : Throughout C l) : Inv l := by
  -- At the end of the list: the past of an operation is the list before it.
  induction l using List.reverseRecOn with
  | nil => exact hnil
  | append_singleton l i ih =>
      rw [throughout_concat] at hl
      exact hstep l i hl.2 (ih hl.1)

theorem Throughout.of_append {C : List ι → ι → Prop} {l r : List ι} (h : Throughout C (l ++ r)) :
    Throughout C l := by
  intro pre i post hl
  refine h pre i (post ++ r) ?_
  rw [hl, List.append_assoc, List.cons_append]

/-- What such a list preserves holds before each of its operations. -/
theorem throughout_and_invariant (C : List ι → ι → Prop) (Inv : List ι → Prop) (hnil : Inv [])
    (hstep : ∀ l i, C l i → Inv l → Inv (l ++ [i])) (l : List ι) (hl : Throughout C l) :
    Throughout (fun pre i => C pre i ∧ Inv pre) l := by
  intro pre i post heq
  refine ⟨hl pre i post heq, throughout_invariant C Inv hnil hstep pre ?_⟩
  rw [heq] at hl
  exact hl.of_append

/-- A condition can take in what is known of every operation of the list. -/
theorem Throughout.and_mem {C : List ι → ι → Prop} {P : ι → Prop} {l : List ι}
    (h : Throughout C l) (hP : ∀ i ∈ l, P i) : Throughout (fun pre i => C pre i ∧ P i) l := by
  intro pre i post heq
  refine ⟨h pre i post heq, hP i ?_⟩
  rw [heq]
  exact List.mem_append_right pre List.mem_cons_self

variable (step : σ → ι → σ)

/-- A condition on the state and the operation is one on the past. -/
theorem along_iff_throughout (C : σ → ι → Prop) (s : σ) (l : List ι) :
    Along step C s l ↔ Throughout (fun pre i => C (run step s pre) i) l := by
  induction l using List.reverseRecOn with
  | nil => exact iff_of_true trivial (throughout_nil _)
  | append_singleton l i ih =>
      rw [throughout_concat, along_append, ih]
      exact and_congr_right (fun _ => ⟨fun h => h.1, fun h => ⟨h, trivial⟩⟩)

/-- At some operation of a run `P` held, and `Q` has held in every state from
    then on. -/
def Since (P : σ → ι → Prop) (Q : σ → Prop) (s : σ) (l : List ι) : Prop :=
  ∃ pre i post, l = pre ++ i :: post ∧ P (run step s pre) i ∧
    ∀ mid, mid <+: post → Q (run step s (pre ++ i :: mid))

theorem not_since_nil (P : σ → ι → Prop) (Q : σ → Prop) (s : σ) : ¬ Since step P Q s [] := by
  intro h
  rcases h with ⟨pre, i, post, hnil, _⟩
  exact absurd hnil.symm (List.append_ne_nil_of_right_ne_nil pre (List.cons_ne_nil i post))

/-- It happened at the last operation or before, and it has not been undone by
    the last one. -/
theorem since_concat (P : σ → ι → Prop) (Q : σ → Prop) (s : σ) (l : List ι) (i : ι) :
    Since step P Q s (l ++ [i]) ↔
      Q (run step s (l ++ [i])) ∧ (Since step P Q s l ∨ P (run step s l) i) := by
  constructor
  · intro h
    rcases h with ⟨pre, j, post, hl, hP, hQ⟩
    refine ⟨by rw [hl]; exact hQ post List.prefix_rfl, ?_⟩
    -- Every state since then but the last is one of the shorter run.
    rcases concat_eq_append_cons hl with ⟨rfl, rfl, _⟩ | ⟨rest, rfl, hrest⟩
    · exact Or.inr hP
    · refine Or.inl ⟨pre, j, rest, hrest, hP, fun mid hmid => hQ mid ?_⟩
      exact hmid.trans (List.prefix_append rest [i])
  · intro h
    rcases h with ⟨hnow, ⟨pre, j, post, rfl, hP, hQ⟩ | hP⟩
    · have hassoc : pre ++ j :: post ++ [i] = pre ++ j :: (post ++ [i]) := by
        rw [List.append_assoc, List.cons_append]
      refine ⟨pre, j, post ++ [i], hassoc, hP, fun mid hmid => ?_⟩
      -- Up to the last operation it is the old claim, after it the new one.
      rcases List.prefix_concat_iff.mp hmid with rfl | hmid
      · rw [← hassoc]
        exact hnow
      · exact hQ mid hmid
    · refine ⟨l, i, [], rfl, hP, fun mid hmid => ?_⟩
      rw [List.prefix_nil.mp hmid]
      exact hnow

/-- At some operation of a run `P` held, in the state that the operation met. -/
def Once (P : σ → ι → Prop) (s : σ) (l : List ι) : Prop :=
  ∃ pre i post, l = pre ++ i :: post ∧ P (run step s pre) i

theorem Once.mono {P Q : σ → ι → Prop} {s : σ} {l : List ι} (h : Once step P s l)
    (hmono : ∀ s i, P s i → Q s i) : Once step Q s l := by
  rcases h with ⟨pre, i, post, hl, hi⟩
  exact ⟨pre, i, post, hl, hmono _ i hi⟩

theorem once_concat (P : σ → ι → Prop) (s : σ) (l : List ι) (i : ι) :
    Once step P s (l ++ [i]) ↔ Once step P s l ∨ P (run step s l) i := by
  constructor
  · intro h
    rcases h with ⟨pre, j, post, hl, hP⟩
    -- It was the last operation or one of the others.
    rcases concat_eq_append_cons hl with ⟨rfl, rfl, _⟩ | ⟨rest, _, hrest⟩
    · exact Or.inr hP
    · exact Or.inl ⟨pre, j, rest, hrest, hP⟩
  · intro h
    rcases h with ⟨pre, j, post, rfl, hP⟩ | hP
    · exact ⟨pre, j, post ++ [i], by rw [List.append_assoc, List.cons_append], hP⟩
    · exact ⟨l, i, [], rfl, hP⟩

/-- What has held ever since holds now. The state after the run is the last of
    those the property was claimed of. -/
theorem Since.now {P : σ → ι → Prop} {Q : σ → Prop} {s : σ} {l : List ι}
    (h : Since step P Q s l) : Q (run step s l) := by
  rcases h with ⟨pre, i, post, rfl, _, hQ⟩
  exact hQ post List.prefix_rfl

end Library
