import Mathlib.Algebra.Order.BigOperators.Group.Finset
import Mathlib.Data.Fintype.Card
import Mathlib.Logic.Function.Basic
import Mathlib.Logic.Function.Iterate
import BcosTxPool.Library.Run

/-!
# Threads over a Shared State

Threads that each run a small program over one shared state, one atomic move
at a time. What a thread does next depends on the shared state and on a state
of its own, its place in the program and its local variables; it never reads
the own state of another thread. A schedule is a list of threads, and
`Library.run` of `move` is the interleaving it prescribes.

Two facts hold of any such program. A thread that is scheduled alone computes
the iteration of its own move, so a program can be compared with the atomic
operation it is meant to be. And if every move of a thread lowers a measure of
what it has left to do, its share of the schedule bounds the measure, whatever
the others did in between.

A thread's share of a schedule is the number of times it occurs, and
`count_concat_self` and `count_concat_of_ne` count it at the end, where an
induction over schedules adds its move.

## Main definitions

* `Leads`: A program alone comes from one place to another.
* `Threads`: A shared state and an own state for each thread.
* `Threads.move`: One atomic move of a thread.

## Theorems

* `count_concat_self`, `count_concat_of_ne`: The share of a thread by the last
  move.
* `Leads.end_unique`: A program alone ends in one place.
* `Threads.run_replicate`: A thread alone iterates its move.
* `Threads.measure_run_le`: What a thread has left after its share of moves.
* `Threads.sum_update`, `Threads.sum_le_card`: What threads have together when one
  of them changes, and when each has at most one.
-/

namespace Library

section Share

variable {τ : Type} [DecidableEq τ]

theorem count_concat_self (l : List τ) (i : τ) : (l ++ [i]).count i = l.count i + 1 := by
  rw [List.count_append, List.count_singleton_self]

theorem count_concat_of_ne (l : List τ) {i j : τ} (h : i ≠ j) :
    (l ++ [i]).count j = l.count j := by
  rw [List.count_append, List.count_eq_zero_of_not_mem
    (fun hmem => h (List.mem_singleton.mp hmem).symm), Nat.add_zero]

end Share

/-! ### Alone -/

section Alone

variable {α : Type} {g : α → α} {p q r : α}

/-- A program that moves alone comes from one place to another, in some number
    of moves that need not be known. -/
def Leads (g : α → α) (p q : α) : Prop := ∃ n, g^[n] p = q

theorem Leads.refl (p : α) : Leads g p p := ⟨0, rfl⟩

theorem Leads.step (h : Leads g (g p) q) : Leads g p q := by
  rcases h with ⟨n, hn⟩
  exact ⟨n + 1, hn⟩

theorem Leads.trans (h : Leads g p q) (h' : Leads g q r) : Leads g p r := by
  rcases h with ⟨n, rfl⟩
  rcases h' with ⟨m, hm⟩
  exact ⟨m + n, (Function.iterate_add_apply g m n p).trans hm⟩

/-- On the way to its end it stays on the way. At the end itself a move does
    nothing. -/
theorem Leads.tail (h : Leads g p q) (hq : g q = q) : Leads g (g p) q := by
  rcases h with ⟨n, hn⟩
  cases n with
  | zero =>
      rw [Function.iterate_zero, id] at hn
      rw [hn, hq]
      exact Leads.refl q
  | succ n => exact ⟨n, hn⟩

/-- Where it comes to an end does not depend on how long one waits. -/
theorem Leads.end_unique (h : Leads g p q) (hq : g q = q) (h' : Leads g p r) (hr : g r = r) :
    q = r := by
  rcases h with ⟨m, hm⟩
  rcases h' with ⟨n, hn⟩
  -- Wait as long for each as the other took.
  have hlater : g^[n] (g^[m] p) = g^[m] (g^[n] p) := by
    rw [← Function.iterate_add_apply, ← Function.iterate_add_apply, Nat.add_comm]
  rw [hm, hn, Function.iterate_fixed hq, Function.iterate_fixed hr] at hlater
  exact hlater

end Alone

/-- A shared state, and for each thread a state of its own. The own states may
    have different types, as the programs may differ. -/
structure Threads (σ : Type) {τ : Type} (L : τ → Type) where
  shared : σ
  own : ∀ i, L i

namespace Threads

variable {σ τ : Type} [DecidableEq τ] {L : τ → Type} (f : ∀ i, σ → L i → σ × L i)

/-- One atomic move of a thread. It reads and writes the shared state and its
    own, and no other. -/
def move (t : Threads σ L) (i : τ) : Threads σ L where
  shared := (f i t.shared (t.own i)).1
  own := Function.update t.own i (f i t.shared (t.own i)).2

@[simp] theorem move_shared (t : Threads σ L) (i : τ) :
    (t.move f i).shared = (f i t.shared (t.own i)).1 := rfl

@[simp] theorem move_own_self (t : Threads σ L) (i : τ) :
    (t.move f i).own i = (f i t.shared (t.own i)).2 :=
  Function.update_self i _ t.own

theorem move_own_of_ne (t : Threads σ L) {i j : τ} (h : j ≠ i) : (t.move f i).own j = t.own j :=
  Function.update_of_ne h _ t.own

/-- A thread alone iterates its move. This compares a program with the operation
    that it makes when nothing interferes. -/
theorem run_replicate (i : τ) (n : Nat) :
    ∀ t : Threads σ L, ((run (move f) t (List.replicate n i)).shared,
        (run (move f) t (List.replicate n i)).own i)
      = (fun p => f i p.1 p.2)^[n] (t.shared, t.own i) := by
  induction n with
  | zero => exact fun _ => rfl
  | succ n ih =>
      intro t
      -- The first move, then the induction hypothesis where it has led to.
      rw [List.replicate_succ, run_cons, ih, Function.iterate_succ_apply, move_own_self,
        move_shared]

/-- If every move of a thread lowers a measure until it is zero, the measure
    falls by the number of its moves in the schedule. -/
theorem measure_run_le (i : τ) (measure : L i → Nat)
    (hdown : ∀ s a, measure (f i s a).2 ≤ measure a - 1) (schedule : List τ) :
    ∀ t : Threads σ L,
      measure ((run (move f) t schedule).own i) ≤ measure (t.own i) - schedule.count i := by
  -- Along the schedule, in which moves of the thread and of others alternate.
  induction schedule with
  | nil => exact fun t => Nat.le_refl _
  | cons j schedule ih =>
      intro t
      have hrest := ih (t.move f j)
      rw [run_cons]
      -- Moves of the others leave the own state of the thread alone.
      by_cases hj : j = i
      · subst hj
        have hmove := hdown t.shared (t.own j)
        rw [move_own_self] at hrest
        rw [List.count_cons_self]
        omega
      · rw [move_own_of_ne f t (Ne.symm hj)] at hrest
        rw [List.count_cons_of_ne hj]
        exact hrest

/-! ### Together -/

section Sum

variable [Fintype τ] (w : ∀ i, L i → Nat)

/-- What all threads have together, when one of them changes. It is stated as an
    equation of sums so that it needs no subtraction. -/
theorem sum_update (own : ∀ i, L i) (i : τ) (v : L i) :
    ∑ j, w j (Function.update own i v j) + w i (own i) = ∑ j, w j (own j) + w i v := by
  rw [← Finset.add_sum_erase Finset.univ (fun j => w j (own j)) (Finset.mem_univ i),
    ← Finset.add_sum_erase Finset.univ (fun j => w j (Function.update own i v j))
      (Finset.mem_univ i), Function.update_self]
  -- The thread stands apart, and the others keep their share.
  have hothers : ∑ j ∈ Finset.univ.erase i, w j (Function.update own i v j)
      = ∑ j ∈ Finset.univ.erase i, w j (own j) :=
    Finset.sum_congr rfl (fun j hj => by
      rw [Function.update_of_ne (Finset.ne_of_mem_erase hj)])
  rw [hothers]
  omega

omit [DecidableEq τ] in
theorem sum_le_card (hw : ∀ i v, w i v ≤ 1) (own : ∀ i, L i) :
    ∑ i, w i (own i) ≤ Fintype.card τ :=
  (Finset.sum_le_card_nsmul Finset.univ _ 1 (fun i _ => hw i (own i))).trans
    (Nat.le_of_eq (Nat.mul_one _))

end Sum

end Threads

end Library
