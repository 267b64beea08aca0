import Mathlib.Data.List.Flatten
import Mathlib.Data.List.Nodup
import BcosTxPool.Library.Threads

/-!
# Schedules That Differ in Their Order

Threads that run over one shared state, and whose moves commute: what two of them do
is the same in either order. Then the order of a schedule does not matter, only how
often each thread occurs in it. In particular every schedule in which all threads
finish is as good as the one that lets the threads run one after the other.

What the same means is up to the component. Two shared states may differ in what
nobody looks at, such as the order of a log. So the rules are stated up to a relation
that the moves respect. It need not hold between a state and itself where the
component is in no state to run.

## Main definitions

* `Threads.Alike`: Equal but for what nobody looks at.
* `Threads.Commutes`: Moves of different threads commute.
* `inTurn`: The threads one after the other.

## Theorems

* `Threads.run_perm`: The order of a schedule does not matter.
* `Threads.run_inTurn`: A schedule that has finished, and the threads in turn.
* `Threads.run_serial`: What the threads do at once, and their operations one after the
  other.
-/

namespace Library

namespace Threads

variable {σ τ : Type} [DecidableEq τ] {L : τ → Type} (f : ∀ i, σ → L i → σ × L i)
  (R : σ → σ → Prop)

/-- The same own states, and shared states that are related. The threads then
    cannot tell the two apart. -/
structure Alike (t u : Threads σ L) : Prop where
  shared : R t.shared u.shared
  own : t.own = u.own

/-- Moves of different threads commute wherever the invariant holds. Commuting
    is asked of the whole, the own states included, up to the relation. -/
structure Commutes (Inv : Threads σ L → Prop) : Prop where
  trans : ∀ {s s' s''}, R s s' → R s' s'' → R s s''
  refl : ∀ {t}, Inv t → R t.shared t.shared
  step : ∀ {t} i, Inv t → Inv (t.move f i)
  congr : ∀ {s s'} i a, R s s' → R (f i s a).1 (f i s' a).1 ∧ (f i s a).2 = (f i s' a).2
  swap : ∀ {t} {i j}, Inv t → i ≠ j → Alike R ((t.move f i).move f j) ((t.move f j).move f i)

variable {f R} {Inv : Threads σ L → Prop}

theorem move_move_shared (t : Threads σ L) {i j : τ} (hij : j ≠ i) :
    ((t.move f i).move f j).shared = (f j (f i t.shared (t.own i)).1 (t.own j)).1 := by
  rw [move_shared, move_shared, move_own_of_ne f t hij]

theorem move_move_own (t : Threads σ L) {i j : τ} (hij : j ≠ i) :
    ((t.move f i).move f j).own
      = Function.update (Function.update t.own i (f i t.shared (t.own i)).2) j
          (f j (f i t.shared (t.own i)).1 (t.own j)).2 := by
  rw [move, move_shared, move_own_of_ne f t hij]
  rfl

theorem Commutes.run_inv (h : Commutes f R Inv) {t : Threads σ L} (ht : Inv t) (l : List τ) :
    Inv (run (move f) t l) :=
  run_invariant (move f) Inv (fun _ => True) (fun _ i _ => h.step i) l t (fun _ _ => trivial) ht

/-- What is alike stays alike, whatever the threads do next. -/
theorem Commutes.run_alike (h : Commutes f R Inv) (l : List τ) :
    ∀ {t u : Threads σ L}, Alike R t u → Alike R (run (move f) t l) (run (move f) u l) := by
  induction l with
  | nil => exact fun htu => htu
  | cons i l ih =>
      intro t u htu
      have hcongr := h.congr i (u.own i) htu.shared
      -- Both moved with the same own state, on shared states that are related.
      refine ih ⟨?_, ?_⟩
      · rw [move_shared, move_shared, htu.own]
        exact hcongr.1
      · rw [move, move, htu.own, hcongr.2]

/-- The order of a schedule does not matter. -/
theorem run_perm (h : Commutes f R Inv) {l l' : List τ} (hl : l.Perm l') :
    ∀ {t : Threads σ L}, Inv t → Alike R (run (move f) t l) (run (move f) t l') := by
  -- On the permutation: it is made of exchanges of neighbours.
  induction hl with
  | nil => exact fun ht => ⟨h.refl ht, rfl⟩
  | cons i _ ih => exact fun ht => ih (h.step i ht)
  | swap i j l =>
      intro t ht
      rw [run_cons, run_cons, run_cons, run_cons]
      -- Two moves of one thread are the same in either order.
      by_cases hij : j = i
      · rw [hij]
        exact ⟨h.refl (h.run_inv (h.step i (h.step i ht)) l), rfl⟩
      · exact h.run_alike l (h.swap ht hij)
  | trans _ _ ih ih' =>
      intro t ht
      have hfirst := ih ht
      have hsecond := ih' ht
      exact ⟨h.trans hfirst.shared hsecond.shared, hfirst.own.trans hsecond.own⟩

end Threads

/-! ### One after the other -/

section InTurn

variable {τ : Type} [DecidableEq τ]

/-- Each thread in turn, for a number of moves of its own. The list of threads
    says in which order. -/
def inTurn (moves : τ → Nat) (order : List τ) : List τ :=
  order.flatMap (fun i => List.replicate (moves i) i)

theorem count_inTurn (moves : τ → Nat) {order : List τ} (horder : order.Nodup) (i : τ) :
    (inTurn moves order).count i = if i ∈ order then moves i else 0 := by
  induction order with
  | nil => rfl
  | cons j order ih =>
      rw [List.nodup_cons] at horder
      have hrest := ih horder.2
      unfold inTurn at hrest ⊢
      rw [List.flatMap_cons, List.count_append, hrest, List.count_replicate]
      -- The thread is the first one, and occurs in no later turn, or it is another.
      by_cases hij : i = j
      · subst hij
        rw [if_neg horder.1, if_pos List.mem_cons_self, beq_self_eq_true, if_pos rfl, Nat.add_zero]
      · have hmem : i ∈ j :: order ↔ i ∈ order := by
          rw [List.mem_cons, or_iff_right hij]
        simp only [beq_iff_eq, Ne.symm hij, if_false, Nat.zero_add, hmem]

/-- A schedule, filled up to the same number of moves for every thread, has the
    moves of the threads in turn. -/
theorem perm_inTurn (schedule order : List τ) (horder : order.Nodup) (hall : ∀ i, i ∈ order)
    (moves : Nat) (hmoves : ∀ i, schedule.count i ≤ moves) :
    (schedule ++ inTurn (fun i => moves - schedule.count i) order).Perm
      (inTurn (fun _ => moves) order) := by
  rw [List.perm_iff_count]
  intro i
  rw [List.count_append, count_inTurn _ horder, count_inTurn _ horder, if_pos (hall i),
    if_pos (hall i)]
  exact Nat.add_sub_cancel' (hmoves i)

end InTurn

namespace Threads

variable {σ τ : Type} [DecidableEq τ] {L : τ → Type} {f : ∀ i, σ → L i → σ × L i}
  {R : σ → σ → Prop} {Inv : Threads σ L → Prop}

/-- A thread that a move does not change may move as often as it likes. Finished
    threads are of this kind. -/
theorem run_eq_self_of_fixed {t : Threads σ L}
    (h : ∀ i, f i t.shared (t.own i) = (t.shared, t.own i)) (l : List τ) :
    run (move f) t l = t := by
  refine run_eq_self (move f) (fun i _ => ?_)
  rw [move, h i, Function.update_eq_self]

/-- A thread leaves the own states of the others alone. -/
theorem run_replicate_own_of_ne {i j : τ} (hij : j ≠ i) (n : Nat) :
    ∀ t : Threads σ L, (run (move f) t (List.replicate n i)).own j = t.own j := by
  induction n with
  | zero => exact fun _ => rfl
  | succ n ih =>
      intro t
      rw [List.replicate_succ, run_cons, ih, move_own_of_ne f t hij]

/-- A schedule after which no thread has anything left to do leads to the same
    as the threads in turn. -/
theorem run_inTurn (h : Commutes f R Inv) {t : Threads σ L} (ht : Inv t)
    {schedule order : List τ} (horder : order.Nodup) (hall : ∀ i, i ∈ order)
    (hdone : ∀ i, f i (run (move f) t schedule).shared ((run (move f) t schedule).own i)
      = ((run (move f) t schedule).shared, (run (move f) t schedule).own i))
    (moves : Nat) (hmoves : ∀ i, schedule.count i ≤ moves) :
    Alike R (run (move f) t schedule) (run (move f) t (inTurn (fun _ => moves) order)) := by
  -- The moves that are missing in the schedule would do nothing at its end.
  have hperm := run_perm h (perm_inTurn schedule order horder hall moves hmoves) ht
  rw [run_append, run_eq_self_of_fixed hdone] at hperm
  exact hperm

/-- Where each thread alone makes an operation of the shared state, the threads
    in turn make their operations in turn. -/
theorem run_inTurn_alone {op : τ → σ → σ} {start : ∀ i, L i} {moves : Nat}
    (halone : ∀ i s, ((fun p => f i p.1 p.2)^[moves] (s, start i)).1 = op i s) (order : List τ) :
    ∀ t : Threads σ L, order.Nodup → (∀ i ∈ order, t.own i = start i) →
      (run (move f) t (inTurn (fun _ => moves) order)).shared
        = order.foldl (fun s i => op i s) t.shared := by
  induction order with
  | nil => exact fun t _ _ => rfl
  | cons i order ih =>
      intro t horder hstart
      rw [List.nodup_cons] at horder
      -- The first thread makes all its moves, and the others have not begun.
      have hfirst := congrArg Prod.fst (run_replicate f i moves t)
      rw [hstart i List.mem_cons_self, halone] at hfirst
      have hrest := ih (run (move f) t (List.replicate moves i)) horder.2 (fun j hj => by
        have hji : j ≠ i := fun heq => horder.1 (heq ▸ hj)
        rw [run_replicate_own_of_ne hji moves t]
        exact hstart j (List.mem_cons_of_mem i hj))
      rw [List.foldl_cons, ← hfirst, ← hrest, ← run_append]
      rfl

/-- Threads that run at once, until none has anything left to do, lead to what
    their operations lead to one after the other, in any order. -/
theorem run_serial (h : Commutes f R Inv) {t : Threads σ L} (ht : Inv t)
    {schedule order : List τ} (horder : order.Nodup) (hall : ∀ i, i ∈ order)
    (hdone : ∀ i, f i (run (move f) t schedule).shared ((run (move f) t schedule).own i)
      = ((run (move f) t schedule).shared, (run (move f) t schedule).own i))
    {moves : Nat} (hmoves : ∀ i, schedule.count i ≤ moves) {op : τ → σ → σ}
    (halone : ∀ i s, ((fun p => f i p.1 p.2)^[moves] (s, t.own i)).1 = op i s) :
    R (run (move f) t schedule).shared (order.foldl (fun s i => op i s) t.shared) := by
  -- First the schedule is put into turns, then each turn is the operation.
  have hturn := (run_inTurn h ht horder hall hdone moves hmoves).shared
  rw [run_inTurn_alone halone order t horder (fun _ _ => rfl)] at hturn
  exact hturn

end Threads

end Library
