import Mathlib.Algebra.Order.Group.Multiset
import BcosTxPool.Library.History

/-!
# Accounts of a Run

What comes in, what goes out and what is kept. An operation of a component may
add to something it keeps and may take from it. If for every operation what was
there and what came in are together what went out and what is there now, the
same holds of a run, where what comes in and what goes out are collected over
its operations.

Keeping may mean a queue or a number, so the account is kept in any monoid.
Lists with appending make it a statement about order: what was waiting, with
what has arrived behind it, is what was served, with what still waits behind it.
Nothing is lost, served twice or overtaken. Numbers with addition make it a
balance.

## Main definitions

* `total`: What the operations of a run contribute together.
* `gather`: The same for lists.

## Theorems

* `total_append`: The contributions of two runs.
* `balanced`: The account of one operation carries over to a run.
* `gather_eq_served`: The account of a queue.
* `gather_perm_spent`: The account of a store without an order.
* `mem_gather`: A contribution was made by some operation of the run.
* `run_part`: The run of a part of a system.
* `perm_cons_eraseIdx`, `perm_cons_filter`: An item taken out, by its place or by
  its key.
-/

namespace Library

variable {σ ι M : Type} (step : σ → ι → σ)

section Balance

variable (op : M → M → M) (e : M)

/-- What the operations of a run contribute together. The contribution may
    depend on the state in which the operation happens. -/
def total (f : σ → ι → M) : σ → List ι → M
  | _, [] => e
  | s, i :: l => op (f s i) (total f (step s i) l)

variable {op e} [hassoc : Std.Associative op] [hunit : Std.LawfulIdentity op e]

theorem total_append (f : σ → ι → M) (l r : List ι) :
    ∀ s, total step op e f s (l ++ r)
      = op (total step op e f s l) (total step op e f (run step s l) r) := by
  induction l with
  | nil => exact fun s => (hunit.left_id _).symm
  | cons i l ih =>
      intro s
      -- The rest of the first run and the second run are one total by induction.
      rw [List.cons_append, total, total, ih (step s i), hassoc.assoc]
      rfl

omit hassoc hunit in
/-- A homomorphism may be applied to the contributions or to their total. -/
theorem total_hom {N : Type} {op' : N → N → N} {e' : N} (g : M → N) (hone : g e = e')
    (hmul : ∀ a b, g (op a b) = op' (g a) (g b)) (f : σ → ι → M) (l : List ι) :
    ∀ s, total step op' e' (fun s i => g (f s i)) s l = g (total step op e f s l) := by
  -- Along the operations; the map passes over each contribution.
  induction l with
  | nil => exact fun _ => hone.symm
  | cons i l ih =>
      intro s
      rw [total, total, hmul, ih (step s i)]

/-- If every operation balances what is kept with what comes in and goes out, so
    does every run. -/
theorem balanced {C : σ → ι → Prop} {kept : σ → M} {income spent : σ → ι → M}
    (h : ∀ s i, C s i → op (kept s) (income s i) = op (spent s i) (kept (step s i)))
    (l : List ι) :
    ∀ s, Along step C s l → op (kept s) (total step op e income s l)
      = op (total step op e spent s l) (kept (run step s l)) := by
  induction l with
  | nil => exact fun s _ => (hunit.right_id _).trans (hunit.left_id _).symm
  | cons i l ih =>
      intro s hC
      -- What comes in first passes through the state after the first operation.
      rw [total, total, ← hassoc.assoc, h s i hC.1, hassoc.assoc, ih (step s i) hC.2,
        ← hassoc.assoc]
      rfl

end Balance

section Queue

variable {α : Type}

/-- What the operations of a run contribute to a list, in their order. It is the
    total in the monoid of lists. -/
def gather (f : σ → ι → List α) : σ → List ι → List α :=
  total step (fun l r => l ++ r) [] f

@[simp] theorem gather_nil (f : σ → ι → List α) (s : σ) : gather step f s [] = [] := rfl

@[simp] theorem gather_cons (f : σ → ι → List α) (s : σ) (i : ι) (l : List ι) :
    gather step f s (i :: l) = f s i ++ gather step f (step s i) l := rfl

theorem gather_append (f : σ → ι → List α) (l r : List ι) (s : σ) :
    gather step f s (l ++ r) = gather step f s l ++ gather step f (run step s l) r :=
  total_append step f l r s

theorem gather_concat (f : σ → ι → List α) (l : List ι) (i : ι) (s : σ) :
    gather step f s (l ++ [i]) = gather step f s l ++ f (run step s l) i := by
  rw [gather_append, gather_cons, gather_nil, List.append_nil]

/-- A contribution was made by some operation of the run, in the state that
    operation met. -/
theorem mem_gather (f : σ → ι → List α) (s : σ) (l : List ι) (a : α) :
    a ∈ gather step f s l ↔ Once step (fun s i => a ∈ f s i) s l := by
  induction l using List.reverseRecOn with
  | nil =>
      refine iff_of_false List.not_mem_nil ?_
      rintro ⟨pre, i, post, hnil, _⟩
      exact absurd hnil.symm (List.append_ne_nil_of_right_ne_nil pre (List.cons_ne_nil i post))
  -- The last operation has made it, or one before.
  | append_singleton l i ih => rw [gather_concat, List.mem_append, ih, once_concat]

/-- A contribution read through a function is the contribution of what is read. -/
theorem map_gather {β : Type} (g : α → β) (f : σ → ι → List α) (s : σ) (l : List ι) :
    (gather step f s l).map g = gather step (fun s i => (f s i).map g) s l :=
  (total_hom step (List.map g) List.map_nil (fun _ _ => List.map_append) f l s).symm

theorem filterMap_gather {β : Type} (g : α → Option β) (f : σ → ι → List α) (s : σ) (l : List ι) :
    (gather step f s l).filterMap g = gather step (fun s i => (f s i).filterMap g) s l :=
  (total_hom step (List.filterMap g) List.filterMap_nil (fun _ _ => List.filterMap_append) f l
    s).symm

theorem flatMap_gather {β : Type} (g : α → List β) (f : σ → ι → List α) (s : σ) (l : List ι) :
    (gather step f s l).flatMap g = gather step (fun s i => (f s i).flatMap g) s l :=
  (total_hom step (List.flatMap g) List.flatMap_nil (fun _ _ => List.flatMap_append) f l
    s).symm

/-- Where the contributions are those of the operations alone, no state is
    needed to tell them. -/
theorem gather_const (f : ι → List α) (s : σ) (l : List ι) :
    gather step (fun _ i => f i) s l = l.flatMap f := by
  induction l generalizing s with
  | nil => rfl
  | cons i l ih => rw [gather_cons, ih, List.flatMap_cons]

/-- Two accounts of the same operations agree if they agree on each of them
    where it happens. -/
theorem gather_congr {C : σ → ι → Prop} {f g : σ → ι → List α} (h : ∀ s i, C s i → f s i = g s i)
    (s : σ) (l : List ι) (hl : Along step C s l) : gather step f s l = gather step g s l := by
  induction l generalizing s with
  | nil => rfl
  | cons i l ih => rw [gather_cons, gather_cons, h s i hl.1, ih (step s i) hl.2]

/-- A queue that is served at its head and filled at its end. What was waiting
    and what has arrived since is what was served and what waits now, in that
    order. -/
theorem gather_eq_served {C : σ → ι → Prop} {queue : σ → List α} {arrives serves : σ → ι → List α}
    (h : ∀ s i, C s i → queue s ++ arrives s i = serves s i ++ queue (step s i)) (s : σ)
    (l : List ι) (hl : Along step C s l) :
    queue s ++ gather step arrives s l = gather step serves s l ++ queue (run step s l) :=
  balanced step h l s hl

/-- A store from which things are taken in any order. The account is one of what
    is in it and how often. -/
theorem gather_perm_spent {C : σ → ι → Prop} {kept : σ → List α} {income spent : σ → ι → List α}
    (h : ∀ s i, C s i → (kept s ++ income s i).Perm (spent s i ++ kept (step s i))) (s : σ)
    (l : List ι) (hl : Along step C s l) :
    (kept s ++ gather step income s l).Perm (gather step spent s l ++ kept (run step s l)) := by
  -- As multisets the lists make a commutative account, and there the balance is an equation.
  have hcoe : ∀ f : σ → ι → List α, total step (fun a b : Multiset α => a + b) 0
      (fun s i => ↑(f s i)) s l = ↑(gather step f s l) := fun f =>
    total_hom step (fun l : List α => (l : Multiset α)) rfl
      (fun a b => (Multiset.coe_add a b).symm) f l s
  have hstep : ∀ s i, C s i → (kept s : Multiset α) + ↑(income s i)
      = ↑(spent s i) + ↑(kept (step s i)) := by
    intro s i hC
    rw [Multiset.coe_add, Multiset.coe_add, Multiset.coe_eq_coe]
    exact h s i hC
  have hrun := balanced step hstep l s hl
  rw [hcoe, hcoe, Multiset.coe_add, Multiset.coe_add, Multiset.coe_eq_coe] at hrun
  exact hrun

/-- Two contributions, taken together or apart. Only the order differs, since
    apart all of one kind come before the other. -/
theorem gather_append_perm (f g : σ → ι → List α) (l : List ι) :
    ∀ s, (gather step (fun s i => f s i ++ g s i) s l).Perm
      (gather step f s l ++ gather step g s l) := by
  induction l with
  | nil => exact fun _ => List.Perm.refl []
  | cons i l ih =>
      intro s
      rw [gather_cons, gather_cons, gather_cons, List.append_assoc, List.append_assoc]
      -- The second contribution passes over what the first kind contributes later.
      refine List.Perm.append_left _ (((ih (step s i)).append_left _).trans ?_)
      rw [← List.append_assoc, ← List.append_assoc]
      exact List.perm_append_comm.append_right _

end Queue

section Component

variable {τ κ : Type} (part : τ → κ → τ)

/-- A part of a system, and the operations that each step of the system is to
    it. Over a run the part runs through all of them. -/
theorem run_part (get : σ → τ) {feed : σ → ι → List κ}
    (h : ∀ s i, get (step s i) = run part (get s) (feed s i)) (l : List ι) :
    ∀ s, get (run step s l) = run part (get s) (gather step feed s l) := by
  induction l with
  | nil => exact fun _ => rfl
  | cons i l ih =>
      intro s
      -- What the first step feeds to the part comes before the rest.
      rw [run_cons, ih (step s i), h, gather_cons, run_append]

end Component

section Items

variable {α β : Type}

/-- An item taken out by its place, and the others. As a bag the list is the
    same. -/
theorem perm_cons_eraseIdx {a : α} : ∀ {l : List α} {i : Nat}, l[i]? = some a →
    l.Perm (a :: l.eraseIdx i)
  | [], _, h => absurd h.symm (Option.some_ne_none a)
  | b :: l, 0, h => by
      rw [List.getElem?_cons_zero, Option.some.injEq] at h
      rw [h, List.eraseIdx_cons_zero]
  | b :: l, i + 1, h => by
      rw [List.getElem?_cons_succ] at h
      rw [List.eraseIdx_cons_succ]
      -- The item comes to the front of the rest, and then past the head.
      exact ((perm_cons_eraseIdx h).cons b).trans (List.Perm.swap a b _)

/-- What the first item of a list brings comes before what the others bring. -/
theorem filterMap_cons_toList (f : α → Option β) (a : α) (l : List α) :
    (a :: l).filterMap f = (f a).toList ++ l.filterMap f := by
  rw [List.filterMap_cons]
  cases f a with
  | none => rfl
  | some b => rfl

/-- An item taken out by its key, and the others. The keys are distinct, so the
    filter takes out no more than this one. -/
theorem perm_cons_filter [DecidableEq β] {key : α → β} {a : α} {l : List α}
    (hkeys : (l.map key).Nodup) (ha : a ∈ l) :
    l.Perm (a :: l.filter (fun b => key b ≠ key a)) := by
  induction l with
  | nil => exact absurd ha List.not_mem_nil
  | cons b l ih =>
      rw [List.map_cons, List.nodup_cons] at hkeys
      rcases List.mem_cons.mp ha with rfl | ha
      · -- No other item has the key.
        have hothers : ∀ c ∈ l, decide (key c ≠ key a) = true := fun c hc =>
          decide_eq_true (fun heq => hkeys.1 (heq ▸ List.mem_map_of_mem hc))
        rw [List.filter_cons_of_neg (by simp only [ne_eq, not_true_eq_false, decide_false,
          Bool.false_eq_true, not_false_eq_true]), List.filter_eq_self.mpr hothers]
      · have hne : key b ≠ key a := fun heq => hkeys.1 (heq ▸ List.mem_map_of_mem ha)
        rw [List.filter_cons, decide_eq_true hne, if_pos rfl]
        exact ((ih hkeys.2 ha).cons b).trans (List.Perm.swap a b _)

end Items

end Library
