import Mathlib.Data.List.Sort
import Mathlib.Order.Lattice

/-!
# Sorted Sets

A set kept as a strictly increasing list, which is what an ordered set of an
imperative standard library presents: a traversal meets every element once
and in ascending order, whatever the order of insertion was. A program that
copies such a set into a list, or walks it, depends on that order, so a plain
finite set is not enough; a list alone is too much, since it could hold an
element twice. The order is the structure's invariant.

## Main definitions

* `SortedSet`: A strictly increasing list.
* `insertInto`: Placing an element into an increasing list.
* `insert`: Adding an element.
* `erase`: Removing an element.
* `ofList`: The set of a list's elements.

## Theorems

* `mem_insert`, `mem_erase`, `mem_ofList`: Membership after each operation.
* `sorted_insertInto`: Placing an element keeps a list increasing.
* `size_insert_of_not_mem`: A new element makes the set larger.
* `erase_comm`: Two removals in either order.
* `size_eq_zero_iff`: A set of size zero has no element.
-/

namespace Library

/-- A set as a strictly increasing list. Two such sets with the same members are
    equal, so no order of insertion shows in the value. -/
structure SortedSet (α : Type) [LinearOrder α] where
  /-- The elements in ascending order. -/
  toList : List α
  sorted : toList.Pairwise (· < ·)
deriving DecidableEq

namespace SortedSet

variable {α : Type} [LinearOrder α]

/-- The set without an element. -/
def empty : SortedSet α := ⟨[], List.Pairwise.nil⟩

instance : Membership α (SortedSet α) := ⟨fun s a => a ∈ s.toList⟩

theorem mem_def (s : SortedSet α) (a : α) : a ∈ s ↔ a ∈ s.toList := Iff.rfl

instance (a : α) (s : SortedSet α) : Decidable (a ∈ s) :=
  inferInstanceAs (Decidable (a ∈ s.toList))

/-- The number of elements. The list has no repetition, so its length counts
    them. -/
def size (s : SortedSet α) : Nat := s.toList.length

/-- Place an element before the first larger one, unless it is met on the
    way. -/
def insertInto (a : α) : List α → List α
  | [] => [a]
  | b :: l => if a < b then a :: b :: l else if a = b then b :: l else b :: insertInto a l

theorem mem_insertInto (a c : α) (l : List α) : c ∈ insertInto a l ↔ c = a ∨ c ∈ l := by
  induction l with
  | nil => simp only [insertInto, List.mem_singleton, List.not_mem_nil, or_false]
  | cons b l ih =>
      -- Three cases, as in the definition: before the head, at it, or behind it.
      unfold insertInto
      by_cases hlt : a < b
      · rw [if_pos hlt, List.mem_cons]
      · rw [if_neg hlt]
        by_cases hab : a = b
        · rw [if_pos hab, List.mem_cons, hab]
          tauto
        · rw [if_neg hab, List.mem_cons, ih, List.mem_cons]
          tauto

theorem sorted_insertInto (a : α) (l : List α) (h : l.Pairwise (· < ·)) :
    (insertInto a l).Pairwise (· < ·) := by
  induction l with
  | nil => exact List.pairwise_singleton _ _
  | cons b l ih =>
      rcases List.pairwise_cons.mp h with ⟨hb, hl⟩
      unfold insertInto
      by_cases hlt : a < b
      · rw [if_pos hlt]
        -- Below the head, it is below everything after it.
        refine List.pairwise_cons.mpr ⟨fun c hc => ?_, h⟩
        rcases List.mem_cons.mp hc with rfl | hcl
        · exact hlt
        · exact lt_trans hlt (hb c hcl)
      · rw [if_neg hlt]
        by_cases hab : a = b
        · rw [if_pos hab]
          exact h
        · -- The element belongs further down, above the head.
          rw [if_neg hab]
          refine List.pairwise_cons.mpr ⟨fun c hc => ?_, ih hl⟩
          rcases (mem_insertInto a c l).mp hc with rfl | hcl
          · exact lt_of_le_of_ne (not_lt.mp hlt) (Ne.symm hab)
          · exact hb c hcl

/-- Add an element. Adding one that is there changes nothing. -/
def insert (a : α) (s : SortedSet α) : SortedSet α :=
  ⟨insertInto a s.toList, sorted_insertInto a s.toList s.sorted⟩

/-- Remove an element. What is left of an increasing list is increasing. -/
def erase (s : SortedSet α) (a : α) : SortedSet α :=
  ⟨s.toList.filter (fun b => b ≠ a), s.sorted.filter _⟩

/-- The set of a list's elements, whatever their order and however often they
    occur. -/
def ofList : List α → SortedSet α
  | [] => empty
  | a :: l => (ofList l).insert a

@[simp] theorem mem_empty (a : α) : ¬ a ∈ (empty : SortedSet α) := List.not_mem_nil

@[simp] theorem mem_insert (a b : α) (s : SortedSet α) : b ∈ s.insert a ↔ b = a ∨ b ∈ s :=
  mem_insertInto a b s.toList

@[simp] theorem mem_erase (a b : α) (s : SortedSet α) : b ∈ s.erase a ↔ b ∈ s ∧ b ≠ a := by
  simp only [mem_def, erase, List.mem_filter, decide_eq_true_eq]

@[simp] theorem mem_ofList (b : α) (l : List α) : b ∈ ofList l ↔ b ∈ l := by
  induction l with
  | nil => simp only [ofList, mem_empty, List.not_mem_nil]
  | cons a l ih => rw [ofList, mem_insert, ih, List.mem_cons]

/-- An element that was not there makes the set larger by one. With the bound on
    the size this is how a set of limited size fills up. -/
theorem size_insert_of_not_mem (s : SortedSet α) {a : α} (h : ¬ a ∈ s) :
    (s.insert a).size = s.size + 1 := by
  have hlength : ∀ l : List α, ¬ a ∈ l → (insertInto a l).length = l.length + 1 := by
    intro l
    induction l with
    | nil => exact fun _ => rfl
    | cons b l ih =>
        intro hmem
        rw [List.mem_cons, not_or] at hmem
        unfold insertInto
        -- A new element is never met on the way, so one of the other branches is
        -- taken.
        split
        · rfl
        · rw [if_neg hmem.1, List.length_cons, ih hmem.2, List.length_cons]
  exact hlength s.toList h

/-- Two elements may be removed in either order: both ways the same elements
    pass the two filters. -/
theorem erase_comm (s : SortedSet α) (a b : α) : (s.erase a).erase b = (s.erase b).erase a := by
  simp only [erase, List.filter_filter, Bool.and_comm]

theorem eq_empty_iff (s : SortedSet α) : s = empty ↔ s.size = 0 := by
  rcases s with ⟨l, hl⟩
  rw [size, List.length_eq_zero_iff, empty, SortedSet.mk.injEq]

theorem size_eq_zero_iff (s : SortedSet α) : s.size = 0 ↔ ∀ a, ¬ a ∈ s := by
  rw [size, List.length_eq_zero_iff, List.eq_nil_iff_forall_not_mem]
  rfl

end SortedSet

end Library
