import Mathlib.Data.List.Nodup
import Mathlib.Data.Option.Basic

/-!
# Keyed Tables

A table whose values carry their own key. A hash map filled only through
`table[key(value)] = value` is of this kind: what is stored under a key is a
value with that key, and no two stored values share one. Both facts are the
structure's business here, so a table that breaks them cannot be built and no
later proof has to carry them.

The operations are the ones an imperative map offers: look a key up, insert a
value whose key is free, erase a key, and change the value under a key in
place. Changing a value must not change its key, which is what `modify` asks
of its argument; the obligation is discharged by `rfl` wherever the change
leaves the key field alone.

Every operation is described by what it does to a lookup, and `countP` by
what it does to the number of stored values with a property. A separately
kept counter is checked against the latter.

## Main definitions

* `KeyedTable`: A list of values with pairwise distinct keys.
* `find?`: The value under a key.
* `insert`: Adding a value, unless its key is taken.
* `erase`: Removing the value under a key.
* `modify`: Changing the value under a key in place.
* `modifyAll`: Changing every value in place.
* `countP`, `countWithout`: The number of values with a property, and of those under
  other keys than given.
* `put`: Adding a value, over the one under its key.

## Theorems

* `find?_insert`, `find?_erase`, `find?_modify`, `find?_modifyAll`: What a
  lookup sees after each operation.
* `find?_foldl_erase`, `size_foldl_erase`: What a lookup sees after several keys were
  erased, and how many values are left.
* `key_of_find?`: What is found under a key has that key.
* `countP_insert`, `countP_erase`, `countP_modify`: How each operation moves
  a count.
* `modify_congr`, `modify_modify`: When two changes agree, and two changes as
  one.
* `countP_not`: The values without a property are the rest of the table.
* `find?_put`, `size_le_put`, `size_put_le`: A value put over another.
* `contains_perm`, `put_perm`, `put_put_perm`: Tables that differ in the order of their
  values.
-/

namespace Library

/-- A list of values with pairwise distinct keys. The order is that of
    insertion; no lemma below depends on it, so it may stand for any order of a
    hash map. -/
structure KeyedTable {K V : Type} (key : V → K) where
  /-- The stored values, in the order a traversal meets them. -/
  entries : List V
  nodup : (entries.map key).Nodup

namespace KeyedTable

variable {K V : Type} {key : V → K}

/-- The table without a value. Every lookup in it fails. -/
def empty : KeyedTable key := ⟨[], List.nodup_nil⟩

/-- The number of stored values, which is also the number of keys taken. -/
def size (t : KeyedTable key) : Nat := t.entries.length

/-- The number of stored values with a property. This is what a counter kept
    beside the table should show. -/
def countP (p : V → Bool) (t : KeyedTable key) : Nat := t.entries.countP p

/-- Change every value in place. The keys stay, so they stay distinct. -/
def modifyAll (t : KeyedTable key) (f : V → V) (hf : ∀ v, key (f v) = key v := by intro _; rfl) :
    KeyedTable key :=
  ⟨t.entries.map f, by
    have hkeys : (t.entries.map f).map key = t.entries.map key := by
      rw [List.map_map]
      exact List.map_congr_left (fun v _ => hf v)
    rw [hkeys]
    exact t.nodup⟩

theorem size_eq_countP (t : KeyedTable key) : t.size = t.countP (fun _ => true) := by
  simp only [size, countP, List.countP_true]

theorem countP_le_size (t : KeyedTable key) (p : V → Bool) : t.countP p ≤ t.size :=
  List.countP_le_length

/-- The values without a property are the rest of the table. -/
theorem countP_not (t : KeyedTable key) (p : V → Bool) :
    t.countP (fun v => !p v) = t.size - t.countP p := by
  -- The list lemma counts the negation as a proposition, the table as a Boolean.
  have hsplit := List.length_eq_countP_add_countP p (l := t.entries)
  have hneg : t.entries.countP (fun a => decide ¬p a = true) = t.entries.countP (fun v => !p v) :=
    List.countP_congr (fun v _ => by simp only [decide_not, Bool.decide_eq_true])
  rw [hneg] at hsplit
  simp only [countP, size]
  omega

theorem size_modifyAll (t : KeyedTable key) (f : V → V) (hf : ∀ v, key (f v) = key v) :
    (t.modifyAll f hf).size = t.size :=
  List.length_map f

/-- When a change gives every value one answer to `p`, the count is all or
    nothing. -/
theorem countP_modifyAll_const (t : KeyedTable key) (f : V → V) (hf : ∀ v, key (f v) = key v)
    (p : V → Bool) (b : Bool) (h : ∀ v, p (f v) = b) :
    (t.modifyAll f hf).countP p = if b then t.size else 0 := by
  have hcongr : t.entries.countP (p ∘ f) = t.entries.countP (fun _ => b) :=
    List.countP_congr (fun v _ => by rw [Function.comp_apply, h v])
  simp only [countP, modifyAll, List.countP_map, hcongr, size]
  -- Either every value has the property afterwards or none has.
  cases b with
  | true => simp only [List.countP_true, if_true]
  | false => simp only [List.countP_false, Function.const_apply, Bool.false_eq_true, if_false]

variable [DecidableEq K]

/-- The value under a key. There is at most one, and every operation is
    described by what it does to this. -/
def find? (t : KeyedTable key) (k : K) : Option V := t.entries.find? (fun v => key v = k)

/-- Whether a key is taken, for the places where the value does not matter. -/
def contains (t : KeyedTable key) (k : K) : Bool := (t.find? k).isSome

/-- Remove the value under a key. Under a free key there is nothing to
    remove. -/
def erase (t : KeyedTable key) (k : K) : KeyedTable key :=
  ⟨t.entries.filter (fun v => key v ≠ k), t.nodup.sublist (List.filter_sublist.map key)⟩

/-- Change the value under a key in place. It is `modifyAll` with a change that
    leaves all other values alone, which spares a proof about the keys. -/
def modify (t : KeyedTable key) (k : K) (f : V → V)
    (hf : ∀ v, key (f v) = key v := by intro _; rfl) : KeyedTable key :=
  t.modifyAll (fun v => if key v = k then f v else v) (fun v => by
    by_cases hv : key v = k
    · rw [if_pos hv, hf v]
    · rw [if_neg hv])

theorem find?_eq_none (t : KeyedTable key) (k : K) :
    t.find? k = none ↔ ∀ v ∈ t.entries, key v ≠ k := by
  simp only [find?, List.find?_eq_none, decide_eq_true_eq, ne_eq]

theorem nodup_append_of_find?_none (t : KeyedTable key) (v : V) (h : t.find? (key v) = none) :
    ((t.entries ++ [v]).map key).Nodup := by
  rw [List.map_append, List.nodup_append]
  refine ⟨t.nodup, by simp only [List.map_cons, List.map_nil, List.nodup_singleton], ?_⟩
  intro a ha b hb
  -- A key met before belongs to a stored value, and a free key to none.
  rcases List.mem_map.mp ha with ⟨w, hw, rfl⟩
  simp only [List.map_cons, List.map_nil, List.mem_singleton] at hb
  rw [hb]
  exact (t.find?_eq_none (key v)).mp h w hw

/-- Add a value, unless its key is taken. A taken key keeps its value, as with
    the insertion of a map that does not overwrite. -/
def insert (t : KeyedTable key) (v : V) : KeyedTable key :=
  if h : t.find? (key v) = none then
    ⟨t.entries ++ [v], t.nodup_append_of_find?_none v h⟩
  else t

/-! ### Lookups -/

theorem contains_iff (t : KeyedTable key) (k : K) :
    t.contains k = true ↔ ∃ v, t.find? k = some v := by
  rw [contains, Option.isSome_iff_exists]

theorem contains_eq_false_iff (t : KeyedTable key) (k : K) :
    t.contains k = false ↔ t.find? k = none := by
  rw [contains, Option.isSome_eq_false_iff, Option.isNone_iff_eq_none]

/-- What is found under a key has that key. The key need not be stored apart
    from the value. -/
theorem key_of_find? {t : KeyedTable key} {k : K} {v : V} (h : t.find? k = some v) :
    key v = k := by
  simpa only [decide_eq_true_eq] using List.find?_some h

theorem mem_of_find? {t : KeyedTable key} {k : K} {v : V} (h : t.find? k = some v) :
    v ∈ t.entries :=
  List.mem_of_find?_eq_some h

theorem find?_eq_some_iff (t : KeyedTable key) (k : K) (v : V) :
    t.find? k = some v ↔ v ∈ t.entries ∧ key v = k := by
  constructor
  · intro h
    exact ⟨mem_of_find? h, key_of_find? h⟩
  · intro hcond
    rcases hcond with ⟨hv, hk⟩
    cases hfind : t.find? k with
    | none => exact absurd hk ((t.find?_eq_none k).mp hfind v hv)
    | some w =>
        -- No two entries share a key.
        have hw : w = v := List.inj_on_of_nodup_map t.nodup (mem_of_find? hfind) hv
          ((key_of_find? hfind).trans hk.symm)
        rw [hw]

/-- A fresh value is found under its key after an insertion, and every other
    key is looked up as before. -/
theorem find?_insert (t : KeyedTable key) (v : V) (k : K) (h : t.find? (key v) = none) :
    (t.insert v).find? k = if key v = k then some v else t.find? k := by
  rw [insert, dif_pos h]
  simp only [find?, List.find?_append]
  -- The new value stands at the end, so it is found where nothing was before.
  by_cases hk : key v = k
  · have hnone : t.entries.find? (fun w => key w = k) = none := by rw [← hk]; exact h
    simp only [hnone, hk, List.find?_cons, decide_true, Option.none_or, if_true]
  · simp only [hk, List.find?_cons, decide_false, List.find?_nil, Option.or_none, if_false]

theorem insert_of_find?_some (t : KeyedTable key) {v w : V} (h : t.find? (key v) = some w) :
    t.insert v = t := by
  rw [insert, dif_neg (by rw [h]; exact Option.some_ne_none w)]

theorem find?_erase (t : KeyedTable key) (k k' : K) :
    (t.erase k).find? k' = if k = k' then none else t.find? k' := by
  by_cases hk : k = k'
  · rw [if_pos hk, find?_eq_none]
    intro v hv
    simp only [erase, List.mem_filter, decide_eq_true_eq] at hv
    rw [← hk]
    exact hv.2
  · rw [if_neg hk]
    -- An entry under `k'` survives a filter that drops only `k`.
    cases hfind : t.find? k' with
    | none =>
        rw [find?_eq_none] at hfind ⊢
        intro v hv
        exact hfind v (List.mem_of_mem_filter hv)
    | some w =>
        rw [find?_eq_some_iff] at hfind ⊢
        refine ⟨List.mem_filter.mpr ⟨hfind.1, ?_⟩, hfind.2⟩
        simp only [decide_eq_true_eq, hfind.2]
        exact fun hc => hk hc.symm

/-- There is nothing to erase under a free key. -/
theorem erase_of_find?_none (t : KeyedTable key) {k : K} (h : t.find? k = none) :
    t.erase k = t := by
  have hfilter : t.entries.filter (fun v => decide (key v ≠ k)) = t.entries :=
    List.filter_eq_self.mpr (fun v hv => decide_eq_true ((t.find?_eq_none k).mp h v hv))
  rw [erase]
  congr 1

/-- Erasing several keys leaves what is under the others. -/
theorem find?_foldl_erase (ks : List K) (k' : K) :
    ∀ t : KeyedTable key, (ks.foldl erase t).find? k' = if k' ∈ ks then none else t.find? k' := by
  induction ks with
  | nil => exact fun _ => rfl
  | cons k ks ih =>
      intro t
      rw [List.foldl_cons, ih, find?_erase]
      -- The key is among the rest, or it is the first, or it is neither.
      by_cases hks : k' ∈ ks
      · rw [if_pos hks, if_pos (List.mem_cons_of_mem k hks)]
      · rw [if_neg hks]
        by_cases hk : k = k'
        · rw [if_pos hk, if_pos (List.mem_cons.mpr (Or.inl hk.symm))]
        · rw [if_neg hk, if_neg]
          exact fun hc => (List.mem_cons.mp hc).elim (fun h => hk h.symm) hks

/-- The number of stored values whose key is none of the given ones. -/
def countWithout (t : KeyedTable key) (ks : List K) : Nat :=
  t.countP (fun v => decide (key v ∉ ks))

/-- Erasing several keys leaves the values under no such key. So the size
    afterwards can be told from the table before, without regard to the order or
    to keys that occur twice. -/
theorem size_foldl_erase (ks : List K) :
    ∀ t : KeyedTable key, (ks.foldl erase t).size = t.countWithout ks := by
  induction ks with
  | nil =>
      intro t
      rw [List.foldl_nil, size_eq_countP, countWithout]
      exact List.countP_congr (fun v _ => by simp only [List.not_mem_nil, not_false_eq_true,
        decide_true])
  | cons k ks ih =>
      intro t
      rw [List.foldl_cons, ih]
      -- The first key takes out what is under it, and the others are counted in the rest.
      unfold countWithout countP erase
      rw [List.countP_filter]
      refine List.countP_congr (fun v _ => ?_)
      simp only [Bool.and_eq_true, decide_eq_true_eq, List.mem_cons, not_or]
      exact and_comm

theorem find?_modifyAll (t : KeyedTable key) (f : V → V) (hf : ∀ v, key (f v) = key v) (k : K) :
    (t.modifyAll f hf).find? k = (t.find? k).map f := by
  -- What is found is an entry with the key, and the change keeps both.
  cases hfind : t.find? k with
  | none =>
      rw [find?_eq_none] at hfind
      rw [Option.map_none, find?_eq_none]
      intro v hv
      rcases List.mem_map.mp hv with ⟨w, hw, rfl⟩
      rw [hf w]
      exact hfind w hw
  | some w =>
      rw [find?_eq_some_iff] at hfind
      rw [Option.map_some, find?_eq_some_iff]
      exact ⟨List.mem_map.mpr ⟨w, hfind.1, rfl⟩, (hf w).trans hfind.2⟩

/-- Changing the value under `k` is seen under `k` and nowhere else. -/
theorem find?_modify (t : KeyedTable key) (k : K) (f : V → V) (hf : ∀ v, key (f v) = key v)
    (k' : K) :
    (t.modify k f hf).find? k' = if k = k' then (t.find? k').map f else t.find? k' := by
  rw [modify, find?_modifyAll]
  cases hfind : t.find? k' with
  | none => simp only [Option.map_none, ite_self]
  | some w =>
      -- The change asks for the key of the value it meets, and that is the one
      -- looked up.
      have hw : key w = k' := key_of_find? hfind
      rw [Option.map_some, Option.map_some, hw]
      by_cases hk : k = k'
      · rw [if_pos hk, if_pos hk.symm]
      · rw [if_neg hk, if_neg (fun hc => hk hc.symm)]

theorem size_modify (t : KeyedTable key) (k : K) (f : V → V) (hf : ∀ v, key (f v) = key v) :
    (t.modify k f hf).size = t.size :=
  t.size_modifyAll _ _

/-- There is nothing to change under a free key. -/
theorem modify_of_find?_none (t : KeyedTable key) {k : K} (f : V → V)
    (hf : ∀ v, key (f v) = key v) (h : t.find? k = none) : t.modify k f hf = t := by
  have hmap : t.entries.map (fun v => if key v = k then f v else v) = t.entries := by
    -- No value has the key, so the change is the identity on each of them.
    conv_rhs => rw [← List.map_id t.entries]
    exact List.map_congr_left (fun v hv => if_neg ((t.find?_eq_none k).mp h v hv))
  rw [modify, modifyAll]
  congr 1

/-- A change that leaves the value under the key as it is changes nothing. -/
theorem modify_eq_self {t : KeyedTable key} {k : K} {v : V} (h : t.find? k = some v) (f : V → V)
    (hf : ∀ w, key (f w) = key w) (hv : f v = v) : t.modify k f hf = t := by
  have hmap : t.entries.map (fun w => if key w = k then f w else w) = t.entries := by
    conv_rhs => rw [← List.map_id t.entries]
    refine List.map_congr_left (fun w hw => ?_)
    -- The value under the key is the only one with that key.
    by_cases hk : key w = k
    · rw [if_pos hk]
      have hfind := (t.find?_eq_some_iff k w).mpr ⟨hw, hk⟩
      rw [h, Option.some.injEq] at hfind
      rw [← hfind, hv]
      rfl
    · rw [if_neg hk]
      rfl
  rw [modify, modifyAll]
  congr 1

/-- A change is what it does to the value under its key. What the two changes
    would do to other values does not matter. -/
theorem modify_congr (t : KeyedTable key) {k : K} {f g : V → V} (hf : ∀ v, key (f v) = key v)
    (hg : ∀ v, key (g v) = key v) (h : ∀ v, t.find? k = some v → f v = g v) :
    t.modify k f hf = t.modify k g hg := by
  have hmap : t.entries.map (fun v => if key v = k then f v else v)
      = t.entries.map (fun v => if key v = k then g v else v) := by
    refine List.map_congr_left (fun v hv => ?_)
    -- Off the key neither change does anything.
    by_cases hk : key v = k
    · rw [if_pos hk, if_pos hk]
      exact h v ((t.find?_eq_some_iff k v).mpr ⟨hv, hk⟩)
    · rw [if_neg hk, if_neg hk]
  rw [modify, modify, modifyAll, modifyAll]
  congr 1

/-- Two changes under one key are one. A loop that changes a value twice, or a
    change that is split over two calls, comes down to this. -/
theorem modify_modify (t : KeyedTable key) (k : K) (f g : V → V) (hf : ∀ v, key (f v) = key v)
    (hg : ∀ v, key (g v) = key v) :
    (t.modify k f hf).modify k g hg
      = t.modify k (fun v => g (f v)) (fun v => (hg (f v)).trans (hf v)) := by
  have hmap : (t.entries.map (fun v => if key v = k then f v else v)).map
      (fun v => if key v = k then g v else v)
      = t.entries.map (fun v => if key v = k then g (f v) else v) := by
    rw [List.map_map]
    refine List.map_congr_left (fun v _ => ?_)
    -- The first change keeps the key, so the second one meets it too.
    by_cases hk : key v = k
    · simp only [Function.comp_apply, hk, if_true, hf]
    · simp only [Function.comp_apply, hk, if_false]
  simp only [modify, modifyAll]
  congr 1

/-! ### Counts -/

theorem countP_insert (t : KeyedTable key) (p : V → Bool) (v : V) (h : t.find? (key v) = none) :
    (t.insert v).countP p = t.countP p + (if p v then 1 else 0) := by
  rw [insert, dif_pos h]
  simp only [countP, List.countP_append, List.countP_singleton]

/-- A value found under a key splits the table around that key. -/
theorem entries_split {t : KeyedTable key} {k : K} {v : V} (h : t.find? k = some v) :
    ∃ l r, t.entries = l ++ v :: r ∧ (∀ w ∈ l, key w ≠ k) ∧ (∀ w ∈ r, key w ≠ k) := by
  rcases List.append_of_mem (mem_of_find? h) with ⟨l, r, hlr⟩
  have hkv := key_of_find? h
  have hnd := t.nodup
  rw [hlr, List.map_append, List.map_cons, List.nodup_append] at hnd
  -- The keys of the parts are distinct from the key in the middle.
  refine ⟨l, r, hlr, ?_, ?_⟩
  · intro w hw hk
    exact hnd.2.2 (key w) (List.mem_map_of_mem hw) (key v) List.mem_cons_self (hk.trans hkv.symm)
  · intro w hw hk
    refine (List.nodup_cons.mp hnd.2.1).1 ?_
    rw [hkv, ← hk]
    exact List.mem_map_of_mem hw

theorem countP_erase {t : KeyedTable key} {k : K} {v : V} (h : t.find? k = some v)
    (p : V → Bool) : (t.erase k).countP p + (if p v then 1 else 0) = t.countP p := by
  -- The value under the key stands alone between two parts that lack the key.
  rcases entries_split h with ⟨l, r, hlr, hl, hr⟩
  have hfl : l.filter (fun w => decide (key w ≠ k)) = l :=
    List.filter_eq_self.mpr (fun w hw => decide_eq_true (hl w hw))
  have hfr : r.filter (fun w => decide (key w ≠ k)) = r :=
    List.filter_eq_self.mpr (fun w hw => decide_eq_true (hr w hw))
  -- The filter drops the value in the middle and nothing on either side of it.
  have hdrop : decide (key v ≠ k) = false := by
    simp only [key_of_find? h, ne_eq, not_true_eq_false, decide_false]
  have hent : (t.erase k).entries = l ++ r := by
    simp only [erase, hlr, List.filter_append, List.filter_cons, hdrop, hfl, hfr,
      Bool.false_eq_true, if_false]
  simp only [countP, hent, hlr, List.countP_append, List.countP_cons]
  omega

theorem countP_modify {t : KeyedTable key} {k : K} {v : V} (h : t.find? k = some v)
    (f : V → V) (hf : ∀ w, key (f w) = key w) (p : V → Bool) :
    (t.modify k f hf).countP p + (if p v then 1 else 0)
      = t.countP p + (if p (f v) then 1 else 0) := by
  rcases entries_split h with ⟨l, r, hlr, hl, hr⟩
  -- The change reaches the value in the middle and neither side of it.
  have hml : l.map (fun w => if key w = k then f w else w) = l := by
    conv_rhs => rw [← List.map_id l]
    exact List.map_congr_left (fun w hw => if_neg (hl w hw))
  have hmr : r.map (fun w => if key w = k then f w else w) = r := by
    conv_rhs => rw [← List.map_id r]
    exact List.map_congr_left (fun w hw => if_neg (hr w hw))
  have hent : (t.modify k f hf).entries = l ++ f v :: r := by
    simp only [modify, modifyAll, hlr, List.map_append, List.map_cons, hml, hmr,
      key_of_find? h, if_true]
  simp only [countP, hent, hlr, List.countP_append, List.countP_cons]
  omega

theorem size_insert (t : KeyedTable key) (v : V) (h : t.find? (key v) = none) :
    (t.insert v).size = t.size + 1 := by
  rw [size_eq_countP, size_eq_countP]
  exact t.countP_insert (fun _ => true) v h

/-! ### Putting a value over another -/

/-- Add a value in the place of the one under its key, if there is one. A write
    `table[key] = value` that asks for nothing first does this. -/
def put (t : KeyedTable key) (v : V) : KeyedTable key := (t.erase (key v)).insert v

theorem entries_put (t : KeyedTable key) (v : V) :
    (t.put v).entries = t.entries.filter (fun w => key w ≠ key v) ++ [v] := by
  have hfree : (t.erase (key v)).find? (key v) = none := by
    rw [find?_erase, if_pos rfl]
  -- After the removal the key is free, so the insertion takes place.
  rw [put, insert, dif_pos hfree]
  rfl

/-- Under a free key a value is put as it is inserted. Where a lookup was made
    before, the two ways to write agree. -/
theorem put_of_find?_none (t : KeyedTable key) {v : V} (h : t.find? (key v) = none) :
    t.put v = t.insert v := by
  rw [put, t.erase_of_find?_none h]

theorem find?_put (t : KeyedTable key) (v : V) (k : K) :
    (t.put v).find? k = if key v = k then some v else t.find? k := by
  have hfree : (t.erase (key v)).find? (key v) = none := by
    rw [find?_erase, if_pos rfl]
  rw [put, find?_insert _ v k hfree, find?_erase]
  by_cases hk : key v = k
  · rw [if_pos hk, if_pos hk]
  · rw [if_neg hk, if_neg hk, if_neg hk]

theorem size_le_put (t : KeyedTable key) (v : V) : t.size ≤ (t.put v).size := by
  -- A free key makes the table larger, a taken one leaves its size.
  cases hfind : t.find? (key v) with
  | none =>
      rw [t.put_of_find?_none hfind, t.size_insert v hfind]
      exact Nat.le_succ _
  | some w =>
      have herase := countP_erase hfind (fun _ => true)
      rw [← size_eq_countP, ← size_eq_countP, if_pos rfl] at herase
      refine Nat.le_of_eq ?_
      rw [put, size_insert _ v (by rw [find?_erase, if_pos rfl]), herase]

theorem size_put_le (t : KeyedTable key) (v : V) : (t.put v).size ≤ t.size + 1 := by
  have hlength := List.length_filter_le (fun w => decide (key w ≠ key v)) t.entries
  rw [size, entries_put, List.length_append, List.length_singleton]
  exact Nat.succ_le_succ hlength

/-! ### Up to order -/

/-- A lookup does not see the order of the values, since at most one of them has
    the key. -/
theorem find?_perm {t u : KeyedTable key} (h : t.entries.Perm u.entries) (k : K) :
    t.find? k = u.find? k :=
  Option.ext (fun v => by rw [find?_eq_some_iff, find?_eq_some_iff, h.mem_iff])

theorem contains_perm {t u : KeyedTable key} (h : t.entries.Perm u.entries) (k : K) :
    t.contains k = u.contains k := by
  rw [contains, contains, find?_perm h k]

theorem put_perm {t u : KeyedTable key} (h : t.entries.Perm u.entries) (v : V) :
    (t.put v).entries.Perm (u.put v).entries := by
  rw [entries_put, entries_put]
  exact (h.filter _).append_right [v]

/-- Values with different keys may be put in either order. The tables differ in
    the order of the two alone, and no lookup sees that. -/
theorem put_put_perm (t : KeyedTable key) {v w : V} (hne : key v ≠ key w) :
    ((t.put v).put w).entries.Perm ((t.put w).put v).entries := by
  -- Each of the two passes the filter that takes out the other's key.
  have hv : List.filter (fun u => decide (key u ≠ key w)) [v] = [v] :=
    List.filter_cons_of_pos (decide_eq_true hne)
  have hw : List.filter (fun u => decide (key u ≠ key v)) [w] = [w] :=
    List.filter_cons_of_pos (decide_eq_true (Ne.symm hne))
  rw [entries_put, entries_put, entries_put, entries_put, List.filter_append, List.filter_append,
    hv, hw, List.append_assoc, List.append_assoc, List.filter_filter, List.filter_filter]
  simp only [Bool.and_comm]
  exact (List.Perm.swap w v []).append_left _

end KeyedTable

end Library
