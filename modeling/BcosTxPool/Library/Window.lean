import Mathlib.Data.Set.Basic
import Mathlib.Tactic.Tauto
import Mathlib.Algebra.Order.Group.Int

/-!
# Sliding Windows over Numbered Blocks

Blocks are numbered by integers and each carries some values; `occ b a` says
that block `b` carries `a`. A cache is meant to hold the values of the last
`L` blocks: that is `InWindow`, the purpose.

A common implementation keeps one flat set. When block `h` arrives its values
are put in, and then the values of block `h - L` are taken out *by value*.
`Held` describes what such a set contains. A value is held at height `h` when
some block `b` up to `h` carries it and no eviction since then has named it,
an eviction at height `b' + L` naming every value of block `b'`. The two
notions part where a value occurs in two blocks at most `L` apart, since the
eviction of the older one takes the value of the younger one along.

`held_succ` says that `Held` moves from one height to the next exactly as the
flat set does, and `held_iff_inWindow` that a value not repeated within `L`
blocks is held exactly while its block is in the window. Over a run of blocks
`held_iff_inWindow_run` says exactly when the flat set stays the window: when
no block evicted in the run shares a value with a block that is then in it.

## Main definitions

* `InWindow`: A value of one of the last `L` blocks.
* `Held`: A value put in and not evicted since.
* `Spaced`: No value occurs in two blocks at most `L` apart.

## Theorems

* `held_congr`, `held_iff_past`: Only blocks up to the height matter.
* `held_succ`: One more block puts its values in and evicts one old block's.
* `held_iff_recent`: Nor do blocks evicted already, while nothing repeats.
* `held_iff_inWindow`: Without near repetitions the flat set is the window.
* `held_iff_inWindow_run`: When it stays the window over a run of blocks.
-/

namespace Library

variable {α : Type}

/-- A value of one of the last `L` blocks up to height `h`. It may be carried by
    several of them. -/
def InWindow (L : Int) (occ : Int → α → Prop) (h : Int) (a : α) : Prop :=
  ∃ b, h - L < b ∧ b ≤ h ∧ occ b a

/-- A value carried by some block `b` up to height `h`, with no eviction of it
    from height `b` to height `h`. -/
def Held (L : Int) (occ : Int → α → Prop) (h : Int) (a : α) : Prop :=
  ∃ b, b ≤ h ∧ occ b a ∧ ∀ b', occ b' a → b ≤ b' + L → h < b' + L

/-- No value occurs in two blocks whose numbers differ by at most `L`. An older
    block that carries it has left the window before the younger one comes. -/
def Spaced (L : Int) (occ : Int → α → Prop) : Prop :=
  ∀ b b' a, occ b a → occ b' a → b < b' → b + L < b'

/-- Only blocks up to the height matter: a later block evicts later still. -/
theorem held_congr {L : Int} (hL : 1 ≤ L) {occ occ' : Int → α → Prop} {h : Int} {a : α}
    (hocc : ∀ b, b ≤ h → (occ b a ↔ occ' b a)) : Held L occ h a ↔ Held L occ' h a := by
  have hmove : ∀ {o o' : Int → α → Prop}, (∀ b, b ≤ h → (o b a ↔ o' b a)) →
      Held L o h a → Held L o' h a := by
    intro o o' ho hheld
    rcases hheld with ⟨b, hb, hob, hnone⟩
    refine ⟨b, hb, (ho b hb).mp hob, fun b' hb' hle => ?_⟩
    -- A block above the height evicts only at a height above that.
    by_cases hlate : b' ≤ h
    · exact hnone b' ((ho b' hlate).mpr hb') hle
    · omega
  exact ⟨hmove hocc, hmove (fun b hb => (hocc b hb).symm)⟩

theorem held_iff_past {L : Int} (hL : 1 ≤ L) (occ : Int → α → Prop) (h : Int) (a : α) :
    Held L occ h a ↔ Held L (fun b a => occ b a ∧ b ≤ h) h a :=
  held_congr hL (fun _ hb => ⟨fun hob => ⟨hob, hb⟩, fun hob => hob.1⟩)

/-- One more block puts its values in and evicts those of the block `L`
    below it. -/
theorem held_succ (L : Int) (occ : Int → α → Prop) (h : Int) (a : α) :
    Held L occ (h + 1) a ↔ (Held L occ h a ∨ occ (h + 1) a) ∧ ¬ occ (h + 1 - L) a := by
  constructor
  · intro hheld
    rcases hheld with ⟨b, hb, hob, hnone⟩
    have hkept : ¬ occ (h + 1 - L) a := by
      intro hc
      have := hnone (h + 1 - L) hc (by omega)
      omega
    refine ⟨?_, hkept⟩
    -- The witness is the new block or was one before.
    by_cases hnew : b = h + 1
    · exact Or.inr (hnew ▸ hob)
    · refine Or.inl ⟨b, by omega, hob, fun b' hb' hle => ?_⟩
      have := hnone b' hb' hle
      omega
  · intro hcase
    rcases hcase with ⟨hold | hnew, hkept⟩
    · rcases hold with ⟨b, hb, hob, hnone⟩
      refine ⟨b, by omega, hob, fun b' hb' hle => ?_⟩
      have hlt := hnone b' hb' hle
      -- The only eviction between the two heights is the one ruled out.
      by_cases heq : b' = h + 1 - L
      · exact absurd (heq ▸ hb') hkept
      · omega
    · refine ⟨h + 1, le_refl _, hnew, fun b' hb' hle => ?_⟩
      by_cases heq : b' = h + 1 - L
      · exact absurd (heq ▸ hb') hkept
      · omega

/-- Blocks evicted by height `n` no longer matter, as long as no two blocks up
    to `n` share a value: what a set that never saw them holds is the same. -/
theorem held_iff_recent {L : Int} (hL : 1 ≤ L) (occ : Int → α → Prop) {n : Int}
    (hdistinct : ∀ b b' a, b ≤ n → b' ≤ n → occ b a → occ b' a → b = b') {h : Int}
    (hnh : n ≤ h) (a : α) :
    Held L occ h a ↔ Held L (fun b a => n - L < b ∧ occ b a) h a := by
  constructor
  · intro hheld
    rcases hheld with ⟨b, hb, hob, hnone⟩
    have hlt := hnone b hob (by omega)
    exact ⟨b, hb, ⟨by omega, hob⟩, fun b' hb' hle => hnone b' hb'.2 hle⟩
  · intro hheld
    rcases hheld with ⟨b, hb, ⟨hrecent, hob⟩, hnone⟩
    refine ⟨b, hb, hob, fun b' hb' hle => ?_⟩
    by_cases hold : n - L < b'
    · exact hnone b' ⟨hold, hb'⟩ hle
    · -- An old block with the value of a block up to `n` is that block.
      by_cases hbn : b ≤ n
      · have := hdistinct b b' a hbn (by omega) hob hb'
        omega
      · omega

/-- Without near repetitions the flat set is the window. -/
theorem held_iff_inWindow {L : Int} (hL : 1 ≤ L) {occ : Int → α → Prop}
    (hs : Spaced L occ) (h : Int) (a : α) : Held L occ h a ↔ InWindow L occ h a := by
  constructor
  · intro hheld
    rcases hheld with ⟨b, hb, hob, hnone⟩
    have := hnone b hob (by omega)
    exact ⟨b, by omega, hb, hob⟩
  · intro hrecent
    rcases hrecent with ⟨b, hlow, hb, hob⟩
    refine ⟨b, hb, hob, fun b' hb' hle => ?_⟩
    -- An occurrence before or after this one is more than a window away.
    rcases lt_trichotomy b' b with hlt | rfl | hgt
    · have := hs b' b a hb' hob hlt
      omega
    · omega
    · have := hs b b' a hob hb' hgt
      omega

/-- As long as nothing has been evicted, the flat set is the window. -/
theorem held_iff_inWindow_of_recent {L : Int} {occ : Int → α → Prop} {h : Int}
    (hrecent : ∀ b a, occ b a → h - L < b) (a : α) : Held L occ h a ↔ InWindow L occ h a := by
  constructor
  · intro hheld
    rcases hheld with ⟨b, hb, hob, _⟩
    exact ⟨b, hrecent b a hob, hb, hob⟩
  · intro hwindow
    rcases hwindow with ⟨b, _, hb, hob⟩
    refine ⟨b, hb, hob, fun b' hb' _ => ?_⟩
    -- Every block is younger than the window is long, so none has evicted.
    have hlate := hrecent b' a hb'
    omega

/-- The window and the new block together are the next window and the block that
    leaves it. -/
theorem inWindow_or_succ {L : Int} (hL : 1 ≤ L) (occ : Int → α → Prop) (h : Int) (a : α) :
    InWindow L occ h a ∨ occ (h + 1) a ↔ InWindow L occ (h + 1) a ∨ occ (h + 1 - L) a := by
  constructor
  · intro hcase
    rcases hcase with ⟨b, hlow, hb, hob⟩ | hnew
    · -- The oldest block of the window is the one that leaves it.
      by_cases heq : b = h + 1 - L
      · exact Or.inr (heq ▸ hob)
      · exact Or.inl ⟨b, by omega, by omega, hob⟩
    · exact Or.inl ⟨h + 1, by omega, le_refl _, hnew⟩
  · intro hcase
    rcases hcase with ⟨b, hlow, hb, hob⟩ | hold
    · by_cases heq : b = h + 1
      · exact Or.inr (heq ▸ hob)
      · exact Or.inl ⟨b, by omega, by omega, hob⟩
    · exact Or.inl ⟨h + 1 - L, by omega, by omega, hold⟩

/-- If the flat set is the window now, it is with one more block exactly if the
    block evicted shares no value with the window it leaves. -/
theorem held_iff_inWindow_succ {L : Int} (hL : 1 ≤ L) (occ : Int → α → Prop) (h : Int)
    (hnow : ∀ a, Held L occ h a ↔ InWindow L occ h a) :
    (∀ a, Held L occ (h + 1) a ↔ InWindow L occ (h + 1) a) ↔
      ∀ a, occ (h + 1 - L) a → ¬ InWindow L occ (h + 1) a := by
  refine forall_congr' (fun a => ?_)
  -- Per value: both sides are now statements about the window at `h`.
  rw [held_succ, hnow a, inWindow_or_succ hL]
  tauto

/-- Over a run of blocks the flat set stays the window exactly if no block
    evicted on the way shares a value with the window it leaves. -/
theorem held_iff_inWindow_run {L : Int} (hL : 1 ≤ L) (occ : Int → α → Prop) (h : Int)
    (hstart : ∀ a, Held L occ h a ↔ InWindow L occ h a) (n : Nat) :
    (∀ m : Nat, m ≤ n → ∀ a, Held L occ (h + m) a ↔ InWindow L occ (h + m) a) ↔
      ∀ m : Nat, 1 ≤ m → m ≤ n → ∀ a, occ (h + m - L) a → ¬ InWindow L occ (h + m) a := by
  -- On the number of blocks; the height at which the run begins is fixed.
  induction n with
  | zero =>
      refine iff_of_true (fun m hm => ?_) (fun m hpos hm => absurd hpos (by omega))
      have hzero : h + (m : Int) = h := by omega
      rw [hzero]
      exact hstart
  | succ n ih =>
      have hcast : h + ((n + 1 : Nat) : Int) = h + n + 1 := by omega
      constructor
      · intro hall m hpos hm
        -- Only the last height is new; the others are the hypothesis.
        by_cases hlast : m = n + 1
        · rw [hlast, hcast]
          refine (held_iff_inWindow_succ hL occ (h + n) (hall n (by omega))).mp ?_
          rw [← hcast]
          exact hall (n + 1) (le_refl _)
        · exact ih.mp (fun k hk => hall k (by omega)) m hpos (by omega)
      · intro hall m hm
        have hbefore := ih.mpr (fun k hpos hk => hall k hpos (by omega))
        by_cases hlast : m = n + 1
        · rw [hlast, hcast]
          refine (held_iff_inWindow_succ hL occ (h + n) (hbefore n (le_refl _))).mpr ?_
          rw [← hcast]
          exact hall (n + 1) (by omega) (le_refl _)
        · exact hbefore m (by omega)

end Library
