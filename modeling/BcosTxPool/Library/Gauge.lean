import Mathlib.Order.Basic
import BcosTxPool.Library.History

/-!
# A Gauge and its Display

A component keeps a quantity, the gauge, and shows its value to somebody at
some of its operations. Between two such operations the display stands still,
so it is right exactly as long as nothing moves the gauge without showing it.

`Owed` is that debt: an operation of the moving kind happened, and none of
the showing kind since. A flag that one kind of operation sets and the other
clears is set exactly as long as there is such a debt. `Meter` says what the
two kinds of operation do. If nothing is owed at the end of a run, the display
was brought up to date in it, or neither the display nor the gauge moved. If all
operations move the gauge one way and something is owed, the display is off,
whatever it shows.

## Main definitions

* `Owed`: Something happened and has not been answered since.
* `Meter`: Which operations move a gauge and which show it.

## Theorems

* `owed_concat`: The debt by the last operation.
* `holds_iff_owed`: What holds exactly as long as it is owed.
* `Meter.settled`: Without a debt the display is right or nothing moved.
* `Meter.behind`: With a debt the display is off.
-/

namespace Library

variable {σ ι ν : Type} (step : σ → ι → σ)

/-- Something happened in a run, and nothing has answered it from then on. An
    operation that does both has answered itself. -/
def Owed (M R : σ → ι → Prop) (s : σ) (l : List ι) : Prop :=
  ∃ pre i post, l = pre ++ i :: post ∧ M (run step s pre) i ∧
    Along step (fun t j => ¬ R t j) (run step s pre) (i :: post)

theorem not_owed_nil (M R : σ → ι → Prop) (s : σ) : ¬ Owed step M R s [] := by
  intro h
  rcases h with ⟨pre, i, post, hnil, _⟩
  exact absurd hnil.symm (List.append_ne_nil_of_right_ne_nil pre (List.cons_ne_nil i post))

theorem not_owed_of_forall {M R : σ → ι → Prop} {s : σ} {l : List ι}
    (h : ∀ t, ∀ i ∈ l, ¬ M t i) : ¬ Owed step M R s l := by
  intro howed
  rcases howed with ⟨pre, i, post, rfl, hM, _⟩
  exact h _ i (List.mem_append_right pre List.mem_cons_self) hM

/-- The last operation answers all, or it leaves a debt or adds one. -/
theorem owed_concat (M R : σ → ι → Prop) (s : σ) (l : List ι) (i : ι) :
    Owed step M R s (l ++ [i]) ↔
      ¬ R (run step s l) i ∧ (Owed step M R s l ∨ M (run step s l) i) := by
  constructor
  · intro h
    rcases h with ⟨pre, j, post, hl, hM, hsilent⟩
    -- The debt was made by the last operation or before it.
    rcases concat_eq_append_cons hl with ⟨rfl, rfl, rfl⟩ | ⟨rest, rfl, rfl⟩
    · exact ⟨hsilent.1, Or.inr hM⟩
    · rw [← List.cons_append, along_append, ← run_append] at hsilent
      exact ⟨hsilent.2.1, Or.inl ⟨pre, j, rest, rfl, hM, hsilent.1⟩⟩
  · intro h
    -- The other way round: a debt stands as long as the last operation is silent.
    rcases h with ⟨hlast, ⟨pre, j, post, rfl, hM, hsilent⟩ | hM⟩
    · refine ⟨pre, j, post ++ [i], by rw [List.append_assoc, List.cons_append], hM, ?_⟩
      rw [← List.cons_append, along_append, ← run_append]
      exact ⟨hsilent, hlast, trivial⟩
    · exact ⟨l, i, [], rfl, hM, hlast, trivial⟩

/-- A fact that operations of the one kind bring about and those of the other
    kind end, and that stays as it is otherwise. Where one operation does both,
    the end comes last. Such a fact needs no state to be told by: it holds after
    a run if it is owed, or if it held at first and nothing has ended it. -/
theorem holds_iff_owed {F : σ → Prop} {P : ι → Prop} {M R : σ → ι → Prop}
    (hstep : ∀ s i, P i → (F (step s i) ↔ ¬ R s i ∧ (F s ∨ M s i))) (s : σ) (l : List ι)
    (hP : ∀ i ∈ l, P i) :
    F (run step s l) ↔
      Owed step M R s l ∨ (F s ∧ Along step (fun t i => ¬ R t i) s l) := by
  induction l using List.reverseRecOn with
  | nil =>
      rw [or_iff_right (not_owed_nil step M R s)]
      exact (and_iff_left trivial).symm
  | append_singleton l i ih =>
      have ih := ih (fun j hj => hP j (List.mem_append_left [i] hj))
      have hlast : Along step (fun t i => ¬ R t i) (run step s l) [i] ↔ ¬ R (run step s l) i :=
        and_iff_left trivial
      rw [run_concat, hstep _ i (hP i (List.mem_append_right l List.mem_cons_self)), ih,
        owed_concat, along_append, hlast]
      -- The last operation has not ended the fact, and brought it about or found it.
      tauto

/-- The operations of kind `R` show the gauge and leave it right on the
    display, the others leave the display alone, and only those of kind `M`
    move the gauge without showing it. -/
structure Meter (Inv : σ → Prop) (P : ι → Prop) (gauge : σ → ν) (shown : σ → Option ν)
    (M R : σ → ι → Prop) : Prop where
  inv : ∀ s i, P i → Inv s → Inv (step s i)
  shows : ∀ s i, P i → Inv s → R s i → shown (step s i) = some (gauge (step s i))
  silent : ∀ s i, P i → ¬ R s i → shown (step s i) = shown s
  still : ∀ s i, P i → ¬ R s i → ¬ M s i → gauge (step s i) = gauge s

namespace Meter

variable {step} {Inv : σ → Prop} {P : ι → Prop} {gauge : σ → ν} {shown : σ → Option ν}
  {M R : σ → ι → Prop}

/-- The invariant holds all along a run of such operations, so the other fields
    may be used at each of them. -/
theorem inv_run (h : Meter step Inv P gauge shown M R) {s : σ} {l : List ι} (hP : ∀ i ∈ l, P i)
    (hs : Inv s) : Inv (run step s l) :=
  run_invariant step Inv P h.inv l s hP hs

/-- Without a debt the display is right, or nothing moved at all. -/
theorem settled (h : Meter step Inv P gauge shown M R) {s : σ} (hs : Inv s) (l : List ι)
    (hP : ∀ i ∈ l, P i) (hnone : ¬ Owed step M R s l) :
    shown (run step s l) = some (gauge (run step s l)) ∨
      (shown (run step s l) = shown s ∧ gauge (run step s l) = gauge s) := by
  induction l using List.reverseRecOn with
  | nil => exact Or.inr ⟨rfl, rfl⟩
  | append_singleton l i ih =>
      have hPl : ∀ j ∈ l, P j := fun j hj => hP j (List.mem_append_left [i] hj)
      have hPi : P i := hP i (List.mem_append_right l List.mem_cons_self)
      rw [run_concat]
      by_cases hR : R (run step s l) i
      · exact Or.inl (h.shows _ i hPi (h.inv_run hPl hs) hR)
      · -- The last operation owes nothing and answers nothing, so neither side moves.
        rw [owed_concat, not_and_or, not_or] at hnone
        have hrest := hnone.resolve_left (not_not_intro hR)
        rw [h.silent _ i hPi hR, h.still _ i hPi hR hrest.2]
        exact ih hPl hrest.1

/-- If no operation of a run raises the gauge and the unshown ones lower it, a
    debt leaves the gauge below where it was and below what is shown. -/
theorem behind [Preorder ν] (h : Meter step Inv P gauge shown M R) {s : σ} (hs : Inv s)
    (l : List ι) (hP : ∀ i ∈ l, P i)
    (hdown : ∀ t, ∀ i ∈ l, gauge (step t i) ≤ gauge t)
    (hmove : ∀ t, ∀ i ∈ l, M t i → gauge (step t i) < gauge t)
    (hshown : ∀ v, shown s = some v → gauge s ≤ v) :
    gauge (run step s l) ≤ gauge s ∧
      (∀ v, shown (run step s l) = some v → gauge (run step s l) ≤ v) ∧
      (Owed step M R s l → gauge (run step s l) < gauge s ∧
        ∀ v, shown (run step s l) = some v → gauge (run step s l) < v) := by
  induction l using List.reverseRecOn with
  | nil => exact ⟨le_refl _, hshown, fun howed => absurd howed (not_owed_nil step M R s)⟩
  | append_singleton l i ih =>
      have hleft : ∀ j ∈ l, j ∈ l ++ [i] := fun j hj => List.mem_append_left [i] hj
      have hlast : i ∈ l ++ [i] := List.mem_append_right l List.mem_cons_self
      rcases ih (fun j hj => hP j (hleft j hj)) (fun t j hj => hdown t j (hleft j hj))
        (fun t j hj => hmove t j (hleft j hj)) with ⟨hle, hahead, hoff⟩
      have hstep := hdown (run step s l) i hlast
      rw [run_concat]
      refine ⟨hstep.trans hle, fun v hv => ?_, fun howed => ?_⟩
      · -- A display just brought up to date is right, an older one was ahead
        -- before.
        by_cases hR : R (run step s l) i
        · rw [h.shows _ i (hP i hlast) (h.inv_run (fun j hj => hP j (hleft j hj)) hs) hR,
            Option.some.injEq] at hv
          exact le_of_eq hv
        · rw [h.silent _ i (hP i hlast) hR] at hv
          exact hstep.trans (hahead v hv)
      · rw [owed_concat] at howed
        rcases howed with ⟨hR, hdebt | hM⟩
        · -- The debt is older, and the display has stood still since.
          refine ⟨lt_of_le_of_lt hstep (hoff hdebt).1, fun v hv => ?_⟩
          rw [h.silent _ i (hP i hlast) hR] at hv
          exact lt_of_le_of_lt hstep ((hoff hdebt).2 v hv)
        -- The last operation makes the debt, and lowers the gauge by itself.
        · have hfall := hmove _ i hlast hM
          refine ⟨lt_of_lt_of_le hfall hle, fun v hv => ?_⟩
          rw [h.silent _ i (hP i hlast) hR] at hv
          exact lt_of_lt_of_le hfall (hahead v hv)

end Meter

end Library
