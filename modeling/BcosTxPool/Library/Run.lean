import Mathlib.Data.List.Basic

/-!
# Runs of a Step Function

A component that reacts to one operation at a time is a function
`step : σ → ι → σ`, and a run of it is a fold over the operations it was
given. What one step preserves a whole run preserves, and that induction is
done here once.

`exists_flip` is the rule for properties that a run may lose. If a property
holds before a run and no longer after it, some step of the run lost it, and
the run splits around that step. A statement of the form "between the two
events something of this kind must have happened" is this rule together with
a case analysis of one step.

Which operations a run may contain can depend on the state they meet. `Along`
asks a condition of every operation of a run, in the state where it happens,
and `Reaches` says that some such run leads from one state to another. A large
operation is described well by the small ones it is made of: whatever each of
those preserves, the large one does too. `reaches_foldl` does this for a loop.

## Main definitions

* `run`: The state after a list of operations.
* `Along`: A condition met by every operation of a run where it happens.
* `Reaches`: Some run along which a condition is met leads to a state.

## Theorems

* `run_append`, `run_concat`: A run over two lists is one run after the other.
* `run_invariant`: What every step preserves, every run preserves.
* `run_eq_self`: A run of operations without effect has none.
* `along_invariant`: The same for operations that meet a condition.
* `reaches_foldl`: A loop whose turns are such runs is one.
* `along_length_le`: Operations that each use something up are so many at most.
* `exists_flip`: A property that a run loses is lost in one of its steps.
-/

namespace Library

variable {σ ι : Type} (step : σ → ι → σ)

/-- The state after a list of operations, the first one applied first. -/
def run (s : σ) (l : List ι) : σ := l.foldl step s

@[simp] theorem run_nil (s : σ) : run step s [] = s := rfl

@[simp] theorem run_cons (s : σ) (i : ι) (l : List ι) :
    run step s (i :: l) = run step (step s i) l := rfl

theorem run_append (s : σ) (l r : List ι) :
    run step s (l ++ r) = run step (run step s l) r :=
  List.foldl_append

/-- The last operation of a run acts on what the others have led to. An
    induction that looks back on the run adds operations here. -/
theorem run_concat (s : σ) (l : List ι) (i : ι) :
    run step s (l ++ [i]) = step (run step s l) i := by
  rw [run_append, run_cons, run_nil]

/-- What every step preserves, every run preserves. The operations may be
    restricted by `P`. -/
theorem run_invariant (Inv : σ → Prop) (P : ι → Prop)
    (hstep : ∀ s i, P i → Inv s → Inv (step s i)) (l : List ι) :
    ∀ s, (∀ i ∈ l, P i) → Inv s → Inv (run step s l) := by
  -- Along the operations; the state varies, since the first one changes it.
  induction l with
  | nil => exact fun _ _ hs => hs
  | cons i l ih =>
      intro s hP hs
      exact ih (step s i) (fun j hj => hP j (List.mem_cons_of_mem i hj))
        (hstep s i (hP i List.mem_cons_self) hs)

/-- A run of operations that each leave the state alone leaves it alone. It is
    enough to know this of the one state in question. -/
theorem run_eq_self {s : σ} {l : List ι} (h : ∀ i ∈ l, step s i = s) : run step s l = s := by
  induction l with
  | nil => rfl
  | cons i l ih =>
      rw [run_cons, h i List.mem_cons_self]
      exact ih (fun j hj => h j (List.mem_cons_of_mem i hj))

/-- A condition on a state and the next operation, met all along a run. It is
    the hypothesis of a rule about runs whose operations are not all allowed. -/
def Along (C : σ → ι → Prop) : σ → List ι → Prop
  | _, [] => True
  | s, i :: l => C s i ∧ Along C (step s i) l

theorem along_append (C : σ → ι → Prop) (l r : List ι) :
    ∀ s, Along step C s (l ++ r) ↔ Along step C s l ∧ Along step C (run step s l) r := by
  induction l with
  | nil =>
      intro s
      exact ⟨fun h => ⟨trivial, h⟩, fun h => h.2⟩
  | cons i l ih =>
      intro s
      -- The second part begins where the first has led to.
      rw [List.cons_append, run_cons]
      simp only [Along, ih, and_assoc]

theorem along_mono {C D : σ → ι → Prop} (h : ∀ s i, C s i → D s i) (l : List ι) :
    ∀ s, Along step C s l → Along step D s l := by
  induction l with
  | nil => exact fun _ hl => hl
  | cons i l ih => exact fun s hl => ⟨h s i hl.1, ih (step s i) hl.2⟩

/-- A condition that every operation meets is met along every run. -/
theorem along_of_forall {C : σ → ι → Prop} (h : ∀ s i, C s i) (l : List ι) :
    ∀ s, Along step C s l := by
  induction l with
  | nil => exact fun _ => trivial
  | cons i l ih => exact fun s => ⟨h s i, ih (step s i)⟩

/-- What every operation that meets the condition preserves, every run along
    which it is met preserves. The invariant may be used to show that a step
    keeps it. -/
theorem along_invariant (C : σ → ι → Prop) (Inv : σ → Prop)
    (hstep : ∀ s i, C s i → Inv s → Inv (step s i)) (l : List ι) :
    ∀ s, Along step C s l → Inv s → Inv (run step s l) := by
  induction l with
  | nil => exact fun _ _ hs => hs
  | cons i l ih =>
      intro s hC hs
      exact ih (step s i) hC.2 (hstep s i hC.1 hs)

/-- If every operation that meets the condition uses some of a supply up, a run
    of them is no longer than the supply lasts. -/
theorem along_length_le (C : σ → ι → Prop) (Inv : σ → Prop) (supply : σ → Nat)
    (hstep : ∀ s i, C s i → Inv s → Inv (step s i) ∧ supply (step s i) < supply s) (l : List ι) :
    ∀ s, Along step C s l → Inv s → l.length ≤ supply s := by
  induction l with
  | nil => exact fun s _ _ => Nat.zero_le (supply s)
  | cons i l ih =>
      intro s hC hs
      -- The first operation uses at least one up, the rest what is left after it.
      rcases hstep s i hC.1 hs with ⟨hnext, hless⟩
      have hrest := ih (step s i) hC.2 hnext
      rw [List.length_cons]
      omega

/-- What such a run preserves holds before each of its operations. So the
    invariant may be added to the condition, and a second invariant rest on
    it. -/
theorem along_and_invariant (C : σ → ι → Prop) (Inv : σ → Prop)
    (hstep : ∀ s i, C s i → Inv s → Inv (step s i)) (l : List ι) :
    ∀ s, Along step C s l → Inv s → Along step (fun s i => C s i ∧ Inv s) s l := by
  induction l with
  | nil => exact fun _ _ _ => trivial
  | cons i l ih =>
      intro s hC hs
      exact ⟨⟨hC.1, hs⟩, ih (step s i) hC.2 (hstep s i hC.1 hs)⟩

/-- Some run along which the condition is met leads from one state to the other.
    Which run it is does not matter to what is preserved. -/
def Reaches (C : σ → ι → Prop) (s s' : σ) : Prop :=
  ∃ l, run step s l = s' ∧ Along step C s l

variable {step}

theorem reaches_refl (C : σ → ι → Prop) (s : σ) : Reaches step C s s := ⟨[], rfl, trivial⟩

theorem reaches_single {C : σ → ι → Prop} {s : σ} {i : ι} (h : C s i) :
    Reaches step C s (step s i) :=
  ⟨[i], rfl, h, trivial⟩

theorem Reaches.trans {C : σ → ι → Prop} {s s' s'' : σ} (h : Reaches step C s s')
    (h' : Reaches step C s' s'') : Reaches step C s s'' := by
  rcases h with ⟨l, rfl, hl⟩
  rcases h' with ⟨r, rfl, hr⟩
  -- One run after the other.
  exact ⟨l ++ r, run_append step s l r, (along_append step C l r s).mpr ⟨hl, hr⟩⟩

theorem Reaches.mono {C D : σ → ι → Prop} {s s' : σ} (h : Reaches step C s s')
    (hCD : ∀ s i, C s i → D s i) : Reaches step D s s' := by
  rcases h with ⟨l, hrun, hl⟩
  exact ⟨l, hrun, along_mono step hCD l s hl⟩

theorem Reaches.invariant {C : σ → ι → Prop} {s s' : σ} (h : Reaches step C s s')
    (Inv : σ → Prop) (hstep : ∀ s i, C s i → Inv s → Inv (step s i)) (hs : Inv s) :
    Inv s' := by
  rcases h with ⟨l, rfl, hl⟩
  exact along_invariant step C Inv hstep l s hl hs

theorem Reaches.and_invariant {C : σ → ι → Prop} {s s' : σ} (h : Reaches step C s s')
    (Inv : σ → Prop) (hstep : ∀ s i, C s i → Inv s → Inv (step s i)) (hs : Inv s) :
    Reaches step (fun s i => C s i ∧ Inv s) s s' := by
  rcases h with ⟨l, hrun, hl⟩
  exact ⟨l, hrun, along_and_invariant step C Inv hstep l s hl hs⟩

variable (step)

/-- A loop whose turns are runs along which the condition is met is one. The
    loop may carry more than the state; `get` reads the state off. -/
theorem reaches_foldl {τ β : Type} {C : σ → ι → Prop} (get : τ → σ) (f : τ → β → τ) (l : List β)
    (hturn : ∀ t b, b ∈ l → Reaches step C (get t) (get (f t b))) :
    ∀ t, Reaches step C (get t) (get (l.foldl f t)) := by
  induction l with
  | nil => exact fun t => reaches_refl C (get t)
  | cons b l ih =>
      intro t
      -- The first turn, then the loop over the rest from where the turn has led to.
      exact (hturn t b List.mem_cons_self).trans
        (ih (fun t c hc => hturn t c (List.mem_cons_of_mem b hc)) (f t b))

/-- A property that a run loses is lost in one of its steps. The step found is
    the first of this kind, but only the split of the run is stated. -/
theorem exists_flip (P : σ → Prop) (l : List ι) :
    ∀ s, P s → ¬ P (run step s l) →
      ∃ pre i post, l = pre ++ i :: post ∧ P (run step s pre) ∧ ¬ P (step (run step s pre) i) := by
  induction l with
  | nil => exact fun s hs hn => absurd hs hn
  | cons i l ih =>
      intro s hs hn
      -- Either the first step loses the property, or the rest of the run does.
      by_cases hi : P (step s i)
      · rcases ih (step s i) hi hn with ⟨pre, j, post, hl, hpre, hpost⟩
        exact ⟨i :: pre, j, post, by rw [hl, List.cons_append], hpre, hpost⟩
      · exact ⟨[], i, l, rfl, hs, hi⟩

end Library
