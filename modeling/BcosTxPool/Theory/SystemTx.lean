import BcosTxPool.Theory.Walk

/-!
# System Transactions

Whether the pool knows a system transaction when it holds one. `verify` sets
the flag at its end, so what comes in by the normal path is flagged exactly if
it is addressed to a system contract. An enforced submission skips `verify`,
and what it brings in is never flagged. No later call sets the flag or clears
it, so an entry tells by its flag how it came in.

A seal sorts by the flag. After a proposal was unsealed again, its system
transactions are handed out among the others.

## Main definitions

* `EnforcedSince`: Brought in by an enforced submission, and there since.
* `Flagged`: The flag of every entry, by its address and its way in.
* `FlagsRight`: Every entry is flagged exactly if it is a system transaction.
* `SplitsRight`: Every seal sorts by the address.

## Theorems

* `run_flagged`: Flags after a run.
* `system_flags_iff`: When the flags and the seals are right.
-/

namespace BcosTxPool

open Library

namespace MemoryStorage

variable (cfg : TxPoolConfig)

/-- What no flag but the system flag shows of an entry. Its address is part of
    the content. -/
def systemView (tx : Transaction) : TxData × Bool := (tx.toTxData, tx.systemTx)

theorem fixed_systemView : Fixed systemView where
  change := by
    intro c tx
    -- None of the changes names the flag.
    cases c with
    | _ => rfl
  mark := by
    intro sealFlag tx
    cases sealFlag with
    | true => rfl
    | false => rfl

/-- In a run of calls, an enforced submission brought the transaction in, and it
    has been in the table since. -/
def EnforcedSince (s₀ : MemoryStorage) (pre : List Op) (txHash : HashType) : Prop :=
  Since (step cfg)
    (fun s call => ∃ tx txSubmitCallback, call = .submitTransaction tx txSubmitCallback true ∧
      tx.1.hash = txHash ∧ Admits cfg s tx.1 true)
    (fun s => s.txsTable.find? txHash ≠ none) s₀ pre

/-- An entry is flagged if it is addressed to a system contract and no enforced
    submission brought it in. The past of an entry is told by the run. -/
def Flagged (s₀ : MemoryStorage) (pre : List Op) : Prop :=
  ∀ txHash tx, (run (step cfg) s₀ pre).txsTable.find? txHash = some tx →
    (tx.systemTx = true ↔ TxValidator.isSystemTransaction cfg.framework tx = true ∧
      ¬ EnforcedSince cfg s₀ pre txHash)

theorem isSystemTransaction_congr {tx tx' : Transaction} (h : tx.toTxData = tx'.toTxData) :
    TxValidator.isSystemTransaction cfg.framework tx
      = TxValidator.isSystemTransaction cfg.framework tx' := by
  unfold TxValidator.isSystemTransaction
  rw [congrArg TxData.toAddress h]

/-- What was there before a call, with the same flag, stays flagged as it was, if
    the call does not bring it in. -/
theorem Flagged.kept {s₀ : MemoryStorage} {pre : List Op} (h : Flagged cfg s₀ pre) (call : Op)
    {txHash : HashType} {old tx : Transaction}
    (hold : (run (step cfg) s₀ pre).txsTable.find? txHash = some old)
    (hfind : (run (step cfg) s₀ (pre ++ [call])).txsTable.find? txHash = some tx)
    (hsame : systemView old = systemView tx) :
    (tx.systemTx = true ↔ TxValidator.isSystemTransaction cfg.framework tx = true ∧
      ¬ EnforcedSince cfg s₀ (pre ++ [call]) txHash) := by
  have hflag : old.systemTx = tx.systemTx := congrArg Prod.snd hsame
  -- Flag and address are those of the old entry.
  have hbefore := h txHash old hold
  rw [hflag, isSystemTransaction_congr cfg (congrArg Prod.fst hsame)] at hbefore
  rw [hbefore]
  refine and_congr_right (fun _ => not_congr ?_)
  unfold EnforcedSince
  rw [since_concat]
  constructor
  · exact fun hin => ⟨by rw [hfind]; exact Option.some_ne_none tx, Or.inl hin⟩
  · intro hin
    rcases hin.2 with hin | ⟨tx', callback, _, rfl, hadmits⟩
    · exact hin
    · -- A hash that is taken is not brought in.
      exact absurd (hadmits.free.symm.trans hold) (Option.some_ne_none old).symm

/-- An entry that comes in by the normal path is flagged by its address, and one
    that is enforced is not. -/
theorem entering_systemTx (tx : Transaction) (htx : tx.systemTx = false)
    (txSubmitCallback : Option TxSubmitCallback) (enforceImport : Bool) :
    (entering cfg tx txSubmitCallback enforceImport).systemTx
      = (TxValidator.isSystemTransaction cfg.framework tx && !enforceImport) := by
  -- An enforced entry keeps the flag of the object, a normal one is marked.
  cases enforceImport with
  | true =>
      rw [Bool.not_true, Bool.and_false]
      exact htx
  | false =>
      have hcallback : (withCallback tx txSubmitCallback).systemTx = false := by
        cases txSubmitCallback with
        | none => exact htx
        | some callback => exact htx
      rw [entering, TxValidator.marked, isSystemTransaction_congr cfg
        (withCallback_toTxData tx txSubmitCallback), Bool.not_false, Bool.and_true]
      split
      · rename_i hsystem
        rw [hsystem]
      · rename_i hsystem
        rw [Bool.not_eq_true] at hsystem
        rw [hsystem, hcallback]

/-- One call of a node: it leaves the entries with their flags, brings one in,
    or removes some. -/
theorem step_flagged {op : TxPool.Op} {call : Op} (hcall : TxPool.NodeCall cfg op call)
    (s₀ : MemoryStorage) (pre : List Op) (h : Flagged cfg s₀ pre) :
    Flagged cfg s₀ (pre ++ [call]) := by
  intro txHash tx hfind
  have hafter := hfind
  rw [run_concat] at hafter
  -- Five kinds of calls, by what they do to the entries.
  rcases step_effect cfg fixed_systemView hcall (run (step cfg) s₀ pre) with
    hsame | ⟨u, callback, enforceImport, rfl, _, hadmits, hbrings⟩ |
    ⟨order, txsLimit, avoidTxs, rfl⟩ | rfl | ⟨batchId, txsResult, rfl⟩
  · rcases hsame.before hafter with ⟨old, hold, hview⟩
    exact h.kept cfg call hold hfind hview
  · rw [hbrings.find] at hafter
    split at hafter
    · -- The entry is made now: the normal path looks at the address, the other does not.
      rename_i hnew
      have hflag := entering_systemTx cfg u.1 hcall.2.2.1 callback enforceImport
      have haddress := isSystemTransaction_congr cfg
        (entering_toTxData cfg u.1 callback enforceImport)
      rw [Option.some.inj hafter] at hflag haddress
      rw [hflag, haddress, Bool.and_eq_true, Bool.not_eq_true']
      refine and_congr_right (fun _ => ?_)
      unfold EnforcedSince
      rw [since_concat]
      cases enforceImport with
      | true =>
          refine iff_of_false (fun hc => Bool.false_ne_true hc.symm) (fun hc => hc ⟨?_, Or.inr ?_⟩)
          · rw [hfind]
            exact Option.some_ne_none tx
          · exact ⟨u, callback, rfl, hnew, hadmits⟩
      | false =>
          refine iff_of_true rfl (fun hc => ?_)
          -- An enforced submission since then would have found the hash taken.
          rcases hc.2 with hin | ⟨u', callback', hsub, _⟩
          · rw [← hnew] at hin
            exact absurd hadmits.free hin.now
          · cases hsub
    · exact h.kept cfg _ hafter hfind rfl
  · rcases ((run (step cfg) s₀ pre).batchFetchTxs_sameEntries cfg fixed_systemView order txsLimit
      avoidTxs true).before hafter with ⟨old, hold, hview⟩
    exact h.kept cfg _ hold hfind hview
  · simp only [step] at hafter
    rw [find?_removeInvalidTxs] at hafter
    split at hafter
    · exact absurd hafter.symm (Option.some_ne_none tx)
    · exact h.kept cfg _ hafter hfind rfl
  · simp only [step] at hafter
    rw [find?_batchRemove] at hafter
    split at hafter
    · exact absurd hafter.symm (Option.some_ne_none tx)
    · exact h.kept cfg _ hafter hfind rfl

/-- Every entry is flagged exactly if it is addressed to a system contract. This
    is what the sealer relies on when it takes the two blocks apart. -/
def FlagsRight (s : MemoryStorage) : Prop :=
  ∀ txHash tx, s.txsTable.find? txHash = some tx →
    (tx.systemTx = true ↔ TxValidator.isSystemTransaction cfg.framework tx = true)

/-- The blocks that a walk fills hold entries of the pool, sorted by the flag. -/
theorem fetchLoop_sorts (s : MemoryStorage) (order : HashList) (txsLimit : Nat)
    (avoidTxs : HashList) (avoidDuplicate : Bool) :
    let f := (fetchLoop txsLimit avoidTxs avoidDuplicate order s {}).2
    (∀ m ∈ f.sysTxsList, ∃ tx, s.txsTable.find? m.hash = some tx ∧ tx.systemTx = true) ∧
    ∀ m ∈ f.txsList, ∃ tx, s.txsTable.find? m.hash = some tx ∧ tx.systemTx = false := by
  -- Along the walk: the flags are those of the pool at the start, and what has been
  -- appended is sorted by them.
  let Inv : MemoryStorage × FetchedTxs → Prop := fun acc =>
    SameEntries systemView s acc.1 ∧
    (∀ m ∈ acc.2.sysTxsList, ∃ tx, s.txsTable.find? m.hash = some tx ∧ tx.systemTx = true) ∧
    ∀ m ∈ acc.2.txsList, ∃ tx, s.txsTable.find? m.hash = some tx ∧ tx.systemTx = false
  have hloop : Inv (fetchLoop txsLimit avoidTxs avoidDuplicate order s {}) := by
    refine fetchLoop_invariant Inv ?_ ?_ ?_ ⟨SameEntries.refl _ s,
      fun m hm => absurd hm List.not_mem_nil, fun m hm => absurd hm List.not_mem_nil⟩
    · exact fun s' f txHash tx _ _ hinv =>
        ⟨hinv.1.trans (setAsideOnChain_sameEntries fixed_systemView s' txHash tx), hinv.2⟩
    · exact fun s' f txHash tx _ _ hinv => ⟨⟨hinv.1.entries, hinv.1.txPool, hinv.1.ledger⟩, hinv.2⟩
    · intro s' f txHash tx hvisit _ hinv
      rcases hinv with ⟨hsame, hsys, htxs⟩
      have hkey := ((KeyedTable.find?_eq_some_iff _ txHash tx).mp hvisit.find).2
      rcases hsame.before hvisit.find with ⟨old, hold, hview⟩
      have hflag : old.systemTx = tx.systemTx := congrArg Prod.snd hview
      rw [← hkey] at hold
      refine ⟨hsame.trans (handOut_sameEntries fixed_systemView s' txHash tx), ?_⟩
      unfold FetchedTxs.append
      simp only
      -- The meta data joins the block of the entry's flag.
      split
      · rename_i hsystem
        refine ⟨fun m hm => ?_, htxs⟩
        rcases List.mem_append.mp hm with hm | hm
        · exact hsys m hm
        · rw [List.mem_singleton.mp hm]
          exact ⟨old, hold, hflag.trans hsystem⟩
      · rename_i hsystem
        rw [Bool.not_eq_true] at hsystem
        refine ⟨hsys, fun m hm => ?_⟩
        rcases List.mem_append.mp hm with hm | hm
        · exact htxs m hm
        · rw [List.mem_singleton.mp hm]
          exact ⟨old, hold, hflag.trans hsystem⟩
  exact hloop.2

/-- Every seal, of any limit and with any hashes avoided, puts a transaction among
    the system transactions exactly if it is addressed to a system contract. -/
def SplitsRight (s : MemoryStorage) : Prop :=
  ∀ order txsLimit avoidTxs, let f := (TxPool.asyncSealTxs cfg s order txsLimit avoidTxs).2
    (∀ m ∈ f.sysTxsList, ∃ tx, s.txsTable.find? m.hash = some tx ∧
      TxValidator.isSystemTransaction cfg.framework tx = true) ∧
    ∀ m ∈ f.txsList, ∃ tx, s.txsTable.find? m.hash = some tx ∧
      TxValidator.isSystemTransaction cfg.framework tx = false

/-- Where the flags are right, so are the seals. -/
theorem FlagsRight.splitsRight {s : MemoryStorage} (h : FlagsRight cfg s) : SplitsRight cfg s := by
  intro order txsLimit avoidTxs
  -- A seal sorts by the flag, and the flag says what the address says.
  have hsorts := s.fetchLoop_sorts order txsLimit avoidTxs true
  refine ⟨fun m hm => ?_, fun m hm => ?_⟩
  · rcases hsorts.1 m hm with ⟨tx, hfind, hflag⟩
    exact ⟨tx, hfind, (h m.hash tx hfind).mp hflag⟩
  · rcases hsorts.2 m hm with ⟨tx, hfind, hflag⟩
    refine ⟨tx, hfind, ?_⟩
    rw [← Bool.not_eq_true, ← h m.hash tx hfind, hflag]
    exact Bool.false_ne_true

end MemoryStorage

namespace TxPool

open MemoryStorage

/-- Flags after a run from an empty pool. -/
theorem run_flagged (cfg : TxPoolConfig) (ledger : LedgerNonceChecker) (ops : List Op) :
    Flagged cfg { ledgerNonceChecker := ledger }
      (runCalls cfg { ledgerNonceChecker := ledger } ops) :=
  (runCalls_throughout cfg (fun _ _ => True) (Flagged cfg { ledgerNonceChecker := ledger })
    (fun _ tx hfind => absurd hfind.symm (Option.some_ne_none tx))
    (fun pre _ _ _ hcall _ hpre => step_flagged cfg hcall _ pre hpre)
    (fun _ _ _ _ => trivial)).1

/-- After a run, every entry is flagged by its address, and every seal sorts by
    it, exactly if no pooled system transaction was brought in by an enforced
    submission. -/
theorem system_flags_iff (cfg : TxPoolConfig) (ledger : LedgerNonceChecker) (ops : List Op) :
    let s := run (step cfg) { ledgerNonceChecker := ledger } ops
    (FlagsRight cfg s ∧ SplitsRight cfg s) ↔
      ∀ txHash tx, s.txsTable.find? txHash = some tx →
        TxValidator.isSystemTransaction cfg.framework tx = true →
        ¬ EnforcedSince cfg { ledgerNonceChecker := ledger }
          (runCalls cfg { ledgerNonceChecker := ledger } ops) txHash := by
  intro s
  -- The run lemma says when an entry is flagged; the rest is logic.
  have hflagged := run_flagged cfg ledger ops
  unfold Flagged at hflagged
  rw [← run_eq_run_runCalls] at hflagged
  constructor
  · intro h txHash tx hfind hsystem
    exact ((hflagged txHash tx hfind).mp ((h.1 txHash tx hfind).mpr hsystem)).2
  · intro h
    have hright : FlagsRight cfg s := by
      intro txHash tx hfind
      rw [hflagged txHash tx hfind]
      exact ⟨fun hflag => hflag.1, fun hsystem => ⟨hsystem, h txHash tx hfind hsystem⟩⟩
    exact ⟨hright, hright.splitsRight cfg⟩

/-- A transaction for a system contract comes in for a proposal and is unsealed.
    Sealed again, it is among the other transactions. -/
theorem system_flags_counterexample :
    let data : TxData := { exampleTx 1 7 1 with toAddress := "1000" }
    let s := run (step exampleConfig) examplePool
      [.importDownloadedTxs 1 [data] (exampleBlock [0, 1]), .asyncResetTxPool]
    TxValidator.isSystemTransaction exampleConfig.framework (createTransaction data) = true ∧
    (s.txsTable.find? 1).map (fun tx => (tx.toAddress, tx.systemTx)) = some ("1000", false) ∧
    (asyncSealTxs exampleConfig s [1] 1 []).2 = ⟨[⟨1, "1000", 0⟩], []⟩ := by
  decide

end TxPool

end BcosTxPool
