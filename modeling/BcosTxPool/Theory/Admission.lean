import BcosTxPool.Theory.Node

/-!
# Admission

Where the entries of the table come from. A transaction enters from a client,
from a gossiped list or a list without a proposal, or from an import for a
proposal. The first three routes run every check. The last one checks the
signature and the ledger checker only: the proposal was agreed on elsewhere,
and its group and chain are taken on trust.

So every entry has a signature that verifies, and every entry has the group
and chain of the pool unless an import for a proposal brought it in. The run
lemma names that import: the hash was free when it ran and has been taken
since.

## Main definitions

* `BroughtIn`: An import of a run that brought a content in.

## Theorems

* `step_origin`: An entry after an operation was there before, passed every
  check, or came for a proposal.
* `admission`: The same over runs from an empty pool.
* `admission_counterexample`: A run that admits a transaction of another group.
-/

namespace BcosTxPool

open Library

namespace TxPool

variable (cfg : TxPoolConfig)

/-- In a run from `s`, an import for a proposal brought the content in, and it
    has been in the pool since. -/
def BroughtIn (s : MemoryStorage) (ops : List Op) (data : TxData) : Prop :=
  ∃ pre op post header, ops = pre ++ op :: post ∧ ImportsFor op header data ∧
    (run (step cfg) s pre).txsTable.find? data.hash = none ∧
    ∀ since, since <+: post →
      (run (step cfg) s (pre ++ op :: since)).txsTable.find? data.hash ≠ none

/-- What an import brought in stays so while the pool holds it, and a run that
    goes on only adds to what comes after the import. -/
theorem BroughtIn.append {s : MemoryStorage} {ops : List Op} {data : TxData}
    (h : BroughtIn cfg s ops data) (next : Op)
    (hstays : (run (step cfg) s (ops ++ [next])).txsTable.find? data.hash ≠ none) :
    BroughtIn cfg s (ops ++ [next]) data := by
  rcases h with ⟨pre, op, post, header, rfl, himports, hbefore, hsince⟩
  have hassoc : pre ++ op :: post ++ [next] = pre ++ op :: (post ++ [next]) := by
    rw [List.append_assoc, List.cons_append]
  refine ⟨pre, op, post ++ [next], header, hassoc, himports, hbefore, fun since hprefix => ?_⟩
  -- A run after the import is the whole one, or it is one of those before the last
  -- step.
  rcases List.prefix_concat_iff.mp hprefix with rfl | hprefix
  · rw [← hassoc]
    exact hstays
  · exact hsince since hprefix

/-- An entry after an operation has the content of an entry before it, or it is
    new and passed every check, or it is new and came for a proposal with a
    signature that verifies. -/
theorem step_origin (s : MemoryStorage) (op : Op) {txHash : HashType} {tx : Transaction}
    (hfind : (step cfg s op).txsTable.find? txHash = some tx) :
    (∃ old, s.txsTable.find? txHash = some old ∧ old.toTxData = tx.toTxData) ∨
    (s.txsTable.find? txHash = none ∧ (Admitted cfg tx.toTxData ∨
      (cfg.framework.verify tx.toTxData = true ∧ ∃ header, ImportsFor op header tx.toTxData))) := by
  let P : Transaction → Prop := fun tx =>
    (∃ old, s.txsTable.find? txHash = some old ∧ old.toTxData = tx.toTxData) ∨
    (s.txsTable.find? txHash = none ∧ (Admitted cfg tx.toTxData ∨
      (cfg.framework.verify tx.toTxData = true ∧ ∃ header, ImportsFor op header tx.toTxData)))
  have hcongr : ∀ u v : Transaction, u.toTxData = v.toTxData → P u → P v := by
    intro u v huv hu
    simp only [P, ← huv]
    exact hu
  -- An operation that brings transactions in removes none, so what is free when
  -- it enters one was free before.
  have hinv := (step_reaches cfg s op).invariant
    (fun s' => (∀ tx, s'.txsTable.find? txHash = some tx → P tx) ∧
      (op.Enters → s'.txsTable.find? txHash = none → s.txsTable.find? txHash = none)) ?_
    ⟨fun tx htx => Or.inl ⟨tx, htx, rfl⟩, fun _ h => h⟩
  · exact hinv.1 tx hfind
  · rintro t w hw ⟨hP, hfree⟩
    rw [t.find?_write]
    cases w with
    | change changed c =>
        simp only [MemoryStorage.entryAfter]
        split
        · refine ⟨fun u hu => ?_, fun hop hu => hfree hop (Option.map_eq_none_iff.mp hu)⟩
          rcases Option.map_eq_some_iff.mp hu with ⟨v, hv, rfl⟩
          exact hcongr v _ (c.apply_toTxData v).symm (hP v hv)
        · exact ⟨hP, hfree⟩
    | markAll sealFlag =>
        simp only [MemoryStorage.entryAfter]
        refine ⟨fun u hu => ?_, fun hop hu => hfree hop (Option.map_eq_none_iff.mp hu)⟩
        rcases Option.map_eq_some_iff.mp hu with ⟨v, hv, rfl⟩
        exact hcongr v _ (by cases sealFlag <;> rfl) (hP v hv)
    | enter u =>
        simp only [MemoryStorage.entryAfter]
        rcases hw with ⟨hop, hnone, horigin⟩
        split
        next hcond =>
          refine ⟨fun v hv => ?_, fun _ hc => absurd hc (Option.some_ne_none u)⟩
          rw [Option.some.injEq] at hv
          rw [← hv]
          exact Or.inr ⟨hfree hop (hcond.2 ▸ hcond.1), horigin⟩
        · exact ⟨hP, hfree⟩
    -- An operation that removes entries brings none in.
    | leave left =>
        simp only [MemoryStorage.entryAfter]
        split
        · refine ⟨fun u hu => absurd hu (Option.some_ne_none u).symm, fun hop _ => ?_⟩
          rcases hw with ⟨_, _, rfl⟩ | rfl
          · exact hop.elim
          · exact hop.elim
        · exact ⟨hP, hfree⟩
    | _ => exact ⟨hP, hfree⟩

/-- Every entry of a reachable pool has a signature that verifies, and the
    group and chain of the pool unless an import for a proposal brought it
    in. -/
theorem admission (ledger : LedgerNonceChecker) (ops : List Op) (txHash : HashType)
    (tx : Transaction)
    (hfind : (run (step cfg) { ledgerNonceChecker := ledger } ops).txsTable.find? txHash
      = some tx) :
    cfg.framework.verify tx.toTxData = true ∧
      ((tx.groupId = cfg.groupId ∧ tx.chainId = cfg.chainId) ∨
        BroughtIn cfg { ledgerNonceChecker := ledger } ops tx.toTxData) := by
  -- The induction adds the last operation, for all entries that the pool may hold.
  induction ops using List.reverseRecOn generalizing tx with
  | nil => exact absurd hfind (Option.some_ne_none tx).symm
  | append_singleton ops op ih =>
      have hkey : tx.hash = txHash := ((KeyedTable.find?_eq_some_iff _ txHash tx).mp hfind).2
      have hafter : (run (step cfg) { ledgerNonceChecker := ledger } (ops ++ [op])).txsTable.find?
          tx.hash ≠ none := by
        rw [hkey, hfind]
        exact Option.some_ne_none tx
      rw [run_concat] at hfind
      -- The last operation kept the entry's content, or it brought it in.
      rcases step_origin cfg _ op hfind with
        ⟨old, hold, hsame⟩ | ⟨hfree, hadmitted | ⟨hverify, header, himports⟩⟩
      · have hih := ih old hold
        rw [hsame] at hih
        rcases hih with ⟨hverify, hright | hbrought⟩
        · exact ⟨hverify, Or.inl hright⟩
        · exact ⟨hverify, Or.inr (hbrought.append cfg op hafter)⟩
      · exact ⟨hadmitted.signature, Or.inl ⟨hadmitted.group, hadmitted.chain⟩⟩
      · refine ⟨hverify, Or.inr ⟨ops, op, [], header, rfl, himports, ?_, fun since hprefix => ?_⟩⟩
        · rw [hkey]
          exact hfree
        · rw [List.prefix_nil.mp hprefix]
          exact hafter

/-- A gossiped transaction of the pool's own group passes every check. -/
theorem admission_gossiped :
    exampleConfig.framework.verify (exampleTx 1 7 1) = true ∧
      (("group" = exampleConfig.groupId ∧ "chain" = exampleConfig.chainId) ∨
        BroughtIn exampleConfig
          { ledgerNonceChecker := LedgerNonceChecker.create none 0 exampleConfig.blockLimit }
          [.importDownloadedTxs 1 [exampleTx 1 7 1] none] (exampleTx 1 7 1)) :=
  admission exampleConfig (LedgerNonceChecker.create none 0 exampleConfig.blockLimit)
    [.importDownloadedTxs 1 [exampleTx 1 7 1] none] 1
    { toTxData := exampleTx 1 7 1, knownNodes := {1} } (by decide)

/-- A transaction of another group is in the pool once a proposal brought it
    in. -/
theorem admission_counterexample :
    ¬ ∀ txHash tx,
      (run (step exampleConfig)
        { ledgerNonceChecker := LedgerNonceChecker.create none 0 exampleConfig.blockLimit }
        [.importDownloadedTxs 1 [{ exampleTx 1 7 1 with groupId := "other" }]
          (some { blockHeader := some { number := 1, hash := 5 }
                  transactionsHash := [1]
                  transactions := [] })]).txsTable.find? txHash = some tx →
      tx.groupId = exampleConfig.groupId ∧ tx.chainId = exampleConfig.chainId ∧
        exampleConfig.framework.verify tx.toTxData = true := by
  intro h
  have hother := h 1
    { toTxData := { exampleTx 1 7 1 with groupId := "other" }
      sealed := true
      batchId := 1
      batchHash := 5
      knownNodes := {1} } (by decide)
  exact absurd hother.1 (by decide)

end TxPool

end BcosTxPool
