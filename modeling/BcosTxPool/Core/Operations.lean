import BcosTxPool.Library.Run
import BcosTxPool.Core.Pool

/-!
# Operations of the Storage

The storage interface seen as a state machine of its own. `TxPool.Op` is what
a node does, and each of those is made of calls on the storage;
`MemoryStorage.Op` is the list of those calls. It is the larger of the two
worlds: it also has the calls that no code of this repository makes in the
order an adversary might like, such as a bare `insert`, a `remove` of any hash
or a seal that does not avoid duplicates.

`step_eq_run` connects the levels. Every operation of a node is a run of
storage operations, so what holds after every storage run holds after every
run of a node. `verifyBlock_eq_run` adds the one thing a node does to its pool
that `TxPool.Op` does not name: verifying a proposal comes down to imports.

A submission or an insertion takes an unsealed transaction object. This is
what a decoder returns, and what every caller passes.

## Main definitions

* `UnsealedTx`: A transaction object that is not sealed.
* `MemoryStorage.Op`, `MemoryStorage.step`: The calls on the storage.

## Theorems

* `MemoryStorage.importLoop_eq_run`: An import is a run of submissions.
* `TxPool.step_eq_run`: An operation of a node is a run of storage calls.
* `TxPool.verifyBlock_eq_run`: Verifying a proposal is a run of operations.
-/

namespace BcosTxPool

open Library

/-- A transaction object that is not sealed. The seal counter rests on this: an
    insertion does not count, so it must not bring a seal with it. -/
abbrev UnsealedTx := { tx : Transaction // tx.sealed = false }

namespace MemoryStorage

/-- The calls on the storage that may change it. Those that only read it, such
    as `fetchTxs` or `exist`, are left out. -/
inductive Op where
  | submitTransaction (tx : UnsealedTx) (txSubmitCallback : Option TxSubmitCallback)
      (enforceImport : Bool)
  | submitTransactionData (txData : Bytes) (txSubmitCallback : Option TxSubmitCallback)
  | notifyInvalidReceipt (txHash : HashType) (status : TransactionStatus)
      (txSubmitCallback : Option TxSubmitCallback)
  | insert (tx : UnsealedTx)
  | batchInsert (txs : List UnsealedTx)
  | batchFetchTxs (order : HashList) (txsLimit : Nat) (avoidTxs : HashList)
      (avoidDuplicate : Bool)
  | removeInvalidTxs
  | batchRemove (batchId : Int) (txsResult : List TransactionSubmitResult)
  | remove (txHash : HashType)
  | removeSubmittedTx (txSubmitResult : TransactionSubmitResult)
  | batchMarkTxs (txsHashList : HashList) (batchId : Int) (batchHash : HashType)
      (sealFlag : Bool)
  | batchMarkAllTxs (sealFlag : Bool)
  | unSealedTxsSize
  | filterUnknownTxs (txsHashList : HashList) (peer : NodeID)
  | fetchNewTxs (order : HashList) (txsLimit : Nat)
  | appendKnownNode (txHash : HashType) (node : NodeID)

/-- The effect of one call on the storage. Statuses and lists that a call
    returns are dropped: they reach the pool again only through the arguments of
    a later call. -/
def step (cfg : TxPoolConfig) (s : MemoryStorage) : Op → MemoryStorage
  | .submitTransaction tx txSubmitCallback enforceImport =>
      (s.submitTransaction cfg tx.1 txSubmitCallback enforceImport).1
  | .submitTransactionData txData txSubmitCallback =>
      (s.submitTransactionData cfg txData txSubmitCallback).1
  | .notifyInvalidReceipt txHash status txSubmitCallback =>
      s.notifyInvalidReceipt txHash status txSubmitCallback
  | .insert tx => (s.insert cfg tx.1).1
  | .batchInsert txs => s.batchInsert cfg (txs.map (fun tx => tx.1))
  | .batchFetchTxs order txsLimit avoidTxs avoidDuplicate =>
      (s.batchFetchTxs cfg order txsLimit avoidTxs avoidDuplicate).1
  | .removeInvalidTxs => s.removeInvalidTxs cfg
  | .batchRemove batchId txsResult => s.batchRemove cfg batchId txsResult
  | .remove txHash => (s.remove cfg txHash).1
  | .removeSubmittedTx txSubmitResult => (s.removeSubmittedTx cfg txSubmitResult).1
  | .batchMarkTxs txsHashList batchId batchHash sealFlag =>
      s.batchMarkTxs txsHashList batchId batchHash sealFlag
  | .batchMarkAllTxs sealFlag => s.batchMarkAllTxs cfg sealFlag
  | .unSealedTxsSize => s.unSealedTxsSize.1
  | .filterUnknownTxs txsHashList peer => (s.filterUnknownTxs cfg txsHashList peer).1
  | .fetchNewTxs order txsLimit => (s.fetchNewTxs txsLimit order []).1
  | .appendKnownNode txHash node => s.appendKnownNode txHash node

end MemoryStorage

namespace TransactionSync

/-- An import of unsealed transactions is a run of submissions: of all of them
    but the invalid ones, or up to the first that stops an enforced import. -/
theorem importLoop_eq_run (cfg : TxPoolConfig) (enforceImport : Bool) (txs : List Transaction)
    (htxs : ∀ tx ∈ txs, tx.sealed = false) :
    ∀ s, ∃ ops, (importLoop cfg enforceImport txs s).1 = run (MemoryStorage.step cfg) s ops := by
  -- Along the list; the pool varies, since each submission changes it.
  induction txs with
  | nil => exact fun s => ⟨[], rfl⟩
  | cons tx txs ih =>
      intro s
      have ih := ih (fun t ht => htxs t (List.mem_cons_of_mem tx ht))
      unfold importLoop
      by_cases hinv : tx.invalid = true
      · rw [if_pos hinv]
        exact ih s
      · rw [if_neg hinv]
        let op : MemoryStorage.Op :=
          .submitTransaction ⟨tx, htxs tx List.mem_cons_self⟩ none enforceImport
        -- Either the loop goes on after this submission or it ends with it.
        rcases ih (MemoryStorage.step cfg s op) with ⟨ops, hops⟩
        by_cases hstop : (s.submitTransaction cfg tx none enforceImport).2 ≠ .none ∧
            enforceImport = true
        · refine ⟨[op], ?_⟩
          simp only [if_pos hstop.1, if_pos hstop.2, run_cons, run_nil]
          rfl
        · refine ⟨op :: ops, ?_⟩
          rw [run_cons, ← hops]
          by_cases hres : (s.submitTransaction cfg tx none enforceImport).2 ≠ .none
          · simp only [if_pos hres, if_neg (fun h => hstop ⟨hres, h⟩)]
            rfl
          · simp only [if_neg hres]
            rfl

theorem verifyDownloaded_sealed (cfg : TxPoolConfig) (s : MemoryStorage) (fromNode : NodeID)
    (header : Option BlockHeader) (data : TxData) :
    (verifyDownloaded cfg s fromNode header data).1.sealed = false := by
  have hstamp : (stamp fromNode header (createTransaction data)).sealed = false := by
    cases header with
    | none => rfl
    | some header => rfl
  -- The loop sets the invalid flag at most.
  unfold verifyDownloaded
  simp only
  split
  · exact hstamp
  · split
    · exact hstamp
    · exact hstamp

theorem importDownloadedTxs_eq_run (cfg : TxPoolConfig) (s : MemoryStorage) (fromNode : NodeID)
    (txs : List TxData) (verifiedProposal : Option Block) :
    ∃ ops, (importDownloadedTxs cfg s fromNode txs verifiedProposal).1
      = run (MemoryStorage.step cfg) s ops := by
  unfold importDownloadedTxs
  simp only
  split
  · exact ⟨[], rfl⟩
  · split
    · exact ⟨[], rfl⟩
    · refine importLoop_eq_run cfg _ _ (fun tx htx => ?_) s
      simp only [List.map_map, List.mem_map, Function.comp_apply] at htx
      rcases htx with ⟨data, _, rfl⟩
      exact verifyDownloaded_sealed cfg s fromNode _ data

end TransactionSync

namespace TxPool

theorem asyncSubmit_eq_run (cfg : TxPoolConfig) (s : MemoryStorage) (existsInGroup : Bool)
    (txData : Bytes) (txSubmitCallback : Option TxSubmitCallback) :
    ∃ ops, asyncSubmit cfg s existsInGroup txData txSubmitCallback
      = run (MemoryStorage.step cfg) s ops := by
  unfold asyncSubmit checkExistsInGroup
  by_cases h : (txSubmitCallback.isNone || existsInGroup) = true
  · rw [if_pos h]
    exact ⟨[.submitTransactionData txData txSubmitCallback], rfl⟩
  · rw [if_neg h]
    exact ⟨[.notifyInvalidReceipt 0 .requestNotBelongToTheGroup txSubmitCallback], rfl⟩

/-- An operation of a node is a run of storage calls. -/
theorem step_eq_run (cfg : TxPoolConfig) (s : MemoryStorage) (op : Op) :
    ∃ ops, step cfg s op = run (MemoryStorage.step cfg) s ops := by
  -- All but two operations are one call each.
  cases op with
  | asyncSubmit existsInGroup txData txSubmitCallback =>
      exact asyncSubmit_eq_run cfg s existsInGroup txData txSubmitCallback
  | importDownloadedTxs fromNode txs verifiedProposal =>
      exact TransactionSync.importDownloadedTxs_eq_run cfg s fromNode txs verifiedProposal
  | asyncSealTxs order txsLimit avoidTxs =>
      exact ⟨[.batchFetchTxs order txsLimit avoidTxs true], rfl⟩
  | removeInvalidTxs => exact ⟨[.removeInvalidTxs], rfl⟩
  | asyncNotifyBlockResult blockNumber txsResult =>
      exact ⟨[.batchRemove blockNumber txsResult], rfl⟩
  | asyncMarkTxs txsHash sealedFlag batchId batchHash =>
      exact ⟨[.batchMarkTxs txsHash batchId batchHash sealedFlag], rfl⟩
  | asyncResetTxPool => exact ⟨[.batchMarkAllTxs false], rfl⟩
  | filterUnknownTxs txsHashList peer => exact ⟨[.filterUnknownTxs txsHashList peer], rfl⟩
  | fetchNewTxs order txsLimit => exact ⟨[.fetchNewTxs order txsLimit], rfl⟩
  | appendKnownNode txHash node => exact ⟨[.appendKnownNode txHash node], rfl⟩

/-- A run of a node is a run of its storage. -/
theorem run_eq_run (cfg : TxPoolConfig) (ops : List Op) :
    ∀ s, ∃ calls, run (step cfg) s ops = run (MemoryStorage.step cfg) s calls := by
  induction ops with
  | nil => exact fun s => ⟨[], rfl⟩
  | cons op ops ih =>
      intro s
      -- The calls of the first operation, then those of the rest.
      rcases step_eq_run cfg s op with ⟨calls, hcalls⟩
      rcases ih (step cfg s op) with ⟨more, hmore⟩
      exact ⟨calls ++ more, by rw [run_cons, hmore, run_append, hcalls]⟩

/-! ### The verification of a proposal -/

/-- The ledger's answer is imported, or nothing happens. -/
theorem onGetMissedTxsFromLedger_eq_run (cfg : TxPoolConfig) (s : MemoryStorage)
    (missedTxs : SortedSet HashType) (response : LedgerResponse)
    (verifiedProposal : Option Block) (onVerifyFinished : Bool) :
    ∃ ops, (TransactionSync.onGetMissedTxsFromLedger cfg s missedTxs response verifiedProposal
      onVerifyFinished).1 = run (step cfg) s ops := by
  unfold TransactionSync.onGetMissedTxsFromLedger
  cases response.error with
  | some error => exact ⟨[], rfl⟩
  | none =>
      -- Whatever becomes of the hashes, the pool is that after the import.
      refine ⟨[.importDownloadedTxs cfg.nodeID response.fetchedTxs verifiedProposal], ?_⟩
      simp only
      split
      · rfl
      · split
        · rfl
        · rfl

/-- The peer's answer is imported for the proposal or without it, or nothing
    happens. -/
theorem verifyFetchedTxs_eq_run (cfg : TxPoolConfig) (s : MemoryStorage)
    (response : FrontResponse) (missedTxs : HashList) (verifiedProposal : Option Block)
    {result : MemoryStorage × List VerifyResponse}
    (h : TransactionSync.verifyFetchedTxs cfg s response missedTxs verifiedProposal
      = some result) : ∃ ops, result.1 = run (step cfg) s ops := by
  unfold TransactionSync.verifyFetchedTxs at h
  -- An error and an answer of another type import nothing; a decoder may throw.
  split at h
  · exact ⟨[], by rw [← Option.some.inj h, run_nil]⟩
  · split at h
    · exact absurd h (Option.some_ne_none result).symm
    · split at h
      · exact ⟨[], by rw [← Option.some.inj h, run_nil]⟩
      · split at h
        · exact absurd h (Option.some_ne_none result).symm
        · rename_i transactions _
          split at h
          · -- An answer of the wrong size is imported without the proposal.
            refine ⟨[.importDownloadedTxs response.nodeID transactions.transactions none], ?_⟩
            rw [← Option.some.inj h]
            rfl
          · refine ⟨[.importDownloadedTxs response.nodeID transactions.transactions
              verifiedProposal], ?_⟩
            simp only at h
            split at h
            · rw [← Option.some.inj h]
              rfl
            · split at h
              · rw [← Option.some.inj h]
                rfl
              · rw [← Option.some.inj h]
                rfl

theorem requestMissedTxsFromPeer_eq_run (cfg : TxPoolConfig) (s : MemoryStorage)
    (generatedNodeID : NodeID) (missedTxs : HashList) (verifiedProposal : Option Block)
    (onVerifyFinished : Bool) (frontService : NodeID → HashList → FrontResponse) :
    ∃ ops, (TransactionSync.requestMissedTxsFromPeer cfg s generatedNodeID missedTxs
      verifiedProposal onVerifyFinished frontService).1 = run (step cfg) s ops := by
  unfold TransactionSync.requestMissedTxsFromPeer
  split
  · exact ⟨[], rfl⟩
  · split
    · exact ⟨[], rfl⟩
    · rename_i heq
      have hfetched := verifyFetchedTxs_eq_run cfg s _ missedTxs verifiedProposal heq
      exact hfetched

/-- Verifying a proposal is a run of imports, so what holds after every run of
    a node holds when a proposal is verified in between. -/
theorem verifyBlock_eq_run (cfg : TxPoolConfig) (s : MemoryStorage)
    (generatedNodeID : Option NodeID) (block : Block) (ledger : HashList → LedgerResponse)
    (frontService : NodeID → HashList → FrontResponse) :
    ∃ ops, (verifyBlock cfg s generatedNodeID block ledger frontService).1
      = run (step cfg) s ops := by
  unfold verifyBlock TransactionSync.requestMissedTxs
  simp only
  split
  · exact ⟨[], rfl⟩
  · have hledger := onGetMissedTxsFromLedger_eq_run cfg s
      (SortedSet.ofList (s.batchVerifyProposal block)) (ledger (s.batchVerifyProposal block))
      (some block) true
    -- The stage of the ledger is a run by itself; a stage of the peer may follow.
    generalize TransactionSync.onGetMissedTxsFromLedger cfg s
      (SortedSet.ofList (s.batchVerifyProposal block)) (ledger (s.batchVerifyProposal block))
      (some block) true = stage at hledger ⊢
    rcases hledger with ⟨ops, hops⟩
    split
    · exact ⟨ops, hops⟩
    · cases generatedNodeID with
      | none => exact ⟨ops, hops⟩
      | some node =>
          rcases requestMissedTxsFromPeer_eq_run cfg stage.1 node stage.2.1.toList (some block)
            true frontService with ⟨more, hmore⟩
          exact ⟨ops ++ more, by rw [run_append, ← hops, ← hmore]⟩

end TxPool

end BcosTxPool
