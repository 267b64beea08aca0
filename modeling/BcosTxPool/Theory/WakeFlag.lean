import BcosTxPool.Core.Dispatch
import BcosTxPool.Theory.Gossip

/-!
# The Wake-Up Flag Is Not Read

`m_newTransactions` tells the sync worker that there is something to gossip. An
insertion sets it, and the worker clears it when it finds nothing to send. No
call of the storage reads it. Two pools that differ in the flag alone therefore
stay so under every operation, and whatever the calls return they return for
both.

A node clears the flag in the middle of a run, and no operation of the pool
does. `SamePool` is the relation that makes up for it where a node is compared
with its pool.

## Main definitions

* `MemoryStorage.withFlag`: The pool with its flag set to a value.
* `TxPool.SamePool`: The two pools are the same apart from the flag.

## Theorems

* `insert_withFlag`, `submitTransaction_withFlag`, `batchRemove_withFlag` and the
  like: A call does the same whatever the flag was.
* `TransactionSync.importDownloadedTxs_withFlag`: So does an import.
* `TxPool.step_samePool`, `TxPool.run_samePool`: So do operations and runs.
-/

namespace BcosTxPool

open Library

namespace MemoryStorage

variable (cfg : TxPoolConfig) (s : MemoryStorage) (b : Bool)

/-! ### The flag is not read -/

/-- The pool with its wake-up flag set to a value. Everything else is as it was,
    so what a call does to this pool is compared with what it does to the first
    one. -/
def withFlag : MemoryStorage := { s with newTransactions := b }

/-- What a call returns, with the flag of the pool set to a value. The answer of
    the call is left alone. -/
def flagged {α : Type} (p : MemoryStorage × α) : MemoryStorage × α := (p.1.withFlag b, p.2)

/-- The number of unsealed transactions is computed from the table and the
    counter. -/
theorem unSealedTxsSizeWithoutLock_withFlag :
    (s.withFlag b).unSealedTxsSizeWithoutLock = flagged b s.unSealedTxsSizeWithoutLock := by
  unfold unSealedTxsSizeWithoutLock
  -- The counter is corrected where it exceeds the table, for both pools alike.
  exact (apply_ite (flagged b) (s.txsTable.size < s.sealedTxsSize)
    ({ s with sealedTxsSize := s.txsTable.size }, 0) (s, s.txsTable.size - s.sealedTxsSize)).symm

/-- The pool after one number has been reported to the sealer: the counter
    corrected, and the number appended to the reports. -/
def reported : MemoryStorage :=
  { s.unSealedTxsSizeWithoutLock.1 with
    reports := s.unSealedTxsSizeWithoutLock.1.reports ++ [s.unSealedTxsSizeWithoutLock.2] }

theorem reported_withFlag : (s.withFlag b).reported = s.reported.withFlag b := by
  unfold reported
  rw [unSealedTxsSizeWithoutLock_withFlag]
  rfl

/-- A report that fails is repeated. Whether it fails depends on the reports so
    far, which do not mention the flag. -/
theorem reportUnsealed_withFlag (notifier : List Nat → Bool) (retries : Nat) :
    ∀ s, reportUnsealed notifier retries (withFlag s b)
      = (reportUnsealed notifier retries s).withFlag b := by
  induction retries with
  -- The induction is on the attempts that are left.
  | zero => exact fun s => reported_withFlag s b
  | succ retries ih =>
      intro s
      have hunfold : ∀ t : MemoryStorage, reportUnsealed notifier (retries + 1) t
          = if notifier t.reported.reports then reportUnsealed notifier retries t.reported
            else t.reported := fun _ => rfl
      -- Both pools make this attempt with one number, and it fails for both or for
      -- none.
      rw [hunfold, hunfold, reported_withFlag, ih]
      exact (apply_ite (fun t : MemoryStorage => t.withFlag b)
        (notifier s.reported.reports = true) _ _).symm

theorem notifyUnsealedTxsSize_withFlag :
    (s.withFlag b).notifyUnsealedTxsSize cfg = (s.notifyUnsealedTxsSize cfg).withFlag b := by
  unfold notifyUnsealedTxsSize
  split
  · -- Without a notifier nothing is reported.
    rfl
  · exact reportUnsealed_withFlag b _ _ s

/-- An insertion sets the flag, and apart from that it does the same whatever
    the flag was. A hash that is pooled is refused before the flag is set. -/
theorem insert_withFlag (tx : Transaction) :
    ∃ b', (s.withFlag b).insert cfg tx = flagged b' (s.insert cfg tx) := by
  unfold insert
  rw [show (s.withFlag b).txsTable = s.txsTable from rfl]
  by_cases hfound : s.txsTable.contains tx.hash = true
  · rw [if_pos hfound, if_pos hfound]
    exact ⟨b, rfl⟩
  · -- After an insertion the flag is set, whatever it was before.
    rw [if_neg hfound, if_neg hfound]
    exact ⟨true, congrArg (fun t => (t, TransactionStatus.none))
      (notifyUnsealedTxsSize_withFlag cfg { s with
        txsTable := s.txsTable.insert tx, newTransactions := true } true)⟩

/-- An enforced submission sets the flag if it comes to insert, and leaves it
    where it was otherwise. -/
theorem enforceSubmitTransaction_withFlag (tx : Transaction) :
    ∃ b', (s.withFlag b).enforceSubmitTransaction cfg tx
      = flagged b' (s.enforceSubmitTransaction cfg tx) := by
  simp only [enforceSubmitTransaction, show (s.withFlag b).ledgerNonceChecker
    = s.ledgerNonceChecker from rfl, show (s.withFlag b).txsTable = s.txsTable from rfl]
  split
  · exact ⟨b, rfl⟩
  · -- Only a transaction that is not pooled is inserted. A pooled one is marked at most.
    split
    · split
      · exact ⟨b, rfl⟩
      · split
        · exact ⟨b, rfl⟩
        · exact ⟨b, rfl⟩
    · -- Whatever was counted before it, the insertion is what sets the flag.
      have hcounted := apply_ite (fun t : MemoryStorage => t.withFlag b) (tx.sealed = true) s
        { s with sealedTxsSize := s.sealedTxsSize + 1 }
      rcases insert_withFlag cfg (if tx.sealed = true then s
        else { s with sealedTxsSize := s.sealedTxsSize + 1 }) b { tx with sealed := true } with
        ⟨b', heq⟩
      rw [hcounted] at heq
      exact ⟨b', congrArg (fun p => (eraseMissed p.1 tx.hash, TransactionStatus.none)) heq⟩

/-- A submission with the checks behaves in the same way. Of the checks none
    reads the flag. -/
theorem verifyAndSubmitTransaction_withFlag (tx : Transaction)
    (txSubmitCallback : Option TxSubmitCallback) :
    ∃ b', (s.withFlag b).verifyAndSubmitTransaction cfg tx txSubmitCallback
      = flagged b' (s.verifyAndSubmitTransaction cfg tx txSubmitCallback) := by
  unfold verifyAndSubmitTransaction
  -- First the pool is asked whether it is full, then whether it has the
  -- transaction.
  by_cases hfull : s.size ≥ cfg.poolLimit
  · rw [if_pos hfull, if_pos (show (s.withFlag b).size ≥ cfg.poolLimit from hfull)]
    exact ⟨b, rfl⟩
  rw [if_neg hfull, if_neg (show ¬ (s.withFlag b).size ≥ cfg.poolLimit from hfull)]
  simp only [show ∀ t, (s.withFlag b).txpoolStorageCheck t = s.txpoolStorageCheck t from
    fun _ => rfl]
  split
  · exact ⟨b, rfl⟩
  · simp only [show (s.withFlag b).ledgerNonceChecker = s.ledgerNonceChecker from rfl,
      show (s.withFlag b).txPoolNonceChecker = s.txPoolNonceChecker from rfl]
    split
    · -- The verification has passed, and what it returns is inserted.
      rename_i pool tx' _
      rcases insert_withFlag cfg { s with txPoolNonceChecker := pool } b tx' with ⟨b', heq⟩
      exact ⟨b', congrArg (fun p => (eraseMissed p.1 tx'.hash, p.2)) heq⟩
    · exact ⟨b, rfl⟩

theorem submitTransaction_withFlag (tx : Transaction) (txSubmitCallback : Option TxSubmitCallback)
    (enforceImport : Bool) :
    ∃ b', (s.withFlag b).submitTransaction cfg tx txSubmitCallback enforceImport
      = flagged b' (s.submitTransaction cfg tx txSubmitCallback enforceImport) := by
  unfold submitTransaction
  -- Which of the two it is does not depend on the pool.
  split
  · exact verifyAndSubmitTransaction_withFlag cfg s b tx txSubmitCallback
  · exact enforceSubmitTransaction_withFlag cfg s b tx

theorem notifyInvalidReceipt_withFlag (txHash : HashType) (status : TransactionStatus)
    (txSubmitCallback : Option TxSubmitCallback) :
    (s.withFlag b).notifyInvalidReceipt txHash status txSubmitCallback
      = (s.notifyInvalidReceipt txHash status txSubmitCallback).withFlag b := by
  cases txSubmitCallback with
  | none => rfl
  | some callback => rfl

theorem submitTransactionData_withFlag (txData : Bytes)
    (txSubmitCallback : Option TxSubmitCallback) :
    ∃ b', (s.withFlag b).submitTransactionData cfg txData txSubmitCallback
      = flagged b' (s.submitTransactionData cfg txData txSubmitCallback) := by
  unfold submitTransactionData
  split
  · rename_i data _
    -- Bytes that decode are submitted, and a refusal is answered.
    rcases submitTransaction_withFlag cfg s b (createTransaction data) txSubmitCallback false with
      ⟨b', heq⟩
    refine ⟨b', ?_⟩
    rw [heq, apply_ite (flagged b')]
    simp only [flagged, notifyInvalidReceipt_withFlag]
  · exact ⟨b, by rw [notifyInvalidReceipt_withFlag]; rfl⟩

/-- A loop whose turns do the same whatever the flag was does the same too. The
    removals and the marks of the pool are loops of this kind. -/
theorem foldl_withFlag {α : Type} (f : MemoryStorage → α → MemoryStorage)
    (h : ∀ s a, f (withFlag s b) a = (f s a).withFlag b) (l : List α) :
    ∀ s, l.foldl f (withFlag s b) = (l.foldl f s).withFlag b := by
  induction l with
  | nil => exact fun _ => rfl
  | cons a l ih =>
      intro s
      rw [List.foldl_cons, List.foldl_cons, h, ih]

/-- The same for a loop with an accumulator, such as the list of nonces that a
    commit collects. -/
theorem foldl_flagged {α β : Type} (f : MemoryStorage × β → α → MemoryStorage × β)
    (h : ∀ p a, f (flagged b p) a = flagged b (f p a)) (l : List α) :
    ∀ p, l.foldl f (flagged b p) = flagged b (l.foldl f p) := by
  induction l with
  | nil => exact fun _ => rfl
  | cons a l ih =>
      intro p
      rw [List.foldl_cons, List.foldl_cons, h, ih]

theorem removeWithoutLock_withFlag (txHash : HashType) :
    (s.withFlag b).removeWithoutLock txHash = flagged b (s.removeWithoutLock txHash) := by
  simp only [removeWithoutLock, withFlag, flagged]
  split
  · rfl
  · rfl

theorem removeSubmittedTxWithoutLock_withFlag (txSubmitResult : TransactionSubmitResult) :
    (s.withFlag b).removeSubmittedTxWithoutLock txSubmitResult
      = flagged b (s.removeSubmittedTxWithoutLock txSubmitResult) := by
  unfold removeSubmittedTxWithoutLock
  rw [removeWithoutLock_withFlag]
  rcases s.removeWithoutLock txSubmitResult.txHash with ⟨t, found⟩
  -- Without an entry there is nothing to answer.
  cases found with
  | none => rfl
  | some tx =>
      simp only [flagged, notifyTxResult]
      cases tx.submitCallback with
      | none => rfl
      | some callback => rfl

theorem batchRemoveTx_flagged (p : MemoryStorage × NonceList) (txResult : TransactionSubmitResult) :
    batchRemoveTx (flagged b p) txResult = flagged b (batchRemoveTx p txResult) := by
  unfold batchRemoveTx
  simp only [flagged, removeSubmittedTxWithoutLock_withFlag]
  rcases p.1.removeSubmittedTxWithoutLock txResult with ⟨t, found⟩
  cases found with
  | none => rfl
  | some tx => rfl

theorem batchRemove_withFlag (batchId : Int) (txsResult : List TransactionSubmitResult) :
    (s.withFlag b).batchRemove cfg batchId txsResult
      = (s.batchRemove cfg batchId txsResult).withFlag b := by
  have hloop := foldl_flagged b batchRemoveTx (batchRemoveTx_flagged b) txsResult (s, [])
  -- The block number is raised after the loop, and the nonces go to the checkers last.
  have hsection : (s.withFlag b).batchRemoveTxs batchId txsResult
      = flagged b (s.batchRemoveTxs batchId txsResult) := by
    unfold batchRemoveTxs
    rw [show ((s.withFlag b, []) : MemoryStorage × NonceList) = flagged b (s, []) from rfl, hloop]
    rcases txsResult.foldl batchRemoveTx (s, []) with ⟨t, nonceList⟩
    exact congrArg (fun t => (t, nonceList))
      (apply_ite (fun t : MemoryStorage => t.withFlag b) (batchId > t.blockNumber)
        { t with blockNumber := batchId } t).symm
  unfold batchRemove
  rw [hsection]
  simp only [flagged, notifyUnsealedTxsSize_withFlag]
  rfl

theorem removeInvalidTxs_withFlag :
    (s.withFlag b).removeInvalidTxs cfg = (s.removeInvalidTxs cfg).withFlag b := by
  unfold removeInvalidTxs
  -- With no hash set aside the call returns at once, without a report.
  by_cases hempty : s.invalidTxs.size = 0
  · rw [if_pos hempty, if_pos (show (s.withFlag b).invalidTxs.size = 0 from hempty)]
  · rw [if_neg hempty, if_neg (show ¬ (s.withFlag b).invalidTxs.size = 0 from hempty)]
    have hloop := foldl_withFlag b (fun s txHash => (removeSubmittedTxWithoutLock s
        { txHash := txHash, status := .blockLimitCheckFail }).1)
      (fun s txHash => by rw [removeSubmittedTxWithoutLock_withFlag]; rfl) s.invalidTxs.toList s
    simp only [show (s.withFlag b).invalidTxs = s.invalidTxs from rfl,
      show (s.withFlag b).invalidNonces = s.invalidNonces from rfl]
    rw [hloop, notifyUnsealedTxsSize_withFlag]
    rfl

theorem fetchLoop_withFlag (txsLimit : Nat) (avoidTxs : HashList) (avoidDuplicate : Bool)
    (order : HashList) :
    ∀ (s : MemoryStorage) (f : FetchedTxs),
      fetchLoop txsLimit avoidTxs avoidDuplicate order (s.withFlag b) f
        = flagged b (fetchLoop txsLimit avoidTxs avoidDuplicate order s f) := by
  -- The induction is on the order of the walk, for all pools and all that has been
  -- fetched.
  induction order with
  | nil => exact fun _ _ => rfl
  | cons txHash order ih =>
      intro s f
      unfold fetchLoop
      rw [show (s.withFlag b).txsTable = s.txsTable from rfl]
      split
      · exact ih s f
      · rename_i tx _
        rw [show (s.withFlag b).fetchDecision avoidTxs avoidDuplicate tx
          = s.fetchDecision avoidTxs avoidDuplicate tx from rfl]
        -- The decision does not read the flag, and none of the four writes it.
        cases s.fetchDecision avoidTxs avoidDuplicate tx with
        | skip => exact ih s f
        | onChain =>
            exact ih { s with
              txsTable := s.txsTable.modify txHash (fun tx => { tx with submitCallback := none })
              invalidTxs := (s.invalidTxs.insert txHash).insert (nonceToHash tx.nonce) } f
        | expired =>
            exact ih { s with
              invalidTxs := s.invalidTxs.insert txHash
              invalidNonces := s.invalidNonces.insert tx.nonce } f
        | fetch =>
            simp only [apply_ite (flagged b), ← ih]
            rfl

theorem batchMarkTx_withFlag (batchId : Int) (batchHash : HashType) (sealFlag : Bool)
    (txHash : HashType) :
    batchMarkTx batchId batchHash sealFlag (s.withFlag b) txHash
      = (batchMarkTx batchId batchHash sealFlag s txHash).withFlag b := by
  unfold batchMarkTx
  rw [show (s.withFlag b).txsTable = s.txsTable from rfl]
  split
  · rfl
  · rename_i tx _
    split
    · rfl
    · -- A mark counts an entry that changes, up or down. The flag of the entry is
      -- meant here.
      cases sealFlag with
      | true =>
          simp only [Bool.true_and, Bool.not_true, Bool.false_and, Bool.false_eq_true, if_false]
          by_cases hsealed : (!tx.sealed) = true
          · simp only [if_pos hsealed]
            rfl
          · simp only [if_neg hsealed]
            rfl
      -- The same the other way round.
      | false =>
          simp only [Bool.false_and, Bool.not_false, Bool.true_and, Bool.false_eq_true, if_false]
          by_cases hsealed : tx.sealed = true
          · simp only [if_pos hsealed]
            rfl
          · simp only [if_neg hsealed]
            rfl

theorem filterUnknownTxs_withFlag (txsHashList : HashList) (peer : NodeID) :
    (s.withFlag b).filterUnknownTxs cfg txsHashList peer
      = flagged b (s.filterUnknownTxs cfg txsHashList peer) := by
  -- The table is marked in a loop of its own, before the unknown hashes are picked.
  have hknown := foldl_withFlag b (fun s txHash => appendKnownNode s txHash peer)
    (fun _ _ => rfl) txsHashList s
  have hturn : ∀ (p : MemoryStorage × HashList) (txHash : HashType),
      filterUnknownTx (flagged b p) txHash = flagged b (filterUnknownTx p txHash) := by
    intro p txHash
    unfold filterUnknownTx
    rw [apply_ite (flagged b), apply_ite (flagged b)]
    rfl
  have hunknown := foldl_flagged b filterUnknownTx hturn txsHashList
    (txsHashList.foldl (fun s txHash => appendKnownNode s txHash peer) s, [])
  unfold filterUnknownTxs
  rw [hknown]
  simp only [flagged] at hunknown ⊢
  rw [hunknown]
  rcases txsHashList.foldl filterUnknownTx
    (txsHashList.foldl (fun s txHash => appendKnownNode s txHash peer) s, []) with
    ⟨t, unknownTxsList⟩
  -- Last the missed hashes are dropped, if there are as many as the pool may hold.
  exact congrArg (fun t => (t, unknownTxsList))
    (apply_ite (fun t : MemoryStorage => t.withFlag b) (t.missedTxs.size ≥ cfg.poolLimit)
      { t with missedTxs := SortedSet.empty } t).symm

theorem fetchNewTxs_withFlag (txsLimit : Nat) (order : HashList) :
    ∀ (s : MemoryStorage) (fetchedTxs : List Transaction),
      fetchNewTxs txsLimit order (s.withFlag b) fetchedTxs
        = flagged b (fetchNewTxs txsLimit order s fetchedTxs) := by
  induction order with
  | nil => exact fun _ _ => rfl
  | cons txHash order ih =>
      intro s fetchedTxs
      unfold fetchNewTxs
      rw [show (s.withFlag b).txsTable = s.txsTable from rfl]
      split
      · exact ih s fetchedTxs
      · split
        · exact ih s fetchedTxs
        · -- The mark on the entry leaves the flag of the pool alone.
          simp only [apply_ite (flagged b), ← ih]
          rfl

end MemoryStorage

namespace TransactionSync

open MemoryStorage

variable (cfg : TxPoolConfig)

/-- An import may set the flag in one turn and go on with it in the next, so the
    flag it ends with is some flag. -/
theorem importLoop_withFlag (enforceImport : Bool) (txs : List Transaction) :
    ∀ (s : MemoryStorage) (b : Bool), ∃ b', importLoop cfg enforceImport txs (s.withFlag b)
      = flagged b' (importLoop cfg enforceImport txs s) := by
  -- The induction is on the transactions that are left, for all pools and flags.
  induction txs with
  | nil => exact fun _ b => ⟨b, rfl⟩
  | cons tx txs ih =>
      intro s b
      unfold importLoop
      split
      · exact ih s b
      · rcases submitTransaction_withFlag cfg s b tx none enforceImport with ⟨b', heq⟩
        rw [heq]
        rcases s.submitTransaction cfg tx none enforceImport with ⟨t, result⟩
        rcases ih t b' with ⟨b'', hrest⟩
        -- The loop ends here with a rejected enforced submission, or it goes on.
        by_cases hres : result ≠ .none ∧ enforceImport = true
        · refine ⟨b', ?_⟩
          simp only [flagged, if_pos hres.1, if_pos hres.2]
        · refine ⟨b'', ?_⟩
          by_cases hreject : result ≠ .none
          · simp only [flagged, if_pos hreject, if_neg (fun h => hres ⟨hreject, h⟩)]
            exact hrest
          · exact (if_neg hreject).trans
              (hrest.trans (congrArg (flagged b'') (if_neg hreject).symm))

/-- The verification of the transactions that were downloaded reads the pool
    only to pass over those it has. -/
theorem importDownloadedTxs_withFlag (s : MemoryStorage) (b : Bool) (fromNode : NodeID)
    (txs : List TxData) (verifiedProposal : Option Block) :
    ∃ b', importDownloadedTxs cfg (s.withFlag b) fromNode txs verifiedProposal
      = flagged b' (importDownloadedTxs cfg s fromNode txs verifiedProposal) := by
  unfold importDownloadedTxs
  simp only [show verifyDownloaded cfg (s.withFlag b) fromNode (proposalHeader verifiedProposal)
    = verifyDownloaded cfg s fromNode (proposalHeader verifiedProposal) from rfl]
  split
  · exact ⟨b, rfl⟩
  · split
    · exact ⟨b, rfl⟩
    · exact importLoop_withFlag cfg _ _ s b

end TransactionSync

namespace TxPool

open MemoryStorage

/-- The two pools are the same apart from the wake-up flag. A node whose worker
    has cleared the flag is compared in this way with a pool that never clears
    it. -/
def SamePool (s s' : MemoryStorage) : Prop := ∃ b, s' = s.withFlag b

theorem SamePool.refl (s : MemoryStorage) : SamePool s s := ⟨s.newTransactions, rfl⟩

theorem SamePool.trans {s s' s'' : MemoryStorage} (h : SamePool s s') (h' : SamePool s' s'') :
    SamePool s s'' := by
  rcases h with ⟨b, rfl⟩
  rcases h' with ⟨b', rfl⟩
  exact ⟨b', rfl⟩

/-- An operation does the same to two pools that differ in the flag. -/
theorem step_samePool (cfg : TxPoolConfig) {s s' : MemoryStorage} (h : SamePool s s') (op : Op) :
    SamePool (step cfg s op) (step cfg s' op) := by
  rcases h with ⟨b, rfl⟩
  cases op with
  -- Only submissions set the flag. Elsewhere it stays the one that was there.
  | asyncSubmit existsInGroup txData txSubmitCallback =>
      simp only [step, asyncSubmit, checkExistsInGroup]
      by_cases hgroup : (txSubmitCallback.isNone || existsInGroup) = true
      · rcases submitTransactionData_withFlag cfg s b txData txSubmitCallback with ⟨b', heq⟩
        simp only [if_pos hgroup]
        exact ⟨b', congrArg Prod.fst heq⟩
      · simp only [if_neg hgroup]
        exact ⟨b, notifyInvalidReceipt_withFlag s b 0 .requestNotBelongToTheGroup txSubmitCallback⟩
  | importDownloadedTxs fromNode txs verifiedProposal =>
      rcases TransactionSync.importDownloadedTxs_withFlag cfg s b fromNode txs verifiedProposal with
        ⟨b', heq⟩
      exact ⟨b', congrArg Prod.fst heq⟩
  | asyncSealTxs order txsLimit avoidTxs =>
      -- From here on no operation sets the flag.
      refine ⟨b, ?_⟩
      simp only [step, asyncSealTxs, batchFetchTxs, fetchLoop_withFlag, flagged,
        notifyUnsealedTxsSize_withFlag]
  | removeInvalidTxs => exact ⟨b, removeInvalidTxs_withFlag cfg s b⟩
  | asyncNotifyBlockResult blockNumber txsResult =>
      exact ⟨b, batchRemove_withFlag cfg s b blockNumber txsResult⟩
  | asyncMarkTxs txsHash sealedFlag batchId batchHash =>
      exact ⟨b, foldl_withFlag b _
        (fun s k => batchMarkTx_withFlag s b batchId batchHash sealedFlag k) txsHash s⟩
  | asyncResetTxPool =>
      exact ⟨b, notifyUnsealedTxsSize_withFlag cfg { s with
        txsTable := s.txsTable.modifyAll (markAny false) (markAny_hash false)
        sealedTxsSize := 0 } b⟩
  | filterUnknownTxs txsHashList peer =>
      exact ⟨b, congrArg Prod.fst (filterUnknownTxs_withFlag cfg s b txsHashList peer)⟩
  | fetchNewTxs order txsLimit =>
      exact ⟨b, congrArg Prod.fst (fetchNewTxs_withFlag b txsLimit order s [])⟩
  | appendKnownNode txHash node => exact ⟨b, rfl⟩

/-- Hence whole runs do the same to two such pools. -/
theorem run_samePool (cfg : TxPoolConfig) (ops : List Op) :
    ∀ s s', SamePool s s' → SamePool (run (step cfg) s ops) (run (step cfg) s' ops) := by
  induction ops with
  | nil => exact fun _ _ h => h
  | cons op ops ih => exact fun _ _ h => ih _ _ (step_samePool cfg h op)

end TxPool

end BcosTxPool
