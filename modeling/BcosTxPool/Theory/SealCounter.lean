import BcosTxPool.Theory.Writes

/-!
# The Seal Counter

The pool counts its sealed transactions in `sealedTxsSize`, apart from the
flags themselves. `Counted` says that the counter is the number of entries
whose flag is set. Every write keeps it, so every call does, and so does every
turn of a loop inside a call.

Three things follow. The counter is at most the size of the table, so the
branch that corrects it is dead. It is positive whenever a sealed entry is
there to be removed or unsealed, so taking one from it never wraps. And the
number of unsealed transactions reported to the sealer is the true one.

The one condition on the writes is that a transaction only enters the table
under a hash that is free. Every call looks the hash up first.

## Main definitions

* `sealedCount`: The number of entries with the sealed flag.
* `Counted`: The counter is that number.
* `EntersFresh`: The condition on the writes.

## Theorems

* `write_counted`: Every write keeps the counter right.
* `step_reaches`: Every call on the storage is a run of such writes.
* `sealedTxsSize_eq_sealedCount`: The counter is right in every reachable
  state.
* `TxPool.run_counted`, `TxPool.verifyBlock_counted`: It is right on a node.
-/

namespace BcosTxPool

open Library

namespace MemoryStorage

/-- The number of entries with the sealed flag. The source never counts them; it
    keeps a number beside the table. -/
def sealedCount (s : MemoryStorage) : Nat := s.txsTable.countP (fun tx => tx.sealed)

/-- The counter is the number of sealed entries. This is the invariant of the
    whole pool. -/
def Counted (s : MemoryStorage) : Prop := s.sealedTxsSize = s.sealedCount

/-- A transaction enters under a hash that is free. If it replaced an entry, the
    flag of that entry would be lost to the counter. -/
def EntersFresh (s : MemoryStorage) (w : Write) : Prop :=
  ∀ tx, w = .enter tx → s.txsTable.find? tx.hash = none

/-- A right counter is never ahead of the table. -/
theorem Counted.le_size {s : MemoryStorage} (h : s.Counted) :
    s.sealedTxsSize ≤ s.txsTable.size := by
  rw [h]
  exact s.txsTable.countP_le_size _

/-- A sealed entry makes the counter positive, so one can be taken from it
    without a wrap. -/
theorem Counted.pos {s : MemoryStorage} (h : s.Counted) {txHash : HashType} {tx : Transaction}
    (hfind : s.txsTable.find? txHash = some tx) (hsealed : tx.sealed = true) :
    0 < s.sealedTxsSize := by
  have hcount := KeyedTable.countP_erase hfind (fun tx => tx.sealed)
  simp only [hsealed, if_true] at hcount
  rw [h, sealedCount]
  omega

/-! ### One write -/

variable (cfg : TxPoolConfig) {s : MemoryStorage}

/-- A report or a clamp finds nothing to correct: the counter is not ahead of
    the table. -/
theorem notify_counted (h : s.Counted) : (s.notifyUnsealedTxsSize cfg).Counted := by
  rcases s.notifyUnsealedTxsSize_eq cfg with ⟨n, rs, heq, hkeep⟩
  rw [heq, hkeep h.le_size]
  exact h

/-- The same without the report. -/
theorem clamp_counted (h : s.Counted) : s.unSealedTxsSize.1.Counted := by
  rcases s.unSealedTxsSizeWithoutLock_eq with ⟨n, heq, hkeep⟩
  rw [unSealedTxsSize, heq, hkeep h.le_size]
  exact h

/-- The counter moves with the flag of the entry that changes. Where the flag
    stays, so does the counter. -/
theorem change_counted (h : s.Counted) (txHash : HashType) (c : Change) :
    (write cfg s (.change txHash c)).Counted := by
  have hs : s.sealedTxsSize = s.txsTable.countP (fun tx => tx.sealed) := h
  unfold Counted sealedCount
  cases hfind : s.txsTable.find? txHash with
  | none =>
      -- A hash that is not in the table changes nothing.
      have hsame : s.txsTable.modify txHash c.apply c.apply_hash = s.txsTable :=
        s.txsTable.modify_of_find?_none _ _ hfind
      simp only [write, hfind, hsame]
      exact hs
  | some tx =>
      have hcount := KeyedTable.countP_modify hfind c.apply c.apply_hash (fun tx => tx.sealed)
      have hpos := h.pos hfind
      rw [change_of_find?_some cfg s hfind]
      simp only [flippedSize, sizePred]
      -- Only an entry that was sealed can be unsealed, so the counter is positive.
      cases hold : tx.sealed with
      | true =>
          have hpos := hpos hold
          cases hnew : (c.apply tx).sealed with
          | true =>
              simp only [hold, hnew, if_true] at hcount ⊢
              omega
          | false =>
              simp only [hold, hnew, if_true, Bool.false_eq_true, if_false] at hcount ⊢
              rw [if_neg (by omega)]
              omega
      | false =>
          cases hnew : (c.apply tx).sealed with
          | true =>
              simp only [hold, hnew, if_true, Bool.false_eq_true, Bool.true_eq_false,
                if_false] at hcount ⊢
              omega
          | false =>
              simp only [hold, hnew, if_true, Bool.false_eq_true, if_false] at hcount ⊢
              omega

/-- Removing an entry takes one from the counter if the entry was sealed. -/
theorem leave_counted (h : s.Counted) (txHash : HashType) :
    (s.removeWithoutLock txHash).1.Counted := by
  have hs : s.sealedTxsSize = s.txsTable.countP (fun tx => tx.sealed) := h
  unfold removeWithoutLock
  cases hfind : s.txsTable.find? txHash with
  | none => exact h
  | some tx =>
      have hcount := KeyedTable.countP_erase hfind (fun tx => tx.sealed)
      unfold Counted sealedCount
      simp only
      -- Only a sealed entry takes one from the counter, which is positive then.
      by_cases hsealed : tx.sealed = true
      · have hpos := h.pos hfind hsealed
        rw [if_pos hsealed] at hcount ⊢
        rw [sizePred, if_neg (by omega)]
        omega
      · rw [if_neg hsealed] at hcount ⊢
        omega

/-- A fresh entry counts if it comes in sealed, as one of an enforced import
    does. -/
theorem enter_counted (h : s.Counted) (tx : Transaction)
    (hfind : s.txsTable.find? tx.hash = none) : (write cfg s (.enter tx)).Counted := by
  have hs : s.sealedTxsSize = s.txsTable.countP (fun tx => tx.sealed) := h
  have hcount := s.txsTable.countP_insert (fun tx => tx.sealed) tx hfind
  unfold Counted sealedCount
  simp only [write, hcount]
  by_cases hsealed : tx.sealed = true
  · rw [if_pos hsealed, if_pos hsealed, hs]
  · rw [if_neg hsealed, if_neg hsealed, hs, Nat.add_zero]

/-- Marking all leaves all entries sealed, or none, and the counter is set to
    the size or to zero. -/
theorem markAll_counted (sealFlag : Bool) : (write cfg s (.markAll sealFlag)).Counted := by
  have hcount := s.txsTable.countP_modifyAll_const (markAny sealFlag)
    (markAny_hash sealFlag) (fun tx => tx.sealed) sealFlag
    (fun tx => by cases sealFlag <;> rfl)
  unfold Counted sealedCount
  simp only [write, hcount]

/-- Every write keeps the counter right. Those that are not named here touch
    neither the table nor the counter. -/
theorem write_counted (w : Write) (hw : EntersFresh s w) (h : s.Counted) :
    (write cfg s w).Counted := by
  cases w with
  | notify => exact notify_counted cfg h
  | clamp => exact clamp_counted h
  | aside missedTxs blockNumber receipts => exact h
  | change txHash c => exact change_counted cfg h txHash c
  | markAll sealFlag => exact markAll_counted cfg sealFlag
  | enter tx => exact enter_counted cfg h tx (hw tx rfl)
  | leave txHash => exact leave_counted h txHash
  | reserve nonce => exact h
  | release nonceList => exact h
  | invalidate invalidTxs invalidNonces => exact h
  | record batchId nonceList => exact h

/-! ### Every call -/

/-- A quiet write brings nothing in. -/
theorem entersFresh_quiet (s : MemoryStorage) (w : Write) (hw : w.Quiet) : EntersFresh s w := by
  rintro tx rfl
  exact hw.elim

/-- A submission looks its hash up before it writes, on either route. -/
theorem submitTransaction_entersFresh (s : MemoryStorage) (tx : Transaction)
    (htx : tx.sealed = false) (txSubmitCallback : Option TxSubmitCallback)
    (enforceImport : Bool) :
    Reaches (write cfg) EntersFresh s
      (s.submitTransaction cfg tx txSubmitCallback enforceImport).1 := by
  cases enforceImport with
  | false =>
      -- A normal submission that passes has found the hash free, and what is
      -- written is the transaction with its mark and callback.
      refine verifyAndSubmitTransaction_reaches cfg entersFresh_quiet s tx htx txSubmitCallback
        (fun _ t ht => by cases ht) (fun hyes t ht => ?_)
      rw [← Write.enter.inj ht, TxValidator.marked_toTxData, withCallback_toTxData]
      exact hyes.free
  | true =>
      refine enforceSubmitTransaction_reaches cfg entersFresh_quiet s tx htx
        (fun _ _ _ t ht => by cases ht) (fun hfind t ht => ?_)
      rw [← Write.enter.inj ht]
      exact hfind

/-- Bytes that a client sends are decoded and submitted. A failure is answered
    with a receipt, which brings nothing in. -/
theorem submitTransactionData_entersFresh (s : MemoryStorage) (txData : Bytes)
    (txSubmitCallback : Option TxSubmitCallback) :
    Reaches (write cfg) EntersFresh s (s.submitTransactionData cfg txData txSubmitCallback).1 := by
  unfold submitTransactionData
  cases cfg.framework.decodeTransaction txData with
  | none => exact notifyInvalidReceipt_reaches cfg entersFresh_quiet s 0 .malform txSubmitCallback
  | some data =>
      have hsub := submitTransaction_entersFresh cfg s (createTransaction data)
        (createTransaction_sealed data) txSubmitCallback false
      simp only
      split
      · exact hsub.trans (notifyInvalidReceipt_reaches cfg entersFresh_quiet _ _ _ txSubmitCallback)
      · exact hsub

/-- The walk of a seal brings nothing in. -/
theorem fetchLoop_entersFresh (s : MemoryStorage) (txsLimit : Nat) (avoidTxs : HashList)
    (avoidDuplicate : Bool) (order : HashList) (f : FetchedTxs) :
    Reaches (write cfg) EntersFresh s
      (fetchLoop txsLimit avoidTxs avoidDuplicate order s f).1 := by
  -- A turn of the walk sets an entry aside, skips it or seals it.
  refine fetchLoop_reaches cfg entersFresh_quiet txsLimit avoidTxs avoidDuplicate ?_ ?_ ?_ order
    s f
  · exact fun _ _ _ _ _ t ht => by cases ht
  · exact fun _ _ _ _ _ t ht => by cases ht
  · exact fun _ _ _ _ _ t ht => by cases ht

include cfg in
/-- The counter is right when the walk ends, before the report. The report would
    otherwise correct it, and hide that it was wrong. -/
theorem fetchLoop_counted (h : s.Counted) (txsLimit : Nat) (avoidTxs : HashList)
    (avoidDuplicate : Bool) (order : HashList) (f : FetchedTxs) :
    (fetchLoop txsLimit avoidTxs avoidDuplicate order s f).1.Counted :=
  (fetchLoop_entersFresh cfg s txsLimit avoidTxs avoidDuplicate order f).invariant Counted
    (fun _ w hw hs => write_counted cfg w hw hs) h

/-- Every call on the storage is a run of writes that enter fresh. Whatever each
    write keeps, the call keeps, and it holds at every point inside the call. -/
theorem step_reaches (s : MemoryStorage) (op : Op) :
    Reaches (write cfg) EntersFresh s (step cfg s op) := by
  have hq := entersFresh_quiet
  cases op with
  | submitTransaction tx txSubmitCallback enforceImport =>
      exact submitTransaction_entersFresh cfg s tx.1 tx.2 txSubmitCallback enforceImport
  | submitTransactionData txData txSubmitCallback =>
      exact submitTransactionData_entersFresh cfg s txData txSubmitCallback
  | notifyInvalidReceipt txHash status txSubmitCallback =>
      exact notifyInvalidReceipt_reaches cfg hq s txHash status txSubmitCallback
  -- The insertion looks the hash up itself.
  | insert tx =>
      refine insert_reaches cfg hq s tx.1 tx.2 (fun hfind t ht => ?_)
      rw [← Write.enter.inj ht]
      exact hfind
  | batchInsert txs =>
      refine batchInsert_reaches cfg hq s _ (fun tx htx => ?_) (fun s tx _ hfind t ht => ?_)
      · rcases List.mem_map.mp htx with ⟨u, _, rfl⟩
        exact u.2
      · rw [← Write.enter.inj ht]
        exact hfind
  | batchFetchTxs order txsLimit avoidTxs avoidDuplicate =>
      exact (fetchLoop_entersFresh cfg s txsLimit avoidTxs avoidDuplicate order {}).trans
        (notify_reaches cfg hq _)
  -- A cleanup and a commit only take entries out.
  | removeInvalidTxs =>
      refine removeInvalidTxs_reaches cfg hq s ?_ ?_ ?_
      · exact fun _ _ _ t ht => by cases ht
      · exact fun _ t ht => by cases ht
      · exact fun _ t ht => by cases ht
  | batchRemove batchId txsResult =>
      refine batchRemove_reaches cfg hq s batchId txsResult ?_ ?_ ?_
      · exact fun _ _ _ t ht => by cases ht
      · exact fun _ t ht => by cases ht
      · exact fun _ t ht => by cases ht
  | remove txHash => exact remove_reaches cfg hq s txHash (fun t ht => by cases ht)
  | removeSubmittedTx txSubmitResult =>
      exact removeSubmittedTx_reaches cfg hq s txSubmitResult (fun t ht => by cases ht)
  | batchMarkTxs txsHashList batchId batchHash sealFlag =>
      exact batchMarkTxs_reaches cfg s txsHashList batchId batchHash sealFlag
        (fun _ _ _ _ _ _ t ht => by cases ht)
  | batchMarkAllTxs sealFlag =>
      exact batchMarkAllTxs_reaches cfg hq s sealFlag (fun t ht => by cases ht)
  | unSealedTxsSize => exact clamp_reaches cfg hq s
  | filterUnknownTxs txsHashList peer => exact filterUnknownTxs_reaches cfg hq s txsHashList peer
  | fetchNewTxs order txsLimit => exact fetchNewTxs_reaches cfg hq txsLimit order s []
  | appendKnownNode txHash node => exact appendKnownNode_reaches cfg hq s txHash node

/-- Every call keeps the counter right. -/
theorem step_counted (h : s.Counted) (op : Op) : (step cfg s op).Counted :=
  (step_reaches cfg s op).invariant Counted (fun _ w hw hs => write_counted cfg w hw hs) h

/-- So does every run of calls. -/
theorem run_counted (h : s.Counted) (ops : List Op) : (run (step cfg) s ops).Counted :=
  run_invariant (step cfg) Counted (fun _ => True) (fun _ op _ hs => step_counted cfg hs op) ops s
    (fun _ _ => trivial) h

/-- In every state reached from an empty storage the counter is the number of
    sealed entries. It is never ahead of the table, it can be taken from
    whenever a sealed entry is there, and the number of unsealed transactions
    is returned exactly and without a correction. The same holds inside the
    next call, before each write that the call makes. -/
theorem sealedTxsSize_eq_sealedCount (ledger : LedgerNonceChecker) (ops : List Op) :
    let s := run (step cfg) { ledgerNonceChecker := ledger } ops
    s.sealedTxsSize = s.txsTable.countP (fun tx => tx.sealed) ∧
      ¬ s.txsTable.size < s.sealedTxsSize ∧
      (∀ txHash tx, s.txsTable.find? txHash = some tx → tx.sealed = true →
        0 < s.sealedTxsSize) ∧
      s.unSealedTxsSize = (s, s.txsTable.countP (fun tx => !tx.sealed)) ∧
      ∀ op, Reaches (write cfg) (fun t _ =>
        ¬ t.txsTable.size < t.sealedTxsSize ∧
        ∀ txHash tx, t.txsTable.find? txHash = some tx → tx.sealed = true →
          0 < t.sealedTxsSize) s (step cfg s op) := by
  intro s
  have hempty : Counted { ledgerNonceChecker := ledger } := rfl
  have h : s.Counted := run_counted cfg hempty ops
  have hle := h.le_size
  -- All parts follow from the counter being right.
  refine ⟨h, by omega, fun txHash tx hfind hsealed => h.pos hfind hsealed, ?_, fun op => ?_⟩
  · rw [unSealedTxsSize, unSealedTxsSizeWithoutLock, if_neg (by omega), KeyedTable.countP_not, h,
      sealedCount]
  · -- Inside a call the invariant is carried from write to write.
    refine ((step_reaches cfg s op).and_invariant Counted
      (fun _ w hw hs => write_counted cfg w hw hs) h).mono (fun t w ht => ?_)
    have htable := ht.2.le_size
    exact ⟨by omega, fun txHash tx hfind hsealed => ht.2.pos hfind hsealed⟩

end MemoryStorage

namespace TxPool

/-- The counter is right after every run of a node too. -/
theorem run_counted (cfg : TxPoolConfig) {s : MemoryStorage} (h : s.Counted) (ops : List Op) :
    (run (step cfg) s ops).Counted := by
  rcases run_eq_run cfg ops s with ⟨calls, hcalls⟩
  rw [hcalls]
  exact MemoryStorage.run_counted cfg h calls

/-- Verifying a proposal keeps the counter right, whatever the ledger and the
    peer answer. -/
theorem verifyBlock_counted (cfg : TxPoolConfig) {s : MemoryStorage} (h : s.Counted)
    (generatedNodeID : Option NodeID) (block : Block) (ledger : HashList → LedgerResponse)
    (frontService : NodeID → HashList → FrontResponse) :
    (verifyBlock cfg s generatedNodeID block ledger frontService).1.Counted := by
  -- The verification is a run of operations, which the answers choose.
  rcases verifyBlock_eq_run cfg s generatedNodeID block ledger frontService with ⟨ops, hops⟩
  rw [hops]
  exact run_counted cfg h ops

end TxPool

end BcosTxPool
