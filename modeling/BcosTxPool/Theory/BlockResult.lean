import BcosTxPool.Theory.Receipts
import BcosTxPool.Theory.Replay

/-!
# Block Results

Everything that a block notification changes, for any list of results. The
list may name a hash twice, or one that is not in the pool, and a result may
carry no nonce.

The entries are simple: what is named is gone, and the rest is as it was. The
receipts need the order of the list. Only the first result that names a pooled
hash finds it in the table, so that one goes to the client, and a later one
finds nothing. `noticeFor` says what each hash is due, and the notices queued
are compared with it hash by hash.

The nonces need the order too. A hash that is named twice leaves the nonce of
its entry, and then, since the entry is gone, the one of the second result.
`BlockNonce` asks only what the table held at the start.

## Main definitions

* `BlockNonce`: A nonce that the block brings.
* `noticeFor`: The receipt that a hash is due.
* `BlockEffect`: What a block notification changes.

## Theorems

* `removeSubmittedTxWithoutLock_receipts`: The notice of one removal.
* `foldl_remove_notices`: The notices of a loop of removals.
* `batchRemove_effect`: What `batchRemove` changes.
-/

namespace BcosTxPool

open Library

namespace LedgerNonceChecker

/-- A list is evicted exactly if it is recorded under the block that leaves the
    window. -/
theorem expired_eq_some_iff (c : LedgerNonceChecker) (batchId : Int) (nonceList l : NonceList) :
    c.expired batchId nonceList = some l ↔
      c.blockLimit < batchId ∧
        (c.recorded batchId nonceList).lookup (batchId - c.blockLimit) = some l := by
  unfold expired batchToBeRemoved
  -- Early blocks push nothing out of the window, which the source marks with -1.
  by_cases hlong : batchId > c.blockLimit
  · rw [if_pos hlong, if_neg (by omega)]
    exact ⟨fun h => ⟨hlong, h⟩, fun h => h.2⟩
  · rw [if_neg hlong, if_pos rfl]
    exact iff_of_false (Option.some_ne_none l).symm (fun h => hlong h.1)

end LedgerNonceChecker

namespace MemoryStorage

variable (cfg : TxPoolConfig)

/-- A nonce that the block brings: that of a named entry, or the one a result
    carries for a hash that the table does not hold. -/
def BlockNonce (s : MemoryStorage) (txsResult : List TransactionSubmitResult)
    (nonce : NonceType) : Prop :=
  ∃ r ∈ txsResult,
    (∃ tx, s.txsTable.find? r.txHash = some tx ∧ tx.nonce = nonce) ∨
      (s.txsTable.find? r.txHash = none ∧ r.carriesNonce = true ∧ r.nonce = nonce)

/-- The loop of the source collects such a nonce, in whatever order the results
    come. -/
theorem BlockNonce.mem_blockNonces {s : MemoryStorage} {txsResult : List TransactionSubmitResult}
    {nonce : NonceType} (h : s.BlockNonce txsResult nonce) : nonce ∈ s.blockNonces txsResult := by
  rcases h with ⟨r, hr, hpooled | ⟨hfree, hcarries, hnonce⟩⟩
  · exact nonce_mem_of_pooled txsResult r.txHash nonce ⟨r, hr, rfl⟩ (s, []) hpooled
  · exact nonce_mem_of_carried txsResult r.txHash nonce ⟨r, hr, rfl, hcarries, hnonce⟩ (s, [])
      hfree

/-! ### The notices -/

/-- The receipt that a hash is due: the callback of its entry, with the first
    result that names it. -/
def noticeFor (s : MemoryStorage) (txsResult : List TransactionSubmitResult)
    (txHash : HashType) : Option Receipt :=
  ((s.txsTable.find? txHash).bind (fun tx => tx.submitCallback)).bind (fun callback =>
    (txsResult.find? (fun r => r.txHash = txHash)).map (fun r => ⟨callback, none, r⟩))

/-- One removal queues the notice of the hash it names, if a client waits for
    it. -/
theorem removeSubmittedTxWithoutLock_receipts (s : MemoryStorage) (r : TransactionSubmitResult) :
    (s.removeSubmittedTxWithoutLock r).1.receipts
      = s.receipts ++ (s.noticeFor [r] r.txHash).toList := by
  unfold removeSubmittedTxWithoutLock removeWithoutLock noticeFor
  -- A hash that is not pooled queues nothing, and so does an entry without a
  -- callback.
  cases hfind : s.txsTable.find? r.txHash with
  | none => exact (List.append_nil _).symm
  | some tx =>
      simp only [notifyTxResult, Option.bind_some]
      cases tx.submitCallback with
      | none => exact (List.append_nil _).symm
      | some callback =>
          simp only [Option.bind_some, List.find?_singleton, decide_true, if_true,
            Option.map_some, Option.toList_some]

/-- What a hash is due does not depend on results that name another. Their
    removals leave its entry in the table. -/
theorem noticeFor_cons_of_ne (s : MemoryStorage) {r : TransactionSubmitResult}
    (txsResult : List TransactionSubmitResult) {txHash : HashType} (h : r.txHash ≠ txHash) :
    (s.removeSubmittedTxWithoutLock r).1.noticeFor txsResult txHash
      = s.noticeFor (r :: txsResult) txHash := by
  rcases s.removeSubmittedTxWithoutLock_eq r with ⟨n, receipts, heq⟩
  unfold noticeFor
  rw [heq, KeyedTable.find?_erase, if_neg h, List.find?_cons_of_neg (by simpa using h)]

/-- Once a hash is removed it is due nothing, however often it is named
    again. -/
theorem noticeFor_removed (s : MemoryStorage) (r : TransactionSubmitResult)
    (txsResult : List TransactionSubmitResult) :
    (s.removeSubmittedTxWithoutLock r).1.noticeFor txsResult r.txHash = none := by
  rcases s.removeSubmittedTxWithoutLock_eq r with ⟨n, receipts, heq⟩
  unfold noticeFor
  rw [heq, KeyedTable.find?_erase, if_pos rfl, Option.bind_none, Option.bind_none]

/-- The first result that names a hash is the one it is due, whatever comes
    after it. -/
theorem noticeFor_cons_self (s : MemoryStorage) (r : TransactionSubmitResult)
    (txsResult : List TransactionSubmitResult) :
    s.noticeFor (r :: txsResult) r.txHash = s.noticeFor [r] r.txHash := by
  unfold noticeFor
  rw [List.find?_cons_of_pos (by simp only [decide_true]),
    List.find?_cons_of_pos (by simp only [decide_true])]

/-- A notice carries a result that names the hash. So the notices of different
    hashes can be told apart. -/
theorem noticeFor_txHash {s : MemoryStorage} {txsResult : List TransactionSubmitResult}
    {txHash : HashType} {notice : Receipt} (h : notice ∈ (s.noticeFor txsResult txHash).toList) :
    notice.result.txHash = txHash := by
  rw [Option.mem_toList] at h
  unfold noticeFor at h
  rw [Option.bind_eq_some_iff] at h
  rcases h with ⟨callback, _, h⟩
  rw [Option.map_eq_some_iff] at h
  rcases h with ⟨r, hr, rfl⟩
  simpa using List.find?_some hr

/-- A loop of removals queues, for every hash, what the hash is due and no more.
    The order of the notices between different hashes is left open. -/
theorem foldl_remove_notices (txsResult : List TransactionSubmitResult) :
    ∀ s : MemoryStorage, ∃ notices,
      (txsResult.foldl (fun s r => (s.removeSubmittedTxWithoutLock r).1) s).receipts
        = s.receipts ++ notices ∧
      ∀ txHash, notices.filter (fun notice => notice.result.txHash = txHash)
        = (s.noticeFor txsResult txHash).toList := by
  -- The induction is on the results that are left, for all pools that may meet
  -- them.
  induction txsResult with
  | nil =>
      refine fun s => ⟨[], (List.append_nil _).symm, fun txHash => ?_⟩
      simp only [noticeFor, List.find?_nil, Option.map_none, Option.bind_fun_none,
        List.filter_nil, Option.toList_none]
  | cons r txsResult ih =>
      intro s
      rcases ih (s.removeSubmittedTxWithoutLock r).1 with ⟨notices, hreceipts, hnotices⟩
      refine ⟨(s.noticeFor [r] r.txHash).toList ++ notices, ?_, fun txHash => ?_⟩
      · rw [List.foldl_cons, hreceipts, removeSubmittedTxWithoutLock_receipts, List.append_assoc]
      rw [List.filter_append, hnotices]
      by_cases hthis : r.txHash = txHash
      · -- The entry is gone, so the rest of the list adds nothing for it.
        subst hthis
        rw [noticeFor_removed, Option.toList_none, List.append_nil,
          noticeFor_cons_self s r txsResult]
        refine List.filter_eq_self.mpr (fun notice hmem => ?_)
        exact decide_eq_true (noticeFor_txHash hmem)
      · rw [noticeFor_cons_of_ne s txsResult hthis]
        have hother : (s.noticeFor [r] r.txHash).toList.filter
            (fun notice => notice.result.txHash = txHash) = [] := by
          refine List.filter_eq_nil_iff.mpr (fun notice hmem => ?_)
          rw [noticeFor_txHash hmem]
          simpa using hthis
        rw [hother, List.nil_append]

/-! ### The effect -/

/-- What a block notification changes: the entries, the notices to clients, and
    the nonces in both checkers. -/
structure BlockEffect (s s' : MemoryStorage) (batchId : Int)
    (txsResult : List TransactionSubmitResult) : Prop where
  /-- What is named is gone, and every other entry is as it was. -/
  entries : ∀ txHash, s'.txsTable.find? txHash
    = if txHash ∈ txsResult.map (fun r => r.txHash) then none else s.txsTable.find? txHash
  /-- The notices queued are those the hashes are due. -/
  notices : ∃ notices, s'.receipts = s.receipts ++ notices ∧
    ∀ txHash, notices.filter (fun notice => notice.result.txHash = txHash)
      = (s.noticeFor txsResult txHash).toList
  /-- The block's nonces are no longer pending. -/
  released : ∀ nonce, s.BlockNonce txsResult nonce →
    ¬ nonce ∈ s'.txPoolNonceChecker.nonceCache
  /-- They are on the ledger, but for those that the call evicts. -/
  recorded : ∀ nonce, s.BlockNonce txsResult nonce →
    (nonce ∈ s'.ledgerNonceChecker.nonceCache ↔
      ¬ ∃ l, s.ledgerNonceChecker.expired batchId (s.blockNonces txsResult) = some l ∧
        nonce ∈ l)
  /-- The list evicted is that of the block `blockLimit` below. -/
  evicted : ∀ l, s.ledgerNonceChecker.expired batchId (s.blockNonces txsResult) = some l →
    s.ledgerNonceChecker.blockLimit < batchId ∧
      (s.ledgerNonceChecker.recorded batchId (s.blockNonces txsResult)).lookup
        (batchId - s.ledgerNonceChecker.blockLimit) = some l ∧
      s'.ledgerNonceChecker.blockNonceCache.lookup
        (batchId - s.ledgerNonceChecker.blockLimit) = none

/-- A nonce that the block brings is on the ledger afterwards, unless the list
    evicted has it too. -/
theorem BlockNonce.mem_batchInsert_iff {s : MemoryStorage} {batchId : Int}
    {txsResult : List TransactionSubmitResult} {nonce : NonceType}
    (h : s.BlockNonce txsResult nonce) :
    nonce ∈ (s.ledgerNonceChecker.batchInsert batchId (s.blockNonces txsResult)).nonceCache ↔
      ¬ ∃ l, s.ledgerNonceChecker.expired batchId (s.blockNonces txsResult) = some l ∧
        nonce ∈ l := by
  -- It is inserted in any case, so only the eviction is left to look at.
  rw [LedgerNonceChecker.mem_batchInsert_iff, and_iff_right (Or.inr h.mem_blockNonces)]
  cases s.ledgerNonceChecker.expired batchId (s.blockNonces txsResult) with
  | none =>
      refine iff_of_true List.not_mem_nil (fun h => ?_)
      rcases h with ⟨l, hl, _⟩
      exact absurd hl.symm (Option.some_ne_none l)
  | some l =>
      simp only [Option.getD_some, Option.some.injEq, exists_eq_left']

/-- What `batchRemove` changes, whatever the pool, the block number and the
    results. The reports to the sealer come after all of it and change none of
    this. -/
theorem batchRemove_effect (s : MemoryStorage) (batchId : Int)
    (txsResult : List TransactionSubmitResult) :
    BlockEffect s (s.batchRemove cfg batchId txsResult) batchId txsResult where
  entries := s.find?_batchRemove cfg batchId txsResult
  notices := by
    rw [(batchRemove_sameClients cfg s batchId txsResult).receipts]
    exact foldl_remove_notices txsResult s
  released := by
    intro nonce hnonce
    rw [batchRemove_txPoolNonceChecker, TxPoolNonceChecker.mem_batchRemove]
    exact fun h => h.2 hnonce.mem_blockNonces
  recorded := by
    intro nonce hnonce
    rw [TxPool.batchRemove_ledgerNonceChecker]
    exact hnonce.mem_batchInsert_iff
  evicted := by
    intro l hl
    have hlookup := (LedgerNonceChecker.expired_eq_some_iff _ _ _ _).mp hl
    refine ⟨hlookup.1, hlookup.2, ?_⟩
    -- The block is past the first `blockLimit`, so the mark is a block number.
    have hremoved : s.ledgerNonceChecker.batchToBeRemoved batchId
        = batchId - s.ledgerNonceChecker.blockLimit := if_pos hlookup.1
    rw [TxPool.batchRemove_ledgerNonceChecker, LedgerNonceChecker.batchInsert_eq]
    simp only [hl, Option.isSome_some, if_true]
    rw [hremoved, AList.lookup_erase]

end MemoryStorage

end BcosTxPool
