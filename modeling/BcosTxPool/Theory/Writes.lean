import BcosTxPool.Theory.Effects

/-!
# Calls as Runs of Writes

Every call on the storage is made of a few kinds of elementary writes: a
transaction enters the table or leaves it, the flags of one entry change, all
entries are marked, a nonce is reserved or a list of them released, hashes and
nonces are set aside for the cleanup, and a block is recorded in the ledger
checker. The counter moves with the flags, and only there.

The theorems below take each call apart once. Each is stated for an arbitrary
condition `C` on writes: if `C` allows what the call may write, then the call
is a run of writes that `C` allows. An invariant of the pool is then a
statement about one write, and what a call cannot do is read off from the
writes it is made of. The loops, which walk the table or a list, are taken
apart here and nowhere else.

Some writes are `Quiet`. They touch none of the seal flags, the contents of
the table, the nonce checkers or the sets of the cleanup, and every condition
considered later allows them.

## Main definitions

* `Change`: What may happen to the flags of an entry.
* `Write`, `write`: The elementary writes.
* `Write.Quiet`: The writes nobody has to account for.
* `entryAfter`: What a lookup sees after a write.

## Theorems

* `find?_write`: A lookup after a write.
* `enforceSubmitTransaction_reaches`, `verifyAndSubmitTransaction_reaches`,
  `batchRemove_reaches`, `fetchLoop_reaches`, `batchMarkTxs_reaches` and the
  like: What each call writes.
-/

namespace BcosTxPool

open Library

/-- What may happen to the flags of an entry. A callback can only be dropped
    here: it is hung on an object before it enters the table. -/
inductive Change where
  | setSeal (batchId : Int) (batchHash : HashType)
  | clearSeal
  | sync
  | know (node : NodeID)
  | dropCallback

namespace Change

/-- The entry after a change. -/
def apply : Change → Transaction → Transaction
  | .setSeal batchId batchHash, tx =>
      { tx with sealed := true, batchId := batchId, batchHash := batchHash }
  | .clearSeal, tx => { tx with sealed := false }
  | .sync, tx => { tx with synced := true }
  | .know node, tx => { tx with knownNodes := Insert.insert node tx.knownNodes }
  | .dropCallback, tx => { tx with submitCallback := none }

/-- A change that leaves the seal alone, and with it the counter. -/
def Quiet : Change → Prop
  | .setSeal _ _ => False
  | .clearSeal => False
  | _ => True

/-- No change touches the content. So the key of an entry never changes
    either. -/
@[simp] theorem apply_toTxData (c : Change) (tx : Transaction) :
    (c.apply tx).toTxData = tx.toTxData := by
  cases c with
  | _ => rfl

theorem apply_hash (c : Change) (tx : Transaction) : (c.apply tx).hash = tx.hash :=
  congrArg TxData.hash (c.apply_toTxData tx)

end Change

/-- The elementary writes. `clamp` and `notify` move the counter only where it
    is larger than the table, and `aside` stands for the three fields that
    nothing below depends on. -/
inductive Write where
  | notify
  | clamp
  | aside (missedTxs : SortedSet HashType) (blockNumber : Int) (receipts : List Receipt)
  | change (txHash : HashType) (c : Change)
  | markAll (sealFlag : Bool)
  | enter (tx : Transaction)
  | leave (txHash : HashType)
  | reserve (nonce : NonceType)
  | release (nonceList : NonceList)
  | invalidate (invalidTxs : SortedSet HashType) (invalidNonces : SortedSet NonceType)
  | record (batchId : Int) (nonceList : NonceList)

/-- The writes nobody has to account for. -/
def Write.Quiet : Write → Prop
  | .notify => True
  | .clamp => True
  | .aside _ _ _ => True
  | .change _ c => c.Quiet
  | _ => False

namespace MemoryStorage

/-- The effect of one write. The counter moves with the flag of the entry that
    is changed, brought in or taken out. -/
def write (cfg : TxPoolConfig) (s : MemoryStorage) : Write → MemoryStorage
  | .notify => s.notifyUnsealedTxsSize cfg
  | .clamp => s.unSealedTxsSize.1
  | .aside missedTxs blockNumber receipts =>
      { s with missedTxs := missedTxs, blockNumber := blockNumber, receipts := receipts }
  | .change txHash c =>
      { s with
        sealedTxsSize := match s.txsTable.find? txHash with
          | some tx => flippedSize s.sealedTxsSize tx.sealed (c.apply tx).sealed
          | none => s.sealedTxsSize
        txsTable := s.txsTable.modify txHash c.apply c.apply_hash }
  | .markAll sealFlag =>
      { s with
        txsTable := s.txsTable.modifyAll (markAny sealFlag) (markAny_hash sealFlag)
        sealedTxsSize := if sealFlag then s.txsTable.size else 0 }
  | .enter tx =>
      { s with
        txsTable := s.txsTable.insert tx
        newTransactions := true
        sealedTxsSize := if tx.sealed then s.sealedTxsSize + 1 else s.sealedTxsSize }
  | .leave txHash => (s.removeWithoutLock txHash).1
  | .reserve nonce => { s with txPoolNonceChecker := s.txPoolNonceChecker.insert nonce }
  | .release nonceList =>
      { s with txPoolNonceChecker := s.txPoolNonceChecker.batchRemove nonceList }
  | .invalidate invalidTxs invalidNonces =>
      { s with invalidTxs := invalidTxs, invalidNonces := invalidNonces }
  | .record batchId nonceList =>
      { s with ledgerNonceChecker := s.ledgerNonceChecker.batchInsert batchId nonceList }

variable (cfg : TxPoolConfig)

/-- A change of an entry that is pooled, with the entry named. -/
theorem change_of_find?_some (s : MemoryStorage) {txHash : HashType} {tx : Transaction}
    (hfind : s.txsTable.find? txHash = some tx) (c : Change) :
    write cfg s (.change txHash c) = { s with
      sealedTxsSize := flippedSize s.sealedTxsSize tx.sealed (c.apply tx).sealed
      txsTable := s.txsTable.modify txHash c.apply c.apply_hash } := by
  simp only [write, hfind]

/-- What a lookup sees after a write. All that a write does to the table can be
    read here. -/
def entryAfter (s : MemoryStorage) (txHash : HashType) : Write → Option Transaction
  | .change changed c =>
      if changed = txHash then (s.txsTable.find? txHash).map c.apply else s.txsTable.find? txHash
  | .markAll sealFlag => (s.txsTable.find? txHash).map (markAny sealFlag)
  | .enter tx =>
      if s.txsTable.find? tx.hash = none ∧ tx.hash = txHash then some tx
      else s.txsTable.find? txHash
  | .leave left => if left = txHash then none else s.txsTable.find? txHash
  | _ => s.txsTable.find? txHash

/-- A lookup after a write sees just that. -/
theorem find?_write (s : MemoryStorage) (txHash : HashType) (w : Write) :
    (write cfg s w).txsTable.find? txHash = s.entryAfter txHash w := by
  cases w with
  | notify => simp only [write, notifyUnsealedTxsSize_txsTable, entryAfter]
  | clamp =>
      rcases s.unSealedTxsSizeWithoutLock_eq with ⟨n, heq, _⟩
      simp only [write, unSealedTxsSize, heq, entryAfter]
  | change changed c => exact s.txsTable.find?_modify changed c.apply c.apply_hash txHash
  | markAll sealFlag =>
      exact s.txsTable.find?_modifyAll (markAny sealFlag) (markAny_hash sealFlag)
        txHash
  | enter tx =>
      simp only [write, entryAfter]
      -- An insertion takes effect only on a hash that is free.
      cases hfind : s.txsTable.find? tx.hash with
      | none =>
          rw [s.txsTable.find?_insert tx txHash hfind]
          simp only [true_and]
      | some entry =>
          rw [s.txsTable.insert_of_find?_some hfind]
          simp only [reduceCtorEq, false_and, if_false]
  | leave left =>
      simp only [write, removeWithoutLock, entryAfter]
      cases hfind : s.txsTable.find? left with
      | none =>
          simp only
          -- Nothing leaves, so the two sides differ only if the lookup is of `left`.
          by_cases heq : left = txHash
          · rw [if_pos heq, ← heq, hfind]
          · rw [if_neg heq]
      | some tx => exact s.txsTable.find?_erase left txHash
  | _ => rfl

/-- Only a removal makes an entry disappear. A change and a mark write to
    entries that are there, and an insertion adds one. -/
theorem find?_write_eq_none (s : MemoryStorage) (txHash : HashType) (w : Write)
    (hw : ∀ left, w ≠ .leave left) (h : (write cfg s w).txsTable.find? txHash = none) :
    s.txsTable.find? txHash = none := by
  rw [find?_write] at h
  cases w with
  | change changed c =>
      simp only [entryAfter] at h
      split at h
      · exact Option.map_eq_none_iff.mp h
      · exact h
  | markAll sealFlag => exact Option.map_eq_none_iff.mp h
  | enter tx =>
      simp only [entryAfter] at h
      split at h
      · exact absurd h (Option.some_ne_none tx)
      · exact h
  | leave left => exact absurd rfl (hw left)
  | _ => exact h

/-- A change that leaves the flag alone leaves the counter alone. -/
theorem change_of_quiet (s : MemoryStorage) (txHash : HashType) (c : Change) (hc : c.Quiet) :
    write cfg s (.change txHash c)
      = { s with txsTable := s.txsTable.modify txHash c.apply c.apply_hash } := by
  have hflag : ∀ tx : Transaction, (c.apply tx).sealed = tx.sealed := by
    intro tx
    cases c with
    | setSeal batchId batchHash => exact hc.elim
    | clearSeal => exact hc.elim
    | _ => rfl
  -- The flag is what it was, so the counter is not moved.
  simp only [write, hflag, flippedSize, if_true]
  cases s.txsTable.find? txHash with
  | none => rfl
  | some tx => rfl

/-- The counter after a flag was set. It is raised only if the flag was down. -/
theorem flippedSize_true (size : Nat) (old : Bool) :
    flippedSize size old true = if old then size else size + 1 := by
  cases old with
  | true => rfl
  | false => rfl

variable {C : MemoryStorage → Write → Prop}
  (hquiet : ∀ s w, w.Quiet → C s w) (s : MemoryStorage)

include hquiet

/-! ### Quiet calls -/

/-- A report is a write of its own. -/
theorem notify_reaches : Reaches (write cfg) C s (s.notifyUnsealedTxsSize cfg) :=
  reaches_single (hquiet s .notify trivial)

/-- And so is the correction of the counter that a query makes. -/
theorem clamp_reaches : Reaches (write cfg) C s s.unSealedTxsSize.1 :=
  reaches_single (hquiet s .clamp trivial)

/-- What differs only in the fields nobody has to account for is one write away,
    and that write is quiet. -/
theorem aside_reaches (missedTxs : SortedSet HashType) (blockNumber : Int)
    (receipts : List Receipt) :
    Reaches (write cfg) C s
      { s with missedTxs := missedTxs, blockNumber := blockNumber, receipts := receipts } :=
  reaches_single (hquiet s (.aside missedTxs blockNumber receipts) trivial)

/-- A hash that is missed no longer is one of these. -/
theorem eraseMissed_reaches (txHash : HashType) :
    Reaches (write cfg) C s (s.eraseMissed txHash) :=
  aside_reaches cfg hquiet s (s.missedTxs.erase txHash) s.blockNumber s.receipts

/-- The answer to a rejected client is another. -/
theorem notifyInvalidReceipt_reaches (txHash : HashType) (status : TransactionStatus)
    (txSubmitCallback : Option TxSubmitCallback) :
    Reaches (write cfg) C s (s.notifyInvalidReceipt txHash status txSubmitCallback) := by
  cases txSubmitCallback with
  | none => exact reaches_refl C s
  | some callback => exact aside_reaches cfg hquiet s s.missedTxs s.blockNumber _

/-- And the receipt of a transaction the third. -/
theorem notifyTxResult_reaches (tx : Transaction) (txSubmitResult : TransactionSubmitResult) :
    Reaches (write cfg) C s (s.notifyTxResult tx txSubmitResult) := by
  unfold notifyTxResult
  cases tx.submitCallback with
  | none => exact reaches_refl C s
  | some callback => exact aside_reaches cfg hquiet s s.missedTxs s.blockNumber _

/-! ### Submissions -/

/-- An insertion of an unsealed transaction is the entry and the report behind
    it. -/
theorem inserted_reaches (tx : Transaction) (htx : tx.sealed = false) (henter : C s (.enter tx)) :
    Reaches (write cfg) C s (s.inserted cfg tx) := by
  have henter : Reaches (write cfg) C s (write cfg s (.enter tx)) := reaches_single henter
  -- The counter is not raised for it.
  have hsame : write cfg s (.enter tx)
      = { s with txsTable := s.txsTable.insert tx, newTransactions := true } := by
    simp only [write, htx, Bool.false_eq_true, if_false]
  rw [hsame] at henter
  exact henter.trans (notify_reaches cfg hquiet _)

/-- Under a hash that is taken it writes nothing. -/
theorem insert_reaches (tx : Transaction) (htx : tx.sealed = false)
    (henter : s.txsTable.find? tx.hash = none → C s (.enter tx)) :
    Reaches (write cfg) C s (s.insert cfg tx).1 := by
  rcases s.insert_cases cfg tx with ⟨_, _, hins⟩ | ⟨hfind, hins⟩
  · rw [hins]
    exact reaches_refl C s
  · rw [hins]
    exact inserted_reaches cfg hquiet s tx htx (henter hfind)

/-- Many insertions, and then the hashes that are missed no longer. -/
theorem batchInsert_reaches (txs : List Transaction) (htxs : ∀ tx ∈ txs, tx.sealed = false)
    (henter : ∀ s : MemoryStorage, ∀ tx ∈ txs, s.txsTable.find? tx.hash = none →
      C s (.enter tx)) :
    Reaches (write cfg) C s (s.batchInsert cfg txs) := by
  have hins := reaches_foldl (write cfg) (C := C) id
    (fun s tx => (s.insert cfg tx).1) txs
    (fun s tx htx => insert_reaches cfg hquiet s tx (htxs tx htx) (henter s tx htx)) s
  exact hins.trans (reaches_foldl (write cfg) id (fun s tx => eraseMissed s tx.hash) txs
    (fun s tx _ => eraseMissed_reaches cfg hquiet s tx.hash) _)

/-- An enforced submission seals an entry that is free, inserts a transaction
    that is missing, or writes nothing. The condition is asked only of what it
    really does. -/
theorem enforceSubmitTransaction_reaches (tx : Transaction) (htx : tx.sealed = false)
    (hseal : ∀ entry, s.txsTable.find? tx.hash = some entry →
      (entry.sealed = false ∨ entry.batchHash = 0) →
      C s (.change tx.hash (.setSeal tx.batchId tx.batchHash)))
    (henter : s.txsTable.find? tx.hash = none → C s (.enter { tx with sealed := true })) :
    Reaches (write cfg) C s (s.enforceSubmitTransaction cfg tx).1 := by
  rcases s.enforceSubmitTransaction_cases cfg tx with
    ⟨_, he⟩ | ⟨_, _, _, _, he⟩ | ⟨_, _, _, _, he⟩ | ⟨_, entry, hfind, hfree, he⟩ | ⟨_, hfind, he⟩
  · -- The three cases in which nothing is written come first.
    rw [he]
    exact reaches_refl C s
  · rw [he]
    exact reaches_refl C s
  · rw [he]
    exact reaches_refl C s
  · rw [he]
    -- Sealing a pooled entry is one change, and the counter moves with the flag.
    have hseal : Reaches (write cfg) C _ _ := reaches_single (hseal entry hfind hfree)
    rw [change_of_find?_some cfg s hfind] at hseal
    simp only [Change.apply, flippedSize_true] at hseal
    exact hseal
  · rw [he]
    -- The counter is raised before the insertion; together they are one write.
    have henter : Reaches (write cfg) C _ _ := reaches_single (henter hfind)
    simp only [write, if_true] at henter
    unfold insertedSealed inserted
    simp only [htx, Bool.false_eq_true, if_false]
    exact (henter.trans (notify_reaches cfg hquiet _)).trans
      (eraseMissed_reaches cfg hquiet _ tx.hash)

/-- A normal submission reserves its nonce and enters the table, or writes
    nothing. -/
theorem verifyAndSubmitTransaction_reaches (tx : Transaction) (htx : tx.sealed = false)
    (txSubmitCallback : Option TxSubmitCallback)
    (hreserve : Submittable cfg s tx → C s (.reserve tx.nonce))
    (henter : Submittable cfg s tx → C (write cfg s (.reserve tx.nonce))
      (.enter (TxValidator.marked cfg.framework (withCallback tx txSubmitCallback)))) :
    Reaches (write cfg) C s (s.verifyAndSubmitTransaction cfg tx txSubmitCallback).1 := by
  rcases s.verifyAndSubmitTransaction_cases cfg tx txSubmitCallback with
    ⟨_, _, hsame⟩ | ⟨hyes, hsub⟩
  · rw [hsame]
    exact reaches_refl C s
  · rw [hsub]
    -- The nonce is reserved first, and the entry is made in the state after that.
    have hreserve : Reaches (write cfg) C _ _ := reaches_single (hreserve hyes)
    have henter := inserted_reaches cfg hquiet _ _
      (by rw [TxValidator.marked_sealed, withCallback_sealed, htx]) (henter hyes)
    exact (hreserve.trans henter).trans (eraseMissed_reaches cfg hquiet _ tx.hash)

/-! ### Removals -/

omit hquiet in
/-- A removal is one write, also where there is nothing to remove. -/
theorem removeWithoutLock_reaches (txHash : HashType) (hleave : C s (.leave txHash)) :
    Reaches (write cfg) C s (s.removeWithoutLock txHash).1 :=
  reaches_single hleave

/-- With a report behind it where it is a call of its own. -/
theorem remove_reaches (txHash : HashType) (hleave : C s (.leave txHash)) :
    Reaches (write cfg) C s (s.remove cfg txHash).1 :=
  (removeWithoutLock_reaches cfg s txHash hleave).trans (notify_reaches cfg hquiet _)

/-- The receipt of a removal that has found its transaction is set aside. -/
theorem notifyRemoved_reaches {removed : MemoryStorage × Option Transaction}
    (hrem : Reaches (write cfg) C s removed.1) (txSubmitResult : TransactionSubmitResult) :
    Reaches (write cfg) C s (match removed with
      | (s, none) => (s, (none : Option Transaction))
      | (s, some tx) => (s.notifyTxResult tx txSubmitResult, some tx)).1 := by
  rcases removed with ⟨s', _ | tx⟩
  · exact hrem
  · exact hrem.trans (notifyTxResult_reaches cfg hquiet s' tx txSubmitResult)

/-- A removal for a result, and the receipt of what was found. -/
theorem removeSubmittedTxWithoutLock_reaches (txSubmitResult : TransactionSubmitResult)
    (hleave : C s (.leave txSubmitResult.txHash)) :
    Reaches (write cfg) C s (s.removeSubmittedTxWithoutLock txSubmitResult).1 :=
  notifyRemoved_reaches cfg hquiet s (removeWithoutLock_reaches cfg s txSubmitResult.txHash hleave)
    txSubmitResult

/-- The same with the report in between. -/
theorem removeSubmittedTx_reaches (txSubmitResult : TransactionSubmitResult)
    (hleave : C s (.leave txSubmitResult.txHash)) :
    Reaches (write cfg) C s (s.removeSubmittedTx cfg txSubmitResult).1 :=
  notifyRemoved_reaches cfg hquiet s (remove_reaches cfg hquiet s txSubmitResult.txHash hleave)
    txSubmitResult

/-- A turn of the loop of a block result. Which nonce it collects is no matter
    of the pool. -/
theorem batchRemoveTx_reaches (acc : MemoryStorage × NonceList)
    (txResult : TransactionSubmitResult) (hleave : C acc.1 (.leave txResult.txHash)) :
    Reaches (write cfg) C acc.1 (batchRemoveTx acc txResult).1 := by
  have hrem := removeSubmittedTxWithoutLock_reaches cfg hquiet acc.1 txResult hleave
  unfold batchRemoveTx
  split
  next s' tx heq =>
    rw [heq] at hrem
    exact hrem
  next s' heq =>
    rw [heq] at hrem
    exact hrem

/-- The locked section of a block result removes what it names. -/
theorem batchRemoveTxs_reaches (batchId : Int) (txsResult : List TransactionSubmitResult)
    (hleave : ∀ s : MemoryStorage, ∀ r ∈ txsResult, C s (.leave r.txHash)) :
    Reaches (write cfg) C s (s.batchRemoveTxs batchId txsResult).1 := by
  have hloop := reaches_foldl (write cfg) (C := C) Prod.fst batchRemoveTx txsResult
    (fun acc r hr => batchRemoveTx_reaches cfg hquiet acc r (hleave acc.1 r hr)) (s, [])
  -- After the loop the block number is raised, if the block is a new one.
  refine hloop.trans ?_
  unfold batchRemoveTxs
  simp only
  split
  · exact aside_reaches cfg hquiet _ _ batchId _
  · exact reaches_refl C _

/-- A block result removes what it names, records its nonces in the ledger
    checker and releases them. -/
theorem batchRemove_reaches (batchId : Int) (txsResult : List TransactionSubmitResult)
    (hleave : ∀ s : MemoryStorage, ∀ r ∈ txsResult, C s (.leave r.txHash))
    (hrecord : ∀ s' : MemoryStorage, C s' (.record batchId (s.blockNonces txsResult)))
    (hrelease : ∀ s' : MemoryStorage, C s' (.release (s.blockNonces txsResult))) :
    Reaches (write cfg) C s (s.batchRemove cfg batchId txsResult) := by
  have htxs := (batchRemoveTxs_reaches cfg hquiet s batchId txsResult hleave).trans
    (notify_reaches cfg hquiet _)
  exact (htxs.trans (reaches_single (hrecord _))).trans (reaches_single (hrelease _))

/-- The cleanup removes the invalid transactions and releases the nonces set
    aside with them. -/
theorem removeInvalidTxs_reaches
    (hleave : ∀ s' : MemoryStorage, ∀ txHash, txHash ∈ s.invalidTxs → C s' (.leave txHash))
    (hrelease : ∀ s' : MemoryStorage, C s' (.release s.invalidNonces.toList))
    (hclear : ∀ s' : MemoryStorage, C s' (.invalidate SortedSet.empty SortedSet.empty)) :
    Reaches (write cfg) C s (s.removeInvalidTxs cfg) := by
  have hloop := reaches_foldl (write cfg) (C := C) id
    (fun s txHash => (s.removeSubmittedTxWithoutLock
      { txHash := txHash, status := .blockLimitCheckFail }).1) s.invalidTxs.toList
    (fun s' txHash hmem => removeSubmittedTxWithoutLock_reaches cfg hquiet s'
      { txHash := txHash, status := .blockLimitCheckFail } (hleave s' txHash hmem)) s
  -- With nothing set aside the call returns at once.
  unfold removeInvalidTxs
  split
  · exact reaches_refl C s
  · exact ((hloop.trans (notify_reaches cfg hquiet _)).trans (reaches_single (hrelease _))).trans
      (reaches_single (hclear _))

/-! ### Seals and marks -/

/-- The walk of a seal sets aside what is on chain or expired and seals what it
    hands out. -/
theorem fetchLoop_reaches (txsLimit : Nat) (avoidTxs : HashList) (avoidDuplicate : Bool)
    (honChain : ∀ (s : MemoryStorage) txHash tx, s.txsTable.find? txHash = some tx →
      s.fetchDecision avoidTxs avoidDuplicate tx = .onChain →
      C (write cfg s (.change txHash .dropCallback))
        (.invalidate ((s.invalidTxs.insert txHash).insert (nonceToHash tx.nonce))
          s.invalidNonces))
    (hexpired : ∀ (s : MemoryStorage) txHash tx, s.txsTable.find? txHash = some tx →
      s.fetchDecision avoidTxs avoidDuplicate tx = .expired →
      C s (.invalidate (s.invalidTxs.insert txHash) (s.invalidNonces.insert tx.nonce)))
    (hseal : ∀ (s : MemoryStorage) txHash tx, s.txsTable.find? txHash = some tx →
      s.fetchDecision avoidTxs avoidDuplicate tx = .fetch →
      C s (.change txHash (.setSeal (-1) 0)))
    (order : HashList) :
    ∀ (s : MemoryStorage) (f : FetchedTxs),
      Reaches (write cfg) C s (fetchLoop txsLimit avoidTxs avoidDuplicate order s f).1 := by
  -- The induction is on the order of the walk, for all pools and all that has been
  -- fetched.
  induction order with
  | nil => exact fun s _ => reaches_refl C s
  | cons txHash order ih =>
      intro s f
      unfold fetchLoop
      cases hfind : s.txsTable.find? txHash with
      | none => exact ih s f
      | some tx =>
          simp only
          cases hdecision : s.fetchDecision avoidTxs avoidDuplicate tx with
          | skip => exact ih s f
          | onChain =>
              -- Two writes: the callback is dropped, then the hash is set aside.
              have hdrop : Reaches (write cfg) C _ _ :=
                reaches_single (hquiet s (.change txHash .dropCallback) trivial)
              have hset : Reaches (write cfg) C _ _ :=
                reaches_single (honChain s txHash tx hfind hdecision)
              rw [change_of_quiet cfg s txHash .dropCallback trivial] at hdrop hset
              exact (hdrop.trans hset).trans (ih _ f)
          | expired =>
              -- One write, to the two sets of the cleanup.
              have hset : Reaches (write cfg) C _ _ :=
                reaches_single (hexpired s txHash tx hfind hdecision)
              exact hset.trans (ih _ f)
          | fetch =>
              have hseal : Reaches (write cfg) C _ _ :=
                reaches_single (hseal s txHash tx hfind hdecision)
              rw [change_of_find?_some cfg s hfind] at hseal
              simp only [Change.apply, flippedSize_true] at hseal
              -- The limit is tested after the seal, so the last one handed out counts.
              simp only
              split
              · exact hseal
              · exact hseal.trans (ih _ _)

omit hquiet in
/-- A mark writes the seal of the entry it names, unless it is blocked or the
    hash is not pooled. -/
theorem batchMarkTx_reaches (batchId : Int) (batchHash : HashType) (sealFlag : Bool)
    (txHash : HashType)
    (hmark : ∀ tx, s.txsTable.find? txHash = some tx → ¬ MarkBlocked batchHash sealFlag tx →
      C s (.change txHash (if sealFlag then .setSeal batchId batchHash else .clearSeal))) :
    Reaches (write cfg) C s (s.batchMarkTx batchId batchHash sealFlag txHash) := by
  rcases s.batchMarkTx_cases batchId batchHash sealFlag txHash with
    ⟨_, he⟩ | ⟨_, _, _, he⟩ | ⟨tx, hfind, hopen, he⟩
  · rw [he]
    exact reaches_refl C s
  · rw [he]
    exact reaches_refl C s
  · rw [he]
    have hmark : Reaches (write cfg) C _ _ := reaches_single (hmark tx hfind hopen)
    rw [change_of_find?_some cfg s hfind] at hmark
    cases sealFlag with
    | true => exact hmark
    | false => exact hmark

omit hquiet in
/-- And a call marks the hashes it is given one after the other. -/
theorem batchMarkTxs_reaches (txsHashList : HashList) (batchId : Int) (batchHash : HashType)
    (sealFlag : Bool)
    (hmark : ∀ s : MemoryStorage, ∀ txHash ∈ txsHashList, ∀ tx,
      s.txsTable.find? txHash = some tx → ¬ MarkBlocked batchHash sealFlag tx →
      C s (.change txHash (if sealFlag then .setSeal batchId batchHash else .clearSeal))) :
    Reaches (write cfg) C s (s.batchMarkTxs txsHashList batchId batchHash sealFlag) :=
  reaches_foldl (write cfg) id (batchMarkTx batchId batchHash sealFlag) txsHashList
    (fun s txHash hmem => batchMarkTx_reaches cfg s batchId batchHash sealFlag txHash
      (hmark s txHash hmem)) s

/-- A reset writes all entries at once, and the counter with them. -/
theorem batchMarkAllTxs_reaches (sealFlag : Bool) (hmark : C s (.markAll sealFlag)) :
    Reaches (write cfg) C s (s.batchMarkAllTxs cfg sealFlag) := by
  have hmark : Reaches (write cfg) C _ _ := reaches_single hmark
  have hsize := s.txsTable.size_modifyAll (markAny sealFlag)
    (markAny_hash sealFlag)
  unfold batchMarkAllTxs
  refine Reaches.trans ?_ (notify_reaches cfg hquiet _)
  -- The source sets the counter to the size of the table, which a mark does not
  -- change.
  cases sealFlag with
  | true =>
      simp only [write, if_true] at hmark
      simp only [if_true, hsize]
      exact hmark
  | false => exact hmark

/-! ### Gossip -/

/-- A known node is a quiet change of one entry. -/
theorem appendKnownNode_reaches (txHash : HashType) (node : NodeID) :
    Reaches (write cfg) C s (s.appendKnownNode txHash node) := by
  have hknow : Reaches (write cfg) C _ _ :=
    reaches_single (hquiet s (.change txHash (.know node)) trivial)
  rw [change_of_quiet cfg s txHash (.know node) trivial] at hknow
  exact hknow

/-- The search for unknown hashes notes the peer on the known ones, and it may
    empty the set of missed hashes at its end. -/
theorem filterUnknownTxs_reaches (txsHashList : HashList) (peer : NodeID) :
    Reaches (write cfg) C s (s.filterUnknownTxs cfg txsHashList peer).1 := by
  have hknown := reaches_foldl (write cfg) (C := C) id
    (fun s txHash => appendKnownNode s txHash peer) txsHashList
    (fun s txHash _ => appendKnownNode_reaches cfg hquiet s txHash peer) s
  -- The second loop writes only to the missed hashes.
  have hturn : ∀ (acc : MemoryStorage × HashList) (txHash : HashType), txHash ∈ txsHashList →
      Reaches (write cfg) C acc.1 (filterUnknownTx acc txHash).1 := by
    intro acc txHash _
    unfold filterUnknownTx
    split
    · exact reaches_refl C acc.1
    · split
      · exact reaches_refl C acc.1
      · exact aside_reaches cfg hquiet acc.1 _ acc.1.blockNumber acc.1.receipts
  have hunknown := hknown.trans (reaches_foldl (write cfg) Prod.fst filterUnknownTx txsHashList
    hturn (_, []))
  unfold filterUnknownTxs
  simp only
  split
  · exact hunknown.trans (aside_reaches cfg hquiet _ SortedSet.empty _ _)
  · exact hunknown

/-- A fetch for gossip marks entries as synced, which is quiet as well. -/
theorem fetchNewTxs_reaches (txsLimit : Nat) (order : HashList) :
    ∀ (s : MemoryStorage) (fetchedTxs : List Transaction),
      Reaches (write cfg) C s (fetchNewTxs txsLimit order s fetchedTxs).1 := by
  induction order with
  | nil => exact fun s _ => reaches_refl C s
  | cons txHash order ih =>
      intro s fetchedTxs
      have hsync : Reaches (write cfg) C _ _ :=
        reaches_single (hquiet s (.change txHash .sync) trivial)
      rw [change_of_quiet cfg s txHash .sync trivial] at hsync
      unfold fetchNewTxs
      cases s.txsTable.find? txHash with
      | none => exact ih s fetchedTxs
      | some tx =>
          simp only
          split
          · exact ih s fetchedTxs
          -- What is fetched is marked synced, whether or not the walk goes on.
          · split
            · exact hsync
            · exact hsync.trans (ih _ _)

end MemoryStorage

end BcosTxPool
