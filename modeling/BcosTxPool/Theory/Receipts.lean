import BcosTxPool.Theory.Walk

/-!
# Receipts

What becomes of a submit callback. A client hands it over with a transaction,
and it is to be invoked once: with an error if the submission is rejected, and
with the result when the transaction leaves the pool.

A callback is in one of two places. Either a pooled transaction holds it, or
it has been invoked. `Held` says so with a set of hashes and a number, and the
theorems follow the two through every call. Submissions, marks and seals leave
both alone. A removal takes a hash out of the set and adds one to the number,
and it is the only thing to do so.

There is one exception. A seal that meets a transaction whose nonce is on the
ledger takes the callback away, since it expects the same transaction to be
answered by its block. If another transaction brought the nonce there, nothing
answers the client any more.

## Main definitions

* `answers`: How often a callback has been invoked.
* `Holds`: An entry holds a callback.
* `Held`: The hashes that hold it, and the number of answers.
* `KeepsCallback`: The condition on operations.
* `Pending`: A submission was accepted and has not left the pool.

## Theorems

* `step_settled`, `step_waiting`: One operation.
* `answered_once`: No answer while pending, and one otherwise.
-/

namespace BcosTxPool

open Library

namespace MemoryStorage

variable (cfg : TxPoolConfig) (cb : TxSubmitCallback)

/-- How often a callback has been invoked or queued on the notifier. The
    notifier invokes what was queued, so the two are not told apart. -/
def answers (s : MemoryStorage) : Nat := s.receipts.countP (fun r => r.callback = cb)

/-- The entry holds the callback, and will hand it to the notifier when it is
    removed. -/
def Holds (s : MemoryStorage) (txHash : HashType) : Prop :=
  ∃ tx, s.txsTable.find? txHash = some tx ∧ tx.submitCallback = some cb

/-- The callback is held by the entries of `P` and has been invoked `n` times.
    The theorems below say how a call changes the two. -/
structure Held (P : HashType → Prop) (n : Nat) (s : MemoryStorage) : Prop where
  answered : answers cb s = n
  holds : ∀ txHash, Holds cb s txHash ↔ P txHash

/-- The two states have the same callbacks in the same entries, and the same
    receipts. -/
structure SameClients (s s' : MemoryStorage) : Prop where
  callbacks : ∀ txHash, (s'.txsTable.find? txHash).map (fun tx => tx.submitCallback)
    = (s.txsTable.find? txHash).map (fun tx => tx.submitCallback)
  receipts : s'.receipts = s.receipts

variable {cb}

theorem SameClients.refl (s : MemoryStorage) : SameClients s s := ⟨fun _ => rfl, rfl⟩

theorem SameClients.trans {s s' s'' : MemoryStorage} (h : SameClients s s')
    (h' : SameClients s' s'') : SameClients s s'' :=
  ⟨fun txHash => (h'.callbacks txHash).trans (h.callbacks txHash), h'.receipts.trans h.receipts⟩

/-- A change of one entry that leaves its callback alone. Seals, marks and notes
    of peers are of this kind. -/
theorem SameClients.of_modify {s s' : MemoryStorage} {txHash : HashType}
    (f : Transaction → Transaction) (hf : ∀ tx, (f tx).hash = tx.hash)
    (htable : s'.txsTable = s.txsTable.modify txHash f hf)
    (hcallback : ∀ tx, (f tx).submitCallback = tx.submitCallback)
    (hreceipts : s'.receipts = s.receipts) : SameClients s s' where
  callbacks := by
    intro k
    -- At the hash changed the callback is kept, elsewhere the entry is.
    rw [htable, KeyedTable.find?_modify]
    split
    · rw [Option.map_map]
      exact Option.map_congr (fun tx _ => hcallback tx)
    · rfl
  receipts := hreceipts

/-- The same for a change of every entry. -/
theorem SameClients.of_modifyAll {s s' : MemoryStorage} (f : Transaction → Transaction)
    (hf : ∀ tx, (f tx).hash = tx.hash) (htable : s'.txsTable = s.txsTable.modifyAll f hf)
    (hcallback : ∀ tx, (f tx).submitCallback = tx.submitCallback)
    (hreceipts : s'.receipts = s.receipts) : SameClients s s' where
  callbacks := by
    intro k
    rw [htable, KeyedTable.find?_modifyAll, Option.map_map]
    exact Option.map_congr (fun tx _ => hcallback tx)
  receipts := hreceipts

/-- What every turn of a loop leaves alone, the loop leaves alone. -/
theorem SameClients.foldl {β : Type} {f : MemoryStorage → β → MemoryStorage}
    (hturn : ∀ s b, SameClients s (f s b)) (l : List β) (s : MemoryStorage) :
    SameClients s (l.foldl f s) :=
  run_invariant f (SameClients s) (fun _ => True) (fun s' b _ hs => hs.trans (hturn s' b)) l s
    (fun _ _ => trivial) (SameClients.refl s)

theorem SameClients.holds_iff {s s' : MemoryStorage} (h : SameClients s s') (txHash : HashType) :
    Holds cb s' txHash ↔ Holds cb s txHash := by
  -- Holding is a statement about the callback of what is looked up.
  have hone : ∀ t : MemoryStorage, Holds cb t txHash ↔
      (t.txsTable.find? txHash).map (fun tx => tx.submitCallback) = some (some cb) :=
    fun t => Option.map_eq_some_iff.symm
  rw [hone, hone, h.callbacks]

theorem SameClients.held {P : HashType → Prop} {n : Nat} {s s' : MemoryStorage}
    (h : SameClients s s') (hs : Held cb P n s) : Held cb P n s' where
  answered := by
    rw [answers, h.receipts]
    exact hs.answered
  holds := fun txHash => (h.holds_iff txHash).trans (hs.holds txHash)

/-! ### Calls that leave callbacks alone -/

theorem notifyUnsealedTxsSize_sameClients (s : MemoryStorage) :
    SameClients s (s.notifyUnsealedTxsSize cfg) := by
  rcases s.notifyUnsealedTxsSize_eq cfg with ⟨n, reports, heq, _⟩
  rw [heq]
  exact ⟨fun _ => rfl, rfl⟩

theorem gossip_sameClients (s : MemoryStorage) (call : Op) (hcall : GossipCall call) :
    SameClients s (step cfg s call) := by
  -- A known node and a synced mark are changes of one entry.
  refine step_gossip cfg (SameClients s) (fun t txHash node ht => ht.trans ?_)
    (fun t txHash ht => ht.trans ?_) (fun t missedTxs ht => ⟨ht.callbacks, ht.receipts⟩) hcall
    (SameClients.refl s)
  · exact SameClients.of_modify
      (fun tx => { tx with knownNodes := Insert.insert node tx.knownNodes })
      (fun _ => rfl) rfl (fun _ => rfl) rfl
  · exact SameClients.of_modify (fun tx => { tx with synced := true }) (fun _ => rfl) rfl
      (fun _ => rfl) rfl

theorem batchMarkTxs_sameClients (s : MemoryStorage) (txsHashList : HashList) (batchId : Int)
    (batchHash : HashType) (sealFlag : Bool) :
    SameClients s (s.batchMarkTxs txsHashList batchId batchHash sealFlag) := by
  refine SameClients.foldl (fun s txHash => ?_) txsHashList s
  -- A turn finds no entry, one of another proposal, or one to mark.
  rcases s.batchMarkTx_cases batchId batchHash sealFlag txHash with
    ⟨_, he⟩ | ⟨_, _, _, he⟩ | ⟨_, _, _, he⟩
  · rw [he]
    exact SameClients.refl s
  · rw [he]
    exact SameClients.refl s
  · rw [he]
    refine SameClients.of_modify (markTx batchId batchHash sealFlag)
      (markTx_hash batchId batchHash sealFlag) rfl (fun tx => ?_) rfl
    cases sealFlag with
    | true => rfl
    | false => rfl

theorem batchMarkAllTxs_sameClients (s : MemoryStorage) (sealFlag : Bool) :
    SameClients s (s.batchMarkAllTxs cfg sealFlag) := by
  unfold batchMarkAllTxs
  refine SameClients.trans ?_ (notifyUnsealedTxsSize_sameClients cfg _)
  cases sealFlag with
  | true =>
      exact SameClients.of_modifyAll (markAny true) (markAny_hash true) rfl (fun _ => rfl) rfl
  | false =>
      exact SameClients.of_modifyAll (markAny false) (markAny_hash false) rfl (fun _ => rfl) rfl

/-! ### Submissions -/

/-- An entry that comes in holds the callback of its submission. -/
theorem entering_submitCallback (tx : Transaction) (htx : tx.submitCallback = none)
    (txSubmitCallback : Option TxSubmitCallback) (enforceImport : Bool) :
    (entering cfg tx txSubmitCallback enforceImport).submitCallback
      = if enforceImport = true then none else txSubmitCallback := by
  cases enforceImport with
  | true => exact htx
  | false =>
      -- The mark of a system transaction is not about the callback.
      have hmarked : ∀ t, (TxValidator.marked cfg.framework t).submitCallback
          = t.submitCallback := by
        intro t
        unfold TxValidator.marked
        split
        · rfl
        · rfl
      rw [entering, hmarked]
      cases txSubmitCallback with
      | none => exact htx
      | some callback => rfl

/-- A submission with another callback, or with none, leaves this one alone,
    whatever becomes of it. -/
theorem Held.submitTransaction {P : HashType → Prop} {n : Nat} {s : MemoryStorage}
    (h : Held cb P n s) (tx : Transaction) (htx : tx.submitCallback = none)
    (txSubmitCallback : Option TxSubmitCallback) (hother : txSubmitCallback ≠ some cb)
    (enforceImport : Bool) :
    Held cb P n (s.submitTransaction cfg tx txSubmitCallback enforceImport).1 := by
  -- It brings its transaction in, or it changes flags at most.
  by_cases hadmits : Admits cfg s tx enforceImport
  · have hbrings := (s.submitTransaction_of_admits cfg tx txSubmitCallback hadmits).2
    have hcallback := entering_submitCallback cfg tx htx txSubmitCallback enforceImport
    refine ⟨by rw [answers, hbrings.receipts]; exact h.answered, fun txHash => ?_⟩
    rw [← h.holds]
    unfold Holds
    rw [hbrings.find]
    by_cases hnew : tx.hash = txHash
    · -- Neither the entry that comes in nor the free hash before holds it.
      rw [if_pos hnew, ← hnew, hadmits.free]
      refine iff_of_false (fun hc => ?_) (fun hc => ?_)
      · rcases hc with ⟨entry, hentry, hcb⟩
        rw [← Option.some.inj hentry, hcallback] at hcb
        split at hcb
        · exact absurd hcb.symm (Option.some_ne_none cb)
        · exact hother hcb
      · rcases hc with ⟨entry, hentry, _⟩
        exact absurd hentry.symm (Option.some_ne_none entry)
    · rw [if_neg hnew]
  · have hsame := s.submitTransaction_of_not_admits cfg (fun tx => tx.submitCallback) tx
      (fun _ => rfl) txSubmitCallback hadmits
    exact SameClients.held ⟨hsame.1.entries, hsame.2⟩ h

/-- The submissions of an import carry no callback, so an import leaves every
    client waiting. -/
theorem Held.importCalls {P : HashType → Prop} {n : Nat} (enforceImport : Bool)
    (txs : List UnsealedTx) (htxs : ∀ tx ∈ txs, tx.1.submitCallback = none) {s : MemoryStorage}
    (h : Held cb P n s) :
    Held cb P n (run (step cfg) s (TxPool.importCalls cfg enforceImport txs s)) := by
  -- All calls of an import are such submissions.
  refine run_invariant (step cfg) (Held cb P n)
    (fun call => ∃ tx ∈ txs, call = .submitTransaction tx none enforceImport) ?_ _ s ?_ h
  · intro t call hcall ht
    rcases hcall with ⟨tx, hmem, rfl⟩
    exact ht.submitTransaction cfg tx.1 (htxs tx hmem) none (Option.some_ne_none cb).symm
      enforceImport
  · intro call hmem
    rcases TxPool.mem_importCalls cfg enforceImport txs call s hmem with ⟨tx, htx, _, hcall⟩
    exact ⟨tx, htx, hcall⟩

/-- A receipt for the callback is an answer, and one for another is none. -/
theorem answers_append {s s' : MemoryStorage} {r : Receipt}
    (h : s'.receipts = s.receipts ++ [r]) :
    answers cb s' = answers cb s + if r.callback = cb then 1 else 0 := by
  unfold answers
  rw [h, List.countP_append, List.countP_singleton]
  simp only [decide_eq_true_eq]

theorem Held.notifyInvalidReceipt_this {P : HashType → Prop} {n : Nat} {s : MemoryStorage}
    (h : Held cb P n s) (txHash : HashType) (status : TransactionStatus) :
    Held cb P (n + 1) (s.notifyInvalidReceipt txHash status (some cb)) where
  answered := by
    rw [answers_append rfl, if_pos rfl, h.answered]
  holds := h.holds

theorem Held.notifyInvalidReceipt_other {P : HashType → Prop} {n : Nat} {s : MemoryStorage}
    (h : Held cb P n s) (txHash : HashType) (status : TransactionStatus)
    (txSubmitCallback : Option TxSubmitCallback) (hother : txSubmitCallback ≠ some cb) :
    Held cb P n (s.notifyInvalidReceipt txHash status txSubmitCallback) := by
  cases txSubmitCallback with
  | none => exact h
  | some callback =>
      refine ⟨?_, h.holds⟩
      rw [ne_eq, Option.some.injEq] at hother
      rw [answers_append rfl, if_neg hother]
      exact h.answered

/-! ### Removals -/

/-- A removal takes the entry it names, and answers the callback if this entry
    holds it. -/
theorem holds_removeSubmittedTxWithoutLock (s : MemoryStorage) (r : TransactionSubmitResult)
    (txHash : HashType) :
    Holds cb (s.removeSubmittedTxWithoutLock r).1 txHash ↔
      r.txHash ≠ txHash ∧ Holds cb s txHash := by
  rcases s.removeSubmittedTxWithoutLock_eq r with ⟨n, receipts, heq⟩
  unfold Holds
  rw [heq, KeyedTable.find?_erase]
  by_cases hthis : r.txHash = txHash
  · rw [if_pos hthis]
    refine iff_of_false (fun h => ?_) (fun h => h.1 hthis)
    rcases h with ⟨tx, htx, _⟩
    exact absurd htx.symm (Option.some_ne_none tx)
  · rw [if_neg hthis]
    exact ⟨fun h => ⟨hthis, h⟩, fun h => h.2⟩

theorem answers_remove_of_holds {s : MemoryStorage} {r : TransactionSubmitResult}
    (h : Holds cb s r.txHash) :
    answers cb (s.removeSubmittedTxWithoutLock r).1 = answers cb s + 1 := by
  rcases h with ⟨tx, hfind, hcallback⟩
  simp only [removeSubmittedTxWithoutLock, removeWithoutLock, hfind, notifyTxResult, hcallback]
  rw [answers_append rfl, if_pos rfl]

theorem answers_remove_of_not_holds {s : MemoryStorage} {r : TransactionSubmitResult}
    (h : ¬ Holds cb s r.txHash) :
    answers cb (s.removeSubmittedTxWithoutLock r).1 = answers cb s := by
  unfold removeSubmittedTxWithoutLock removeWithoutLock
  cases hfind : s.txsTable.find? r.txHash with
  | none => rfl
  | some tx =>
      simp only [notifyTxResult]
      -- The entry may hold the callback of another client, who is answered then.
      cases hcallback : tx.submitCallback with
      | none => rfl
      | some callback =>
          have hother : callback ≠ cb := by
            rintro rfl
            exact h ⟨tx, hfind, hcallback⟩
          simp only
          rw [answers_append rfl, if_neg hother]
          rfl

/-- The removal of an entry that does not hold the callback leaves it alone,
    also if another client is answered by it. -/
theorem Held.remove_other {P : HashType → Prop} {n : Nat} {s : MemoryStorage} (h : Held cb P n s)
    (r : TransactionSubmitResult) (hr : ¬ P r.txHash) :
    Held cb P n (s.removeSubmittedTxWithoutLock r).1 where
  answered := by
    rw [answers_remove_of_not_holds (fun hc => hr ((h.holds r.txHash).mp hc))]
    exact h.answered
  holds := by
    intro txHash
    rw [holds_removeSubmittedTxWithoutLock, h.holds]
    refine ⟨fun hc => hc.2, fun hc => ⟨?_, hc⟩⟩
    rintro rfl
    exact hr hc

/-- The removal of the entry that holds the callback is its answer. -/
theorem Held.remove_this {txHash : HashType} {n : Nat} {s : MemoryStorage}
    (h : Held cb (fun k => k = txHash) n s) (r : TransactionSubmitResult) (hr : r.txHash = txHash) :
    Held cb (fun _ => False) (n + 1) (s.removeSubmittedTxWithoutLock r).1 where
  answered := by
    rw [answers_remove_of_holds ((h.holds r.txHash).mpr hr), h.answered]
  holds := by
    intro k
    rw [holds_removeSubmittedTxWithoutLock, h.holds, iff_false, hr]
    exact fun hc => hc.1 hc.2.symm

theorem Held.foldl_remove_other {n : Nat} (rs : List TransactionSubmitResult) :
    ∀ s, Held cb (fun _ => False) n s → Held cb (fun _ => False) n
      (rs.foldl (fun s r => (s.removeSubmittedTxWithoutLock r).1) s) :=
  fun s h => run_invariant (fun s r => (removeSubmittedTxWithoutLock s r).1)
    (Held cb (fun _ => False) n) (fun _ => True) (fun _ r _ hs => hs.remove_other r id) rs s
    (fun _ _ => trivial) h

/-- A loop of removals answers the callback exactly if it names the entry that
    holds it. -/
theorem Held.foldl_remove {txHash : HashType} {n : Nat} (rs : List TransactionSubmitResult) :
    ∀ s, Held cb (fun k => k = txHash) n s →
      let s' := rs.foldl (fun s r => (s.removeSubmittedTxWithoutLock r).1) s
      (txHash ∈ rs.map (fun r => r.txHash) → Held cb (fun _ => False) (n + 1) s') ∧
      (¬ txHash ∈ rs.map (fun r => r.txHash) → Held cb (fun k => k = txHash) n s') := by
  -- Along the results: the first that names the entry answers, those after it find
  -- nothing under the hash.
  induction rs with
  | nil => exact fun s h => ⟨fun hc => absurd hc List.not_mem_nil, fun _ => h⟩
  | cons r rs ih =>
      intro s h
      rw [List.foldl_cons, List.map_cons]
      by_cases hr : r.txHash = txHash
      · refine ⟨fun _ => Held.foldl_remove_other rs _ (h.remove_this r hr), fun hc => ?_⟩
        exact absurd (List.mem_cons.mpr (Or.inl hr.symm)) hc
      · -- The first result names another entry.
        have hrest := ih _ (h.remove_other r hr)
        rw [List.mem_cons]
        exact ⟨fun hc => hrest.1 (hc.resolve_left (fun heq => hr heq.symm)),
          fun hc => hrest.2 (fun hin => hc (Or.inr hin))⟩

theorem foldl_batchRemoveTx_fst (rs : List TransactionSubmitResult) :
    ∀ acc : MemoryStorage × NonceList, (rs.foldl batchRemoveTx acc).1
      = rs.foldl (fun s r => (s.removeSubmittedTxWithoutLock r).1) acc.1 := by
  induction rs with
  | nil => exact fun _ => rfl
  | cons r rs ih =>
      intro acc
      rw [List.foldl_cons, List.foldl_cons, ih, batchRemoveTx_eq]

/-- The part of a block result and of a cleanup that clients see is a loop of
    removals. -/
theorem batchRemove_sameClients (s : MemoryStorage) (batchId : Int)
    (txsResult : List TransactionSubmitResult) :
    SameClients (txsResult.foldl (fun s r => (s.removeSubmittedTxWithoutLock r).1) s)
      (s.batchRemove cfg batchId txsResult) := by
  rw [← foldl_batchRemoveTx_fst txsResult (s, [])]
  have htxs : SameClients (txsResult.foldl batchRemoveTx (s, [])).1
      (s.batchRemoveTxs batchId txsResult).1 := by
    unfold batchRemoveTxs
    simp only
    split
    · exact ⟨fun _ => rfl, rfl⟩
    · exact SameClients.refl _
  -- What follows the loop is the height, the report and the nonce checkers.
  have hreport := htxs.trans (notifyUnsealedTxsSize_sameClients cfg _)
  exact ⟨hreport.callbacks, hreport.receipts⟩

/-- The result with which a cleanup removes a hash. Its status is the same for
    an expired transaction and for one whose nonce is on the ledger. -/
def cleanupResult (txHash : HashType) : TransactionSubmitResult :=
  { txHash := txHash, status := .blockLimitCheckFail }

theorem removeInvalidTxs_sameClients (s : MemoryStorage) :
    SameClients ((s.invalidTxs.toList.map cleanupResult).foldl
        (fun s r => (s.removeSubmittedTxWithoutLock r).1) s)
      (s.removeInvalidTxs cfg) := by
  rw [List.foldl_map]
  unfold removeInvalidTxs
  by_cases hempty : s.invalidTxs.size = 0
  · rw [if_pos hempty]
    have hnil : s.invalidTxs.toList = [] := List.length_eq_zero_iff.mp hempty
    rw [hnil]
    exact SameClients.refl s
  · rw [if_neg hempty]
    have hreport := notifyUnsealedTxsSize_sameClients cfg (s.invalidTxs.toList.foldl
      (fun s txHash => (s.removeSubmittedTxWithoutLock (cleanupResult txHash)).1) s)
    exact ⟨hreport.callbacks, hreport.receipts⟩

/-! ### Seals -/

/-- A seal leaves the callback alone, if it takes no entry that holds it for one
    that was answered. -/
theorem Held.batchFetchTxs {P : HashType → Prop} {n : Nat} {s : MemoryStorage}
    (h : Held cb P n s) (order : HashList) (txsLimit : Nat) (avoidTxs : HashList)
    (avoidDuplicate : Bool)
    (hcond : ∀ s' txHash tx, Visits s order txsLimit avoidTxs avoidDuplicate s' txHash tx →
      s'.fetchDecision avoidTxs avoidDuplicate tx = .onChain → Held cb P n s' →
      tx.submitCallback ≠ some cb) :
    Held cb P n (s.batchFetchTxs cfg order txsLimit avoidTxs avoidDuplicate).1 := by
  -- A walk sets entries aside for their nonce or for their limit, or hands them
  -- out. Only the first of these touches a callback.
  refine batchFetchTxs_invariant cfg (Held cb P n) ?_ ?_ ?_
    (fun _ _ _ hs => ⟨hs.answered, hs.holds⟩) h
  · intro s' txHash tx hvisit hdecision hs
    have hfree := hcond s' txHash tx hvisit hdecision hs
    refine ⟨hs.answered, fun k => ?_⟩
    rw [← hs.holds]
    unfold Holds
    rw [setAsideOnChain, KeyedTable.find?_modify]
    by_cases hthis : txHash = k
    · -- The entry had no callback of ours to take away.
      rw [if_pos hthis, ← hthis, hvisit.find]
      refine iff_of_false (fun hc => ?_) (fun hc => ?_)
      · rcases hc with ⟨entry, hentry, hcallback⟩
        rw [← Option.some.inj hentry] at hcallback
        exact absurd hcallback.symm (Option.some_ne_none cb)
      · rcases hc with ⟨entry, hentry, hcallback⟩
        rw [← Option.some.inj hentry] at hcallback
        exact hfree hcallback
    · rw [if_neg hthis]
  · exact fun s' txHash tx _ _ hs => ⟨hs.answered, hs.holds⟩
  · exact fun s' txHash tx _ _ hs => SameClients.held (SameClients.of_modify
      (fun tx => { tx with sealed := true, batchId := -1, batchHash := 0 }) (fun _ => rfl) rfl
      (fun _ => rfl) rfl) hs

end MemoryStorage

namespace TxPool

open MemoryStorage

variable {cfg : TxPoolConfig} {cb : TxSubmitCallback}

/-- A submission is accepted as the given transaction. -/
structure Accepts (cfg : TxPoolConfig) (s : MemoryStorage) (existsInGroup : Bool) (txData : Bytes)
    (data : TxData) : Prop where
  inGroup : existsInGroup = true
  decodes : cfg.framework.decodeTransaction txData = some data
  submittable : Submittable cfg s (createTransaction data)

/-- An accepted submission leaves the callback with its transaction. -/
theorem asyncSubmit_held_of_accepts {s : MemoryStorage} {n : Nat}
    (h : Held cb (fun _ => False) n s) {existsInGroup : Bool} {txData : Bytes} {data : TxData}
    (hyes : Accepts cfg s existsInGroup txData data) :
    Held cb (fun k => k = data.hash) n (asyncSubmit cfg s existsInGroup txData (some cb)) := by
  have hadmits : Admits cfg s (createTransaction data) false := hyes.submittable
  rcases s.submitTransaction_of_admits cfg (createTransaction data) (some cb) hadmits with
    ⟨hnone, hbrings⟩
  -- The submission is one call of the storage, and no receipt follows it.
  have hcalls : calls cfg s (.asyncSubmit existsInGroup txData (some cb))
      = [.submitTransaction (decoded data) (some cb) false] := by
    simp only [calls, hyes.inGroup, Bool.or_true, if_true, hyes.decodes, hnone, ne_eq,
      not_true_eq_false, if_false]
  rw [asyncSubmit_eq_run_calls, hcalls, run_cons, run_nil]
  simp only [MemoryStorage.step, decoded_val]
  refine ⟨by rw [answers, hbrings.receipts]; exact h.answered, fun k => ?_⟩
  unfold Holds
  rw [hbrings.find]
  by_cases hthis : (createTransaction data).hash = k
  · -- The new entry holds the callback of its submission.
    refine iff_of_true ⟨entering cfg (createTransaction data) (some cb) false, if_pos hthis, ?_⟩
      hthis.symm
    rw [entering_submitCallback cfg _ rfl]
    rfl
  · refine iff_of_false (fun hc => ?_) (fun hc => hthis hc.symm)
    rw [if_neg hthis] at hc
    exact (h.holds k).mp hc

/-- A rejected one answers it at once: outside the group, with bytes that do not
    decode, or by a check of the pool. -/
theorem asyncSubmit_held_of_rejects {s : MemoryStorage} {n : Nat}
    (h : Held cb (fun _ => False) n s) {existsInGroup : Bool} {txData : Bytes}
    (hno : ∀ data, ¬ Accepts cfg s existsInGroup txData data) :
    Held cb (fun _ => False) (n + 1) (asyncSubmit cfg s existsInGroup txData (some cb)) := by
  rw [asyncSubmit_eq_run_calls]
  -- The three reasons, in the order in which they are met.
  cases existsInGroup with
  | false => exact h.notifyInvalidReceipt_this 0 .requestNotBelongToTheGroup
  | true =>
      cases hdecodes : cfg.framework.decodeTransaction txData with
      | none =>
          simp only [calls, Bool.or_true, if_true, hdecodes]
          exact h.notifyInvalidReceipt_this 0 .malform
      | some data =>
          have hnot : ¬ Admits cfg s (createTransaction data) false :=
            fun hsub => hno data ⟨rfl, hdecodes, hsub⟩
          rcases s.submitTransaction_rejected cfg (createTransaction data) (some cb) hnot with
            ⟨hrejected, hsame⟩
          simp only [calls, Bool.or_true, if_true, hdecodes, if_pos hrejected, run_cons, run_nil,
            MemoryStorage.step, decoded_val]
          -- The pool is as it was, and the receipt says why.
          rw [hsame]
          exact h.notifyInvalidReceipt_this data.hash _

/-- An operation that hands the callback over. -/
def Op.Submits (cb : TxSubmitCallback) : Op → Prop
  | .asyncSubmit _ _ txSubmitCallback => txSubmitCallback = some cb
  | _ => False

/-- Another submission leaves the callback alone, whether it is accepted or
    not. -/
theorem asyncSubmit_held_other {P : HashType → Prop} {s : MemoryStorage} {n : Nat}
    (h : Held cb P n s) (existsInGroup : Bool) (txData : Bytes)
    {txSubmitCallback : Option TxSubmitCallback} (hother : txSubmitCallback ≠ some cb) :
    Held cb P n (asyncSubmit cfg s existsInGroup txData txSubmitCallback) := by
  rw [asyncSubmit_eq_run_calls]
  simp only [calls]
  split
  · split
    · exact h.notifyInvalidReceipt_other _ _ _ hother
    · rename_i data _
      have hsub := h.submitTransaction cfg (createTransaction data) rfl txSubmitCallback hother
        false
      split
      · exact hsub.notifyInvalidReceipt_other _ _ _ hother
      · exact hsub
  · exact h.notifyInvalidReceipt_other _ _ _ hother

theorem importDownloadedTxs_held {P : HashType → Prop} {s : MemoryStorage} {n : Nat}
    (h : Held cb P n s) (fromNode : NodeID) (txs : List TxData) (verifiedProposal : Option Block) :
    Held cb P n (TransactionSync.importDownloadedTxs cfg s fromNode txs verifiedProposal).1 := by
  rw [importDownloadedTxs_eq_run_calls]
  simp only [calls]
  split
  · exact h
  · refine h.importCalls cfg _ _ (fun tx htx => ?_)
    rcases List.mem_map.mp htx with ⟨data, _, rfl⟩
    exact (downloaded_flags cfg s fromNode _ data).2

/-- The condition on an operation: a seal meets no transaction that holds the
    callback and has its nonce on the ledger, unless its hash is set aside. -/
def KeepsCallback (cb : TxSubmitCallback) (s : MemoryStorage) : Op → Prop
  | .asyncSealTxs order txsLimit avoidTxs =>
      ∀ s' txHash tx, Visits s order txsLimit avoidTxs true s' txHash tx →
        tx.submitCallback = some cb → ¬ txHash ∈ s'.invalidTxs →
        ¬ tx.nonce ∈ s'.ledgerNonceChecker.nonceCache
  | _ => True

/-- A callback that no entry holds stays unheld, and gets no answer more. Here
    no condition on a seal is needed, since it can take nothing away. -/
theorem step_settled {s : MemoryStorage} {n : Nat} (h : Held cb (fun _ => False) n s) (op : Op)
    (hop : ¬ op.Submits cb) : Held cb (fun _ => False) n (step cfg s op) := by
  -- Operation by operation: a submission of another, removals, or no receipts.
  cases op with
  | asyncSubmit existsInGroup txData txSubmitCallback =>
      exact asyncSubmit_held_other h existsInGroup txData hop
  | importDownloadedTxs fromNode txs verifiedProposal =>
      exact importDownloadedTxs_held h fromNode txs verifiedProposal
  | asyncSealTxs order txsLimit avoidTxs =>
      refine h.batchFetchTxs cfg order txsLimit avoidTxs true ?_
      exact fun s' txHash tx hvisit _ hs hcallback =>
      (hs.holds txHash).mp ⟨tx, hvisit.find, hcallback⟩
  | removeInvalidTxs =>
      exact (removeInvalidTxs_sameClients cfg s).held (Held.foldl_remove_other _ s h)
  | asyncNotifyBlockResult blockNumber txsResult =>
      exact (batchRemove_sameClients cfg s blockNumber txsResult).held
        (Held.foldl_remove_other txsResult s h)
  | asyncMarkTxs txsHash sealedFlag batchId batchHash =>
      exact (batchMarkTxs_sameClients s txsHash batchId batchHash sealedFlag).held h
  | asyncResetTxPool => exact (batchMarkAllTxs_sameClients cfg s false).held h
  | filterUnknownTxs txsHashList peer =>
      exact (s.gossip_sameClients cfg (.filterUnknownTxs txsHashList peer) trivial).held h
  | fetchNewTxs order txsLimit =>
      exact (s.gossip_sameClients cfg (.fetchNewTxs order txsLimit) trivial).held h
  | appendKnownNode txHash node =>
      exact (s.gossip_sameClients cfg (.appendKnownNode txHash node) trivial).held h

/-- While its entry is there, a callback waits. It is answered when the entry
    leaves. -/
theorem step_waiting {s : MemoryStorage} {n : Nat} {txHash : HashType}
    (h : Held cb (fun k => k = txHash) n s) (op : Op) (hop : ¬ op.Submits cb)
    (hkeeps : KeepsCallback cb s op) :
    Held cb (fun k => k = txHash) n (step cfg s op) ∨
    (Held cb (fun _ => False) (n + 1) (step cfg s op) ∧
      (step cfg s op).txsTable.find? txHash = none) := by
  cases op with
  | asyncSubmit existsInGroup txData txSubmitCallback =>
      exact Or.inl (asyncSubmit_held_other h existsInGroup txData hop)
  | importDownloadedTxs fromNode txs verifiedProposal =>
      exact Or.inl (importDownloadedTxs_held h fromNode txs verifiedProposal)
  | asyncSealTxs order txsLimit avoidTxs =>
      -- A seal takes a callback only from an entry whose nonce is on chain.
      refine Or.inl (h.batchFetchTxs cfg order txsLimit avoidTxs true ?_)
      intro s' k tx hvisit hdecision _ hcallback
      rcases fetchDecision_onChain_iff.mp hdecision with ⟨hfree, honChain⟩
      rw [((KeyedTable.find?_eq_some_iff _ k tx).mp hvisit.find).2] at hfree
      exact hkeeps s' k tx hvisit hcallback hfree honChain
  | removeInvalidTxs =>
      -- A cleanup answers exactly if the hash was set aside.
      have hloop := Held.foldl_remove (s.invalidTxs.toList.map cleanupResult) s h
      have hsame := removeInvalidTxs_sameClients cfg s
      have hnames : (s.invalidTxs.toList.map cleanupResult).map (fun r => r.txHash)
          = s.invalidTxs.toList := by
        rw [List.map_map]
        exact List.map_id _
      rw [hnames, ← SortedSet.mem_def] at hloop
      by_cases hmem : txHash ∈ s.invalidTxs
      · refine Or.inr ⟨hsame.held (hloop.1 hmem), ?_⟩
        rw [step, find?_removeInvalidTxs, if_pos hmem]
      · exact Or.inl (hsame.held (hloop.2 hmem))
  | asyncNotifyBlockResult blockNumber txsResult =>
      -- A block result answers exactly if it names the hash.
      have hloop := Held.foldl_remove txsResult s h
      have hsame := batchRemove_sameClients cfg s blockNumber txsResult
      by_cases hmem : txHash ∈ txsResult.map (fun r => r.txHash)
      · refine Or.inr ⟨hsame.held (hloop.1 hmem), ?_⟩
        rw [step, asyncNotifyBlockResult, find?_batchRemove, if_pos hmem]
      · exact Or.inl (hsame.held (hloop.2 hmem))
  | asyncMarkTxs txsHash sealedFlag batchId batchHash =>
      exact Or.inl ((batchMarkTxs_sameClients s txsHash batchId batchHash sealedFlag).held h)
  | asyncResetTxPool => exact Or.inl ((batchMarkAllTxs_sameClients cfg s false).held h)
  | filterUnknownTxs txsHashList peer =>
      exact Or.inl ((s.gossip_sameClients cfg (.filterUnknownTxs txsHashList peer) trivial).held h)
  | fetchNewTxs order txsLimit =>
      exact Or.inl ((s.gossip_sameClients cfg (.fetchNewTxs order txsLimit) trivial).held h)
  | appendKnownNode txHash node =>
      exact Or.inl ((s.gossip_sameClients cfg (.appendKnownNode txHash node) trivial).held h)

/-- The transaction has been in the pool ever since, operation by operation. It
    may leave and come back, and then it has not stayed. -/
def StaysIn (cfg : TxPoolConfig) (s : MemoryStorage) (txHash : HashType) (ops : List Op) : Prop :=
  ∀ mid, mid <+: ops → (run (step cfg) s mid).txsTable.find? txHash ≠ none

theorem staysIn_concat (s : MemoryStorage) (txHash : HashType) (ops : List Op) (op : Op) :
    StaysIn cfg s txHash (ops ++ [op]) ↔
      StaysIn cfg s txHash ops ∧ (run (step cfg) s (ops ++ [op])).txsTable.find? txHash ≠ none := by
  constructor
  · intro h
    exact ⟨fun mid hmid => h mid (hmid.trans (List.prefix_append ops [op])),
      h _ List.prefix_rfl⟩
  · intro h mid hmid
    rcases List.prefix_concat_iff.mp hmid with rfl | hmid
    · exact h.2
    · exact h.1 mid hmid

/-- A waiting callback waits as long as its transaction stays, and is answered
    once when it leaves. -/
theorem held_run {s : MemoryStorage} {txHash : HashType} (h : Held cb (fun k => k = txHash) 0 s)
    (ops : List Op) (hops : ∀ op ∈ ops, ¬ op.Submits cb)
    (hkeeps : Along (step cfg) (KeepsCallback cb) s ops) :
    (StaysIn cfg s txHash ops ∧ Held cb (fun k => k = txHash) 0 (run (step cfg) s ops)) ∨
    (¬ StaysIn cfg s txHash ops ∧ Held cb (fun _ => False) 1 (run (step cfg) s ops)) := by
  -- An entry that holds the callback is there.
  have hthere : ∀ t, Held cb (fun k => k = txHash) 0 t → t.txsTable.find? txHash ≠ none := by
    intro t ht hnone
    rcases (ht.holds txHash).mpr rfl with ⟨tx, hfind, _⟩
    exact absurd (hnone.symm.trans hfind) (Option.some_ne_none tx).symm
  -- At the end of the run: waiting goes on, or it ends with one answer for good.
  refine throughout_invariant _ (fun ops =>
    (StaysIn cfg s txHash ops ∧ Held cb (fun k => k = txHash) 0 (run (step cfg) s ops)) ∨
    (¬ StaysIn cfg s txHash ops ∧ Held cb (fun _ => False) 1 (run (step cfg) s ops))) ?_ ?_ ops
    (((along_iff_throughout _ _ s ops).mp hkeeps).and_mem hops)
  · refine Or.inl ⟨fun mid hmid => ?_, h⟩
    rw [List.prefix_nil.mp hmid]
    exact hthere s h
  · intro l op hop hl
    rw [run_concat, staysIn_concat, run_concat]
    rcases hl with ⟨hstays, hwaits⟩ | ⟨hleft, hsettled⟩
    · rcases step_waiting hwaits op hop.2 hop.1 with hwaits | ⟨hsettled, hgone⟩
      · exact Or.inl ⟨⟨hstays, hthere _ hwaits⟩, hwaits⟩
      · exact Or.inr ⟨fun hc => hc.2 hgone, hsettled⟩
    · exact Or.inr ⟨fun hc => hleft hc.1, step_settled hsettled op hop.2⟩

/-- A submission is pending after further operations: it was accepted, and its
    transaction has not left the pool. -/
def Pending (cfg : TxPoolConfig) (s : MemoryStorage) (existsInGroup : Bool) (txData : Bytes)
    (cb : TxSubmitCallback) (ops : List Op) : Prop :=
  ∃ data, Accepts cfg s existsInGroup txData data ∧
    StaysIn cfg (asyncSubmit cfg s existsInGroup txData (some cb)) data.hash ops

/-- A callback that is handed over once has no answer while its submission is
    pending, and exactly one when it was rejected or its transaction has left the
    pool, in every run in which no seal afterwards meets its transaction with the
    nonce on the ledger. -/
theorem answered_once (cfg : TxPoolConfig) (cb : TxSubmitCallback) (ledger : LedgerNonceChecker)
    (pre : List Op) (existsInGroup : Bool) (txData : Bytes) (post : List Op)
    (hpre : ∀ op ∈ pre, ¬ op.Submits cb) (hpost : ∀ op ∈ post, ¬ op.Submits cb)
    (hkeeps : Along (step cfg) (KeepsCallback cb)
      (run (step cfg) { ledgerNonceChecker := ledger }
        (pre ++ [.asyncSubmit existsInGroup txData (some cb)])) post) :
    let before := run (step cfg) { ledgerNonceChecker := ledger } pre
    let s := run (step cfg) { ledgerNonceChecker := ledger }
      (pre ++ .asyncSubmit existsInGroup txData (some cb) :: post)
    (Pending cfg before existsInGroup txData cb post → answers cb s = 0) ∧
      (¬ Pending cfg before existsInGroup txData cb post → answers cb s = 1) := by
  intro before s
  have hrun : s = run (step cfg) (asyncSubmit cfg before existsInGroup txData (some cb)) post := by
    simp only [s, before, run_append, run_cons, step]
  rw [run_concat] at hkeeps
  -- At first no entry holds anything, and nobody was answered.
  have hfresh : Held cb (fun _ => False) 0 { ledgerNonceChecker := ledger } := by
    refine ⟨rfl, fun k => iff_false_intro (fun hc => ?_)⟩
    rcases hc with ⟨tx, hfind, _⟩
    exact absurd hfind.symm (Option.some_ne_none tx)
  -- Before it is handed over, no operation can bring the callback in.
  have hbefore : Held cb (fun _ => False) 0 before :=
    run_invariant (step cfg) (Held cb (fun _ => False) 0) (fun op => ¬ op.Submits cb)
      (fun t op hop ht => step_settled ht op hop) pre _ hpre hfresh
  rw [hrun]
  by_cases hyes : ∃ data, Accepts cfg before existsInGroup txData data
  · rcases hyes with ⟨data, hyes⟩
    -- The bytes decode to one content only, so it is pending as that.
    have hpending : Pending cfg before existsInGroup txData cb post ↔
        StaysIn cfg (asyncSubmit cfg before existsInGroup txData (some cb)) data.hash post := by
      refine ⟨fun h => ?_, fun h => ⟨data, hyes, h⟩⟩
      rcases h with ⟨data', hyes', hstays⟩
      rw [Option.some.inj (hyes.decodes.symm.trans hyes'.decodes)]
      exact hstays
    rw [hpending]
    rcases held_run (asyncSubmit_held_of_accepts hbefore hyes) post hpost hkeeps with
      ⟨hstays, hwaits⟩ | ⟨hleft, hsettled⟩
    · exact ⟨fun _ => hwaits.answered, fun hc => absurd hstays hc⟩
    · exact ⟨fun hc => absurd hc hleft, fun _ => hsettled.answered⟩
  · -- Rejected, the callback was answered at once.
    have hrejected := asyncSubmit_held_of_rejects hbefore (fun data hdata => hyes ⟨data, hdata⟩)
    have hafter := run_invariant (step cfg) (Held cb (fun _ => False) 1)
      (fun op => ¬ op.Submits cb) (fun t op hop ht => step_settled ht op hop) post _ hpost hrejected
    refine ⟨fun hc => ?_, fun _ => hafter.answered⟩
    rcases hc with ⟨data, hdata, _⟩
    exact absurd ⟨data, hdata⟩ hyes

/-- A pool that decodes any bytes as a transaction with hash one and nonce
    seven. -/
def decodingConfig : TxPoolConfig :=
  { exampleConfig with
    framework :=
      { exampleConfig.framework with decodeTransaction := fun _ => some (exampleTx 1 7 1) } }

/-- A transaction that is sealed and committed is answered. -/
theorem answered_once_exampleRun :
    answers 5 (run (step decodingConfig) examplePool
      [.asyncSubmit true [] (some 5), .asyncSealTxs [1] 1 [],
        .asyncNotifyBlockResult 1 [{ txHash := 1, status := .none }]]) = 1 := by
  have hkeeps : Along (step decodingConfig) (KeepsCallback 5)
      (run (step decodingConfig) examplePool [.asyncSubmit true [] (some 5)])
      [.asyncSealTxs [1] 1 [], .asyncNotifyBlockResult 1 [{ txHash := 1, status := .none }]] := by
    refine ⟨fun s' txHash tx hvisit _ _ hledger => ?_, trivial, trivial⟩
    rw [(hvisit.sameEntries fixed_toTxData).ledger] at hledger
    exact absurd hledger (Finset.notMem_empty tx.nonce)
  have hnames : ∀ op ∈ ([.asyncSealTxs [1] 1 [],
      .asyncNotifyBlockResult 1 [{ txHash := 1, status := .none }]] : List Op),
      ¬ op.Submits 5 := by
    intro op hop
    rcases List.mem_cons.mp hop with rfl | hop
    · exact id
    · rw [List.mem_singleton.mp hop]
      exact id
  refine (answered_once decodingConfig 5 examplePool.ledgerNonceChecker [] true [] _
    (fun op hop => absurd hop List.not_mem_nil) hnames hkeeps).2 (fun hpending => ?_)
  rcases hpending with ⟨data, hyes, hstays⟩
  have hdata : exampleTx 1 7 1 = data := Option.some.inj hyes.decodes
  -- After the block the transaction is gone.
  refine hstays _ List.prefix_rfl ?_
  rw [← hdata]
  decide

/-- Another transaction brings its nonce on the ledger. A seal takes its callback
    away, the cleanup removes it, and nobody is answered. -/
theorem answered_once_counterexample :
    let pending := run (step decodingConfig) examplePool [.asyncSubmit true [] (some 5)]
    let s := run (step decodingConfig) pending
      [.asyncNotifyBlockResult 1 [{ txHash := 8, status := .none, nonce := 7 }],
        .asyncSealTxs [1] 1 [], .removeInvalidTxs]
    pending.txsTable.find? 1 ≠ none ∧ answers 5 pending = 0 ∧
      s.txsTable.find? 1 = none ∧ answers 5 s = 0 := by
  decide

end TxPool

end BcosTxPool
