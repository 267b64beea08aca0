import BcosTxPool.Theory.Frames

/-!
# A Submission, All or Nothing

What one normal submission does to the pool, whatever the pool is. Eight
checks can reject it, and one of them also writes: the txpool checker reserves
the nonce as it finds it free. It is the last one, and the only call behind it
is the insertion, which fails on a hash that is taken. The storage check has
found the hash free by then. So a rejected submission leaves no trace, and an
accepted one has done everything it is there for.

## Main definitions

* `submittedEntry`: The entry that a submission makes.
* `Submitted`: What an accepted submission found and what it did.

## Theorems

* `verifyAndSubmitTransaction_submitted`: An accepted submission.
* `verifyAndSubmitTransaction_all_or_nothing`: A submission does all of this or
  nothing.
-/

namespace BcosTxPool

open Library

namespace MemoryStorage

variable (cfg : TxPoolConfig)

/-- The entry that a submission of a freshly decoded transaction makes: its
    content, the callback of the client and the mark of a system transaction. No
    other flag is set. -/
def submittedEntry (data : TxData) (txSubmitCallback : Option TxSubmitCallback) : Transaction where
  toTxData := data
  systemTx := TxValidator.isSystemTransaction cfg.framework (createTransaction data)
  submitCallback := txSubmitCallback

/-- The object that the checks pass on is that entry. The source marks the
    transaction in the validator and hangs the callback on it before that. -/
theorem marked_withCallback (data : TxData) (txSubmitCallback : Option TxSubmitCallback) :
    TxValidator.marked cfg.framework (withCallback (createTransaction data) txSubmitCallback)
      = submittedEntry cfg data txSubmitCallback := by
  -- The mark depends on the address, which the callback leaves alone.
  have hmark : TxValidator.isSystemTransaction cfg.framework
      (withCallback (createTransaction data) txSubmitCallback)
      = TxValidator.isSystemTransaction cfg.framework (createTransaction data) := by
    unfold TxValidator.isSystemTransaction
    rw [withCallback_toTxData]
  have hentry : withCallback (createTransaction data) txSubmitCallback
      = { toTxData := data, submitCallback := txSubmitCallback } := by
    cases txSubmitCallback with
    | none => rfl
    | some callback => rfl
  rw [TxValidator.marked, hmark, hentry, submittedEntry]
  -- The mark is written only where it is true, and it was false before.
  cases TxValidator.isSystemTransaction cfg.framework (createTransaction data) with
  | true => rfl
  | false => rfl

/-- An accepted submission. The pool had room, the hash and the nonce were free
    and the block limit was open; afterwards the entry is there, the nonce is
    reserved and the hash is missed no longer. The rest is as it was, but for the
    gossip flag, the report to the sealer and a counter that had run ahead. -/
structure Submitted (s s' : MemoryStorage) (data : TxData)
    (txSubmitCallback : Option TxSubmitCallback) : Prop where
  room : s.size < cfg.poolLimit
  free : s.txsTable.find? data.hash = none
  txPoolNonce : ¬ data.nonce ∈ s.txPoolNonceChecker.nonceCache
  ledgerNonce : ¬ data.nonce ∈ s.ledgerNonceChecker.nonceCache
  above : s.ledgerNonceChecker.blockNumber < data.blockLimit
  within : data.blockLimit ≤ s.ledgerNonceChecker.blockNumber + s.ledgerNonceChecker.blockLimit
  entry : ∀ txHash, s'.txsTable.find? txHash
    = if data.hash = txHash then some (submittedEntry cfg data txSubmitCallback)
      else s.txsTable.find? txHash
  size : s'.size = s.size + 1
  reserved : ∀ nonce, nonce ∈ s'.txPoolNonceChecker.nonceCache ↔
    nonce ∈ s.txPoolNonceChecker.nonceCache ∨ nonce = data.nonce
  missed : ∀ txHash, txHash ∈ s'.missedTxs ↔ txHash ∈ s.missedTxs ∧ txHash ≠ data.hash
  counter : s.sealedTxsSize ≤ s.size → s'.sealedTxsSize = s.sealedTxsSize
  rest : s' = { s with
    txsTable := s'.txsTable
    txPoolNonceChecker := s'.txPoolNonceChecker
    missedTxs := s'.missedTxs
    sealedTxsSize := s'.sealedTxsSize
    newTransactions := true
    reports := s'.reports }

/-- What an accepted submission found and what it did. -/
theorem verifyAndSubmitTransaction_submitted (s : MemoryStorage) (data : TxData)
    (txSubmitCallback : Option TxSubmitCallback)
    (h : Submittable cfg s (createTransaction data)) :
    Submitted cfg s
      (s.verifyAndSubmitTransaction cfg (createTransaction data) txSubmitCallback).1 data
      txSubmitCallback := by
  have honchain := h.accepted.onChain
  rw [TxValidator.submittedToChain_eq_none_iff] at honchain
  rcases s.verifyAndSubmitTransaction_cases cfg (createTransaction data) txSubmitCallback with
    ⟨hno, _⟩ | ⟨_, heq⟩
  · exact absurd h hno
  have hfree : s.txsTable.find? (submittedEntry cfg data txSubmitCallback).hash = none := h.free
  have hsize := s.txsTable.size_insert _ hfree
  have hcounter := notifyUnsealedTxsSize_sealedTxsSize cfg { s with
    txPoolNonceChecker := s.txPoolNonceChecker.insert data.nonce
    txsTable := s.txsTable.insert (submittedEntry cfg data txSubmitCallback)
    newTransactions := true }
  rcases inserted_eq cfg { s with txPoolNonceChecker := s.txPoolNonceChecker.insert data.nonce }
    (submittedEntry cfg data txSubmitCallback) with ⟨n, reports, hins⟩
  -- The report may set the counter; that is its only effect on the pool.
  have hn : s.sealedTxsSize ≤ s.size → n = s.sealedTxsSize := by
    intro hle
    have hclamped : n = _ := (congrArg MemoryStorage.sealedTxsSize hins).symm.trans hcounter
    rw [hclamped, hsize]
    split
    · exact min_eq_left (hle.trans (Nat.le_succ _))
    · rfl
  rw [heq, marked_withCallback]
  simp only [createTransaction, hins, eraseMissed]
  -- What it found, and then what it did: the entry, the nonce, the hash no longer
  -- missed.
  refine ⟨h.room, h.free, h.accepted.nonce, honchain.1, honchain.2.1, honchain.2.2,
    fun txHash => ?_, hsize, fun nonce => ?_, fun txHash => ?_, hn, rfl⟩
  · exact s.txsTable.find?_insert _ txHash hfree
  · simp only
    rw [TxPoolNonceChecker.mem_insert, or_comm]
  · simp only
    rw [SortedSet.mem_erase]

/-- A submission of a freshly decoded transaction, alone. Where the status is not
    `None` the pool is what it was; where it is, the submission has done all it
    must and nothing else. -/
theorem verifyAndSubmitTransaction_all_or_nothing (cfg : TxPoolConfig) (s : MemoryStorage)
    (data : TxData) (txSubmitCallback : Option TxSubmitCallback) :
    ((s.verifyAndSubmitTransaction cfg (createTransaction data) txSubmitCallback).2 ≠ .none →
      (s.verifyAndSubmitTransaction cfg (createTransaction data) txSubmitCallback).1 = s) ∧
    ((s.verifyAndSubmitTransaction cfg (createTransaction data) txSubmitCallback).2 = .none →
      Submitted cfg s
        (s.verifyAndSubmitTransaction cfg (createTransaction data) txSubmitCallback).1 data
        txSubmitCallback) := by
  refine ⟨fun hrejected => ?_, fun haccepted => ?_⟩
  · -- A rejection is one of the two outcomes, and its pool is the one it began
    -- with.
    rcases s.verifyAndSubmitTransaction_cases cfg (createTransaction data) txSubmitCallback with
      ⟨_, _, hsame⟩ | ⟨_, heq⟩
    · exact hsame
    · rw [heq] at hrejected
      exact absurd rfl hrejected
  · rw [verifyAndSubmitTransaction_snd_eq_none_iff] at haccepted
    exact verifyAndSubmitTransaction_submitted cfg s data txSubmitCallback haccepted

/-- A client's transaction is accepted once and rejected the second time, with its
    nonce reserved and the pool as it was. -/
theorem verifyAndSubmitTransaction_all_or_nothing_twice :
    Submitted TxPool.exampleConfig TxPool.examplePool
        (TxPool.examplePool.verifyAndSubmitTransaction TxPool.exampleConfig
          (createTransaction (TxPool.exampleTx 4 7 1)) (some 0)).1 (TxPool.exampleTx 4 7 1)
        (some 0) ∧
      ((TxPool.examplePool.verifyAndSubmitTransaction TxPool.exampleConfig
          (createTransaction (TxPool.exampleTx 4 7 1)) (some 0)).1.verifyAndSubmitTransaction
        TxPool.exampleConfig (createTransaction (TxPool.exampleTx 5 7 1)) none).1
        = (TxPool.examplePool.verifyAndSubmitTransaction TxPool.exampleConfig
          (createTransaction (TxPool.exampleTx 4 7 1)) (some 0)).1 :=
  ⟨(verifyAndSubmitTransaction_all_or_nothing TxPool.exampleConfig TxPool.examplePool
      (TxPool.exampleTx 4 7 1) (some 0)).2 (by decide),
    (verifyAndSubmitTransaction_all_or_nothing TxPool.exampleConfig _
      (TxPool.exampleTx 5 7 1) none).1 (by decide)⟩

end MemoryStorage

end BcosTxPool
