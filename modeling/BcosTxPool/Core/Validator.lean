import BcosTxPool.Core.NonceChecker

/-!
# Transaction Validator

The checks of a normal submission, in the order in which the source makes
them: the invalid mark, the group, the chain, the ledger checker, the
signature, and last the txpool checker. The last one reserves the nonce, and
nothing can fail after it, so a rejected transaction reserves nothing.

An enforced submission runs `submittedToChain` alone, and acts on one of the
two failures it can report.

## Main definitions

* `systemTxsAddress`: The addresses that make a transaction a system one.
* `submittedToChain`: The check against the ledger.
* `verify`: All checks of a normal submission.
* `Accepted`: What an accepted transaction went through.

## Theorems

* `submittedToChain_eq_nonceCheckFail_iff`: That check fails on the nonce
  exactly when the ledger checker holds it.
* `submittedToChain_eq_none_iff`: When it passes.
* `verify_cases`: A rejected transaction leaves everything alone, an accepted
  one passed every check and has its nonce reserved.
-/

namespace BcosTxPool

namespace TxValidator

/-- `m_systemTxsAddress`: the addresses of three system contracts and the names
    of two of them. A transaction sent to any of these is a system one. -/
def systemTxsAddress (fw : Framework) : List String :=
  [fw.sysConfigAddress, fw.consensusAddress, fw.workingSealerMgrAddress, fw.sysConfigName,
    fw.consensusName]

/-- `TxValidator::isSystemTransaction`, by the address the transaction is sent
    to. Only a normal submission asks it. -/
def isSystemTransaction (fw : Framework) (tx : Transaction) : Bool :=
  tx.toAddress ∈ systemTxsAddress fw

/-- `TxValidator::submittedToChain`: the ledger checker without update. It is
    made at submission and again when the transaction is sealed. -/
def submittedToChain (ledger : LedgerNonceChecker) (tx : Transaction) : TransactionStatus :=
  (ledger.checkNonce tx false).1

/-- `TxValidator::verify`: the status, the txpool checker and the transaction
    with its system mark. -/
def verify (cfg : TxPoolConfig) (ledger : LedgerNonceChecker) (pool : TxPoolNonceChecker)
    (tx : Transaction) : TransactionStatus × TxPoolNonceChecker × Transaction :=
  if tx.invalid then (.invalidSignature, pool, tx)
  else if tx.groupId ≠ cfg.groupId then (.invalidGroupId, pool, tx)
  else if tx.chainId ≠ cfg.chainId then (.invalidChainId, pool, tx)
  else if submittedToChain ledger tx ≠ .none then (submittedToChain ledger tx, pool, tx)
  else if !cfg.framework.verify tx.toTxData then (.invalidSignature, pool, tx)
  else
    -- The last check is the one that writes.
    match pool.checkNonce tx true with
    | (.none, reserved) =>
        -- Only an accepted transaction gets its system mark.
        if isSystemTransaction cfg.framework tx then (.none, reserved, { tx with systemTx := true })
        else (.none, reserved, tx)
    | (status, unchanged) => (status, unchanged, tx)

theorem submittedToChain_eq (ledger : LedgerNonceChecker) (tx : Transaction) :
    submittedToChain ledger tx
      = if tx.nonce ∈ ledger.nonceCache then .nonceCheckFail else ledger.checkBlockLimit tx := by
  rw [submittedToChain, ledger.checkNonce_eq]

theorem submittedToChain_eq_nonceCheckFail_iff (ledger : LedgerNonceChecker) (tx : Transaction) :
    submittedToChain ledger tx = .nonceCheckFail ↔ tx.nonce ∈ ledger.nonceCache := by
  rw [submittedToChain_eq]
  by_cases hmem : tx.nonce ∈ ledger.nonceCache
  · rw [if_pos hmem]
    exact ⟨fun _ => hmem, fun _ => rfl⟩
  · rw [if_neg hmem]
    -- With a new nonce the status is that of the block limit, never this one.
    exact ⟨fun h => absurd h (ledger.checkBlockLimit_ne_nonceCheckFail tx),
      fun h => absurd h hmem⟩

/-- The transaction passes the ledger check exactly when its nonce is not
    cached and its block limit is open. -/
theorem submittedToChain_eq_none_iff (ledger : LedgerNonceChecker) (tx : Transaction) :
    submittedToChain ledger tx = .none ↔ ¬ tx.nonce ∈ ledger.nonceCache ∧
      ledger.blockNumber < tx.blockLimit ∧
      tx.blockLimit ≤ ledger.blockNumber + ledger.blockLimit := by
  rw [submittedToChain_eq]
  by_cases hmem : tx.nonce ∈ ledger.nonceCache
  · rw [if_pos hmem]
    exact ⟨(fun h => by cases h), fun h => absurd hmem h.1⟩
  · rw [if_neg hmem, ledger.checkBlockLimit_eq_none_iff]
    exact ⟨fun h => ⟨hmem, h⟩, fun h => h.2⟩

/-- The transaction as `verify` returns it on success. The flag is set and never
    cleared here, so an object that arrives with it keeps it. -/
def marked (fw : Framework) (tx : Transaction) : Transaction :=
  if isSystemTransaction fw tx then { tx with systemTx := true } else tx

/-- What a transaction accepted by `verify` went through: one field for each
    check, in the order in which the source makes them. -/
structure Accepted (cfg : TxPoolConfig) (ledger : LedgerNonceChecker) (pool : TxPoolNonceChecker)
    (tx : Transaction) : Prop where
  valid : tx.invalid = false
  group : tx.groupId = cfg.groupId
  chain : tx.chainId = cfg.chainId
  onChain : submittedToChain ledger tx = .none
  signature : cfg.framework.verify tx.toTxData = true
  nonce : ¬ tx.nonce ∈ pool.nonceCache

/-- A rejected transaction failed a check and leaves everything as it was; an
    accepted one passed every check, and its nonce is reserved. -/
theorem verify_cases (cfg : TxPoolConfig) (ledger : LedgerNonceChecker)
    (pool : TxPoolNonceChecker) (tx : Transaction) :
    (¬ Accepted cfg ledger pool tx ∧
      ∃ status, status ≠ .none ∧ verify cfg ledger pool tx = (status, pool, tx)) ∨
    (Accepted cfg ledger pool tx ∧
      verify cfg ledger pool tx = (.none, pool.insert tx.nonce, marked cfg.framework tx)) := by
  unfold verify
  -- One case for each check, in the order of the source: the first that fails decides the status,
  -- and its field of `Accepted` is refuted.
  by_cases hinv : tx.invalid = true
  · rw [if_pos hinv]
    exact Or.inl ⟨fun h => absurd (hinv.symm.trans h.valid) (by decide), _, by decide, rfl⟩
  rw [if_neg hinv]
  by_cases hgroup : tx.groupId ≠ cfg.groupId
  · rw [if_pos hgroup]
    exact Or.inl ⟨fun h => hgroup h.group, _, by decide, rfl⟩
  rw [if_neg hgroup]
  by_cases hchain : tx.chainId ≠ cfg.chainId
  · rw [if_pos hchain]
    exact Or.inl ⟨fun h => hchain h.chain, _, by decide, rfl⟩
  rw [if_neg hchain]
  by_cases honchain : submittedToChain ledger tx ≠ .none
  · rw [if_pos honchain]
    exact Or.inl ⟨fun h => honchain h.onChain, _, honchain, rfl⟩
  rw [if_neg honchain]
  -- The nonce is reserved by the last check, when all others have passed.
  by_cases hsig : cfg.framework.verify tx.toTxData = true
  · rw [hsig, Bool.not_true, if_neg Bool.false_ne_true, TxPoolNonceChecker.checkNonce]
    by_cases hmem : tx.nonce ∈ pool.nonceCache
    · rw [if_pos hmem]
      exact Or.inl ⟨fun h => h.nonce hmem, _, by decide, rfl⟩
    · rw [if_neg hmem]
      refine Or.inr ⟨⟨Bool.not_eq_true _ |>.mp hinv, not_not.mp hgroup, not_not.mp hchain,
        not_not.mp honchain, hsig, hmem⟩, ?_⟩
      simp only [if_true, marked]
      -- What is left is the mark of an accepted transaction.
      by_cases hsys : isSystemTransaction cfg.framework tx = true
      · rw [if_pos hsys, if_pos hsys]
      · rw [if_neg hsys, if_neg hsys]
  · rw [Bool.not_eq_true _ |>.mp hsig, Bool.not_false, if_pos rfl]
    exact Or.inl ⟨fun h => hsig h.signature, _, by decide, rfl⟩

/-- The checks look at the content and the invalid flag only, so a transaction
    with the same content passes them too, and with fewer nonces taken. -/
theorem Accepted.congr {cfg : TxPoolConfig} {ledger : LedgerNonceChecker}
    {pool pool' : TxPoolNonceChecker} {tx tx' : Transaction} (h : Accepted cfg ledger pool tx)
    (hdata : tx'.toTxData = tx.toTxData) (hvalid : tx'.invalid = false)
    (hpool : ∀ nonce ∈ pool'.nonceCache, nonce ∈ pool.nonceCache) :
    Accepted cfg ledger pool' tx' where
  valid := hvalid
  group := (congrArg TxData.groupId hdata).trans h.group
  chain := (congrArg TxData.chainId hdata).trans h.chain
  onChain := by
    have hnonce : tx'.nonce = tx.nonce := congrArg TxData.nonce hdata
    have hlimit : tx'.blockLimit = tx.blockLimit := congrArg TxData.blockLimit hdata
    -- The ledger check reads the nonce and the block limit, and both are content.
    have honchain := h.onChain
    rw [submittedToChain_eq_none_iff] at honchain ⊢
    rw [hnonce, hlimit]
    exact honchain
  signature := by
    rw [hdata]
    exact h.signature
  nonce := by
    have hnonce : tx'.nonce = tx.nonce := congrArg TxData.nonce hdata
    rw [hnonce]
    exact fun hmem => h.nonce (hpool _ hmem)

/-- The transaction is decoded content all along: only its mark may change. -/
@[simp] theorem marked_toTxData (fw : Framework) (tx : Transaction) :
    (marked fw tx).toTxData = tx.toTxData := by
  unfold marked
  split
  · rfl
  · rfl

@[simp] theorem marked_sealed (fw : Framework) (tx : Transaction) :
    (marked fw tx).sealed = tx.sealed := by
  unfold marked
  split
  · rfl
  · rfl

end TxValidator

end BcosTxPool
