import BcosTxPool.Core.Operations

/-!
# What Each Call Does

One description per storage call, from which everything later is derived, so
that no later proof opens a definition of the storage again.

A report to the sealer touches the counter and the list of reports, and
nothing else; the counter only when it is larger than the table. Every call
that makes a report is therefore described up to it. The submissions come as
case lists: an enforced submission is rejected, finds its transaction sealed
already, seals it, or inserts it; a normal one is rejected or inserts.

## Main definitions

* `blockNonces`: The nonces a block result contributes to the ledger checker.
* `SealedElsewhere`: An entry that a submission for a proposal may not take.
* `Submittable`: What a normal submission needs.
* `inserted`: The state after a fresh transaction enters the table.
* `MarkBlocked`: An entry that an unsealing call leaves alone.
* `TakesNew`: What a fetch for gossip takes from a pool.

## Theorems

* `reportUnsealed_eq`, `reportUnsealed_sealedTxsSize`: What a report touches.
* `insert_cases`, `enforceSubmitTransaction_cases`,
  `verifyAndSubmitTransaction_cases`: What a submission does.
* `enforceSubmitTransaction_of_find?_none`: What an enforced one inserts.
* `enforceSubmitTransaction_snd_ne_none_iff`: When an enforced one is rejected.
* `fetchTxs_hashes`, `length_fetchTxs`: What a lookup of many hashes returns.
* `fetchNewTxs_invariant`, `fetchNewTxs_takesNew`, `fetchNewTxs_empty`: What a fetch
  for gossip takes and marks.
* `fetchNewTxs_complete`: What it may leave.
-/

namespace BcosTxPool

open Library

namespace MemoryStorage

variable (cfg : TxPoolConfig) (s : MemoryStorage)

/-! ### Reports to the sealer -/

/-- The number of unsealed transactions is computed from a counter that is
    corrected on the way, if it is larger than the table. -/
theorem unSealedTxsSizeWithoutLock_eq :
    ∃ n, s.unSealedTxsSizeWithoutLock.1 = { s with sealedTxsSize := n } ∧
      (s.sealedTxsSize ≤ s.txsTable.size → n = s.sealedTxsSize) := by
  unfold unSealedTxsSizeWithoutLock
  by_cases h : s.txsTable.size < s.sealedTxsSize
  · rw [if_pos h]
    exact ⟨s.txsTable.size, rfl, fun hle => by omega⟩
  · rw [if_neg h]
    exact ⟨s.sealedTxsSize, rfl, fun _ => rfl⟩

/-- A report and its retries touch the list of reports and, when it has run
    ahead of the table, the counter. -/
theorem reportUnsealed_eq (notifier : List Nat → Bool) (retries : Nat) :
    ∀ s, ∃ n reports, reportUnsealed notifier retries s
        = { s with sealedTxsSize := n, reports := reports } ∧
      (s.sealedTxsSize ≤ s.txsTable.size → n = s.sealedTxsSize) := by
  -- The induction is on the attempts that are left. Each corrects the counter
  -- again.
  induction retries with
  | zero =>
      intro s
      rcases s.unSealedTxsSizeWithoutLock_eq with ⟨n, hn, hkeep⟩
      refine ⟨n, s.reports ++ [s.unSealedTxsSizeWithoutLock.2], ?_, hkeep⟩
      unfold reportUnsealed
      simp only [hn]
  | succ retries ih =>
      intro s
      rcases s.unSealedTxsSizeWithoutLock_eq with ⟨n, hn, hkeep⟩
      unfold reportUnsealed
      simp only [hn]
      split
      · -- A retry starts from the corrected counter.
        rcases ih { s with
          sealedTxsSize := n
          reports := s.reports ++ [s.unSealedTxsSizeWithoutLock.2] } with ⟨m, rs, hm, hmkeep⟩
        refine ⟨m, rs, hm, fun hle => ?_⟩
        have hns := hkeep hle
        rw [hmkeep (by rw [hns]; exact hle), hns]
      · exact ⟨n, _, rfl, hkeep⟩

/-- A notification is such a report, or nothing where no notifier is set. -/
theorem notifyUnsealedTxsSize_eq :
    ∃ n reports, s.notifyUnsealedTxsSize cfg
        = { s with sealedTxsSize := n, reports := reports } ∧
      (s.sealedTxsSize ≤ s.txsTable.size → n = s.sealedTxsSize) := by
  unfold notifyUnsealedTxsSize
  cases cfg.unsealedTxsNotifier with
  | none => exact ⟨s.sealedTxsSize, s.reports, rfl, fun _ => rfl⟩
  | some notifier => exact reportUnsealed_eq notifier maxRetryTime s

@[simp] theorem notifyUnsealedTxsSize_txsTable :
    (s.notifyUnsealedTxsSize cfg).txsTable = s.txsTable := by
  rcases s.notifyUnsealedTxsSize_eq cfg with ⟨n, rs, h, _⟩
  rw [h]

@[simp] theorem notifyUnsealedTxsSize_txPoolNonceChecker :
    (s.notifyUnsealedTxsSize cfg).txPoolNonceChecker = s.txPoolNonceChecker := by
  rcases s.notifyUnsealedTxsSize_eq cfg with ⟨n, rs, h, _⟩
  rw [h]

@[simp] theorem notifyUnsealedTxsSize_ledgerNonceChecker :
    (s.notifyUnsealedTxsSize cfg).ledgerNonceChecker = s.ledgerNonceChecker := by
  rcases s.notifyUnsealedTxsSize_eq cfg with ⟨n, rs, h, _⟩
  rw [h]

/-- A report leaves no counter that is larger than the table. -/
theorem reportUnsealed_sealedTxsSize (notifier : List Nat → Bool) (retries : Nat) :
    ∀ s, (reportUnsealed notifier retries s).sealedTxsSize
      = min s.sealedTxsSize s.txsTable.size := by
  -- The correction is a minimum, and correcting twice is correcting once.
  have hclamp : ∀ s : MemoryStorage, s.unSealedTxsSizeWithoutLock.1.sealedTxsSize
      = min s.sealedTxsSize s.txsTable.size := by
    intro s
    unfold unSealedTxsSizeWithoutLock
    split
    · simp only
      omega
    · simp only
      omega
  induction retries with
  | zero => exact fun s => hclamp s
  | succ retries ih =>
      intro s
      rcases s.unSealedTxsSizeWithoutLock_eq with ⟨n, hn, _⟩
      have hfirst := hclamp s
      unfold reportUnsealed
      simp only [hn] at hfirst ⊢
      split
      · rw [ih]
        simp only
        omega
      · exact hfirst

/-- So after a notification the counter is at most the size of the table, if
    there is a notifier at all. -/
theorem notifyUnsealedTxsSize_sealedTxsSize :
    (s.notifyUnsealedTxsSize cfg).sealedTxsSize
      = if cfg.unsealedTxsNotifier.isSome then min s.sealedTxsSize s.txsTable.size
        else s.sealedTxsSize := by
  unfold notifyUnsealedTxsSize
  cases cfg.unsealedTxsNotifier with
  | none => rfl
  | some notifier => exact reportUnsealed_sealedTxsSize notifier maxRetryTime s

/-! ### Submissions -/

/-- The state after a fresh transaction has entered the table: the wake-up flag
    is set, and the sealer is told. -/
def inserted (tx : Transaction) : MemoryStorage :=
  ({ s with txsTable := s.txsTable.insert tx, newTransactions := true } : MemoryStorage
    ).notifyUnsealedTxsSize cfg

/-- An insertion under a free hash makes the pool larger by one, whatever the
    report that follows it does to the counter. -/
theorem size_inserted {tx : Transaction} (hfree : s.txsTable.find? tx.hash = none) :
    (s.inserted cfg tx).size = s.size + 1 := by
  rw [size, inserted, notifyUnsealedTxsSize_txsTable]
  exact s.txsTable.size_insert tx hfree

/-- Under a free hash an insertion makes the entry. -/
theorem insert_of_find?_none (tx : Transaction) (h : s.txsTable.find? tx.hash = none) :
    s.insert cfg tx = (s.inserted cfg tx, .none) := by
  rw [insert, if_neg (by rw [(s.txsTable.contains_eq_false_iff tx.hash).mpr h]; decide)]
  rfl

/-- Under a hash that is taken it does nothing and says so. -/
theorem insert_of_find?_some {tx entry : Transaction} (h : s.txsTable.find? tx.hash = some entry) :
    s.insert cfg tx = (s, .alreadyInTxPool) := by
  rw [insert, if_pos ((s.txsTable.contains_iff tx.hash).mpr ⟨entry, h⟩)]

/-- An insertion finds its hash taken, or it makes the entry. -/
theorem insert_cases (tx : Transaction) :
    (∃ entry, s.txsTable.find? tx.hash = some entry ∧
      s.insert cfg tx = (s, .alreadyInTxPool)) ∨
    (s.txsTable.find? tx.hash = none ∧ s.insert cfg tx = (s.inserted cfg tx, .none)) := by
  cases h : s.txsTable.find? tx.hash with
  | none => exact Or.inr ⟨rfl, s.insert_of_find?_none cfg tx h⟩
  | some entry => exact Or.inl ⟨entry, rfl, s.insert_of_find?_some cfg h⟩

/-- An entry sealed under a non-zero hash, and not for the proposal that the
    submitted transaction was fetched for. -/
def SealedElsewhere (tx entry : Transaction) : Prop :=
  entry.sealed = true ∧ entry.batchHash ≠ 0 ∧
    ¬ (entry.batchId = tx.batchId ∧ entry.batchHash = tx.batchHash)

instance (tx entry : Transaction) : Decidable (SealedElsewhere tx entry) :=
  inferInstanceAs (Decidable (_ ∧ _ ∧ _))

/-- An entry sealed under a non-zero hash for the very proposal. -/
def SealedHere (tx entry : Transaction) : Prop :=
  entry.sealed = true ∧ entry.batchHash ≠ 0 ∧
    entry.batchId = tx.batchId ∧ entry.batchHash = tx.batchHash

/-- The state after a pooled transaction has been sealed for a proposal. It is
    counted only if it was not sealed before. -/
def sealedFor (tx entry : Transaction) : MemoryStorage :=
  { s with
    sealedTxsSize := if entry.sealed then s.sealedTxsSize else s.sealedTxsSize + 1
    txsTable := s.txsTable.modify tx.hash (sealFor tx) (sealFor_hash tx) }

/-- The state after a transaction fetched for a proposal has been inserted:
    counted first, then inserted with its flag up, and missed no longer. -/
def insertedSealed (tx : Transaction) : MemoryStorage :=
  (({ s with sealedTxsSize := if tx.sealed then s.sealedTxsSize else s.sealedTxsSize + 1 } :
    MemoryStorage).inserted cfg { tx with sealed := true }).eraseMissed tx.hash

/-- An enforced submission is rejected for its nonce or because another
    proposal holds the transaction, finds it sealed already, seals it, or
    inserts it. -/
theorem enforceSubmitTransaction_cases (tx : Transaction) :
    (tx.nonce ∈ s.ledgerNonceChecker.nonceCache ∧
      s.enforceSubmitTransaction cfg tx = (s, .nonceCheckFail)) ∨
    (¬ tx.nonce ∈ s.ledgerNonceChecker.nonceCache ∧
      ∃ entry, s.txsTable.find? tx.hash = some entry ∧ SealedElsewhere tx entry ∧
      s.enforceSubmitTransaction cfg tx = (s, .alreadyInTxPool)) ∨
    (¬ tx.nonce ∈ s.ledgerNonceChecker.nonceCache ∧
      ∃ entry, s.txsTable.find? tx.hash = some entry ∧ SealedHere tx entry ∧
      s.enforceSubmitTransaction cfg tx = (s, .none)) ∨
    (¬ tx.nonce ∈ s.ledgerNonceChecker.nonceCache ∧
      ∃ entry, s.txsTable.find? tx.hash = some entry ∧
      (entry.sealed = false ∨ entry.batchHash = 0) ∧
      s.enforceSubmitTransaction cfg tx = (s.sealedFor tx entry, .none)) ∨
    (¬ tx.nonce ∈ s.ledgerNonceChecker.nonceCache ∧ s.txsTable.find? tx.hash = none ∧
      s.enforceSubmitTransaction cfg tx = (s.insertedSealed cfg tx, .none)) := by
  unfold enforceSubmitTransaction
  -- The nonce decides first; a block limit that has passed is not asked about.
  by_cases hnonce : tx.nonce ∈ s.ledgerNonceChecker.nonceCache
  · rw [if_pos ((TxValidator.submittedToChain_eq_nonceCheckFail_iff _ tx).mpr hnonce)]
    exact Or.inl ⟨hnonce, rfl⟩
  rw [if_neg (fun h => hnonce ((TxValidator.submittedToChain_eq_nonceCheckFail_iff _ tx).mp h))]
  cases hfind : s.txsTable.find? tx.hash with
  | none =>
      refine Or.inr (Or.inr (Or.inr (Or.inr ⟨hnonce, rfl, ?_⟩)))
      -- The counter is raised before the insertion, by a choice between two states.
      have hfresh : (if tx.sealed then s
          else { s with sealedTxsSize := s.sealedTxsSize + 1 })
          = { s with sealedTxsSize :=
              if tx.sealed then s.sealedTxsSize else s.sealedTxsSize + 1 } := by
        by_cases hsealed : tx.sealed = true
        · rw [if_pos hsealed, if_pos hsealed]
        · rw [if_neg hsealed, if_neg hsealed]
      have hins := insert_of_find?_none cfg
        { s with sealedTxsSize := if tx.sealed then s.sealedTxsSize else s.sealedTxsSize + 1 }
        { tx with sealed := true } hfind
      simp only [hfresh, hins]
      rfl
  | some entry =>
      simp only
      -- An entry is free while it is unsealed or its proposal has no hash yet.
      by_cases hfree : (!entry.sealed || decide (entry.batchHash = 0)) = true
      · rw [if_pos hfree]
        simp only [Bool.or_eq_true, Bool.not_eq_true', decide_eq_true_eq] at hfree
        exact Or.inr (Or.inr (Or.inr (Or.inl ⟨hnonce, entry, rfl, hfree, rfl⟩)))
      · rw [if_neg hfree]
        simp only [Bool.or_eq_true, Bool.not_eq_true', decide_eq_true_eq, not_or,
          Bool.not_eq_false] at hfree
        -- Held under a non-zero hash, it passes for that proposal only.
        by_cases hsame : entry.batchId = tx.batchId ∧ entry.batchHash = tx.batchHash
        · rw [if_pos hsame]
          exact Or.inr (Or.inr (Or.inl
            ⟨hnonce, entry, rfl, ⟨hfree.1, hfree.2, hsame.1, hsame.2⟩, rfl⟩))
        · rw [if_neg hsame]
          exact Or.inr (Or.inl ⟨hnonce, entry, rfl, ⟨hfree.1, hfree.2, hsame⟩, rfl⟩)

/-- An enforced submission inserts a new transaction whose nonce is not on
    chain. It asks for nothing else: no signature, no block limit, no room. -/
theorem enforceSubmitTransaction_of_find?_none {tx : Transaction}
    (hnonce : ¬ tx.nonce ∈ s.ledgerNonceChecker.nonceCache)
    (hfind : s.txsTable.find? tx.hash = none) :
    s.enforceSubmitTransaction cfg tx = (s.insertedSealed cfg tx, .none) := by
  rcases s.enforceSubmitTransaction_cases cfg tx with
    ⟨hn, _⟩ | ⟨_, e, hf, _⟩ | ⟨_, e, hf, _⟩ | ⟨_, e, hf, _⟩ | ⟨_, _, he⟩
  · exact absurd hn hnonce
  · exact absurd (hfind.symm.trans hf) (Option.some_ne_none e).symm
  · exact absurd (hfind.symm.trans hf) (Option.some_ne_none e).symm
  · exact absurd (hfind.symm.trans hf) (Option.some_ne_none e).symm
  · exact he

/-- An enforced submission is rejected exactly for a nonce that the ledger
    checker holds or a transaction that another proposal holds. -/
theorem enforceSubmitTransaction_snd_ne_none_iff (tx : Transaction) :
    (s.enforceSubmitTransaction cfg tx).2 ≠ .none ↔
      tx.nonce ∈ s.ledgerNonceChecker.nonceCache ∨
      ∃ entry, s.txsTable.find? tx.hash = some entry ∧ SealedElsewhere tx entry := by
  -- The first two cases are the two reasons, and the other three are accepted.
  rcases s.enforceSubmitTransaction_cases cfg tx with
    ⟨hn, h⟩ | ⟨_, entry, hf, he, h⟩ | ⟨hn, entry, hf, he, h⟩ | ⟨hn, entry, hf, he, h⟩ |
    ⟨hn, hf, h⟩
  · rw [h]
    exact ⟨fun _ => Or.inl hn, fun _ hc => by cases hc⟩
  · rw [h]
    exact ⟨fun _ => Or.inr ⟨entry, hf, he⟩, fun _ hc => by cases hc⟩
  · rw [h]
    -- Sealed for this proposal, it is not sealed for another.
    refine ⟨fun hc => absurd rfl hc, ?_⟩
    intro hreason
    rcases hreason with hc | ⟨e, hfe, hse⟩
    · exact absurd hc hn
    · rw [hf, Option.some.injEq] at hfe
      exact absurd he.2.2 (hfe ▸ hse.2.2)
  · rw [h]
    refine ⟨fun hc => absurd rfl hc, ?_⟩
    intro hreason
    rcases hreason with hc | ⟨e, hfe, hse⟩
    · exact absurd hc hn
    · rw [hf, Option.some.injEq] at hfe
      -- A free entry is either not sealed or sealed under the zero hash.
      subst hfe
      rcases he with hopen | hzero
      · exact absurd (hse.1.symm.trans hopen) (by decide)
      · exact absurd hzero hse.2.1
  · rw [h]
    refine ⟨fun hc => absurd rfl hc, ?_⟩
    intro hreason
    rcases hreason with hc | ⟨e, hfe, _⟩
    · exact absurd hc hn
    · rw [hf] at hfe
      exact absurd hfe (Option.some_ne_none e).symm

/-- A rejected enforced submission changes nothing, the counter included. -/
theorem enforceSubmitTransaction_rejected (tx : Transaction)
    (h : (s.enforceSubmitTransaction cfg tx).2 ≠ .none) :
    (s.enforceSubmitTransaction cfg tx).1 = s := by
  rcases s.enforceSubmitTransaction_cases cfg tx with
    ⟨_, he⟩ | ⟨_, _, _, _, he⟩ | ⟨_, _, _, _, he⟩ | ⟨_, _, _, _, he⟩ | ⟨_, _, he⟩
  · rw [he]
  · rw [he]
  · rw [he]
  · rw [he] at h
    exact absurd rfl h
  · rw [he] at h
    exact absurd rfl h

/-- The callback is hung on the object and leaves its content alone, and its
    flags. -/
@[simp] theorem withCallback_toTxData (tx : Transaction)
    (txSubmitCallback : Option TxSubmitCallback) :
    (withCallback tx txSubmitCallback).toTxData = tx.toTxData := by
  cases txSubmitCallback with
  | none => rfl
  | some callback => rfl

@[simp] theorem withCallback_sealed (tx : Transaction)
    (txSubmitCallback : Option TxSubmitCallback) :
    (withCallback tx txSubmitCallback).sealed = tx.sealed := by
  cases txSubmitCallback with
  | none => rfl
  | some callback => rfl

@[simp] theorem withCallback_invalid (tx : Transaction)
    (txSubmitCallback : Option TxSubmitCallback) :
    (withCallback tx txSubmitCallback).invalid = tx.invalid := by
  cases txSubmitCallback with
  | none => rfl
  | some callback => rfl

/-- What a normal submission needs: room, a free hash, and every check
    passed. -/
structure Submittable (tx : Transaction) : Prop where
  room : s.size < cfg.poolLimit
  free : s.txsTable.find? tx.hash = none
  accepted : TxValidator.Accepted cfg s.ledgerNonceChecker s.txPoolNonceChecker tx

/-- A normal submission is rejected and changes nothing, or it has all it
    needs, reserves its nonce and enters the table. -/
theorem verifyAndSubmitTransaction_cases (tx : Transaction)
    (txSubmitCallback : Option TxSubmitCallback) :
    (¬ Submittable cfg s tx ∧
      (s.verifyAndSubmitTransaction cfg tx txSubmitCallback).2 ≠ .none ∧
      (s.verifyAndSubmitTransaction cfg tx txSubmitCallback).1 = s) ∨
    (Submittable cfg s tx ∧ s.verifyAndSubmitTransaction cfg tx txSubmitCallback
        = ((({ s with txPoolNonceChecker := s.txPoolNonceChecker.insert tx.nonce } :
            MemoryStorage).inserted cfg
              (TxValidator.marked cfg.framework (withCallback tx txSubmitCallback))).eraseMissed
            tx.hash, .none)) := by
  have hdata := withCallback_toTxData tx txSubmitCallback
  have hinvalid := withCallback_invalid tx txSubmitCallback
  unfold verifyAndSubmitTransaction
  -- The checks read the content and the flag `invalid`, which the callback
  -- leaves alone.
  generalize withCallback tx txSubmitCallback = w at hdata hinvalid
  have hhash : w.hash = tx.hash := congrArg TxData.hash hdata
  have hnonce : w.nonce = tx.nonce := congrArg TxData.nonce hdata
  -- The checks come in the order of the source: room, the hash, and then the
  -- validator.
  by_cases hfull : s.size ≥ cfg.poolLimit
  · rw [if_pos hfull]
    exact Or.inl ⟨fun h => absurd h.room (by omega), (fun h => by cases h), rfl⟩
  rw [if_neg hfull]
  cases hfind : s.txsTable.find? tx.hash with
  | some entry =>
      have hexist : s.txpoolStorageCheck w = .alreadyInTxPool := by
        rw [txpoolStorageCheck, hhash, exist,
          if_pos ((s.txsTable.contains_iff tx.hash).mpr ⟨entry, hfind⟩)]
      -- The hash is taken, and the status of the storage check is returned.
      simp only [hexist]
      refine Or.inl ⟨fun h => ?_, (fun h => by cases h), rfl⟩
      rw [h.free] at hfind
      exact Option.some_ne_none entry hfind.symm
  | none =>
      have hfresh : s.txpoolStorageCheck w = .none := by
        rw [txpoolStorageCheck, hhash, exist,
          if_neg (by rw [(s.txsTable.contains_eq_false_iff tx.hash).mpr hfind]; decide)]
      simp only [hfresh]
      rcases TxValidator.verify_cases cfg s.ledgerNonceChecker s.txPoolNonceChecker w with
        ⟨hfails, status, hstatus, hverify⟩ | ⟨haccepted, hverify⟩
      · have hno : ¬ Submittable cfg s tx := fun h => hfails
          (h.accepted.congr hdata (hinvalid.trans h.accepted.valid) (fun _ hmem => hmem))
        -- A check failed: the nonce is not reserved and its status is returned.
        rw [hverify]
        cases status with
        | none => exact absurd rfl hstatus
        | _ => exact Or.inl ⟨hno, (fun h => by cases h), rfl⟩
      · refine Or.inr ⟨⟨by omega, hfind, haccepted.congr hdata.symm
          (hinvalid.symm.trans haccepted.valid) (fun _ hmem => hmem)⟩, ?_⟩
        -- Marking a system transaction keeps its hash, so the insertion finds it free.
        have hmarked : (TxValidator.marked cfg.framework w).hash = tx.hash :=
          (congrArg TxData.hash (TxValidator.marked_toTxData cfg.framework w)).trans hhash
        rw [hverify]
        simp only
        rw [insert_of_find?_none _ _ _ (by rw [hmarked]; exact hfind), hmarked, hnonce]
        rfl

/-- A normal submission is accepted exactly when it has all it needs. -/
theorem verifyAndSubmitTransaction_snd_eq_none_iff (tx : Transaction)
    (txSubmitCallback : Option TxSubmitCallback) :
    (s.verifyAndSubmitTransaction cfg tx txSubmitCallback).2 = .none ↔ Submittable cfg s tx := by
  rcases s.verifyAndSubmitTransaction_cases cfg tx txSubmitCallback with
    ⟨hno, hrejected, _⟩ | ⟨hyes, heq⟩
  · exact iff_of_false hrejected hno
  · rw [heq]
    exact iff_of_true rfl hyes

/-! ### Seals -/

/-- A seal that avoids duplicates hands out what was not sealed. That is the
    last of its checks, and those before it hand nothing out. -/
theorem sealed_of_fetchDecision_fetch {s : MemoryStorage} {avoidTxs : HashList} {tx : Transaction}
    (h : s.fetchDecision avoidTxs true tx = .fetch) : tx.sealed = false := by
  by_contra hsealed
  rw [Bool.not_eq_false] at hsealed
  unfold fetchDecision at h
  -- One after the other the checks would have ended with another decision.
  split at h
  · exact absurd h (fun hc => by cases hc)
  · split at h
    · exact absurd h (fun hc => by cases hc)
    · split at h
      · exact absurd h (fun hc => by cases hc)
      · split at h
        · exact absurd h (fun hc => by cases hc)
        · rw [hsealed, Bool.and_self, if_pos rfl] at h
          exact absurd h (fun hc => by cases hc)

/-! ### Block results and marks -/

/-- The nonces that `batchRemove` collects from a block result, in the order of
    its results. -/
def blockNonces (txsResult : List TransactionSubmitResult) : NonceList :=
  (txsResult.foldl batchRemoveTx (s, [])).2

/-- An entry that an unsealing call leaves alone: another proposal has sealed
    it since. -/
def MarkBlocked (batchHash : HashType) (sealFlag : Bool) (tx : Transaction) : Prop :=
  tx.batchHash ≠ 0 ∧ tx.batchHash ≠ batchHash ∧ sealFlag = false

/-- The counter after an entry's flag went from `old` to `new`. On the way down
    it stops at zero. -/
def flippedSize (size : Nat) (old new : Bool) : Nat :=
  if new = old then size else if new then size + 1 else sizePred size

/-- A mark misses the table, is blocked, or writes the entry and moves the
    counter by the change of the flag. -/
theorem batchMarkTx_cases (batchId : Int) (batchHash : HashType) (sealFlag : Bool)
    (txHash : HashType) :
    (s.txsTable.find? txHash = none ∧ s.batchMarkTx batchId batchHash sealFlag txHash = s) ∨
    (∃ tx, s.txsTable.find? txHash = some tx ∧ MarkBlocked batchHash sealFlag tx ∧
      s.batchMarkTx batchId batchHash sealFlag txHash = s) ∨
    (∃ tx, s.txsTable.find? txHash = some tx ∧ ¬ MarkBlocked batchHash sealFlag tx ∧
      s.batchMarkTx batchId batchHash sealFlag txHash = { s with
        sealedTxsSize := flippedSize s.sealedTxsSize tx.sealed sealFlag
        txsTable := s.txsTable.modify txHash (markTx batchId batchHash sealFlag)
          (markTx_hash batchId batchHash sealFlag) }) := by
  unfold batchMarkTx
  cases hfind : s.txsTable.find? txHash with
  | none => exact Or.inl ⟨rfl, rfl⟩
  | some tx =>
      refine Or.inr ?_
      -- Only an unsealing call is ever blocked.
      by_cases hblocked : MarkBlocked batchHash sealFlag tx
      · refine Or.inl ⟨tx, rfl, hblocked, ?_⟩
        simp only [MarkBlocked] at hblocked
        simp only [hblocked, ne_eq, not_false_eq_true, Bool.not_false, and_self, if_true]
      · refine Or.inr ⟨tx, rfl, hblocked, ?_⟩
        simp only [MarkBlocked] at hblocked
        simp only [Bool.not_eq_true', if_neg hblocked]
        -- The two adjustments exclude each other, and each needs a change.
        cases sealFlag with
        | true => cases hsealed : tx.sealed <;> rfl
        | false => cases hsealed : tx.sealed <;> rfl

/-! ### Lookups -/

/-- A lookup misses the hashes that are not pooled. -/
theorem fetchTxs_missed_iff (txs : HashList) (txHash : HashType) :
    txHash ∈ (s.fetchTxs txs).2 ↔ txHash ∈ txs ∧ s.exist txHash = false := by
  unfold fetchTxs
  rw [List.mem_filter, Bool.not_eq_true']
  rfl

/-- It misses none if all are. -/
theorem fetchTxs_missed_eq_nil_iff (txs : HashList) :
    (s.fetchTxs txs).2 = [] ↔ ∀ txHash ∈ txs, s.exist txHash = true := by
  rw [List.eq_nil_iff_forall_not_mem]
  simp only [fetchTxs_missed_iff, not_and, Bool.not_eq_false]

/-- If the table holds every hash, a lookup returns an entry for each, in
    order. -/
theorem fetchTxs_hashes (txs : HashList) (h : ∀ txHash ∈ txs, s.exist txHash = true) :
    (s.fetchTxs txs).1.map (fun tx => tx.hash) = txs := by
  unfold fetchTxs
  simp only
  -- The induction is on the hashes. An entry is found under its own hash.
  induction txs with
  | nil => rfl
  | cons txHash txs ih =>
      rcases (s.txsTable.contains_iff txHash).mp (h txHash List.mem_cons_self) with ⟨tx, hfind⟩
      rw [List.filterMap_cons_some hfind, List.map_cons,
        ih (fun k hk => h k (List.mem_cons_of_mem _ hk))]
      exact congrArg (fun k => k :: txs) ((KeyedTable.find?_eq_some_iff _ txHash tx).mp hfind).2

/-- Every hash of a lookup is hit or missed. -/
theorem length_fetchTxs (txs : HashList) :
    (s.fetchTxs txs).1.length + (s.fetchTxs txs).2.length = txs.length := by
  unfold fetchTxs
  simp only
  induction txs with
  | nil => rfl
  | cons txHash txs ih =>
      cases hfind : s.txsTable.find? txHash with
      | none =>
          have hmiss := (s.txsTable.contains_eq_false_iff txHash).mpr hfind
          simp only [List.filterMap_cons, hfind, List.filter_cons, hmiss, Bool.not_false, if_true,
            List.length_cons]
          omega
      | some tx =>
          have hhit := (s.txsTable.contains_iff txHash).mpr ⟨tx, hfind⟩
          simp only [List.filterMap_cons, hfind, List.filter_cons, hhit, Bool.not_true,
            Bool.false_eq_true, if_false, List.length_cons]
          omega

/-! ### Fetches for gossip -/

/-- What the synced mark of an entry preserves, a fetch preserves. The mark is
    all that a fetch writes. -/
theorem fetchNewTxs_invariant (Inv : MemoryStorage → Prop)
    (hsync : ∀ (s : MemoryStorage) txHash, Inv s →
      Inv { s with txsTable := s.txsTable.modify txHash (fun tx => { tx with synced := true }) })
    (txsLimit : Nat) (order : HashList) :
    ∀ (s : MemoryStorage) (fetchedTxs : List Transaction), Inv s →
      Inv (fetchNewTxs txsLimit order s fetchedTxs).1 := by
  induction order with
  | nil => exact fun _ _ hs => hs
  | cons txHash order ih =>
      intro s fetchedTxs hs
      unfold fetchNewTxs
      cases s.txsTable.find? txHash with
      | none => exact ih s fetchedTxs hs
      | some tx =>
          simp only
          split
          · exact ih s fetchedTxs hs
          · split
            · exact hsync s txHash hs
            · exact ih _ _ (hsync s txHash hs)

/-- What a fetch for gossip takes from a pool: unsynced entries under distinct
    hashes of the walk, which are synced from then on. The rest is as it was. -/
structure TakesNew (order : HashList) (s s' : MemoryStorage) (txs : List Transaction) : Prop where
  entries : ∀ tx ∈ txs, tx.hash ∈ order ∧ ∃ entry, s.txsTable.find? tx.hash = some entry ∧
    entry.synced = false ∧ tx = { entry with synced := true }
  hashes : (txs.map (fun tx => tx.hash)).Nodup
  find : ∀ txHash, s'.txsTable.find? txHash = if txHash ∈ txs.map (fun tx => tx.hash)
    then (s.txsTable.find? txHash).map (fun tx => { tx with synced := true })
    else s.txsTable.find? txHash
  rest : s' = { s with txsTable := s'.txsTable }

/-- A fetch that takes nothing changes nothing. -/
theorem takesNew_nil (order : HashList) : TakesNew order s s [] where
  entries := fun _ h => absurd h List.not_mem_nil
  hashes := List.nodup_nil
  find := fun _ => (if_neg List.not_mem_nil).symm
  rest := rfl

/-- One entry is taken by its mark. -/
theorem takesNew_singleton {order : HashList} {k : HashType} {entry : Transaction} (hk : k ∈ order)
    (hfind : s.txsTable.find? k = some entry) (hsynced : entry.synced = false) :
    TakesNew order s
      { s with txsTable := s.txsTable.modify k (fun tx => { tx with synced := true }) }
      [{ entry with synced := true }] := by
  have hkey : entry.hash = k := ((KeyedTable.find?_eq_some_iff _ k entry).mp hfind).2
  constructor
  · intro tx htx
    rw [List.mem_singleton.mp htx]
    simp only [hkey]
    exact ⟨hk, entry, hfind, hsynced, rfl⟩
  · exact List.nodup_singleton _
  · intro txHash
    simp only [List.map_cons, List.map_nil, List.mem_singleton, hkey, KeyedTable.find?_modify,
      eq_comm]
  · rfl

variable {s} in
/-- What a fetch leaves in the table to be taken was there to be taken before
    it. -/
theorem TakesNew.find?_unsynced {order : HashList} {s' : MemoryStorage} {txs : List Transaction}
    (h : TakesNew order s s' txs) {txHash : HashType} {entry : Transaction}
    (hfind : s'.txsTable.find? txHash = some entry) (hsynced : entry.synced = false) :
    ¬ txHash ∈ txs.map (fun tx => tx.hash) ∧ s.txsTable.find? txHash = some entry := by
  rw [h.find] at hfind
  by_cases hmem : txHash ∈ txs.map (fun tx => tx.hash)
  · -- Taken by the fetch, it is synced.
    rw [if_pos hmem] at hfind
    rcases Option.map_eq_some_iff.mp hfind with ⟨tx, _, rfl⟩
    cases hsynced
  · rw [if_neg hmem] at hfind
    exact ⟨hmem, hfind⟩

variable {s} in
/-- A fetch may be done in two parts. What the first takes is synced then, so
    the second passes it over. -/
theorem TakesNew.trans {order : HashList} {s' s'' : MemoryStorage} {txs txs' : List Transaction}
    (h : TakesNew order s s' txs) (h' : TakesNew order s' s'' txs') :
    TakesNew order s s'' (txs ++ txs') := by
  have hlater : ∀ tx ∈ txs', ¬ tx.hash ∈ txs.map (fun tx => tx.hash) ∧ tx.hash ∈ order ∧
      ∃ entry, s.txsTable.find? tx.hash = some entry ∧ entry.synced = false ∧
        tx = { entry with synced := true } := by
    intro tx htx
    rcases h'.entries tx htx with ⟨horder, entry, hfind, hsynced, heq⟩
    rcases h.find?_unsynced hfind hsynced with ⟨hnew, hfind⟩
    exact ⟨hnew, horder, entry, hfind, hsynced, heq⟩
  constructor
  · intro tx htx
    rcases List.mem_append.mp htx with htx | htx
    · exact h.entries tx htx
    · exact (hlater tx htx).2
  · rw [List.map_append, List.nodup_append]
    refine ⟨h.hashes, h'.hashes, ?_⟩
    intro k hk k' hk' heq
    rcases List.mem_map.mp hk' with ⟨tx, htx, rfl⟩
    exact (hlater tx htx).1 (heq ▸ hk)
  · intro txHash
    rw [h'.find, h.find, List.map_append]
    simp only [List.mem_append]
    -- The mark may be set in either part; set twice, it is set.
    by_cases hfirst : txHash ∈ txs.map (fun tx => tx.hash)
    · rw [if_pos hfirst, if_pos (Or.inl hfirst)]
      split
      · rw [Option.map_map]
        rfl
      · rfl
    · rw [if_neg hfirst]
      simp only [hfirst, false_or]
  · rw [h'.rest, h.rest]

variable {s} in
/-- A longer walk may have taken the same. -/
theorem TakesNew.mono {order order' : HashList} {s' : MemoryStorage} {txs : List Transaction}
    (h : TakesNew order s s' txs) (horder : order ⊆ order') : TakesNew order' s s' txs :=
  ⟨fun tx htx => ⟨horder (h.entries tx htx).1, (h.entries tx htx).2⟩, h.hashes, h.find, h.rest⟩

/-- A fetch takes new entries and appends them to what it is given. -/
theorem fetchNewTxs_takesNew (txsLimit : Nat) (order : HashList) :
    ∀ (s : MemoryStorage) (fetchedTxs : List Transaction), ∃ txs,
      (fetchNewTxs txsLimit order s fetchedTxs).2 = fetchedTxs ++ txs ∧
      TakesNew order s (fetchNewTxs txsLimit order s fetchedTxs).1 txs := by
  induction order with
  | nil => exact fun s fetchedTxs => ⟨[], (List.append_nil fetchedTxs).symm, s.takesNew_nil []⟩
  | cons k order ih =>
      intro s fetchedTxs
      -- A hash without an entry, or with a synced one, is passed over.
      have hskip : ∃ txs, (fetchNewTxs txsLimit order s fetchedTxs).2 = fetchedTxs ++ txs ∧
          TakesNew (k :: order) s (fetchNewTxs txsLimit order s fetchedTxs).1 txs := by
        rcases ih s fetchedTxs with ⟨txs, heq, htakes⟩
        exact ⟨txs, heq, htakes.mono (List.subset_cons_self k order)⟩
      unfold fetchNewTxs
      cases hfind : s.txsTable.find? k with
      | none => exact hskip
      | some entry =>
          simp only
          by_cases hsynced : entry.synced = true
          · rw [if_pos hsynced]
            exact hskip
          · rw [if_neg hsynced]
            have hfirst : TakesNew (k :: order) s _ _ :=
              s.takesNew_singleton List.mem_cons_self hfind (Bool.not_eq_true _ ▸ hsynced)
            -- The walk stops at the limit or takes more from what is left.
            split
            · exact ⟨_, rfl, hfirst⟩
            · rcases ih { s with
                txsTable := s.txsTable.modify k (fun tx => { tx with synced := true }) }
                (fetchedTxs ++ [{ entry with synced := true }]) with ⟨txs, heq, htakes⟩
              refine ⟨{ entry with synced := true } :: txs, ?_, ?_⟩
              · rw [heq, List.append_assoc]
                rfl
              · exact hfirst.trans (htakes.mono (List.subset_cons_self k order))

/-- A fetch does not give back what it has taken. -/
theorem subset_fetchNewTxs (txsLimit : Nat) (order : HashList) (s : MemoryStorage)
    (fetchedTxs : List Transaction) :
    fetchedTxs ⊆ (fetchNewTxs txsLimit order s fetchedTxs).2 := by
  rcases fetchNewTxs_takesNew txsLimit order s fetchedTxs with ⟨txs, heq, _⟩
  rw [heq]
  exact List.subset_append_left fetchedTxs txs

/-- Nor does it shorten the list it is given. -/
theorem fetchNewTxs_length (txsLimit : Nat) (order : HashList) (s : MemoryStorage)
    (fetchedTxs : List Transaction) :
    fetchedTxs.length ≤ (fetchNewTxs txsLimit order s fetchedTxs).2.length := by
  rcases fetchNewTxs_takesNew txsLimit order s fetchedTxs with ⟨txs, heq, _⟩
  rw [heq, List.length_append]
  exact Nat.le_add_right _ _

/-- A fetch passes over no entry that it could take. An unsynced entry on its
    way is among what it returns, or the walk has ended before it. Then the
    limit is reached, and all that was taken stands before the entry. The claim
    is about the whole accumulator, so that the induction can pass over a taken
    entry to the rest of the walk. -/
theorem fetchNewTxs_complete (txsLimit : Nat) (order : HashList) :
    ∀ (s : MemoryStorage) (fetchedTxs : List Transaction) (pre : HashList) (txHash : HashType)
      (post : HashList) (entry : Transaction), order = pre ++ txHash :: post →
      s.txsTable.find? txHash = some entry → entry.synced = false →
      (∃ tx ∈ (fetchNewTxs txsLimit order s fetchedTxs).2, tx.hash = txHash) ∨
        (txsLimit ≤ (fetchNewTxs txsLimit order s fetchedTxs).2.length ∧
          ∀ tx ∈ (fetchNewTxs txsLimit order s fetchedTxs).2,
            tx ∈ fetchedTxs ∨ tx.hash ∈ pre) := by
  induction order with
  | nil =>
      intro s fetchedTxs pre txHash post entry horder
      exact absurd horder.symm (List.append_ne_nil_of_right_ne_nil pre (List.cons_ne_nil _ _))
  | cons k order ih =>
      intro s fetchedTxs pre txHash post entry horder hfind hsynced
      -- The entry stands at the head of the walk, or the rest of the walk meets it.
      rcases List.cons_eq_append_iff.mp horder with ⟨rfl, hhead⟩ | ⟨before, rfl, hrest⟩
      · rw [List.cons_eq_cons] at hhead
        rcases hhead with ⟨rfl, _⟩
        refine Or.inl ⟨{ entry with synced := true }, ?_,
          ((KeyedTable.find?_eq_some_iff _ _ entry).mp hfind).2⟩
        unfold fetchNewTxs
        simp only [hfind, hsynced, Bool.false_eq_true, if_false]
        split
        · exact List.mem_append_right fetchedTxs List.mem_cons_self
        · exact subset_fetchNewTxs txsLimit order _ _
            (List.mem_append_right fetchedTxs List.mem_cons_self)
      · unfold fetchNewTxs
        have hpast : ∀ {result : List Transaction}, (∃ tx ∈ result, tx.hash = txHash) ∨
            (txsLimit ≤ result.length ∧ ∀ tx ∈ result, tx ∈ fetchedTxs ∨ tx.hash ∈ before) →
            (∃ tx ∈ result, tx.hash = txHash) ∨
            (txsLimit ≤ result.length ∧
              ∀ tx ∈ result, tx ∈ fetchedTxs ∨ tx.hash ∈ k :: before) :=
          fun h => h.imp_right (fun hfull => ⟨hfull.1, fun tx htx =>
            (hfull.2 tx htx).imp_right (List.mem_cons_of_mem k)⟩)
        cases hfirst : s.txsTable.find? k with
        | none => exact hpast (ih s fetchedTxs before txHash post entry hrest hfind hsynced)
        | some first =>
            have hkey : first.hash = k := ((KeyedTable.find?_eq_some_iff _ k first).mp hfirst).2
            simp only
            by_cases htaken : first.synced = true
            · rw [if_pos htaken]
              exact hpast (ih s fetchedTxs before txHash post entry hrest hfind hsynced)
            rw [if_neg htaken]
            split
            · -- The head fills the list, and the walk ends with it.
              rename_i hfull
              refine Or.inr ⟨hfull, fun tx htx => ?_⟩
              refine (List.mem_append.mp htx).imp_right (fun hlast => ?_)
              rw [List.mem_singleton.mp hlast]
              exact hkey ▸ List.mem_cons_self
            by_cases hsame : k = txHash
            · -- The hash occurs twice in the order, and the head has taken the entry.
              refine Or.inl ⟨{ first with synced := true }, ?_, hkey.trans hsame⟩
              exact subset_fetchNewTxs txsLimit order _ _
                (List.mem_append_right fetchedTxs List.mem_cons_self)
            · have hstill : (s.txsTable.modify k (fun tx => { tx with synced := true })).find?
                  txHash = some entry := by
                rw [KeyedTable.find?_modify, if_neg hsame]
                exact hfind
              refine (ih _ _ before txHash post entry hrest hstill hsynced).imp_right
                (fun hfull => ⟨hfull.1, fun tx htx => ?_⟩)
              rcases hfull.2 tx htx with hmem | hbefore
              · refine (List.mem_append.mp hmem).imp_right (fun hlast => ?_)
                rw [List.mem_singleton.mp hlast]
                exact hkey ▸ List.mem_cons_self
              · exact Or.inr (List.mem_cons_of_mem k hbefore)

/-- A fetch that comes back empty has changed nothing, and what it has walked over
    is synced. -/
theorem fetchNewTxs_empty (txsLimit : Nat) (order : HashList) :
    ∀ s : MemoryStorage, (fetchNewTxs txsLimit order s []).2.length = 0 →
      (fetchNewTxs txsLimit order s []).1 = s ∧
        ∀ txHash ∈ order, ∀ tx, s.txsTable.find? txHash = some tx → tx.synced = true := by
  induction order with
  | nil => exact fun _ _ => ⟨rfl, fun _ h => absurd h List.not_mem_nil⟩
  | cons k order ih =>
      intro s
      unfold fetchNewTxs
      cases hfind : s.txsTable.find? k with
      | none =>
          intro hempty
          rcases ih s hempty with ⟨hsame, hsynced⟩
          refine ⟨hsame, fun txHash hmem tx htx => ?_⟩
          rcases List.mem_cons.mp hmem with rfl | hmem
          · exact absurd (hfind.symm.trans htx) (Option.some_ne_none tx).symm
          · exact hsynced txHash hmem tx htx
      | some entry =>
          simp only
          by_cases hentry : entry.synced = true
          · rw [if_pos hentry]
            intro hempty
            rcases ih s hempty with ⟨hsame, hsynced⟩
            refine ⟨hsame, fun txHash hmem tx htx => ?_⟩
            rcases List.mem_cons.mp hmem with rfl | hmem
            · rw [hfind] at htx
              cases htx
              exact hentry
            · exact hsynced txHash hmem tx htx
          · -- The entry is fetched, so the fetch is not empty.
            rw [if_neg hentry]
            intro hempty
            exfalso
            split at hempty
            · cases hempty
            · have hlength := fetchNewTxs_length txsLimit order { s with
                txsTable := s.txsTable.modify k (fun tx => { tx with synced := true }) }
                ([] ++ [{ entry with synced := true }])
              rw [hempty] at hlength
              cases hlength

end MemoryStorage

end BcosTxPool
