import BcosTxPool.Core.Interleaving
import BcosTxPool.Library.History
import BcosTxPool.Theory.SealCounter

/-!
# The Promise of an Enforced Import

An enforced submission that returns no error promises that its transaction is
pooled and sealed for its proposal. Run by itself the call keeps the promise.
Here a normal submission of another object with the same hash runs beside it,
and the two interleave freely.

A schedule passes through three phases. As long as no one has inserted, the
table is what it was and the counter is ahead by what the enforced submission
has added. Once the hash is taken by an entry that the enforced submission has
made, or has yet to look up, the rest is as good as the atomic calls. The third
phase begins when the normal submission inserts between the lookup of the
enforced one and its insertion. That insertion then fails, its status is
ignored, and the entry stays unsealed with the counter one too high.

So the promise is lost exactly by a schedule that enters the third phase, and
whether it does can be read off the schedule.

## Main definitions

* `Untouched`, `Taken`, `Overtaken`: The three phases.
* `Contended`: Either submission alone would take the transaction in.
* `Overtakes`: The insertion that begins the third phase.
* `KeepsPromise`: The promise.

## Theorems

* `run_enforce_alone`, `run_submit_alone`: The programs alone are the calls.
* `finished_of_moves`: Both programs finish.
* `run_phase`: Every schedule leads to one of the phases.
* `promise_kept_iff`: When the promise is kept.
-/

namespace BcosTxPool

open Library

namespace MemoryStorage

variable (cfg : TxPoolConfig)

/-! ### The programs and the calls -/

/-- The ledger check rejects the nonce, or the lookup is next. -/
theorem enforceMove_submittedToChain_cases (s : MemoryStorage) (tx : Transaction) :
    (tx.nonce ∈ s.ledgerNonceChecker.nonceCache ∧
      enforceMove cfg s (.submittedToChain tx) = (s, .returned .nonceCheckFail)) ∨
    (¬ tx.nonce ∈ s.ledgerNonceChecker.nonceCache ∧
      enforceMove cfg s (.submittedToChain tx) = (s, .lookup tx)) := by
  have hcheck := TxValidator.submittedToChain_eq_nonceCheckFail_iff s.ledgerNonceChecker tx
  rw [enforceMove]
  by_cases hnonce : tx.nonce ∈ s.ledgerNonceChecker.nonceCache
  · rw [if_pos (hcheck.mpr hnonce)]
    exact Or.inl ⟨hnonce, rfl⟩
  · rw [if_neg (fun h => hnonce (hcheck.mp h))]
    exact Or.inr ⟨hnonce, rfl⟩

/-- The lookup of an enforced submission that finds its transaction pooled makes
    the whole call: what it does to the entry it does under the same lock. -/
theorem enforceMove_lookup_of_find?_some (s : MemoryStorage) {tx entry : Transaction}
    (hnonce : ¬ tx.nonce ∈ s.ledgerNonceChecker.nonceCache)
    (hfind : s.txsTable.find? tx.hash = some entry) :
    enforceMove cfg s (.lookup tx) = ((s.enforceSubmitTransaction cfg tx).1,
      .returned (s.enforceSubmitTransaction cfg tx).2) := by
  unfold enforceMove enforceSubmitTransaction
  rw [if_neg (fun h => hnonce ((TxValidator.submittedToChain_eq_nonceCheckFail_iff _ tx).mp h))]
  simp only [hfind]
  split
  · rfl
  · split
    · rfl
    · rfl

/-- Left alone, the moves of an enforced submission make the call. -/
theorem iterate_enforceMove (s : MemoryStorage) (tx : Transaction) :
    (fun p => enforceMove cfg p.1 p.2)^[5] (s, .submittedToChain tx)
      = ((s.enforceSubmitTransaction cfg tx).1,
        .returned (s.enforceSubmitTransaction cfg tx).2) := by
  -- A submission that has returned makes no moves.
  have hreturned : ∀ (n : Nat) (s : MemoryStorage) (status : TransactionStatus),
      (fun p => enforceMove cfg p.1 p.2)^[n] (s, .returned status) = (s, .returned status) :=
    fun n s status => Function.iterate_fixed rfl n
  have hcheck := TxValidator.submittedToChain_eq_nonceCheckFail_iff s.ledgerNonceChecker tx
  rw [Function.iterate_succ_apply]
  rcases s.enforceMove_submittedToChain_cases cfg tx with ⟨hnonce, hmove⟩ | ⟨hnonce, hmove⟩
  · rw [hmove, hreturned, enforceSubmitTransaction, if_pos (hcheck.mpr hnonce)]
  · rw [hmove, Function.iterate_succ_apply]
    -- A pooled transaction ends the call at its lookup, and a new one needs all
    -- five moves.
    cases hfind : s.txsTable.find? tx.hash with
    | some entry => rw [s.enforceMove_lookup_of_find?_some cfg hnonce hfind, hreturned]
    | none =>
        simp only [Function.iterate_succ_apply, Function.iterate_zero, id, enforceMove, hfind]
        rw [enforceSubmitTransaction, if_neg (fun h => hnonce (hcheck.mp h))]
        simp only [hfind]

/-- The normal submission ends at a full pool, or goes on with the callback
    set. -/
theorem submitMove_size_cases (s : MemoryStorage) (tx : Transaction)
    (txSubmitCallback : Option TxSubmitCallback) :
    (s.size ≥ cfg.poolLimit ∧
      submitMove cfg s (.size tx txSubmitCallback) = (s, .returned .txPoolIsFull)) ∨
    (s.size < cfg.poolLimit ∧ submitMove cfg s (.size tx txSubmitCallback)
      = (s, .txpoolStorageCheck (withCallback tx txSubmitCallback))) := by
  by_cases hfull : s.size ≥ cfg.poolLimit
  · refine Or.inl ⟨hfull, ?_⟩
    rw [submitMove, if_pos hfull]
  · refine Or.inr ⟨Nat.lt_of_not_le hfull, ?_⟩
    rw [submitMove, if_neg hfull]

/-- A free hash passes the exist check, and the verification is next. -/
theorem submitMove_txpoolStorageCheck {s : MemoryStorage} {tx : Transaction}
    (hfind : s.txsTable.find? tx.hash = none) :
    submitMove cfg s (.txpoolStorageCheck tx) = (s, .verify tx) := by
  have hfree : s.exist tx.hash = false := (s.txsTable.contains_eq_false_iff tx.hash).mpr hfind
  have hcheck : s.txpoolStorageCheck tx = .none := by
    rw [txpoolStorageCheck, hfree, if_neg Bool.false_ne_true]
  rw [submitMove, hcheck, if_neg (not_not_intro rfl)]

/-- The verification rejects the transaction and changes nothing, or it reserves
    the nonce. The marked object is the one that is inserted. -/
theorem submitMove_verify_cases (s : MemoryStorage) (tx : Transaction) :
    (¬ TxValidator.Accepted cfg s.ledgerNonceChecker s.txPoolNonceChecker tx ∧
      ∃ status, TxValidator.verify cfg s.ledgerNonceChecker s.txPoolNonceChecker tx
          = (status, s.txPoolNonceChecker, tx) ∧ status ≠ .none ∧
        submitMove cfg s (.verify tx) = (s, .returned status)) ∨
    (TxValidator.Accepted cfg s.ledgerNonceChecker s.txPoolNonceChecker tx ∧
      TxValidator.verify cfg s.ledgerNonceChecker s.txPoolNonceChecker tx
        = (.none, s.txPoolNonceChecker.insert tx.nonce, TxValidator.marked cfg.framework tx) ∧
      submitMove cfg s (.verify tx)
        = ({ s with txPoolNonceChecker := s.txPoolNonceChecker.insert tx.nonce },
          .insert (TxValidator.marked cfg.framework tx))) := by
  rcases TxValidator.verify_cases cfg s.ledgerNonceChecker s.txPoolNonceChecker tx with
    ⟨hno, status, hstatus, hverify⟩ | ⟨hyes, hverify⟩
  · refine Or.inl ⟨hno, status, hverify, hstatus, ?_⟩
    rw [submitMove, hverify]
    -- Any status but `None` ends the call.
    cases status with
    | none => exact absurd rfl hstatus
    | _ => rfl
  · refine Or.inr ⟨hyes, hverify, ?_⟩
    rw [submitMove, hverify]

/-- So do those of a normal submission. -/
theorem iterate_submitMove (s : MemoryStorage) (tx : Transaction)
    (txSubmitCallback : Option TxSubmitCallback) :
    (fun p => submitMove cfg p.1 p.2)^[5] (s, .size tx txSubmitCallback)
      = ((s.verifyAndSubmitTransaction cfg tx txSubmitCallback).1,
        .returned (s.verifyAndSubmitTransaction cfg tx txSubmitCallback).2) := by
  have hreturned : ∀ (n : Nat) (s : MemoryStorage) (status : TransactionStatus),
      (fun p => submitMove cfg p.1 p.2)^[n] (s, .returned status) = (s, .returned status) :=
    fun n s status => Function.iterate_fixed rfl n
  -- Each check ends the call or leads to the next move.
  rw [Function.iterate_succ_apply]
  rcases s.submitMove_size_cases cfg tx txSubmitCallback with ⟨hfull, hmove⟩ | ⟨hroom, hmove⟩
  · rw [hmove, hreturned, verifyAndSubmitTransaction, if_pos hfull]
  · rw [hmove, verifyAndSubmitTransaction, if_neg (Nat.not_le_of_lt hroom)]
    generalize withCallback tx txSubmitCallback = w
    rw [Function.iterate_succ_apply]
    by_cases hexist : s.txpoolStorageCheck w ≠ .none
    · have hcheck : submitMove cfg s (.txpoolStorageCheck w)
          = (s, .returned (s.txpoolStorageCheck w)) := by
        rw [submitMove, if_pos hexist]
      rw [hcheck, hreturned, if_pos hexist]
    · have hcheck : submitMove cfg s (.txpoolStorageCheck w) = (s, .verify w) := by
        rw [submitMove, if_neg hexist]
      rw [hcheck, if_neg hexist, Function.iterate_succ_apply]
      rcases s.submitMove_verify_cases cfg w with
        ⟨_, status, hverify, hstatus, hmove⟩ | ⟨_, hverify, hmove⟩
      · rw [hmove, hreturned, hverify]
        cases status with
        | none => exact absurd rfl hstatus
        | _ => rfl
      · rw [hmove, hverify]
        rfl

/-! ### The phases of a contended import -/

/-- An entry that is sealed for the proposal a transaction was fetched for. This
    is what the caller of an enforced import relies on. -/
def SealedAs (tx entry : Transaction) : Prop :=
  entry.sealed = true ∧ entry.batchId = tx.batchId ∧ entry.batchHash = tx.batchHash

/-- Where an enforced submission can be that has not met an entry under its
    hash, after `n` moves. -/
inductive EnforceBefore (ledger : LedgerNonceChecker) (tx : Transaction) :
    Nat → EnforceState → Prop
  | submittedToChain : EnforceBefore ledger tx 0 (.submittedToChain tx)
  | rejected (n : Nat) (h : tx.nonce ∈ ledger.nonceCache) :
      EnforceBefore ledger tx n (.returned .nonceCheckFail)
  | lookup (h : ¬ tx.nonce ∈ ledger.nonceCache) : EnforceBefore ledger tx 1 (.lookup tx)
  | setSealed (h : ¬ tx.nonce ∈ ledger.nonceCache) : EnforceBefore ledger tx 2 (.setSealed tx)
  | insert (h : ¬ tx.nonce ∈ ledger.nonceCache) :
      EnforceBefore ledger tx 3 (.insert { tx with sealed := true })

/-- Where a normal submission can be that has not met an entry under its hash,
    after `n` moves, and what it has found out about the state `s` it began in. -/
inductive SubmitBefore (s : MemoryStorage) (pool : TxPoolNonceChecker) (tx w : Transaction)
    (txSubmitCallback : Option TxSubmitCallback) : Nat → SubmitState → Prop
  | size (hpool : pool = s.txPoolNonceChecker) :
      SubmitBefore s pool tx w txSubmitCallback 0 (.size tx txSubmitCallback)
  | txpoolStorageCheck (hpool : pool = s.txPoolNonceChecker) (hroom : s.size < cfg.poolLimit) :
      SubmitBefore s pool tx w txSubmitCallback 1 (.txpoolStorageCheck w)
  | verify (hpool : pool = s.txPoolNonceChecker) (hroom : s.size < cfg.poolLimit) :
      SubmitBefore s pool tx w txSubmitCallback 2 (.verify w)
  | insert (h : Submittable cfg s tx) :
      SubmitBefore s pool tx w txSubmitCallback 3 (.insert (TxValidator.marked cfg.framework w))
  | rejected (n : Nat) (status : TransactionStatus) (h : ¬ Submittable cfg s tx) :
      SubmitBefore s pool tx w txSubmitCallback n (.returned status)

/-- Where an enforced submission can be whose hash has the entry `entry`. Once
    it is past its lookup, the entry is sealed for its proposal or it returns an
    error. -/
inductive EnforceAround (ledger : LedgerNonceChecker) (tx entry : Transaction) :
    EnforceState → Prop
  | submittedToChain : EnforceAround ledger tx entry (.submittedToChain tx)
  | lookup (h : ¬ tx.nonce ∈ ledger.nonceCache) : EnforceAround ledger tx entry (.lookup tx)
  | eraseMissed (own : Transaction) (h : SealedAs tx entry) :
      EnforceAround ledger tx entry (.eraseMissed own)
  | returned (status : TransactionStatus) (h : status = .none → SealedAs tx entry) :
      EnforceAround ledger tx entry (.returned status)

/-- The transaction objects of a normal submission have the given hash. Its
    moves copy the object, and the copies keep the hash. -/
def SubmitOwns (txHash : HashType) : SubmitState → Prop
  | .size tx _ => tx.hash = txHash
  | .txpoolStorageCheck tx => tx.hash = txHash
  | .verify tx => tx.hash = txHash
  | .insert tx => tx.hash = txHash
  | .eraseMissed _ _ => True
  | .returned _ => True

/-- Where an enforced submission can be that another insertion has overtaken:
    past its lookup, and bound to return no error. -/
inductive EnforceOvertaken (tx : Transaction) : EnforceState → Prop
  | setSealed : EnforceOvertaken tx (.setSealed tx)
  | insert : EnforceOvertaken tx (.insert { tx with sealed := true })
  | eraseMissed (own : Transaction) : EnforceOvertaken tx (.eraseMissed own)
  | returned : EnforceOvertaken tx (.returned .none)

/-- Where a normal submission can be that has inserted. It will not touch the
    table again. -/
inductive SubmitAfter : SubmitState → Prop
  | eraseMissed (own : Transaction) (result : TransactionStatus) :
      SubmitAfter (.eraseMissed own result)
  | returned (status : TransactionStatus) : SubmitAfter (.returned status)

/-- What an enforced submission has added to the counter ahead of its entry. The
    source counts before it inserts. -/
def ahead : EnforceState → Nat
  | .insert _ => 1
  | _ => 0

section Phases

variable (s₀ : MemoryStorage) (tx tx' : Transaction) (txSubmitCallback : Option TxSubmitCallback)

/-- After `m` and `k` moves no one has inserted under the hash. -/
structure Untouched (m k : Nat) (s : MemoryStorage) (e : EnforceState) (b : SubmitState) :
    Prop where
  free : s₀.txsTable.find? tx.hash = none
  table : s.txsTable = s₀.txsTable
  ledger : s.ledgerNonceChecker = s₀.ledgerNonceChecker
  size : s.sealedTxsSize = s₀.sealedTxsSize + ahead e
  enforce : EnforceBefore s₀.ledgerNonceChecker tx m e
  submit : SubmitBefore cfg s₀ s.txPoolNonceChecker tx' (withCallback tx' txSubmitCallback)
    txSubmitCallback k b

/-- There is an entry under the hash, and the enforced submission has met it,
    made it, or will meet it. The counter is right in this phase. -/
structure Taken (s : MemoryStorage) (e : EnforceState) (b : SubmitState) : Prop where
  entry : ∃ entry, s.txsTable.find? tx.hash = some entry ∧
    EnforceAround s.ledgerNonceChecker tx entry e
  counted : s.Counted
  submit : SubmitOwns tx.hash b

/-- The normal submission has made an entry that the enforced one did not meet
    and takes for its own. -/
structure Overtaken (s : MemoryStorage) (e : EnforceState) (b : SubmitState) : Prop where
  entry : ∃ entry, s.txsTable.find? tx.hash = some entry ∧ entry.sealed = false
  enforce : EnforceOvertaken tx e
  submit : SubmitAfter b

/-- The transaction is new on both ways: not pooled, its nonce not on the
    ledger, and such that the normal submission alone would take it in.
    Otherwise nothing can be overtaken. -/
structure Contended : Prop where
  free : s₀.txsTable.find? tx.hash = none
  nonce : ¬ tx.nonce ∈ s₀.ledgerNonceChecker.nonceCache
  submittable : Submittable cfg s₀ tx'

variable {cfg s₀ tx tx' txSubmitCallback} {m k : Nat} {s : MemoryStorage} {e : EnforceState}
  {b : SubmitState}

/-- Where a normal submission is before its insertion, it holds an object of the
    hash. -/
theorem SubmitBefore.owns {pool : TxPoolNonceChecker} {w : Transaction} (hhash : tx'.hash = tx.hash)
    (hw : w.toTxData = tx'.toTxData)
    (h : SubmitBefore cfg s₀ pool tx' w txSubmitCallback k b) : SubmitOwns tx.hash b := by
  have hown : w.hash = tx.hash := (congrArg TxData.hash hw).trans hhash
  cases h with
  | size _ => exact hhash
  | txpoolStorageCheck _ _ => exact hown
  | verify _ _ => exact hown
  | insert _ =>
      exact (congrArg TxData.hash (TxValidator.marked_toTxData cfg.framework w)).trans hown
  | rejected _ _ _ => trivial

/-- What is inserted under a free hash is found there. -/
theorem find?_inserted (cfg : TxPoolConfig) (s : MemoryStorage) (own : Transaction)
    (hfree : s.txsTable.find? own.hash = none) :
    (s.inserted cfg own).txsTable.find? own.hash = some own := by
  rw [inserted, notifyUnsealedTxsSize_txsTable]
  have hfind := s.txsTable.find?_insert own own.hash hfree
  rw [if_pos rfl] at hfind
  exact hfind

/-! ### Moves -/

/-- A move of the enforced submission, when no one has inserted yet. The fourth
    one is its insertion, and with it the second phase begins. -/
theorem untouched_enforceMove (h₀ : s₀.Counted) (htx : tx.sealed = false)
    (hhash : tx'.hash = tx.hash) (h : Untouched cfg s₀ tx tx' txSubmitCallback m k s e b) :
    Untouched cfg s₀ tx tx' txSubmitCallback (m + 1) k (enforceMove cfg s e).1
        (enforceMove cfg s e).2 b ∨
      (Taken tx (enforceMove cfg s e).1 (enforceMove cfg s e).2 b ∧
        m = 3) := by
  rcases h with ⟨hfree, htable, hledger, hsize, henforce, hsubmit⟩
  have hfind : s.txsTable.find? tx.hash = none := by rw [htable, hfree]
  -- The moves up to the insertion change the counter at most.
  cases henforce with
  | submittedToChain =>
      refine Or.inl ?_
      rcases s.enforceMove_submittedToChain_cases cfg tx with ⟨hnonce, hmove⟩ | ⟨hnonce, hmove⟩
      · rw [hmove]
        rw [hledger] at hnonce
        exact ⟨hfree, htable, hledger, hsize, .rejected _ hnonce, hsubmit⟩
      · rw [hmove]
        rw [hledger] at hnonce
        exact ⟨hfree, htable, hledger, hsize, .lookup hnonce, hsubmit⟩
  | rejected _ hnonce => exact Or.inl ⟨hfree, htable, hledger, hsize, .rejected _ hnonce, hsubmit⟩
  | lookup hnonce =>
      have hmove : enforceMove cfg s (.lookup tx) = (s, .setSealed tx) := by
        simp only [enforceMove, hfind]
      rw [hmove]
      exact Or.inl ⟨hfree, htable, hledger, hsize, .setSealed hnonce, hsubmit⟩
  | setSealed hnonce =>
      have hmove : enforceMove cfg s (.setSealed tx)
          = ({ s with sealedTxsSize := s.sealedTxsSize + 1 },
            .insert { tx with sealed := true }) := by
        rw [enforceMove, htx, if_neg Bool.false_ne_true]
      rw [hmove]
      exact Or.inl ⟨hfree, htable, hledger, congrArg (· + 1) hsize, .insert hnonce, hsubmit⟩
  | insert hnonce =>
      have hmove : enforceMove cfg s (.insert { tx with sealed := true })
          = (s.inserted cfg { tx with sealed := true },
            .eraseMissed { tx with sealed := true }) := by
        rw [enforceMove, insert_of_find?_none cfg s { tx with sealed := true } hfind]
      have hentry := find?_inserted cfg s { tx with sealed := true } hfind
      rw [hmove]
      refine Or.inr ⟨⟨⟨_, hentry, .eraseMissed _ ⟨rfl, rfl, rfl⟩⟩, ?_,
        hsubmit.owns hhash (withCallback_toTxData tx' txSubmitCallback)⟩, rfl⟩
      -- The entry catches up with the counter.
      refine notify_counted cfg ?_
      have hcount := s.txsTable.countP_insert (fun tx => tx.sealed) { tx with sealed := true } hfind
      rw [if_pos rfl] at hcount
      unfold Counted sealedCount at h₀ ⊢
      simp only [hcount]
      rw [hsize, htable, h₀, ahead]

/-- An unsealed entry under a free hash leaves a right counter right. It counts
    neither in the table nor in the counter. -/
theorem inserted_counted {own : Transaction} (hunsealed : own.sealed = false)
    (hfree : s.txsTable.find? own.hash = none) (hs : s.Counted) : (s.inserted cfg own).Counted := by
  have hstep := step_counted cfg hs (.insert ⟨own, hunsealed⟩)
  rw [step, insert_of_find?_none cfg s own hfree] at hstep
  exact hstep

/-- The normal submission inserts when no one else has. Which phase follows is a
    matter of how far the enforced submission is. -/
theorem untouched_inserted (h₀ : s₀.Counted)
    (h : Untouched cfg s₀ tx tx' txSubmitCallback m k s e b) (hall : Submittable cfg s₀ tx')
    {own : Transaction} (hown : own.hash = tx.hash) (hunsealed : own.sealed = false) :
    (Taken tx (s.inserted cfg own) e (.eraseMissed own .none) ∧
        (Contended cfg s₀ tx tx' → ¬ (2 ≤ m ∧ m < 4))) ∨
      (Overtaken tx (s.inserted cfg own) e (.eraseMissed own .none) ∧
        Contended cfg s₀ tx tx' ∧ 2 ≤ m ∧ m < 4) := by
  rcases h with ⟨hfree, htable, hledger, hsize, henforce, _⟩
  have hfind : s.txsTable.find? own.hash = none := by rw [htable, hown, hfree]
  have hentry := find?_inserted cfg s own hfind
  rw [hown] at hentry
  have hcounted : ahead e = 0 → (s.inserted cfg own).Counted := by
    intro hahead
    refine inserted_counted hunsealed hfind ?_
    rw [Counted, hsize, hahead, Nat.add_zero, h₀, sealedCount, sealedCount, htable]
  -- Where the enforced submission stands decides whether it will find the entry: it has
  -- yet to look the hash up, or it has done so in vain.
  cases henforce with
  | submittedToChain =>
      exact Or.inl ⟨⟨⟨own, hentry, .submittedToChain⟩, hcounted rfl, trivial⟩, fun _ => by omega⟩
  | rejected _ hnonce =>
      refine Or.inl ⟨⟨⟨own, hentry, .returned _ (fun hc => ?_)⟩, hcounted rfl, trivial⟩,
        fun hcontended => absurd hnonce hcontended.nonce⟩
      cases hc
  | lookup hnonce =>
      refine Or.inl ⟨⟨⟨own, hentry, .lookup ?_⟩, hcounted rfl, trivial⟩, fun _ => by omega⟩
      rw [inserted, notifyUnsealedTxsSize_ledgerNonceChecker]
      exact hledger ▸ hnonce
  | setSealed hnonce =>
      exact Or.inr ⟨⟨⟨own, hentry, hunsealed⟩, .setSealed, .eraseMissed _ _⟩,
        ⟨hfree, hnonce, hall⟩, by omega, by omega⟩
  | insert hnonce =>
      exact Or.inr ⟨⟨⟨own, hentry, hunsealed⟩, .insert, .eraseMissed _ _⟩,
        ⟨hfree, hnonce, hall⟩, by omega, by omega⟩

/-- A move of the normal submission, when no one has inserted yet. -/
theorem untouched_submitMove (h₀ : s₀.Counted) (htx' : tx'.sealed = false)
    (hhash : tx'.hash = tx.hash) (h : Untouched cfg s₀ tx tx' txSubmitCallback m k s e b) :
    (Untouched cfg s₀ tx tx' txSubmitCallback m (k + 1) (submitMove cfg s b).1 e
        (submitMove cfg s b).2 ∧ (Contended cfg s₀ tx tx' → k ≠ 3)) ∨
      (Taken tx (submitMove cfg s b).1 e (submitMove cfg s b).2 ∧ k = 3 ∧
        (Contended cfg s₀ tx tx' → ¬ (2 ≤ m ∧ m < 4))) ∨
      (Overtaken tx (submitMove cfg s b).1 e (submitMove cfg s b).2 ∧ k = 3 ∧
        Contended cfg s₀ tx tx' ∧ 2 ≤ m ∧ m < 4) := by
  have hkept := h
  rcases hkept with ⟨hfree, htable, hledger, hsize, henforce, hsubmit⟩
  have hdata := withCallback_toTxData tx' txSubmitCallback
  have hinvalid := withCallback_invalid tx' txSubmitCallback
  have hsealed := withCallback_sealed tx' txSubmitCallback
  generalize hw : withCallback tx' txSubmitCallback = w at hdata hinvalid hsealed hsubmit
  have hown : w.hash = tx.hash := (congrArg TxData.hash hdata).trans hhash
  have hfind : s.txsTable.find? w.hash = none := by rw [htable, hown, hfree]
  -- Only its insertion touches the pool; every other move is a check.
  cases hsubmit with
  | size hpool =>
      refine Or.inl ⟨?_, fun _ => by omega⟩
      have hroom : s.size = s₀.size := by rw [MemoryStorage.size, htable, MemoryStorage.size]
      -- The pool has the size that it began with, so the check comes out as it
      -- would have then.
      rcases s.submitMove_size_cases cfg tx' txSubmitCallback with ⟨hfull, hmove⟩ | ⟨hlimit, hmove⟩
      · rw [hmove]
        refine ⟨hfree, htable, hledger, hsize, henforce, .rejected _ _ (fun hall => ?_)⟩
        have hlimit := hall.room
        omega
      · rw [hmove, hw]
        subst hw
        exact ⟨hfree, htable, hledger, hsize, henforce, .txpoolStorageCheck hpool (by omega)⟩
  | txpoolStorageCheck hpool hroom =>
      refine Or.inl ⟨?_, fun _ => by omega⟩
      rw [submitMove_txpoolStorageCheck cfg hfind]
      subst hw
      exact ⟨hfree, htable, hledger, hsize, henforce, .verify hpool hroom⟩
  | verify hpool hroom =>
      refine Or.inl ⟨?_, fun _ => by omega⟩
      rcases s.submitMove_verify_cases cfg w with
        ⟨hno, status, _, _, hmove⟩ | ⟨hyes, _, hmove⟩
      · rw [hmove]
        -- What is rejected now would have been rejected by the call in one piece.
        refine ⟨hfree, htable, hledger, hsize, henforce, .rejected _ status (fun hall => hno ?_)⟩
        rw [hledger, hpool]
        exact hall.accepted.congr hdata (hinvalid.trans hall.accepted.valid) (fun _ hmem => hmem)
      · rw [hmove]
        rw [hledger, hpool] at hyes
        subst hw
        refine ⟨hfree, htable, hledger, hsize, henforce, .insert ⟨hroom, ?_, ?_⟩⟩
        · rw [hhash, hfree]
        · exact hyes.congr hdata.symm (hinvalid.symm.trans hyes.valid) (fun _ hmem => hmem)
  | rejected _ status hno =>
      exact Or.inl ⟨⟨hfree, htable, hledger, hsize, henforce, .rejected _ status hno⟩,
        fun hall => absurd hall.submittable hno⟩
  | insert hall =>
      have hmarked : (TxValidator.marked cfg.framework w).hash = tx.hash :=
        (congrArg TxData.hash (TxValidator.marked_toTxData cfg.framework w)).trans hown
      have hunsealed : (TxValidator.marked cfg.framework w).sealed = false := by
        rw [TxValidator.marked_sealed, hsealed, htx']
      have hmove : submitMove cfg s (.insert (TxValidator.marked cfg.framework w))
          = (s.inserted cfg (TxValidator.marked cfg.framework w),
            .eraseMissed (TxValidator.marked cfg.framework w) .none) := by
        rw [submitMove, insert_of_find?_none cfg s _ (by rw [htable, hmarked, hfree])]
      rw [hmove]
      refine Or.inr ?_
      rcases untouched_inserted h₀ h hall hmarked hunsealed with
        ⟨htaken, hout⟩ | ⟨hovertaken, hcontended, hbetween⟩
      · exact Or.inl ⟨htaken, rfl, hout⟩
      · exact Or.inr ⟨hovertaken, rfl, hcontended, hbetween⟩

/-- A move of the enforced submission, when its hash is taken. Its lookup finds
    the entry and seals it, or it reports why not. -/
theorem taken_enforceMove (htx : tx.sealed = false) (h : Taken tx s e b) :
    Taken tx (enforceMove cfg s e).1 (enforceMove cfg s e).2 b := by
  rcases h with ⟨⟨entry, hfind, haround⟩, hcounted, hsubmit⟩
  cases haround with
  | submittedToChain =>
      rcases s.enforceMove_submittedToChain_cases cfg tx with ⟨_, hmove⟩ | ⟨hnonce, hmove⟩
      · rw [hmove]
        exact ⟨⟨entry, hfind, .returned _ (fun hc => by cases hc)⟩, hcounted, hsubmit⟩
      · rw [hmove]
        exact ⟨⟨entry, hfind, .lookup hnonce⟩, hcounted, hsubmit⟩
  | lookup hnonce =>
      -- From here on the call is the atomic one.
      have hstep := step_counted cfg hcounted (.submitTransaction ⟨tx, htx⟩ none true)
      have hsubmitted : step cfg s (.submitTransaction ⟨tx, htx⟩ none true)
          = (s.enforceSubmitTransaction cfg tx).1 := rfl
      rw [hsubmitted] at hstep
      rw [s.enforceMove_lookup_of_find?_some cfg hnonce hfind]
      refine ⟨?_, hstep, hsubmit⟩
      -- The entry is sealed for another proposal, for this one, or open.
      rcases s.enforceSubmitTransaction_cases cfg tx with
        ⟨hn, _⟩ | ⟨_, e', hf, _, he⟩ | ⟨_, e', hf, hhere, he⟩ | ⟨_, e', hf, _, he⟩ | ⟨_, hf, _⟩
      · exact absurd hn hnonce
      · rw [he]
        exact ⟨entry, hfind, .returned _ (fun hc => by cases hc)⟩
      · rw [he]
        exact ⟨e', hf, .returned _ (fun _ => ⟨hhere.1, hhere.2.2⟩)⟩
      · have hmodify := s.txsTable.find?_modify tx.hash (sealFor tx) (sealFor_hash tx) tx.hash
        rw [if_pos rfl, hf, Option.map_some] at hmodify
        rw [he]
        exact ⟨_, hmodify, .returned _ (fun _ => ⟨rfl, rfl, rfl⟩)⟩
      · exact absurd (hfind.symm.trans hf) (Option.some_ne_none entry)
  | eraseMissed own hsealed =>
      exact ⟨⟨entry, hfind, .returned _ (fun _ => hsealed)⟩, hcounted, hsubmit⟩
  | returned status hsealed =>
      exact ⟨⟨entry, hfind, .returned status hsealed⟩, hcounted, hsubmit⟩

/-- A move of the normal submission, when its hash is taken: it inserts
    nothing. -/
theorem taken_submitMove (h : Taken tx s e b) :
    Taken tx (submitMove cfg s b).1 e (submitMove cfg s b).2 := by
  rcases h with ⟨⟨entry, hfind, haround⟩, hcounted, hsubmit⟩
  cases b with
  | size own callback =>
      rcases s.submitMove_size_cases cfg own callback with ⟨_, hmove⟩ | ⟨_, hmove⟩
      · rw [hmove]
        exact ⟨⟨entry, hfind, haround⟩, hcounted, trivial⟩
      · rw [hmove]
        refine ⟨⟨entry, hfind, haround⟩, hcounted, ?_⟩
        exact (congrArg TxData.hash (withCallback_toTxData own callback)).trans hsubmit
  | txpoolStorageCheck own =>
      rw [submitMove]
      split
      · exact ⟨⟨entry, hfind, haround⟩, hcounted, trivial⟩
      · exact ⟨⟨entry, hfind, haround⟩, hcounted, hsubmit⟩
  | verify own =>
      rcases s.submitMove_verify_cases cfg own with ⟨_, status, _, _, hmove⟩ | ⟨_, _, hmove⟩
      · rw [hmove]
        exact ⟨⟨entry, hfind, haround⟩, hcounted, trivial⟩
      · rw [hmove]
        refine ⟨⟨entry, hfind, haround⟩, hcounted, ?_⟩
        exact (congrArg TxData.hash (TxValidator.marked_toTxData cfg.framework own)).trans hsubmit
  | insert own =>
      -- The hash is taken, so the insertion fails.
      have hhash : own.hash = tx.hash := hsubmit
      rw [← hhash] at hfind
      have hmove : submitMove cfg s (.insert own) = (s, .eraseMissed own .alreadyInTxPool) := by
        rw [submitMove, insert_of_find?_some cfg s hfind]
      rw [hhash] at hfind
      rw [hmove]
      exact ⟨⟨entry, hfind, haround⟩, hcounted, trivial⟩
  | eraseMissed own result => exact ⟨⟨entry, hfind, haround⟩, hcounted, trivial⟩
  | returned status => exact ⟨⟨entry, hfind, haround⟩, hcounted, trivial⟩

/-- A move of the enforced submission that has been overtaken: its insertion
    fails, and it does not notice. -/
theorem overtaken_enforceMove (htx : tx.sealed = false) (h : Overtaken tx s e b) :
    Overtaken tx (enforceMove cfg s e).1 (enforceMove cfg s e).2 b := by
  rcases h with ⟨⟨entry, hfind, hopen⟩, henforce, hsubmit⟩
  cases henforce with
  | setSealed =>
      rw [enforceMove, htx, if_neg Bool.false_ne_true]
      exact ⟨⟨entry, hfind, hopen⟩, .insert, hsubmit⟩
  | insert =>
      have hown : s.txsTable.find? ({ tx with sealed := true } : Transaction).hash = some entry :=
        hfind
      -- The status of the insertion is not looked at.
      have hmove : enforceMove cfg s (.insert { tx with sealed := true })
          = (s, .eraseMissed { tx with sealed := true }) := by
        rw [enforceMove, insert_of_find?_some cfg s hown]
      rw [hmove]
      exact ⟨⟨entry, hfind, hopen⟩, .eraseMissed _, hsubmit⟩
  | eraseMissed own => exact ⟨⟨entry, hfind, hopen⟩, .returned, hsubmit⟩
  | returned => exact ⟨⟨entry, hfind, hopen⟩, .returned, hsubmit⟩

/-- The normal submission is done with the table and goes to its end. -/
theorem overtaken_submitMove (h : Overtaken tx s e b) :
    Overtaken tx (submitMove cfg s b).1 e (submitMove cfg s b).2 := by
  rcases h with ⟨⟨entry, hfind, hopen⟩, henforce, hsubmit⟩
  cases hsubmit with
  | eraseMissed own result => exact ⟨⟨entry, hfind, hopen⟩, henforce, .returned result⟩
  | returned status => exact ⟨⟨entry, hfind, hopen⟩, henforce, .returned status⟩

end Phases

/-! ### Whole schedules -/

/-- The next move is the insertion of the normal submission, after the lookup of
    the enforced one and before its insertion: the fourth move of the one, after
    the second and before the fourth of the other. -/
def Overtakes (pre : List Thread) (next : Thread) : Prop :=
  next = .submit ∧ pre.count .submit = 3 ∧ 2 ≤ pre.count .enforce ∧ pre.count .enforce < 4

/-- No insertion overtakes, at any point of the schedule. -/
def NeverOvertakes (schedule : List Thread) : Prop :=
  Throughout (fun pre next => ¬ Overtakes pre next) schedule

/-- A move of the enforced submission overtakes nothing. -/
theorem neverOvertakes_enforce {l : List Thread} (h : NeverOvertakes l) :
    NeverOvertakes (l ++ [.enforce]) :=
  (throughout_concat _ l _).mpr ⟨h, fun hin => by cases hin.1⟩

/-- A move of the normal one does not either, unless it is its insertion at the
    wrong moment. -/
theorem neverOvertakes_submit {l : List Thread} (h : NeverOvertakes l)
    (hout : l.count .submit = 3 → ¬ (2 ≤ l.count .enforce ∧ l.count .enforce < 4)) :
    NeverOvertakes (l ++ [.submit]) :=
  (throughout_concat _ l _).mpr ⟨h, fun hin => hout hin.2.1 hin.2.2⟩

/-- Nothing is overtaken before the second move of the enforced submission. -/
theorem neverOvertakes_of_count {l : List Thread} (h : l.count .enforce < 2) :
    NeverOvertakes l := by
  intro pre next post hl hin
  rw [hl, List.count_append] at h
  have hopened := hin.2.2.1
  omega

section Schedule

variable (s₀ : MemoryStorage) (tx tx' : Transaction) (txSubmitCallback : Option TxSubmitCallback)

/-- The phase that a schedule has led to, and whether an insertion has overtaken
    the other. The counts of the moves tell where the two stand. -/
def Phase (l : List Thread) (s : MemoryStorage) (e : EnforceState) (b : SubmitState) : Prop :=
  (Untouched cfg s₀ tx tx' txSubmitCallback (l.count .enforce) (l.count .submit) s e b ∧
    (Contended cfg s₀ tx tx' → NeverOvertakes l)) ∨
  (Taken tx s e b ∧ (Contended cfg s₀ tx tx' →
    NeverOvertakes l ∧ (4 ≤ l.count .enforce ∨ 4 ≤ l.count .submit))) ∨
  (Overtaken tx s e b ∧ Contended cfg s₀ tx tx' ∧ ¬ NeverOvertakes l)

variable {cfg s₀ tx tx' txSubmitCallback} {l : List Thread} {s : MemoryStorage} {e : EnforceState}
  {b : SubmitState}

/-- At the start the hash is free, or its entry is there to be met. -/
theorem phase_start (h₀ : s₀.Counted) (hhash : tx'.hash = tx.hash) :
    Phase cfg s₀ tx tx' txSubmitCallback [] s₀ (.submittedToChain tx)
      (.size tx' txSubmitCallback) := by
  cases hfind : s₀.txsTable.find? tx.hash with
  | none =>
      exact Or.inl ⟨⟨hfind, rfl, rfl, rfl, .submittedToChain, .size rfl⟩,
        fun _ => throughout_nil _⟩
  | some entry =>
      refine Or.inr (Or.inl ⟨⟨⟨entry, hfind, .submittedToChain⟩, h₀, hhash⟩, fun hall => ?_⟩)
      exact absurd (hfind.symm.trans hall.free) (Option.some_ne_none entry)

/-- A move of the enforced submission leads from a phase to a phase. Only the
    normal one can open the third. -/
theorem phase_enforceMove (h₀ : s₀.Counted) (htx : tx.sealed = false) (hhash : tx'.hash = tx.hash)
    (h : Phase cfg s₀ tx tx' txSubmitCallback l s e b) :
    Phase cfg s₀ tx tx' txSubmitCallback (l ++ [.enforce]) (enforceMove cfg s e).1
      (enforceMove cfg s e).2 b := by
  unfold Phase
  rw [count_concat_self, count_concat_of_ne l (fun hc : Thread.enforce = .submit => by cases hc)]
  rcases h with ⟨huntouched, hnever⟩ | ⟨htaken, hnever⟩ | ⟨hovertaken, hall, hin⟩
  · rcases untouched_enforceMove h₀ htx hhash huntouched with hnext | ⟨hnext, hm⟩
    · exact Or.inl ⟨hnext, fun hall => neverOvertakes_enforce (hnever hall)⟩
    · exact Or.inr (Or.inl ⟨hnext, fun hall =>
        ⟨neverOvertakes_enforce (hnever hall), Or.inl (by omega)⟩⟩)
  · refine Or.inr (Or.inl ⟨taken_enforceMove htx htaken, fun hall => ?_⟩)
    rcases hnever hall with ⟨hl, hpast⟩
    exact ⟨neverOvertakes_enforce hl, hpast.imp_left (fun hle => by omega)⟩
  · exact Or.inr (Or.inr ⟨overtaken_enforceMove htx hovertaken, hall,
      fun hl => hin ((throughout_concat _ l _).mp hl).1⟩)

/-- A move of the normal submission does too. Its insertion ends the first
    phase, and the counts say in which one it ends up. -/
theorem phase_submitMove (h₀ : s₀.Counted) (htx' : tx'.sealed = false)
    (hhash : tx'.hash = tx.hash) (h : Phase cfg s₀ tx tx' txSubmitCallback l s e b) :
    Phase cfg s₀ tx tx' txSubmitCallback (l ++ [.submit]) (submitMove cfg s b).1 e
      (submitMove cfg s b).2 := by
  unfold Phase
  rw [count_concat_self, count_concat_of_ne l (fun hc : Thread.submit = .enforce => by cases hc)]
  rcases h with ⟨huntouched, hnever⟩ | ⟨htaken, hnever⟩ | ⟨hovertaken, hall, hin⟩
  · rcases untouched_submitMove h₀ htx' hhash huntouched with
      ⟨hnext, hk⟩ | ⟨hnext, hk, hout⟩ | ⟨hnext, hk, hall, hbetween⟩
    · exact Or.inl ⟨hnext, fun hall =>
        neverOvertakes_submit (hnever hall) (fun hc => absurd hc (hk hall))⟩
    · exact Or.inr (Or.inl ⟨hnext, fun hall =>
        ⟨neverOvertakes_submit (hnever hall) (fun _ => hout hall), Or.inr (by omega)⟩⟩)
    · refine Or.inr (Or.inr ⟨hnext, hall, fun hl => ?_⟩)
      exact ((throughout_concat _ l _).mp hl).2 ⟨rfl, hk, hbetween⟩
  · refine Or.inr (Or.inl ⟨taken_submitMove htaken, fun hall => ?_⟩)
    rcases hnever hall with ⟨hl, hpast⟩
    -- One of the two insertions has been made, so this move is not the overtaking
    -- one.
    refine ⟨neverOvertakes_submit hl (fun hk hbetween => ?_), hpast.imp_right (fun hle => by omega)⟩
    rcases hpast with hpast | hpast
    · omega
    · omega
  · exact Or.inr (Or.inr ⟨overtaken_submitMove hovertaken, hall,
      fun hl => hin ((throughout_concat _ l _).mp hl).1⟩)

/-- Every schedule leads to one of the phases. -/
theorem run_phase (h₀ : s₀.Counted) (htx : tx.sealed = false) (htx' : tx'.sealed = false)
    (hhash : tx'.hash = tx.hash) (schedule : List Thread) :
    Phase cfg s₀ tx tx' txSubmitCallback schedule
      (run (Threads.move (threadMove cfg)) (atStart s₀ tx tx' txSubmitCallback) schedule).shared
      ((run (Threads.move (threadMove cfg)) (atStart s₀ tx tx' txSubmitCallback) schedule).own
        .enforce)
      ((run (Threads.move (threadMove cfg)) (atStart s₀ tx tx' txSubmitCallback) schedule).own
        .submit) := by
  -- The induction is on the schedule from its end, one move at a time.
  induction schedule using List.reverseRecOn with
  | nil => exact phase_start h₀ hhash
  | append_singleton l i ih =>
      rw [run_concat]
      cases i with
      | enforce => exact phase_enforceMove h₀ htx hhash ih
      | submit => exact phase_submitMove h₀ htx' hhash ih

/-- In every phase the promise is kept exactly if no insertion has overtaken the
    other. -/
theorem phase_promise (h : Phase cfg s₀ tx tx' txSubmitCallback l s e b)
    {status : TransactionStatus} (hreturned : e = .returned status) :
    (e = .returned .none →
      (∃ entry, s.txsTable.find? tx.hash = some entry ∧ SealedAs tx entry) ∧ s.Counted) ↔
    (Contended cfg s₀ tx tx' → NeverOvertakes l) := by
  subst hreturned
  rcases h with ⟨huntouched, hnever⟩ | ⟨htaken, hnever⟩ | ⟨hovertaken, hall, hin⟩
  · -- With no entry there, it has returned because of its nonce.
    refine iff_of_true (fun hnone => ?_) hnever
    have henforce := huntouched.enforce
    rw [hnone] at henforce
    generalize l.count .enforce = m at henforce
    cases henforce
  · refine iff_of_true (fun hnone => ⟨?_, htaken.counted⟩) (fun hall => (hnever hall).1)
    rcases htaken.entry with ⟨entry, hfind, haround⟩
    rw [hnone] at haround
    cases haround with
    | returned _ hsealed => exact ⟨entry, hfind, hsealed rfl⟩
  · refine iff_of_false (fun hkept => ?_) (fun hl => hin (hl hall))
    have henforce := hovertaken.enforce
    cases henforce with
    | returned =>
        -- The entry is the other one, and it is not sealed.
        rcases hovertaken.entry with ⟨entry, hfind, hopen⟩
        rcases (hkept rfl).1 with ⟨other, hother, hsealed, _⟩
        rw [hfind, Option.some.injEq] at hother
        rw [← hother, hopen] at hsealed
        exact absurd hsealed Bool.false_ne_true

end Schedule

/-- The moves of the enforced submission, scheduled without the other, make the
    call. -/
theorem run_enforce_alone (s : MemoryStorage) (tx tx' : Transaction)
    (txSubmitCallback : Option TxSubmitCallback) :
    let t := run (Threads.move (threadMove cfg)) (atStart s tx tx' txSubmitCallback)
      (List.replicate 5 .enforce)
    t.shared = (s.enforceSubmitTransaction cfg tx).1 ∧
      t.own .enforce = EnforceState.returned (s.enforceSubmitTransaction cfg tx).2 := by
  have halone := Threads.run_replicate (threadMove cfg) .enforce 5
    (atStart s tx tx' txSubmitCallback)
  exact Prod.ext_iff.mp (halone.trans (s.iterate_enforceMove cfg tx))

/-- So do those of the normal submission. -/
theorem run_submit_alone (s : MemoryStorage) (tx tx' : Transaction)
    (txSubmitCallback : Option TxSubmitCallback) :
    let t := run (Threads.move (threadMove cfg)) (atStart s tx tx' txSubmitCallback)
      (List.replicate 5 .submit)
    t.shared = (s.verifyAndSubmitTransaction cfg tx' txSubmitCallback).1 ∧
      t.own .submit
        = SubmitState.returned (s.verifyAndSubmitTransaction cfg tx' txSubmitCallback).2 := by
  have halone := Threads.run_replicate (threadMove cfg) .submit 5
    (atStart s tx tx' txSubmitCallback)
  exact Prod.ext_iff.mp (halone.trans (s.iterate_submitMove cfg tx' txSubmitCallback))

/-- What an enforced submission has left to do. Each move makes it smaller. -/
def enforceLeft : EnforceState → Nat
  | .submittedToChain _ => 5
  | .lookup _ => 4
  | .setSealed _ => 3
  | .insert _ => 2
  | .eraseMissed _ => 1
  | .returned _ => 0

/-- What a normal submission has left to do. -/
def submitLeft : SubmitState → Nat
  | .size _ _ => 5
  | .txpoolStorageCheck _ => 4
  | .verify _ => 3
  | .insert _ => 2
  | .eraseMissed _ _ => 1
  | .returned _ => 0

/-- A move brings an enforced submission closer to its end. -/
theorem enforceLeft_move_le (s : MemoryStorage) (e : EnforceState) :
    enforceLeft (enforceMove cfg s e).2 ≤ enforceLeft e - 1 := by
  cases e with
  | submittedToChain tx =>
      rw [enforceMove]
      split
      · exact Nat.zero_le _
      · exact Nat.le_refl _
  | lookup tx =>
      rw [enforceMove]
      split
      · split
        · exact Nat.zero_le _
        · split
          · exact Nat.zero_le _
          · exact Nat.zero_le _
      · exact Nat.le_refl _
  | _ => exact Nat.le_refl _

/-- And so it does a normal one. -/
theorem submitLeft_move_le (s : MemoryStorage) (b : SubmitState) :
    submitLeft (submitMove cfg s b).2 ≤ submitLeft b - 1 := by
  cases b with
  | size tx txSubmitCallback =>
      rw [submitMove]
      split
      · exact Nat.zero_le _
      · exact Nat.le_refl _
  | txpoolStorageCheck tx =>
      rw [submitMove]
      split
      · exact Nat.zero_le _
      · exact Nat.le_refl _
  | verify tx =>
      rcases s.submitMove_verify_cases cfg tx with ⟨_, status, _, _, hmove⟩ | ⟨_, _, hmove⟩
      · rw [hmove]
        exact Nat.zero_le _
      · rw [hmove]
        exact Nat.le_refl _
  | _ => exact Nat.le_refl _

/-- Five moves of each finish both, in whatever order they come. -/
theorem finished_of_moves (s : MemoryStorage) (tx tx' : Transaction)
    (txSubmitCallback : Option TxSubmitCallback) (schedule : List Thread)
    (henforce : 5 ≤ schedule.count .enforce) (hsubmit : 5 ≤ schedule.count .submit) :
    Finished (run (Threads.move (threadMove cfg)) (atStart s tx tx' txSubmitCallback)
      schedule) := by
  constructor
  · have hleft := Threads.measure_run_le (threadMove cfg) .enforce enforceLeft
      (enforceLeft_move_le cfg) schedule (atStart s tx tx' txSubmitCallback)
    generalize (run (Threads.move (threadMove cfg)) (atStart s tx tx' txSubmitCallback)
      schedule).own .enforce = e at hleft ⊢
    -- Five moves use up what was left at the start.
    have hzero : enforceLeft e = 0 := by
      have hstart : enforceLeft ((atStart s tx tx' txSubmitCallback).own .enforce) = 5 := rfl
      omega
    cases e with
    | returned status => exact ⟨status, rfl⟩
    | _ => exact absurd hzero (Nat.succ_ne_zero _)
  · have hleft := Threads.measure_run_le (threadMove cfg) .submit submitLeft
      (submitLeft_move_le cfg) schedule (atStart s tx tx' txSubmitCallback)
    generalize (run (Threads.move (threadMove cfg)) (atStart s tx tx' txSubmitCallback)
      schedule).own .submit = b at hleft ⊢
    have hzero : submitLeft b = 0 := by
      have hstart : submitLeft ((atStart s tx tx' txSubmitCallback).own .submit) = 5 := rfl
      omega
    cases b with
    | returned status => exact ⟨status, rfl⟩
    | _ => exact absurd hzero (Nat.succ_ne_zero _)

/-- If an enforced submission returns no error, its transaction is pooled and
    sealed for its proposal, and the counter is right. An error promises
    nothing. -/
def KeepsPromise (tx : Transaction) (t : Threads MemoryStorage ThreadState) : Prop :=
  t.own .enforce = EnforceState.returned .none →
    (∃ entry, t.shared.txsTable.find? tx.hash = some entry ∧ SealedAs tx entry) ∧
      t.shared.Counted

/-- An enforced submission runs beside a normal submission of another object with
    the same hash, from any reachable state of the pool and in any interleaving.
    When both have finished, the promise is kept exactly if the insertion of the
    normal one does not overtake that of the enforced one, or the transaction was
    not new to one of the two. -/
theorem promise_kept_iff (cfg : TxPoolConfig) (ledger : LedgerNonceChecker) (ops : List Op)
    (tx tx' : UnsealedTx) (hhash : tx'.1.hash = tx.1.hash)
    (txSubmitCallback : Option TxSubmitCallback) (schedule : List Thread)
    (hfinished : Finished (run (Threads.move (threadMove cfg))
      (atStart (run (step cfg) { ledgerNonceChecker := ledger } ops) tx.1 tx'.1 txSubmitCallback)
      schedule)) :
    let s := run (step cfg) { ledgerNonceChecker := ledger } ops
    KeepsPromise tx.1 (run (Threads.move (threadMove cfg))
        (atStart s tx.1 tx'.1 txSubmitCallback) schedule) ↔
      (Contended cfg s tx.1 tx'.1 → NeverOvertakes schedule) := by
  intro s
  have hempty : Counted { ledgerNonceChecker := ledger } := rfl
  have hphase : Phase cfg s tx.1 tx'.1 txSubmitCallback schedule _ _ _ :=
    run_phase (run_counted cfg hempty ops) tx.2 tx'.2 hhash schedule
  rcases hfinished with ⟨⟨status, hstatus⟩, _⟩
  exact phase_promise hphase hstatus

/-- A transaction fetched for a proposal, with the number and hash of that
    proposal. -/
def exampleImport : UnsealedTx :=
  ⟨{ createTransaction (TxPool.exampleTx 1 7 1) with batchId := 1, batchHash := 9 }, rfl⟩

/-- The same transaction from a client. -/
def exampleSubmission : UnsealedTx := ⟨createTransaction (TxPool.exampleTx 1 7 1), rfl⟩

/-- The normal submission comes first, and the enforced one seals its entry. -/
theorem promise_kept_iff_exampleRun :
    let t := run (Threads.move (threadMove TxPool.exampleConfig))
      (atStart TxPool.examplePool exampleImport.1 exampleSubmission.1 none)
      (List.replicate 5 .submit ++ [.enforce] ++ [.enforce])
    t.own .enforce = EnforceState.returned .none ∧ KeepsPromise exampleImport.1 t := by
  refine ⟨rfl, ?_⟩
  have hnever : NeverOvertakes (List.replicate 5 .submit ++ [.enforce] ++ [.enforce]) :=
    neverOvertakes_enforce (neverOvertakes_enforce (neverOvertakes_of_count (by decide)))
  exact (promise_kept_iff TxPool.exampleConfig TxPool.examplePool.ledgerNonceChecker []
    exampleImport exampleSubmission rfl none _ ⟨⟨.none, rfl⟩, ⟨.none, rfl⟩⟩).mpr (fun _ => hnever)

/-- The normal submission inserts between the lookup and the insertion of the
    enforced one. Both return no error, the entry is not sealed, and the counter
    says that one is. -/
theorem promise_kept_counterexample :
    let t := run (Threads.move (threadMove TxPool.exampleConfig))
      (atStart TxPool.examplePool exampleImport.1 exampleSubmission.1 none)
      [.enforce, .enforce, .submit, .submit, .submit, .submit, .submit, .enforce, .enforce,
        .enforce]
    Finished t ∧ ¬ KeepsPromise exampleImport.1 t ∧
    (t.shared.txsTable.find? 1).map (fun entry => entry.sealed) = some false ∧
    t.shared.sealedTxsSize = 1 ∧ t.shared.sealedCount = 0 := by
  refine ⟨⟨⟨.none, rfl⟩, ⟨.none, rfl⟩⟩, fun hkeeps => ?_, rfl, rfl, rfl⟩
  have hcounted : 1 = 0 := (hkeeps rfl).2
  exact Nat.one_ne_zero hcounted

end MemoryStorage

end BcosTxPool
