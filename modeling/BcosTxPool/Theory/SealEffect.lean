import BcosTxPool.Theory.Reservation
import BcosTxPool.Theory.Seal
import BcosTxPool.Theory.SealCounter

/-!
# What a Seal Returns and Changes

`batchFetchTxs` walks the table in an order nobody controls and leaves the
walk early when it has enough. What it owes does not depend on the order. The
entries that may be handed out are fixed by the state it began with, and
`Sealable` names them. `SealedSoFar` relates that state to any state of the
walk: the entries handed out are sealable and different, they are the ones
whose seal has changed, and the counter has grown by their number.

A walk that is not stopped by the limit meets every entry. For completeness
nothing must have put a sealable entry aside before its turn. The walk sets
aside the hash of the entry it meets, which is not sealable then, but also the
nonce of an entry that is on chain, read as a hash. So the statement needs
`NoncesApart`: no such nonce is the hash of another entry.

## Main definitions

* `Sealable`: An entry that may be handed out.
* `NoncesApart`: No nonce in the pool, read as a hash, is a hash of the pool.
* `SealedSoFar`: The state of a walk against the one it began with.
* `SealEffect`: What a seal returns and changes.

## Theorems

* `fetchDecision_fetch_iff`: When a turn hands its entry out.
* `turn_sealedSoFar`, `run_sealedSoFar`: A turn, and a walk.
* `mem_hashes_run_of_mem`: What is sealable and met is handed out.
* `walked_eq_of_lt`: A walk below the limit meets everything.
* `asyncSealTxs_effect`: What `asyncSealTxs` returns and changes.
-/

namespace BcosTxPool

open Library

namespace MemoryStorage

/-- An entry that may be handed out: unsealed, valid, not avoided, and the
    ledger check passes. All of it is read from the state that the seal begins
    with. -/
def Sealable (s : MemoryStorage) (avoidTxs : HashList) (txHash : HashType) : Prop :=
  ∃ tx, s.txsTable.find? txHash = some tx ∧ tx.sealed = false ∧ ¬ txHash ∈ s.invalidTxs ∧
    ¬ txHash ∈ avoidTxs ∧ TxValidator.submittedToChain s.ledgerNonceChecker tx = .none

/-- No nonce of an entry, read as a hash, is the hash of an entry. The walk puts
    such a nonce among the invalid hashes, as the source does. -/
def NoncesApart (s : MemoryStorage) : Prop :=
  ∀ txHash tx, s.txsTable.find? txHash = some tx →
    s.txsTable.find? (nonceToHash tx.nonce) = none

/-- It is enough to compare the entries with each other. -/
theorem noncesApart_of_entries {s : MemoryStorage}
    (h : ∀ tx ∈ s.txsTable.entries, ∀ tx' ∈ s.txsTable.entries,
      tx'.hash ≠ nonceToHash tx.nonce) : s.NoncesApart := by
  intro txHash tx hfind
  rw [KeyedTable.find?_eq_some_iff] at hfind
  rw [KeyedTable.find?_eq_none]
  exact h tx hfind.1

/-! ### Decisions -/

/-- The limit of a walk counts what was handed out, system transactions
    included. -/
theorem size_eq_length_hashes (f : FetchedTxs) : f.size = f.hashes.length := by
  simp only [FetchedTxs.size, FetchedTxs.hashes, List.length_append, List.length_map]

/-- Avoiding duplicates, a turn hands out what passes every test. -/
theorem fetchDecision_fetch_iff {s : MemoryStorage} {avoidTxs : HashList} {tx : Transaction} :
    s.fetchDecision avoidTxs true tx = .fetch ↔
      tx.sealed = false ∧ ¬ tx.hash ∈ s.invalidTxs ∧ ¬ tx.hash ∈ avoidTxs ∧
        TxValidator.submittedToChain s.ledgerNonceChecker tx = .none := by
  constructor
  · intro h
    rcases submittedToChain_of_fetch h with ⟨hinvalid, hopen, hpassed⟩
    -- An avoided entry that passes the other tests is skipped.
    refine ⟨hopen, hinvalid, fun havoid => ?_, hpassed⟩
    unfold fetchDecision at h
    rw [if_neg hinvalid, hpassed] at h
    simp only [reduceCtorEq, false_and, if_false, if_pos havoid] at h
  · rintro ⟨hopen, hinvalid, havoid, hpassed⟩
    unfold fetchDecision
    rw [if_neg hinvalid, hpassed]
    simp only [reduceCtorEq, false_and, if_false, if_neg havoid, hopen, Bool.and_false,
      Bool.false_eq_true]

/-! ### The walk so far -/

/-- The state of a walk, with what it has handed out, against the state it began
    with. It is the invariant of the walk, and at its end it is the effect of
    the seal. -/
structure SealedSoFar (s : MemoryStorage) (avoidTxs : HashList) (acc : MemoryStorage × FetchedTxs) :
    Prop extends HandedOut s acc where
  seals : ∀ txHash, (acc.1.txsTable.find? txHash).map TxPool.sealState
    = if txHash ∈ acc.2.hashes then some (true, -1, 0)
      else (s.txsTable.find? txHash).map TxPool.sealState
  sealable : ∀ txHash ∈ acc.2.hashes, s.Sealable avoidTxs txHash
  invalid : ∀ txHash, txHash ∈ s.invalidTxs → txHash ∈ acc.1.invalidTxs
  valid : ∀ txHash, s.Sealable avoidTxs txHash → ¬ txHash ∈ acc.1.invalidTxs
  counter : acc.1.sealedTxsSize = s.sealedTxsSize + acc.2.hashes.length

variable {s : MemoryStorage} {avoidTxs : HashList}

/-- A walk begins with nothing handed out and nothing changed. -/
theorem sealedSoFar_start (s : MemoryStorage) (avoidTxs : HashList) :
    SealedSoFar s avoidTxs (s, {}) where
  same := SameEntries.refl _ s
  nodup := List.nodup_nil
  sealedNow := fun _ h => absurd h List.not_mem_nil
  passed := fun _ h => absurd h List.not_mem_nil
  seals := fun _ => (if_neg List.not_mem_nil).symm
  sealable := fun _ h => absurd h List.not_mem_nil
  invalid := fun _ h => h
  valid := by
    rintro txHash ⟨tx, _, _, hvalid, _, _⟩
    exact hvalid
  counter := rfl

namespace SealedSoFar

variable {acc : MemoryStorage × FetchedTxs} {txHash : HashType} {tx : Transaction}

/-- The entry met is one of the start with the same content, and unless it was
    handed out its seal is the one it had. -/
theorem entry (h : SealedSoFar s avoidTxs acc) (hfind : acc.1.txsTable.find? txHash = some tx) :
    ∃ old, s.txsTable.find? txHash = some old ∧ old.toTxData = tx.toTxData ∧
      (¬ txHash ∈ acc.2.hashes → old.sealed = tx.sealed) := by
  rcases h.same.before hfind with ⟨old, hold, hdata⟩
  refine ⟨old, hold, hdata, fun hfresh => ?_⟩
  have hseal := h.seals txHash
  rw [hfind, hold, if_neg hfresh, Option.map_some, Option.map_some, Option.some.injEq] at hseal
  exact (congrArg Prod.fst hseal).symm

/-- The ledger check gives the same answer on the entry it had at the start. It
    depends on the nonce and the block limit, and the walk leaves these and the
    cache alone. -/
theorem submittedToChain_eq (h : SealedSoFar s avoidTxs acc) {old : Transaction}
    (hdata : old.toTxData = tx.toTxData) :
    TxValidator.submittedToChain s.ledgerNonceChecker old
      = TxValidator.submittedToChain acc.1.ledgerNonceChecker tx := by
  have hnonce : old.nonce = tx.nonce := congrArg TxData.nonce hdata
  have hlimit : old.blockLimit = tx.blockLimit := congrArg TxData.blockLimit hdata
  rw [h.same.ledger, TxValidator.submittedToChain_eq, TxValidator.submittedToChain_eq, hnonce,
    LedgerNonceChecker.checkBlockLimit, LedgerNonceChecker.checkBlockLimit, hlimit]

/-- What fails the ledger check is not sealable. -/
theorem not_sealable (h : SealedSoFar s avoidTxs acc)
    (hfind : acc.1.txsTable.find? txHash = some tx)
    (hfail : TxValidator.submittedToChain acc.1.ledgerNonceChecker tx ≠ .none) :
    ¬ s.Sealable avoidTxs txHash := by
  rcases h.entry hfind with ⟨old, hold, hdata, _⟩
  rintro ⟨entry, hentry, _, _, _, hpassed⟩
  rw [hold, Option.some.injEq] at hentry
  rw [← hentry, h.submittedToChain_eq hdata] at hpassed
  exact hfail hpassed

/-- Setting aside an entry whose nonce is on chain. Neither its hash nor its
    nonce, read as a hash, is that of a sealable entry. -/
theorem setAsideOnChain {s' : MemoryStorage} {f : FetchedTxs} (h : SealedSoFar s avoidTxs (s', f))
    (hapart : s.NoncesApart) (hfind : s'.txsTable.find? txHash = some tx)
    (honChain : tx.nonce ∈ s'.ledgerNonceChecker.nonceCache) :
    SealedSoFar s avoidTxs (s'.setAsideOnChain txHash tx, f) where
  toHandedOut := h.toHandedOut.setAsideOnChain txHash tx
  -- The entry is marked as invalid, and its seal stays.
  seals := by
    intro k
    rw [← h.seals k, MemoryStorage.setAsideOnChain, KeyedTable.find?_modify]
    split
    · rw [Option.map_map]
      rfl
    · rfl
  sealable := h.sealable
  invalid := fun k hk => (SortedSet.mem_insert _ _ _).mpr
    (Or.inr ((SortedSet.mem_insert _ _ _).mpr (Or.inr (h.invalid k hk))))
  valid := by
    intro k hk hmem
    have hfail : TxValidator.submittedToChain s'.ledgerNonceChecker tx ≠ .none := by
      rw [(TxValidator.submittedToChain_eq_nonceCheckFail_iff _ tx).mpr honChain]
      exact fun hc => by cases hc
    rcases (SortedSet.mem_insert _ _ _).mp hmem with rfl | hmem
    · -- The nonce of an entry is not the hash of one.
      rcases h.entry hfind with ⟨old, hold, hdata, _⟩
      have hnone := hapart txHash old hold
      rcases hk with ⟨entry, hentry, _⟩
      rw [congrArg TxData.nonce hdata, hentry] at hnone
      exact Option.some_ne_none entry hnone
    · rcases (SortedSet.mem_insert _ _ _).mp hmem with rfl | hmem
      · exact h.not_sealable hfind hfail hk
      · exact h.valid k hk hmem
  counter := h.counter

/-- Setting aside an entry whose block limit has passed. Here only its hash goes
    among the invalid ones. -/
theorem setAsideExpired {s' : MemoryStorage} {f : FetchedTxs} (h : SealedSoFar s avoidTxs (s', f))
    (hfind : s'.txsTable.find? txHash = some tx)
    (hexpired : TxValidator.submittedToChain s'.ledgerNonceChecker tx = .blockLimitCheckFail) :
    SealedSoFar s avoidTxs (s'.setAsideExpired txHash tx, f) where
  same := ⟨h.same.entries, h.same.txPool, h.same.ledger⟩
  nodup := h.nodup
  sealedNow := h.sealedNow
  passed := h.passed
  seals := h.seals
  sealable := h.sealable
  invalid := fun k hk => (SortedSet.mem_insert _ _ _).mpr (Or.inr (h.invalid k hk))
  valid := by
    intro k hk hmem
    rcases (SortedSet.mem_insert _ _ _).mp hmem with rfl | hmem
    · refine h.not_sealable hfind ?_ hk
      rw [hexpired]
      exact fun hc => by cases hc
    · exact h.valid k hk hmem
  counter := h.counter

/-- Handing out an entry that passes every test. It is open, so it was not
    handed out before, and its seal changes now. -/
theorem handOut {s' : MemoryStorage} {f : FetchedTxs} (h : SealedSoFar s avoidTxs (s', f))
    (hfind : s'.txsTable.find? txHash = some tx)
    (hfetch : s'.fetchDecision avoidTxs true tx = .fetch) :
    SealedSoFar s avoidTxs (s'.handOut txHash tx, f.append tx) := by
  have hkey : tx.hash = txHash := ((KeyedTable.find?_eq_some_iff _ txHash tx).mp hfind).2
  rcases fetchDecision_fetch_iff.mp hfetch with ⟨hopen, hinvalid, havoid, hpassed⟩
  have hperm := hashes_append_perm f tx
  have hmem : ∀ k, k ∈ (f.append tx).hashes ↔ k = txHash ∨ k ∈ f.hashes := by
    intro k
    rw [hperm.mem_iff, List.mem_cons, hkey]
  -- An entry handed out is sealed by now, and this one is open.
  have hfresh : ¬ txHash ∈ f.hashes := by
    intro hbefore
    rcases h.sealedNow txHash hbefore with ⟨u, hu, hsealed⟩
    rw [hfind, Option.some.injEq] at hu
    rw [← hu, hopen] at hsealed
    exact Bool.false_ne_true hsealed
  refine ⟨h.toHandedOut.handOut hfind hopen hpassed, fun k => ?_, fun k hk => ?_, h.invalid,
    h.valid, ?_⟩
  · rw [if_congr (hmem k) rfl rfl, MemoryStorage.handOut, KeyedTable.find?_modify]
    by_cases hk : txHash = k
    · rw [if_pos hk, if_pos (Or.inl hk.symm), ← hk, hfind]
      rfl
    · rw [if_neg hk, h.seals k]
      exact if_congr (by rw [or_iff_right (Ne.symm hk)]) rfl rfl
  · -- The entry was as open at the start as it is now.
    rcases (hmem k).mp hk with rfl | hbefore
    · rcases h.entry hfind with ⟨old, hold, hdata, hseal⟩
      refine ⟨old, hold, (hseal hfresh).trans hopen, ?_, hkey ▸ havoid, ?_⟩
      · exact fun hk => hinvalid (hkey ▸ h.invalid _ hk)
      · rw [h.submittedToChain_eq hdata]
        exact hpassed
    · exact h.sealable k hbefore
  · simp only [MemoryStorage.handOut, hopen, Bool.false_eq_true, if_false]
    rw [hperm.length_eq, List.length_cons, h.counter, Nat.add_assoc]

end SealedSoFar

/-! ### The walk -/

variable {acc : MemoryStorage × FetchedTxs}

/-- A turn keeps the relation to the state the walk began with. -/
theorem turn_sealedSoFar (hapart : s.NoncesApart) (h : SealedSoFar s avoidTxs acc)
    (txHash : HashType) : SealedSoFar s avoidTxs (turn avoidTxs true acc txHash) := by
  rcases turn_cases avoidTxs true acc txHash with hturn |
    ⟨tx, hfind, ⟨hdecision, hturn⟩ | ⟨hdecision, hturn⟩ | ⟨hdecision, hturn⟩⟩
  · rw [hturn]
    exact h
  · rw [hturn]
    exact h.setAsideOnChain hapart hfind (fetchDecision_onChain_iff.mp hdecision).2
  · rw [hturn]
    exact h.setAsideExpired hfind (fetchDecision_expired_iff.mp hdecision).2.1
  · rw [hturn]
    exact h.handOut hfind hdecision

/-- So does a walk, along any list of hashes. -/
theorem run_sealedSoFar (hapart : s.NoncesApart) (order : HashList)
    (h : SealedSoFar s avoidTxs acc) :
    SealedSoFar s avoidTxs (run (turn avoidTxs true) acc order) :=
  run_invariant (turn avoidTxs true) (SealedSoFar s avoidTxs) (fun _ => True)
    (fun _ txHash _ h => turn_sealedSoFar hapart h txHash) order acc (fun _ _ => trivial) h

/-- No turn takes back what was handed out. -/
theorem mem_hashes_turn (acc : MemoryStorage × FetchedTxs) (k : HashType) {txHash : HashType}
    (h : txHash ∈ acc.2.hashes) : txHash ∈ (turn avoidTxs true acc k).2.hashes := by
  rcases turn_cases avoidTxs true acc k with hturn |
    ⟨tx, _, ⟨_, hturn⟩ | ⟨_, hturn⟩ | ⟨_, hturn⟩⟩
  · rw [hturn]
    exact h
  · rw [hturn]
    exact h
  · rw [hturn]
    exact h
  · rw [hturn]
    exact (hashes_append_perm acc.2 tx).mem_iff.mpr (List.mem_cons_of_mem _ h)

/-- What was handed out at some point of a walk is handed out at its end. -/
theorem mem_hashes_run (order : HashList) {txHash : HashType} :
    ∀ acc : MemoryStorage × FetchedTxs, txHash ∈ acc.2.hashes →
      txHash ∈ (run (turn avoidTxs true) acc order).2.hashes :=
  fun acc h => run_invariant (turn avoidTxs true) (fun acc => txHash ∈ acc.2.hashes)
    (fun _ => True) (fun acc k _ h => mem_hashes_turn acc k h) order acc (fun _ _ => trivial) h

/-- A turn hands the sealable entry it meets out, unless an earlier one did. -/
theorem mem_hashes_turn_of_sealable (h : SealedSoFar s avoidTxs acc) {txHash : HashType}
    (hsealable : s.Sealable avoidTxs txHash) :
    txHash ∈ (turn avoidTxs true acc txHash).2.hashes := by
  by_cases hbefore : txHash ∈ acc.2.hashes
  · exact mem_hashes_turn acc txHash hbefore
  -- Its entry is as it was at the start, so it passes every test.
  have hvalid := h.valid txHash hsealable
  rcases hsealable with ⟨old, hold, hopen, _, havoid, hpassed⟩
  rcases h.same.after hold with ⟨tx, hfind, hdata⟩
  have hkey : tx.hash = txHash := ((KeyedTable.find?_eq_some_iff _ txHash tx).mp hfind).2
  rcases h.entry hfind with ⟨old', hold', _, hseal⟩
  rw [hold, Option.some.injEq] at hold'
  have hfetch : acc.1.fetchDecision avoidTxs true tx = .fetch := by
    rw [fetchDecision_fetch_iff, hkey, ← h.submittedToChain_eq hdata.symm]
    exact ⟨(hold' ▸ hseal hbefore).symm.trans hopen, hvalid, havoid, hpassed⟩
  have hturn : turn avoidTxs true acc txHash = (acc.1.handOut txHash tx, acc.2.append tx) := by
    simp only [turn, hfind, hfetch]
  rw [hturn]
  exact (hashes_append_perm acc.2 tx).mem_iff.mpr (hkey ▸ List.mem_cons_self)

/-- What is sealable and met is handed out. -/
theorem mem_hashes_run_of_mem (hapart : s.NoncesApart) (order : HashList) {txHash : HashType}
    (hsealable : s.Sealable avoidTxs txHash) :
    ∀ acc, SealedSoFar s avoidTxs acc → txHash ∈ order →
      txHash ∈ (run (turn avoidTxs true) acc order).2.hashes := by
  -- The induction is on the order. The turn of the hash comes now or later, and the
  -- turns before it keep the entry sealable.
  induction order with
  | nil => exact fun _ _ hmem => absurd hmem List.not_mem_nil
  | cons k order ih =>
      intro acc h hmem
      rw [run_cons]
      rcases List.mem_cons.mp hmem with rfl | hmem
      · exact mem_hashes_run order _ (mem_hashes_turn_of_sealable h hsealable)
      · exact ih _ (turn_sealedSoFar hapart h k) hmem

/-- A walk that ends below the limit has met everything. The source leaves its
    loop only when a turn has handed something out and the limit is reached. -/
theorem walked_eq_of_lt (txsLimit : Nat) (order : HashList) :
    ∀ acc, (run (turn avoidTxs true) acc
        (walked txsLimit avoidTxs true order acc)).2.size < txsLimit →
      walked txsLimit avoidTxs true order acc = order := by
  induction order with
  | nil => exact fun _ _ => rfl
  | cons k order ih =>
      intro acc hlt
      rw [walked, run_cons] at hlt
      rw [walked]
      by_cases hfull : acc.2.size < (turn avoidTxs true acc k).2.size ∧
          (turn avoidTxs true acc k).2.size ≥ txsLimit
      · -- Here the walk was left, and at the limit.
        rw [if_pos hfull, run_nil] at hlt
        exact absurd hlt (Nat.not_lt.mpr hfull.2)
      · rw [if_neg hfull] at hlt ⊢
        rw [ih _ hlt]

/-! ### The effect -/

/-- What a seal returns and changes. Nothing in it depends on the order of the
    walk. -/
structure SealEffect (s s' : MemoryStorage) (f : FetchedTxs) (txsLimit : Nat)
    (avoidTxs : HashList) : Prop where
  /-- Distinct entries are returned, and each of them may be. -/
  distinct : f.hashes.Nodup
  sealable : ∀ txHash ∈ f.hashes, s.Sealable avoidTxs txHash
  /-- Below the limit, all of them are. -/
  complete : f.hashes.length < txsLimit →
    ∀ txHash, s.Sealable avoidTxs txHash → txHash ∈ f.hashes
  /-- They are sealed for no proposal yet, and no other seal has changed. -/
  seals : ∀ txHash, (s'.txsTable.find? txHash).map TxPool.sealState
    = if txHash ∈ f.hashes then some (true, -1, 0)
      else (s.txsTable.find? txHash).map TxPool.sealState
  counter : s'.sealedTxsSize = s.sealedTxsSize + f.hashes.length
  /-- Keys and caches are as they were. -/
  keys : ∀ txHash, s'.exist txHash = s.exist txHash
  txPool : s'.txPoolNonceChecker = s.txPoolNonceChecker
  ledger : s'.ledgerNonceChecker = s.ledgerNonceChecker
  /-- What is newly invalid was not sealable. -/
  invalid : ∀ txHash, txHash ∈ s'.invalidTxs → ¬ txHash ∈ s.invalidTxs →
    ¬ s.Sealable avoidTxs txHash

variable (cfg : TxPoolConfig)

/-- A seal of a pool whose counter is right, with an order that meets every
    entry. -/
theorem batchFetchTxs_effect (hcounted : s.Counted) (hapart : s.NoncesApart) (order : HashList)
    (horder : ∀ txHash tx, s.txsTable.find? txHash = some tx → txHash ∈ order) (txsLimit : Nat)
    (avoidTxs : HashList) :
    SealEffect s (s.batchFetchTxs cfg order txsLimit avoidTxs true).1
      (s.batchFetchTxs cfg order txsLimit avoidTxs true).2 txsLimit avoidTxs := by
  have hrun := fetchLoop_eq_run txsLimit avoidTxs true order (s, {})
  have hsofar : SealedSoFar s avoidTxs (fetchLoop txsLimit avoidTxs true order s {}) := by
    rw [hrun]
    exact run_sealedSoFar hapart _ (sealedSoFar_start s avoidTxs)
  have hcomplete : (fetchLoop txsLimit avoidTxs true order s {}).2.hashes.length < txsLimit →
      ∀ txHash, s.Sealable avoidTxs txHash →
        txHash ∈ (fetchLoop txsLimit avoidTxs true order s {}).2.hashes := by
    -- Below the limit the walk met everything, and it handed out what it met.
    intro hlt txHash hsealable
    rw [← size_eq_length_hashes, hrun] at hlt
    have hall := walked_eq_of_lt txsLimit order (s, {}) hlt
    have hmem : txHash ∈ order := by
      rcases hsealable with ⟨tx, hfind, _⟩
      exact horder txHash tx hfind
    rw [hrun, hall]
    exact mem_hashes_run_of_mem hapart order hsealable (s, {}) (sealedSoFar_start s avoidTxs) hmem
  -- The report at the end finds nothing to correct.
  rcases notifyUnsealedTxsSize_eq cfg (fetchLoop txsLimit avoidTxs true order s {}).1 with
    ⟨n, reports, heq, hkeep⟩
  have hn := hkeep (fetchLoop_counted cfg hcounted txsLimit avoidTxs true order {}).le_size
  unfold batchFetchTxs
  simp only [heq, hn]
  exact
    { distinct := hsofar.nodup
      sealable := hsofar.sealable
      complete := hcomplete
      seals := hsofar.seals
      counter := hsofar.counter
      keys := fun txHash => by
        have hsome := congrArg Option.isSome (hsofar.same.entries txHash)
        rw [Option.isSome_map, Option.isSome_map] at hsome
        exact hsome
      txPool := hsofar.same.txPool
      ledger := hsofar.same.ledger
      invalid := fun txHash hmem _ hsealable => hsofar.valid txHash hsealable hmem }

end MemoryStorage

namespace TxPool

open MemoryStorage

/-- What `asyncSealTxs` returns and changes, in every reachable state whose
    nonces are not hashes, for every limit, every set to avoid and every order
    of the table. -/
theorem asyncSealTxs_effect (cfg : TxPoolConfig) (ledger : LedgerNonceChecker)
    (ops : List MemoryStorage.Op) (s : MemoryStorage)
    (hs : s = run (MemoryStorage.step cfg) { ledgerNonceChecker := ledger } ops)
    (hapart : s.NoncesApart) (order : HashList)
    (horder : order.Perm (s.txsTable.entries.map (fun tx => tx.hash))) (txsLimit : Nat)
    (avoidTxs : HashList) :
    SealEffect s (asyncSealTxs cfg s order txsLimit avoidTxs).1
      (asyncSealTxs cfg s order txsLimit avoidTxs).2 txsLimit avoidTxs := by
  have hempty : Counted { ledgerNonceChecker := ledger } := rfl
  -- The counter is right in a reachable state.
  have hcounted : s.Counted := by
    rw [hs]
    exact MemoryStorage.run_counted cfg hempty ops
  refine batchFetchTxs_effect cfg hcounted hapart order (fun txHash tx hfind => ?_) txsLimit
    avoidTxs
  rw [KeyedTable.find?_eq_some_iff] at hfind
  rw [horder.mem_iff, List.mem_map]
  exact ⟨tx, hfind⟩

/-- A pool with two transactions, of which one has expired. -/
def exampleRun : List MemoryStorage.Op :=
  [.insert ⟨createTransaction (exampleTx 1 7 2), rfl⟩,
    .insert ⟨createTransaction (exampleTx 2 8 0), rfl⟩]

/-- Its state is reachable and the nonces 7 and 8 are no hashes of it. -/
theorem asyncSealTxs_effect_exampleRun :
    let s := run (MemoryStorage.step exampleConfig) examplePool exampleRun
    SealEffect s (asyncSealTxs exampleConfig s [2, 1] 5 []).1
      (asyncSealTxs exampleConfig s [2, 1] 5 []).2 5 [] :=
  asyncSealTxs_effect exampleConfig _ exampleRun _ rfl (noncesApart_of_entries (by decide)) [2, 1]
    (by decide) 5 []

end TxPool

end BcosTxPool
