import BcosTxPool.Core.Importers
import BcosTxPool.Theory.Admission
import BcosTxPool.Theory.Importers
import BcosTxPool.Theory.Meanwhile

/-!
# Signatures That Are Not Checked

Every way into the pool checks the signature of a transaction, except that an import
passes over what the pool holds already. For an import of one step this makes no
difference, since what the pool holds does not enter it again. But an import takes a
while, and a transaction that the pool held when its turn came may be gone when it is
submitted. A normal submission then checks it after all. An enforced submission does
not, and so a transaction of the same hash with any signature gets in.

This is the only way. Whatever imports run at once and whatever else happens, an entry
has a signature that verifies, or it came with a proposal. Then the signature was passed
over, after that a block result or the cleanup took the transaction of this hash out of
the pool, and in the end the hash was found free.

The invariant follows a content from the turn of its import to the table. What vouches
for it may only grow with the run.

## Main definitions

* `MemoryStorage.content`: The content that is pooled under a hash.
* `Vouched`: What an import holds, and what vouches for it.
* `Skipped`, `Unchecked`: A turn that was passed over, and what may come of it.

## Theorems

* `submitterMove_txsTable`, `importerMove_content_of_writes`: What a move does to the
  table.
* `submitterMove_vouched`, `importerMove_vouched`: What vouches for a content after a
  move.
* `importStep_exist`: What takes a hash out of the pool.
* `signatures`: The entries of every run.
-/

namespace BcosTxPool

open Library

namespace MemoryStorage

variable (cfg : TxPoolConfig) (s : MemoryStorage)

/-! ### Contents -/

/-- The content that is pooled under a hash. Flags, callbacks and known nodes
    are not part of it. -/
def content (txHash : HashType) : Option TxData :=
  (s.txsTable.find? txHash).map (fun tx => tx.toTxData)

/-- A hash has no content exactly where it is not pooled. -/
theorem content_eq_none_iff (txHash : HashType) :
    s.content txHash = none ↔ s.exist txHash = false := by
  rw [content, Option.map_eq_none_iff, exist, KeyedTable.contains_eq_false_iff]

theorem content_congr {s s' : MemoryStorage} (h : s'.txsTable = s.txsTable)
    (txHash : HashType) : s'.content txHash = s.content txHash := by
  rw [content, content, h]

/-- A receipt for a rejected submission leaves the table alone. -/
theorem notifyInvalidReceipt_txsTable (txHash : HashType) (status : TransactionStatus)
    (txSubmitCallback : Option TxSubmitCallback) :
    (s.notifyInvalidReceipt txHash status txSubmitCallback).txsTable = s.txsTable := by
  cases txSubmitCallback with
  | none => rfl
  | some callback => rfl

/-- A submission writes to the table in one move only, its insertion. All others
    are checks or touch other fields. -/
theorem submitterMove_txsTable {b : SubmitterState} (hb : ∀ tx cb, b ≠ .insert tx cb) :
    (s.submitterMove cfg b).1.txsTable = s.txsTable := by
  cases b with
  | insert tx cb => exact absurd rfl (hb tx cb)
  | idle => rfl
  | checkExistsInGroup task =>
      rw [submitterMove]
      split
      · split
        · rfl
        · rfl
      · rfl
  | size tx cb =>
      rw [submitterMove]
      split
      · rfl
      · rfl
  | txpoolStorageCheck tx cb =>
      rw [submitterMove]
      split
      · rfl
      · rfl
  | verify v cb =>
      cases v with
      | returned status tx =>
          rw [submitterMove]
          split
          · rfl
          · rfl
      | _ => rfl
  | count tx cb =>
      rw [submitterMove]
      split
      · rfl
      · rfl
  | onReady tx cb => rfl
  | notifyUnsealedTxsSize tx cb => exact s.notifyUnsealedTxsSize_txsTable cfg
  | eraseMissed tx result cb =>
      rw [submitterMove]
      split
      · rfl
      · rfl
  | notifyInvalidReceipt txHash status cb => exact s.notifyInvalidReceipt_txsTable txHash status cb

/-- What is written has its content under its hash, and every other hash keeps
    its own. -/
theorem content_put (tx : Transaction) (txHash : HashType) :
    ({ s with txsTable := s.txsTable.put tx } : MemoryStorage).content txHash
      = if tx.hash = txHash then some tx.toTxData else s.content txHash := by
  rw [content, KeyedTable.find?_put]
  split
  · rfl
  · rfl

/-- An enforced submission writes no content up to its insertion. It may seal an
    entry that it finds. -/
theorem enforceMove_content {e : EnforceState} (he : ∀ tx, e ≠ .insert tx) (txHash : HashType) :
    (s.enforceMove cfg e).1.content txHash = s.content txHash := by
  cases e with
  | insert tx => exact absurd rfl (he tx)
  | lookup tx =>
      rw [enforceMove]
      split
      next entry hfind =>
        split
        · -- The entry is sealed, and its content stays.
          rw [content, content, KeyedTable.find?_modify]
          split
          · rw [Option.map_map]
            rfl
          · rfl
        · split
          · rfl
          · rfl
      next => rfl
  | submittedToChain tx =>
      rw [enforceMove]
      split
      · rfl
      · rfl
  | setSealed tx =>
      rw [enforceMove]
      split
      · rfl
      · rfl
  | eraseMissed tx => rfl
  | returned status => rfl

end MemoryStorage

namespace TransactionSync

variable (cfg : TxPoolConfig)

/-- The content that an import writes with its next move, if it writes one. Both
    routes end in the same insertion. -/
def writes : ImporterState → Option TxData
  | .submitting _ (.insert tx _) _ => some tx.toTxData
  | _ => none

/-- A move that writes puts its content under its hash. -/
theorem importerMove_content_of_writes (s : MemoryStorage) {v : ImporterState} {data : TxData}
    (hwrites : writes v = some data) (txHash : HashType) :
    (importerMove cfg s v).1.content txHash
      = if data.hash = txHash then some data else s.content txHash := by
  unfold writes at hwrites
  split at hwrites
  next tx _ _ =>
    injection hwrites with hwrites
    subst hwrites
    exact s.content_put tx txHash
  next => cases hwrites

/-- Every other move of an import leaves all contents. -/
theorem importerMove_content_of_writes_none (s : MemoryStorage) {v : ImporterState}
    (hwrites : writes v = none) (txHash : HashType) :
    (importerMove cfg s v).1.content txHash = s.content txHash := by
  cases v with
  | idle => rfl
  | verifying fromNode header turns verifySuccess =>
      rw [importerMove]
      split
      · split
        · rfl
        · rfl
      · rfl
  | importing enforceImport txs =>
      cases txs with
      | nil => rfl
      | cons tx txs =>
          rw [importerMove]
          split
          · rfl
          · split
            · rfl
            · rfl
  | enforcing e txs =>
      rcases importerMove_enforcing_cases cfg s e txs with
        ⟨_, _, _, hmove⟩ | ⟨_, hmove⟩ | ⟨_, _, hmove⟩ | ⟨_, hinsert, hmove⟩
      · rw [hmove]
      · rw [hmove]
      · rw [hmove]
      · rw [hmove]
        exact s.enforceMove_content cfg hinsert txHash
  -- A submission that is not at its insertion.
  | submitting enforceImport b txs =>
      rcases importerMove_submitting_cases cfg s enforceImport b txs with
        ⟨_, hmove⟩ | ⟨_, hmove⟩
      · rw [hmove]
      · rw [hmove]
        refine MemoryStorage.content_congr (s.submitterMove_txsTable cfg ?_) txHash
        rintro tx cb rfl
        cases hwrites
  | returned result => rfl

end TransactionSync

/-! ### What vouches for a content -/

section Vouched

variable (cfg : TxPoolConfig)

/-- The signature of the content verifies. The framework decides it, and it
    depends on the content alone. -/
def Signed (data : TxData) : Prop := cfg.framework.verify data = true

/-- A verification that is past the signature has found it right. Before that
    nothing is claimed. -/
def VerifyState.Vouched : VerifyState → Prop
  | .count tx => Signed cfg tx.toTxData
  | .insert tx => Signed cfg tx.toTxData
  | .setSystemTx tx => Signed cfg tx.toTxData
  | .returned .none tx => Signed cfg tx.toTxData
  | _ => True

variable (held inserted : TxData → Prop)

/-- A submission holds what it will look up, and what it will write. The two are
    told apart because only the second has found its hash free. -/
def SubmitterState.Vouched : SubmitterState → Prop
  | .verify v _ => v.Vouched cfg
  | .count tx _ => held tx.toTxData
  | .insert tx _ => inserted tx.toTxData
  | _ => True

/-- What an enforced submission holds up to its insertion. It checks no
    signature of its own. -/
def EnforceState.Vouched : EnforceState → Prop
  | .submittedToChain tx => held tx.toTxData
  | .lookup tx => held tx.toTxData
  | .setSealed tx => held tx.toTxData
  | .insert tx => held tx.toTxData
  | _ => True

/-- What an import holds and has not found invalid, and what it will write. A
    normal submission has its own verification. -/
def ImporterState.Vouched : ImporterState → Prop
  | .verifying _ _ turns _ =>
      ∀ tx, .done tx ∈ turns → tx.invalid = false → held tx.toTxData
  | .importing _ txs => ∀ tx ∈ txs, tx.invalid = false → held tx.toTxData
  | .enforcing e txs =>
      e.Vouched held ∧ ∀ tx ∈ txs, tx.invalid = false → held tx.toTxData
  | .submitting true b txs =>
      b.Vouched cfg held inserted ∧ ∀ tx ∈ txs, tx.invalid = false → held tx.toTxData
  | .submitting false b txs =>
      b.Vouched cfg (Signed cfg) (Signed cfg) ∧
        ∀ tx ∈ txs, tx.invalid = false → held tx.toTxData
  | _ => True

variable {cfg held inserted} {held' inserted' : TxData → Prop}

/-- What vouches for the contents of a submission may grow. -/
theorem SubmitterState.Vouched.mono (hheld : ∀ data, held data → held' data)
    (hinserted : ∀ data, inserted data → inserted' data) {b : SubmitterState}
    (h : b.Vouched cfg held inserted) : b.Vouched cfg held' inserted' := by
  cases b with
  | verify v cb => exact h
  | count tx cb => exact hheld _ h
  | insert tx cb => exact hinserted _ h
  | _ => trivial

/-- The same for an enforced submission. -/
theorem EnforceState.Vouched.mono (hheld : ∀ data, held data → held' data) {e : EnforceState}
    (h : e.Vouched held) : e.Vouched held' := by
  cases e with
  | eraseMissed tx => trivial
  | returned status => trivial
  | _ => exact hheld _ h

/-- What vouches for a content may grow. Both what is held and what may be
    written grow with the run. -/
theorem ImporterState.Vouched.mono (hheld : ∀ data, held data → held' data)
    (hinserted : ∀ data, inserted data → inserted' data) {v : ImporterState}
    (h : v.Vouched cfg held inserted) : v.Vouched cfg held' inserted' := by
  cases v with
  | idle => trivial
  | returned result => trivial
  | verifying fromNode header turns verifySuccess =>
      exact fun tx hdone hvalid => hheld _ (h tx hdone hvalid)
  | importing enforceImport txs => exact fun tx htx hvalid => hheld _ (h tx htx hvalid)
  | enforcing e txs =>
      exact ⟨h.1.mono hheld, fun tx htx hvalid => hheld _ (h.2 tx htx hvalid)⟩
  | submitting enforceImport b txs =>
      cases enforceImport with
      | true => exact ⟨h.1.mono hheld hinserted, fun tx htx hvalid => hheld _ (h.2 tx htx hvalid)⟩
      | false => exact ⟨h.1, fun tx htx hvalid => hheld _ (h.2 tx htx hvalid)⟩

/-- A move of the verification that passes the signature has checked it. -/
theorem verifyMove_vouched (ledger : LedgerNonceChecker) (pool : TxPoolNonceChecker)
    {v : VerifyState} (h : v.Vouched cfg) :
    (TxValidator.verifyMove cfg ledger pool v).2.Vouched cfg := by
  cases v with
  | checkTx tx =>
      rw [TxValidator.verifyMove]
      split
      · trivial
      · split
        · trivial
        · split
          · trivial
          · trivial
  | submittedToChain tx =>
      rw [TxValidator.verifyMove]
      split
      next hrejected =>
        -- The status is not `none`, so nothing is claimed.
        revert hrejected
        cases TxValidator.submittedToChain ledger tx with
        | none => exact fun hrejected => absurd rfl hrejected
        | _ => exact fun _ => trivial
      next => trivial
  -- Here the signature is checked.
  | verify tx =>
      rw [TxValidator.verifyMove]
      split
      next => trivial
      next hverify =>
        rw [Bool.not_eq_true, Bool.not_eq_false'] at hverify
        exact hverify
  | count tx =>
      rw [TxValidator.verifyMove]
      split
      · trivial
      · exact h
  | insert tx => exact h
  | setSystemTx tx =>
      rw [TxValidator.verifyMove]
      split
      · exact h
      · exact h
  | returned status tx => exact h

/-- What a submission holds is vouched for after its move. It writes what it
    holds and has found free. The lookup under the lock of the insertion is the
    move where the one becomes the other. -/
theorem submitterMove_vouched (hsigned : ∀ data, Signed cfg data → held data)
    (s : MemoryStorage) {b : SubmitterState}
    (hfree : ∀ tx cb, b = .count tx cb → held tx.toTxData → s.exist tx.hash = false →
      inserted' tx.toTxData)
    (h : b.Vouched cfg held inserted) :
    (s.submitterMove cfg b).2.Vouched cfg held inserted' := by
  cases b with
  | idle => trivial
  | checkExistsInGroup task =>
      rw [MemoryStorage.submitterMove]
      split
      · split
        · trivial
        · trivial
      · trivial
  | size tx cb =>
      rw [MemoryStorage.submitterMove]
      split
      · trivial
      · trivial
  | txpoolStorageCheck tx cb =>
      rw [MemoryStorage.submitterMove]
      split
      · trivial
      · trivial
  | verify v cb =>
      by_cases hv : ∃ status tx, v = .returned status tx
      · rcases hv with ⟨status, tx, rfl⟩
        rw [MemoryStorage.submitterMove]
        split
        next => trivial
        -- It was accepted, so its signature is right.
        next haccepted =>
          rw [not_not] at haccepted
          subst haccepted
          exact hsigned _ h
      · rw [MemoryStorage.submitterMove_verify cfg s (fun status tx heq => hv ⟨status, tx, heq⟩)]
        exact verifyMove_vouched _ _ h
  | count tx cb =>
      rw [MemoryStorage.submitterMove]
      split
      next => trivial
      next hmissing => exact hfree tx cb rfl h (Bool.eq_false_iff.mpr hmissing)
  | insert tx cb => trivial
  | onReady tx cb => trivial
  | notifyUnsealedTxsSize tx cb => trivial
  | eraseMissed tx result cb =>
      rw [MemoryStorage.submitterMove]
      split
      · trivial
      · trivial
  | notifyInvalidReceipt txHash status cb => trivial

/-- An enforced submission hands its content on from move to move. -/
theorem enforceMove_vouched (s : MemoryStorage) {e : EnforceState} (h : e.Vouched held)
    (hinsert : ∀ tx, e ≠ .insert tx) : (s.enforceMove cfg e).2.Vouched held := by
  cases e with
  | submittedToChain tx =>
      rw [MemoryStorage.enforceMove]
      split
      · trivial
      · exact h
  | lookup tx =>
      rw [MemoryStorage.enforceMove]
      split
      · split
        · trivial
        · split
          · trivial
          · trivial
      · exact h
  | setSealed tx => exact h
  | insert tx => exact absurd rfl (hinsert tx)
  | eraseMissed tx => trivial
  | returned status => trivial

/-- What an import holds is vouched for after its move. In an enforced
    submission it writes what it holds and has found free. -/
theorem importerMove_vouched (hsigned : ∀ data, Signed cfg data → held data)
    (s : MemoryStorage) {v : ImporterState}
    (hfree : ∀ tx cb txs, v = .submitting true (.count tx cb) txs → held tx.toTxData →
      s.exist tx.hash = false → inserted' tx.toTxData)
    (h : v.Vouched cfg held inserted) :
    (TransactionSync.importerMove cfg s v).2.Vouched cfg held inserted' := by
  -- The cases are the places of an import: its loop, the list that it imports, and
  -- the two routes of a submission.
  cases v with
  | idle => trivial
  | returned result => trivial
  | verifying fromNode header turns verifySuccess =>
      rw [TransactionSync.importerMove]
      split
      -- The loop hands on what its turns have left.
      · split
        · trivial
        · exact fun tx htx hvalid => h tx (ImportTurn.mem_left_iff.mp htx) hvalid
      · exact h
  | importing enforceImport txs =>
      cases txs with
      | nil => trivial
      | cons tx txs =>
          have hrest : ∀ tx ∈ txs, tx.invalid = false → held tx.toTxData :=
            fun t ht => h t (List.mem_cons_of_mem tx ht)
          rw [TransactionSync.importerMove]
          split
          -- An invalid transaction is passed over.
          next => exact hrest
          next hvalid =>
            split
            · exact ⟨h tx List.mem_cons_self (Bool.eq_false_iff.mpr hvalid), hrest⟩
            · exact ⟨trivial, hrest⟩
  | enforcing e txs =>
      rcases TransactionSync.importerMove_enforcing_cases cfg s e txs with
        ⟨_, rfl, _, hmove⟩ | ⟨rfl, hmove⟩ | ⟨tx, rfl, hmove⟩ | ⟨_, hinsert, hmove⟩
      · rw [hmove]
        trivial
      · rw [hmove]
        exact h.2
      · rw [hmove]
        exact h
      · rw [hmove]
        exact ⟨enforceMove_vouched s h.1 hinsert, h.2⟩
  | submitting enforceImport b txs =>
      rcases TransactionSync.importerMove_submitting_cases cfg s enforceImport b txs with
        ⟨rfl, hmove⟩ | ⟨_, hmove⟩
      · rw [hmove]
        cases enforceImport with
        | true => exact h.2
        | false => exact h.2
      · rw [hmove]
        cases enforceImport with
        | true =>
            exact ⟨submitterMove_vouched hsigned s
              (fun tx cb hb => hfree tx cb txs (by rw [hb])) h.1, h.2⟩
        | false =>
            -- A normal submission has checked the signature itself.
            exact ⟨submitterMove_vouched (fun _ hsigned => hsigned) s
              (fun _ _ _ hsigned _ => hsigned) h.1, h.2⟩

/-- A turn leaves a content whose signature is right, or that the pool holds, or
    an invalid transaction. The second is the turn that passes over the
    signature. -/
theorem verifyTurn_vouched (hsigned : ∀ data, Signed cfg data → held' data)
    (hheld : ∀ data, held data → held' data) (s : MemoryStorage) (index : Nat)
    {v : ImporterState}
    (hskip : ∀ fromNode header turns verifySuccess data,
      v = .verifying fromNode header turns verifySuccess → turns[index]? = some (.todo data) →
      s.exist data.hash = true → held' data)
    (h : v.Vouched cfg held inserted) :
    (TransactionSync.verifyTurn cfg s index v).Vouched cfg held' inserted := by
  have hmono : v.Vouched cfg held' inserted := h.mono hheld (fun _ h => h)
  cases v with
  | verifying fromNode header turns verifySuccess =>
      rcases TransactionSync.verifyTurn_cases cfg s index fromNode header turns verifySuccess with
        ⟨data, hturn, htaken⟩ | ⟨_, hsame⟩
      · rw [htaken]
        intro tx hdone hvalid
        rcases List.mem_or_eq_of_mem_set hdone with hold | hnew
        · exact hmono tx hold hvalid
        · injection hnew with hnew
          subst hnew
          rw [TxPool.verifyDownloaded_toTxData]
          rw [(TxPool.verifyDownloaded_verdict cfg s fromNode header data).2,
            Bool.not_eq_false', Bool.or_eq_true] at hvalid
          -- It is not invalid, so the pool held its hash or the signature is right.
          rcases hvalid with hexist | hverify
          · exact hskip fromNode header turns verifySuccess data rfl hturn hexist
          · exact hsigned data hverify
      · rw [hsame]
        exact hmono
  | _ => exact hmono

/-- At the start no turn is done, so nothing is claimed. -/
theorem importStart_vouched (fromNode : NodeID) (txs : List TxData)
    (verifiedProposal : Option Block) :
    (TransactionSync.importStart fromNode txs verifiedProposal).Vouched cfg held inserted := by
  rw [TransactionSync.importStart]
  split
  · trivial
  · intro tx hdone
    rcases List.mem_map.mp hdone with ⟨_, _, hturn⟩
    cases hturn

end Vouched

/-! ### Whole runs -/

section Runs

variable {ι : Type} [DecidableEq ι] (cfg : TxPoolConfig)

/-- An operation of the pool brings in signed contents only. It runs in one
    piece, so nothing is removed between its check and its insertion. -/
theorem TxPool.step_content (s : MemoryStorage) (op : TxPool.Op) {txHash : HashType}
    {data : TxData} (h : (TxPool.step cfg s op).content txHash = some data) :
    s.content txHash = some data ∨ Signed cfg data := by
  rcases Option.map_eq_some_iff.mp h with ⟨tx, hfind, rfl⟩
  rcases TxPool.step_origin cfg s op hfind with
    ⟨old, hold, hsame⟩ | ⟨_, hadmitted | ⟨hverify, _⟩⟩
  · refine Or.inl ?_
    rw [MemoryStorage.content, hold, Option.map_some, hsame]
  · exact Or.inr hadmitted.signature
  · exact Or.inr hverify

/-- A content that is pooled after an event was pooled before, or its signature
    is right, or an import has written it. -/
theorem importStep_content {t : Importers ι} {event : ImportEvent ι} {txHash : HashType}
    {data : TxData} (h : (importStep cfg t event).shared.content txHash = some data) :
    t.shared.content txHash = some data ∨ Signed cfg data ∨
      ∃ i, event = .importer i ∧ TransactionSync.writes (t.own i) = some data := by
  cases event with
  | importDownloadedTxs i fromNode txs verifiedProposal =>
      rw [importStep] at h
      split at h
      · exact Or.inl h
      · exact Or.inl h
  | verify i index => exact Or.inl h
  -- Only a move that writes changes a content.
  | importer i =>
      rw [importStep, Threads.move_shared] at h
      cases hwrites : TransactionSync.writes (t.own i) with
      | none =>
          rw [TransactionSync.importerMove_content_of_writes_none cfg _ hwrites] at h
          exact Or.inl h
      | some written =>
          rw [TransactionSync.importerMove_content_of_writes cfg _ hwrites] at h
          split at h
          · rw [h] at hwrites
            exact Or.inr (Or.inr ⟨i, rfl, hwrites⟩)
          · exact Or.inl h
  | pool op => exact (TxPool.step_content cfg t.shared op h).imp_right Or.inl

/-- Only a block result and the cleanup take a transaction out of the pool. -/
theorem importStep_exist {event : ImportEvent ι} (hevent : ∀ op, event = .pool op → ¬ op.Removes)
    {t : Importers ι} {txHash : HashType} (h : t.shared.exist txHash = true) :
    (importStep cfg t event).shared.exist txHash = true := by
  cases event with
  | importDownloadedTxs i fromNode txs verifiedProposal =>
      rw [importStep]
      split
      · exact h
      · exact h
  | verify i index => exact h
  -- A move of an import writes a content or leaves all.
  | importer i =>
      rw [← Bool.not_eq_false, ← MemoryStorage.content_eq_none_iff] at h ⊢
      rw [importStep, Threads.move_shared]
      cases hwrites : TransactionSync.writes (t.own i) with
      | none =>
          rw [TransactionSync.importerMove_content_of_writes_none cfg t.shared hwrites]
          exact h
      | some data =>
          rw [TransactionSync.importerMove_content_of_writes cfg t.shared hwrites]
          split
          · exact Option.some_ne_none data
          · exact h
  | pool op => exact TxPool.step_contains cfg (hevent op rfl) h

/-- A turn of the import is passed over, since the pool holds the hash. The
    source tests `exist` there and does not compare contents. -/
def Skips (t : Importers ι) (i : ι) (index : Nat) (data : TxData) : Prop :=
  ∃ fromNode header turns verifySuccess,
    t.own i = .verifying fromNode header turns verifySuccess ∧
      turns[index]? = some (.todo data) ∧ t.shared.exist data.hash = true

/-- The next move of an enforced submission of the import finds the hash free. -/
def FindsFree (t : Importers ι) (i : ι) (data : TxData) : Prop :=
  ∃ tx txSubmitCallback txs, t.own i = .submitting true (.count tx txSubmitCallback) txs ∧
    tx.toTxData = data ∧ t.shared.exist data.hash = false

/-- A turn has been passed over. -/
def Skipped (t : Importers ι) (events : List (ImportEvent ι)) (i : ι) (data : TxData) : Prop :=
  ∃ pre index post, events = pre ++ .verify i index :: post ∧
    Skips (run (importStep cfg) t pre) i index data

/-- A turn has been passed over, then a block result or the cleanup has removed
    something, and then the submission has found the hash free. -/
def Unchecked (t : Importers ι) (events : List (ImportEvent ι)) (data : TxData) : Prop :=
  ∃ i pre index mid post, events = pre ++ .verify i index :: (mid ++ .importer i :: post) ∧
    Skips (run (importStep cfg) t pre) i index data ∧
    (∃ op, .pool op ∈ mid ∧ op.Removes) ∧
    FindsFree (run (importStep cfg) t (pre ++ .verify i index :: mid)) i data

variable {cfg} {t : Importers ι} {events : List (ImportEvent ι)} {i : ι} {data : TxData}

/-- What was passed over stays so as the run goes on. -/
theorem Skipped.append (h : Skipped cfg t events i data) (event : ImportEvent ι) :
    Skipped cfg t (events ++ [event]) i data := by
  rcases h with ⟨pre, index, post, rfl, hskips⟩
  exact ⟨pre, index, post ++ [event], by rw [List.append_assoc, List.cons_append], hskips⟩

/-- And so does what came of it. -/
theorem Unchecked.append (h : Unchecked cfg t events data) (event : ImportEvent ι) :
    Unchecked cfg t (events ++ [event]) data := by
  rcases h with ⟨i, pre, index, mid, post, rfl, hrest⟩
  refine ⟨i, pre, index, mid, post ++ [event], ?_, hrest⟩
  rw [List.append_assoc, List.cons_append, List.append_assoc, List.cons_append]

/-- What the pool held at the turn and does not hold at the submission has been
    removed in between. -/
theorem Skipped.unchecked (h : Skipped cfg t events i data)
    (hfree : FindsFree (run (importStep cfg) t events) i data) :
    Unchecked cfg t (events ++ [.importer i]) data := by
  rcases h with ⟨pre, index, mid, rfl, hskips⟩
  refine ⟨i, pre, index, mid, [], by rw [List.append_assoc, List.cons_append], hskips, ?_, hfree⟩
  rcases hskips with ⟨_, _, _, _, _, _, hexist⟩
  rcases hfree with ⟨_, _, _, _, _, hmissing⟩
  rw [run_append, run_cons] at hmissing
  have hturn : (importStep cfg (run (importStep cfg) t pre) (.verify i index)).shared.exist
      data.hash = true := hexist
  -- Some event in between has lost the hash, and only a removal does.
  rcases exists_flip (importStep cfg) (fun t => t.shared.exist data.hash = true) mid _ hturn
    (Bool.eq_false_iff.mp hmissing) with ⟨before, event, after, rfl, hheld, hlost⟩
  -- Were there no removal among them, the hash would not have been lost.
  by_contra hnone
  refine hlost (importStep_exist cfg (fun op heq hremoves => hnone ⟨op, ?_, hremoves⟩) hheld)
  rw [← heq]
  exact List.mem_append_right before List.mem_cons_self

/-- What an import writes is vouched for. -/
theorem ImporterState.Vouched.writes {held inserted : TxData → Prop}
    (hsigned : ∀ data, Signed cfg data → inserted data) {v : ImporterState}
    (h : v.Vouched cfg held inserted) (hwrites : TransactionSync.writes v = some data) :
    inserted data := by
  unfold TransactionSync.writes at hwrites
  split at hwrites
  next enforceImport tx cb txs =>
    injection hwrites with hwrites
    subst hwrites
    cases enforceImport with
    | true => exact h.1
    | false => exact hsigned _ h.1
  next => cases hwrites

/-- Every content in the pool and in the hands of an import is vouched for. This
    is the invariant, and it speaks of the run so far. -/
structure VouchedFor (cfg : TxPoolConfig) (t : Importers ι) (events : List (ImportEvent ι)) :
    Prop where
  pooled : ∀ txHash data, (run (importStep cfg) t events).shared.content txHash = some data →
    Signed cfg data ∨ Unchecked cfg t events data
  own : ∀ i, ((run (importStep cfg) t events).own i).Vouched cfg
    (fun data => Signed cfg data ∨ Skipped cfg t events i data)
    (fun data => Signed cfg data ∨ Unchecked cfg t events data)

/-- One more event keeps it. What is passed over now counts from now on, and
    what finds its hash free has been removed since. -/
theorem VouchedFor.concat (h : VouchedFor cfg t events) (event : ImportEvent ι) :
    VouchedFor cfg t (events ++ [event]) := by
  have hrun : run (importStep cfg) t (events ++ [event])
      = importStep cfg (run (importStep cfg) t events) event := by
    rw [run_concat]
  have hheld : ∀ i data, Signed cfg data ∨ Skipped cfg t events i data →
      Signed cfg data ∨ Skipped cfg t (events ++ [event]) i data :=
    fun i data hdata => hdata.imp_right (fun h => h.append event)
  have hinserted : ∀ data, Signed cfg data ∨ Unchecked cfg t events data →
      Signed cfg data ∨ Unchecked cfg t (events ++ [event]) data :=
    fun data hdata => hdata.imp_right (fun h => h.append event)
  refine ⟨fun txHash data hcontent => ?_, fun i => ?_⟩
  · rw [hrun] at hcontent
    rcases importStep_content cfg hcontent with hold | hsigned | ⟨i, _, hwrites⟩
    · exact hinserted data (h.pooled txHash data hold)
    · exact Or.inl hsigned
    · exact hinserted data ((h.own i).writes (fun _ => Or.inl) hwrites)
  · rw [hrun]
    -- The event is elsewhere, calls the import, takes one of its turns, or moves
    -- it.
    rcases importStep_own cfg (run (importStep cfg) t events) event i with
      ⟨hown, _, _⟩ | ⟨fromNode, txs, verifiedProposal, _, _, hown⟩ | ⟨index, rfl, hown⟩ |
      ⟨rfl, hown⟩
    · rw [hown]
      exact (h.own i).mono (hheld i) hinserted
    · rw [hown]
      exact importStart_vouched fromNode txs verifiedProposal
    · rw [hown]
      refine (verifyTurn_vouched (fun _ => Or.inl) (hheld i) _ index ?_ (h.own i)).mono
        (fun _ h => h) hinserted
      -- The turn that is taken now is the one that is passed over.
      intro fromNode header turns verifySuccess data hv hturn hexist
      exact Or.inr ⟨events, index, [], rfl, fromNode, header, turns, verifySuccess, hv, hturn,
        hexist⟩
    · rw [hown]
      refine (importerMove_vouched (fun _ => Or.inl) _ ?_ (h.own i)).mono (hheld i)
        (fun _ h => h)
      intro tx cb txs hv hdata hfree
      rcases hdata with hsigned | hskipped
      · exact Or.inl hsigned
      · exact Or.inr (hskipped.unchecked ⟨tx, cb, txs, hv, rfl, hfree⟩)

/-- Every run keeps it, by induction at its end. -/
theorem run_vouchedFor {s : MemoryStorage}
    (hs : ∀ txHash tx, s.txsTable.find? txHash = some tx →
      cfg.framework.verify tx.toTxData = true)
    (events : List (ImportEvent ι)) : VouchedFor cfg (importersIdle s) events := by
  induction events using List.reverseRecOn with
  | nil =>
      refine ⟨fun txHash data hcontent => ?_, fun i => trivial⟩
      rcases Option.map_eq_some_iff.mp hcontent with ⟨tx, hfind, rfl⟩
      exact Or.inl (hs txHash tx hfind)
  | append_singleton events event ih => exact ih.concat event

/-- **Every signature has been checked, or passed over too early.** In every run
    of imports that begins with a pool of signed transactions, an entry has a
    signature that verifies, or it was in the hands of an import for a proposal
    that passed over its signature, because the pool held the hash, and found
    the hash free after a removal. -/
theorem signatures (cfg : TxPoolConfig) {s : MemoryStorage}
    (hs : ∀ txHash tx, s.txsTable.find? txHash = some tx →
      cfg.framework.verify tx.toTxData = true)
    (events : List (ImportEvent ι)) (txHash : HashType) (tx : Transaction)
    (hfind : (run (importStep cfg) (importersIdle s) events).shared.txsTable.find? txHash
      = some tx) :
    cfg.framework.verify tx.toTxData = true ∨
      Unchecked cfg (importersIdle s) events tx.toTxData :=
  (run_vouchedFor hs events).pooled txHash tx.toTxData
    (Option.map_eq_some_iff.mpr ⟨tx, hfind, rfl⟩)

end Runs

/-- A pool whose framework takes any bytes for a wrong signature. The empty
    signature is the right one. -/
def strictConfig : TxPoolConfig :=
  { TxPool.exampleConfig with
    framework :=
      { TxPool.exampleConfig.framework with verify := fun data => data.signatureData = [] } }

/-- A transaction is pooled, and a proposal brings it with a wrong signature,
    which is passed over. Then a block makes the transaction expire and the
    cleanup removes it, and the wrong one enters. -/
theorem signatures_expired :
    strictConfig.framework.verify { TxPool.exampleTx 1 7 1 with signatureData := [1] } = true ∨
      Unchecked strictConfig (importersIdle TxPool.examplePool : Importers Unit)
        ([.pool (.importDownloadedTxs 1 [TxPool.exampleTx 1 7 1] none),
          .importDownloadedTxs () 2 [{ TxPool.exampleTx 1 7 1 with signatureData := [1] }]
            (some ⟨some ⟨1, 9⟩, [1], []⟩),
          .verify () 0, .pool (.asyncNotifyBlockResult 1 []), .pool (.asyncSealTxs [1] 1 []),
          .pool .removeInvalidTxs] ++ List.replicate 12 (.importer ()))
        { TxPool.exampleTx 1 7 1 with signatureData := [1] } :=
  signatures strictConfig
    (by
      intro _ tx h
      exact absurd h (Option.some_ne_none tx).symm) _ 1
    { toTxData := { TxPool.exampleTx 1 7 1 with signatureData := [1] }
      sealed := true
      batchId := 1
      batchHash := 9
      knownNodes := {2} } (by decide)

end BcosTxPool
