import BcosTxPool.Library.Gauge
import BcosTxPool.Theory.Frames
import BcosTxPool.Theory.SealCounter

/-!
# Reports to the Sealer

The sealer learns the number of unsealed transactions from the reports of the
pool. A report is made where the table changes size, by a seal and by the call
that marks all entries. Two calls change seal flags without one: the marking
of single entries, and a submission for a proposal that finds its transaction
pooled.

So the number of unsealed transactions is a gauge, and the last report its
display. What a call of the second kind moves stays unreported until the next
report, which a later transaction of the same import may bring and a mark
never does. `changes_reported_iff` says that this is the whole story: every
change is reported by the operation that makes it exactly when no operation
ends with such a debt.

## Main definitions

* `unsealedCount`: The number of entries without the sealed flag.
* `Reports`: The calls that end with a report.
* `Flips`: A mark sets the flag of an entry to what it was not.
* `FlipsUnreported`: The calls that move the number without a report.
* `ReportsChange`: A change of the number is the last thing reported.
* `LeavesReported`: An operation leaves no change unreported.

## Theorems

* `reports_meter`: Which calls move the number and which report it.
* `changes_reported_iff`: When every change is reported.
-/

namespace BcosTxPool

open Library

namespace MemoryStorage

/-- The number of entries without the sealed flag, counted in the table itself.
    It is what the sealer should be told. -/
def unsealedCount (s : MemoryStorage) : Nat := s.txsTable.countP (fun tx => !tx.sealed)

/-- The number last reported to the sealer, if any was. -/
def lastReport (s : MemoryStorage) : Option Nat := s.reports.getLast?

/-- The notifier is registered and acknowledges every call. Otherwise the report
    is made again, up to three times, or not at all. -/
def Acknowledged (cfg : TxPoolConfig) : Prop :=
  ∃ notifier, cfg.unsealedTxsNotifier = some notifier ∧ ∀ reports, notifier reports = false

variable {cfg : TxPoolConfig}

/-! ### The number and its report -/

/-- A right counter gives the right number: the source subtracts it from the
    size of the table. -/
theorem unSealedTxsSize_snd {s : MemoryStorage} (h : s.Counted) :
    s.unSealedTxsSize.2 = s.unsealedCount := by
  have hle := h.le_size
  rw [unSealedTxsSize, unSealedTxsSizeWithoutLock, if_neg (by omega), unsealedCount,
    KeyedTable.countP_not, h, sealedCount]

/-- With an acknowledging notifier a report is made once, so every call that
    reports adds one number. -/
theorem notifyUnsealedTxsSize_reports (hack : Acknowledged cfg) (s : MemoryStorage) :
    s.notifyUnsealedTxsSize cfg
      = { s.unSealedTxsSize.1 with reports := s.reports ++ [s.unSealedTxsSize.2] } := by
  rcases hack with ⟨notifier, hsome, hack⟩
  rcases s.unSealedTxsSizeWithoutLock_eq with ⟨n, hn, _⟩
  -- The first report is acknowledged, so it is not repeated.
  simp only [notifyUnsealedTxsSize, hsome, maxRetryTime, reportUnsealed, hack,
    Bool.false_eq_true, if_false, unSealedTxsSize, hn]

/-- A report that leaves the counter right reports the right number. -/
theorem lastReport_notify (hack : Acknowledged cfg) {s : MemoryStorage}
    (h : (s.notifyUnsealedTxsSize cfg).Counted) :
    (s.notifyUnsealedTxsSize cfg).lastReport
      = some (s.notifyUnsealedTxsSize cfg).unsealedCount := by
  rw [notifyUnsealedTxsSize_reports hack] at h ⊢
  simp only [lastReport, List.getLast?_append, List.getLast?_singleton, Option.some_or,
    Option.some.injEq]
  unfold Counted sealedCount at h
  unfold unSealedTxsSize unSealedTxsSizeWithoutLock at h ⊢
  simp only [unsealedCount, KeyedTable.countP_not]
  -- The counter is right at once, or it was cut down to the table and is right then.
  by_cases hahead : s.txsTable.size < s.sealedTxsSize
  · simp only [if_pos hahead] at h ⊢
    rw [← h, Nat.sub_self]
  · simp only [if_neg hahead] at h ⊢
    rw [h]

/-! ### Flags that change without a report -/

/-- The number of unsealed entries moved by `n`, down by seals or up by unseals,
    and nothing was reported. -/
structure Moved (sealFlag : Bool) (n : Nat) (s s' : MemoryStorage) : Prop where
  reports : s'.reports = s.reports
  down : sealFlag = true → s'.unsealedCount + n = s.unsealedCount
  up : sealFlag = false → s'.unsealedCount = s.unsealedCount + n

theorem Moved.of_eq (sealFlag : Bool) {s s' : MemoryStorage} (hreports : s'.reports = s.reports)
    (hcount : s'.unsealedCount = s.unsealedCount) : Moved sealFlag 0 s s' :=
  ⟨hreports, fun _ => hcount, fun _ => hcount⟩

theorem Moved.refl (sealFlag : Bool) (s : MemoryStorage) : Moved sealFlag 0 s s :=
  Moved.of_eq sealFlag rfl rfl

theorem Moved.trans {sealFlag : Bool} {n m : Nat} {s s' s'' : MemoryStorage}
    (h : Moved sealFlag n s s') (h' : Moved sealFlag m s' s'') : Moved sealFlag (n + m) s s'' where
  reports := h'.reports.trans h.reports
  down := by
    intro hflag
    have hfirst := h.down hflag
    have hsecond := h'.down hflag
    omega
  up := by
    intro hflag
    have hfirst := h.up hflag
    have hsecond := h'.up hflag
    omega

/-- A change of one entry counts by its flag: the number goes up or down by one,
    or stays. -/
theorem unsealedCount_modify {s : MemoryStorage} {txHash : HashType} {entry : Transaction}
    (hfind : s.txsTable.find? txHash = some entry) (f : Transaction → Transaction)
    (hf : ∀ tx, (f tx).hash = tx.hash) (s' : MemoryStorage)
    (htable : s'.txsTable = s.txsTable.modify txHash f hf) :
    s'.unsealedCount + (if entry.sealed then 0 else 1)
      = s.unsealedCount + (if (f entry).sealed then 0 else 1) := by
  -- The table counts the entries whose flag is not set.
  have hflag : ∀ b : Bool, (if b = true then 0 else 1) = if (!b) = true then 1 else 0 := by
    intro b
    cases b with
    | true => rfl
    | false => rfl
  rw [unsealedCount, unsealedCount, htable, hflag, hflag]
  exact KeyedTable.countP_modify hfind f hf (fun tx => !tx.sealed)

/-- A change that leaves the flag alone does not count. Receipts and gossip make
    only such changes. -/
theorem unsealedCount_modify_quiet (s : MemoryStorage) (txHash : HashType)
    (f : Transaction → Transaction) (hf : ∀ tx, (f tx).hash = tx.hash)
    (hquiet : ∀ tx, (f tx).sealed = tx.sealed) :
    ({ s with txsTable := s.txsTable.modify txHash f hf } : MemoryStorage).unsealedCount
      = s.unsealedCount := by
  cases hfind : s.txsTable.find? txHash with
  | none => rw [unsealedCount, unsealedCount, s.txsTable.modify_of_find?_none f hf hfind]
  | some entry =>
      have hcount := unsealedCount_modify hfind f hf
        { s with txsTable := s.txsTable.modify txHash f hf } rfl
      rw [hquiet] at hcount
      exact Nat.add_right_cancel hcount

theorem markTx_sealed (batchId : Int) (batchHash : HashType) (sealFlag : Bool)
    (tx : Transaction) : (markTx batchId batchHash sealFlag tx).sealed = sealFlag := by
  cases sealFlag with
  | true => rfl
  | false => rfl

/-- A mark sets the flag of an entry to what it was not. A mark may be held off:
    a transaction sealed by one proposal is not unsealed in the name of
    another. -/
def Flips (s : MemoryStorage) (batchHash : HashType) (sealFlag : Bool) (txHash : HashType) :
    Prop :=
  ∃ entry, s.txsTable.find? txHash = some entry ∧ entry.sealed ≠ sealFlag ∧
    ¬ MarkBlocked batchHash sealFlag entry

/-- A mark flips nothing where it misses the table. -/
theorem not_flips_of_find?_none {s : MemoryStorage} (batchHash : HashType) (sealFlag : Bool)
    {txHash : HashType} (hnone : s.txsTable.find? txHash = none) :
    ¬ Flips s batchHash sealFlag txHash := by
  intro hflips
  rcases hflips with ⟨entry, hfind, _⟩
  exact absurd (hnone.symm.trans hfind) (Option.some_ne_none entry).symm

/-- Where a mark finds an entry, it flips it if it may and the flag differs. -/
theorem flips_iff {s : MemoryStorage} {batchHash : HashType} {sealFlag : Bool}
    {txHash : HashType} {entry : Transaction} (hfind : s.txsTable.find? txHash = some entry) :
    Flips s batchHash sealFlag txHash ↔
      entry.sealed ≠ sealFlag ∧ ¬ MarkBlocked batchHash sealFlag entry := by
  constructor
  · intro hflips
    rcases hflips with ⟨e, he, hflip⟩
    rw [hfind, Option.some.injEq] at he
    exact he ▸ hflip
  · exact fun hflip => ⟨entry, hfind, hflip⟩

/-- After a mark the entry it names needs no flip, and the others are as they
    were. -/
theorem batchMarkTx_flips (s : MemoryStorage) (batchId : Int) (batchHash : HashType)
    (sealFlag : Bool) (txHash other : HashType) :
    Flips (s.batchMarkTx batchId batchHash sealFlag txHash) batchHash sealFlag other ↔
      Flips s batchHash sealFlag other ∧ other ≠ txHash := by
  have hsame : ¬ Flips s batchHash sealFlag txHash →
      (Flips s batchHash sealFlag other ↔ Flips s batchHash sealFlag other ∧ other ≠ txHash) :=
    fun hno => ⟨fun hflips => ⟨hflips, fun heq => hno (heq ▸ hflips)⟩, fun hc => hc.1⟩
  -- The mark misses the table, is held off by a seal of another proposal, or is
  -- set.
  rcases s.batchMarkTx_cases batchId batchHash sealFlag txHash with
    ⟨hnone, h⟩ | ⟨entry, hfind, hblocked, h⟩ | ⟨entry, hfind, _, h⟩
  · rw [h]
    exact hsame (not_flips_of_find?_none batchHash sealFlag hnone)
  · rw [h]
    exact hsame (fun hflips => ((flips_iff hfind).mp hflips).2 hblocked)
  · -- Every other entry is looked up as before, and this one has the flag now.
    unfold Flips
    rw [h, KeyedTable.find?_modify]
    by_cases hother : txHash = other
    · subst hother
      rw [if_pos rfl, hfind, Option.map_some]
      refine iff_of_false ?_ (fun hc => hc.2 rfl)
      intro hc
      rcases hc with ⟨e, he, hne, _⟩
      rw [Option.some.injEq] at he
      rw [← he, markTx_sealed] at hne
      exact hne rfl
    · rw [if_neg hother]
      exact ⟨fun hc => ⟨hc, fun heq => hother heq.symm⟩, fun hc => hc.1⟩

/-- One mark moves the number by one if it flips a flag, and not otherwise. -/
theorem batchMarkTx_moved (s : MemoryStorage) (batchId : Int) (batchHash : HashType)
    (sealFlag : Bool) (txHash : HashType) :
    ∃ n, Moved sealFlag n s (s.batchMarkTx batchId batchHash sealFlag txHash) ∧
      (n = 0 ↔ ¬ Flips s batchHash sealFlag txHash) := by
  rcases s.batchMarkTx_cases batchId batchHash sealFlag txHash with
    ⟨hnone, h⟩ | ⟨entry, hfind, hblocked, h⟩ | ⟨entry, hfind, hfree, h⟩
  · rw [h]
    exact ⟨0, Moved.refl sealFlag s,
      iff_of_true rfl (not_flips_of_find?_none batchHash sealFlag hnone)⟩
  · rw [h]
    exact ⟨0, Moved.refl sealFlag s,
      iff_of_true rfl (fun hflips => ((flips_iff hfind).mp hflips).2 hblocked)⟩
  · have hcount := unsealedCount_modify hfind (markTx batchId batchHash sealFlag)
      (markTx_hash batchId batchHash sealFlag) (s.batchMarkTx batchId batchHash sealFlag txHash)
      (by rw [h])
    have hreports : (s.batchMarkTx batchId batchHash sealFlag txHash).reports = s.reports := by
      rw [h]
    rw [markTx_sealed] at hcount
    -- The number moves by the change of the flag, up or down.
    by_cases hold : entry.sealed = sealFlag
    · rw [hold] at hcount
      exact ⟨0, Moved.of_eq sealFlag hreports (Nat.add_right_cancel hcount),
        iff_of_true rfl (fun hflips => ((flips_iff hfind).mp hflips).1 hold)⟩
    · refine ⟨1, ⟨hreports, ?_, ?_⟩,
        iff_of_false Nat.one_ne_zero (not_not_intro ((flips_iff hfind).mpr ⟨hold, hfree⟩))⟩
      · rintro rfl
        rw [Bool.not_eq_true] at hold
        rw [hold, if_neg Bool.false_ne_true, if_pos rfl] at hcount
        exact hcount
      · rintro rfl
        rw [Bool.not_eq_false] at hold
        rw [hold, if_pos rfl, if_neg Bool.false_ne_true] at hcount
        exact hcount

/-- A list of marks moves the number exactly when one of them flips a flag. -/
theorem batchMarkTxs_moved (batchId : Int) (batchHash : HashType) (sealFlag : Bool)
    (txsHashList : HashList) :
    ∀ s : MemoryStorage, ∃ n,
      Moved sealFlag n s (s.batchMarkTxs txsHashList batchId batchHash sealFlag) ∧
      (n = 0 ↔ ∀ txHash ∈ txsHashList, ¬ Flips s batchHash sealFlag txHash) := by
  -- The induction is on the list of marks. After the first mark the rest flip what
  -- they would have flipped before, apart from the entry just marked.
  induction txsHashList with
  | nil =>
      exact fun s => ⟨0, Moved.refl sealFlag s,
        iff_of_true rfl (fun txHash hmem => absurd hmem List.not_mem_nil)⟩
  | cons txHash txsHashList ih =>
      intro s
      rcases s.batchMarkTx_moved batchId batchHash sealFlag txHash with ⟨n, hmoved, hzero⟩
      rcases ih (s.batchMarkTx batchId batchHash sealFlag txHash) with ⟨m, hrest, hrestZero⟩
      refine ⟨n + m, hmoved.trans hrest, ?_⟩
      -- All marks point the same way, so the sum is zero only where both parts are.
      rw [Nat.add_eq_zero_iff, hzero, hrestZero, List.forall_mem_cons]
      refine and_congr_right (fun hno => forall₂_congr (fun other _ => not_congr ?_))
      rw [batchMarkTx_flips]
      exact ⟨fun hc => hc.1, fun hc => ⟨hc, fun heq => hno (heq ▸ hc)⟩⟩

/-! ### The calls of a node -/

/-- The calls that end with a report. A submission reports only where it brings
    a transaction in, and a cleanup only where something is to be cleaned up. -/
def Reports (cfg : TxPoolConfig) (s : MemoryStorage) : Op → Prop
  | .submitTransaction tx _ enforceImport => Admits cfg s tx.1 enforceImport
  | .batchFetchTxs _ _ _ _ => True
  | .removeInvalidTxs => s.invalidTxs.size ≠ 0
  | .batchRemove _ _ => True
  | .batchMarkAllTxs _ => True
  | _ => False

/-- The calls that change the seal flag of a pooled transaction and report
    nothing: a submission for a proposal that seals one, and marks. -/
def FlipsUnreported (s : MemoryStorage) : Op → Prop
  | .submitTransaction tx _ true => ¬ tx.1.nonce ∈ s.ledgerNonceChecker.nonceCache ∧
      ∃ entry, s.txsTable.find? tx.1.hash = some entry ∧ entry.sealed = false
  | .batchMarkTxs txsHashList _ batchHash sealFlag =>
      ∃ txHash ∈ txsHashList, Flips s batchHash sealFlag txHash
  | _ => False

/-- A mark that flips a flag changes the number, and it reports nothing. -/
theorem flipping_mark_unreported (s : MemoryStorage) {txsHash : HashList} {batchId : Int}
    {batchHash : HashType} {sealFlag : Bool}
    (hflips : FlipsUnreported s (.batchMarkTxs txsHash batchId batchHash sealFlag)) :
    (s.batchMarkTxs txsHash batchId batchHash sealFlag).unsealedCount ≠ s.unsealedCount ∧
      (s.batchMarkTxs txsHash batchId batchHash sealFlag).reports = s.reports := by
  rcases s.batchMarkTxs_moved batchId batchHash sealFlag txsHash with ⟨n, hmoved, hzero⟩
  refine ⟨?_, hmoved.reports⟩
  have hpos : n ≠ 0 := by
    intro hn
    rcases hflips with ⟨txHash, hmem, hflip⟩
    exact hzero.mp hn txHash hmem hflip
  -- The number went down with a seal or up with an unseal, by at least one.
  cases sealFlag with
  | true =>
      have hdown := hmoved.down rfl
      omega
  | false =>
      have hup := hmoved.up rfl
      omega

/-- A submission that brings nothing in seals the transaction it finds, or it
    does nothing. -/
theorem submitTransaction_moved (s : MemoryStorage) (tx : UnsealedTx)
    (txSubmitCallback : Option TxSubmitCallback) (enforceImport : Bool)
    (h : ¬ Admits cfg s tx.1 enforceImport) :
    ∃ n, Moved true n s (s.submitTransaction cfg tx.1 txSubmitCallback enforceImport).1 ∧
      (n = 0 ↔ ¬ FlipsUnreported s (.submitTransaction tx txSubmitCallback enforceImport)) := by
  cases enforceImport with
  | false =>
      rw [(s.submitTransaction_rejected cfg tx.1 txSubmitCallback h).2]
      exact ⟨0, Moved.refl true s, iff_of_true rfl id⟩
  | true =>
      have hsubmit : s.submitTransaction cfg tx.1 txSubmitCallback true
          = s.enforceSubmitTransaction cfg tx.1 := rfl
      -- An entry that is sealed already is not flipped.
      have hsame : ∀ entry, s.txsTable.find? tx.1.hash = some entry → entry.sealed = true →
          ¬ FlipsUnreported s (.submitTransaction tx txSubmitCallback true) := by
        intro entry hfind hsealed hflips
        rcases hflips with ⟨_, e, he, hopen⟩
        rw [hfind, Option.some.injEq] at he
        rw [← he, hsealed] at hopen
        exact absurd hopen Bool.true_eq_false.mp
      rw [hsubmit]
      -- The nonce is on the ledger. Or the transaction is pooled, sealed elsewhere,
      -- sealed for this very proposal, or open. Or it is not pooled, and then it
      -- comes in.
      rcases s.enforceSubmitTransaction_cases cfg tx.1 with
        ⟨hnonce, he⟩ | ⟨_, entry, hfind, helse, he⟩ | ⟨_, entry, hfind, hhere, he⟩ |
        ⟨hnonce, entry, hfind, _, he⟩ | ⟨hnonce, hfind, _⟩
      · rw [he]
        exact ⟨0, Moved.refl true s, iff_of_true rfl (fun hflips => hflips.1 hnonce)⟩
      · rw [he]
        exact ⟨0, Moved.refl true s, iff_of_true rfl (hsame entry hfind helse.1)⟩
      · rw [he]
        exact ⟨0, Moved.refl true s, iff_of_true rfl (hsame entry hfind hhere.1)⟩
      · have hcount := unsealedCount_modify hfind (sealFor tx.1) (sealFor_hash tx.1)
          (s.sealedFor tx.1 entry) rfl
        simp only [sealFor, if_true] at hcount
        rw [he]
        -- The seal counts where the entry was open.
        cases hold : entry.sealed with
        | true =>
            simp only [hold, if_true] at hcount
            refine ⟨0, ⟨rfl, fun _ => hcount, fun hc => ?_⟩,
              iff_of_true rfl (hsame entry hfind hold)⟩
            exact absurd hc Bool.true_eq_false.mp
        | false =>
            simp only [hold, Bool.false_eq_true, if_false] at hcount
            refine ⟨1, ⟨rfl, fun _ => hcount, fun hc => ?_⟩,
              iff_of_false Nat.one_ne_zero (not_not_intro ⟨hnonce, entry, hfind, hold⟩)⟩
            exact absurd hc Bool.true_eq_false.mp
      · exact absurd ⟨hnonce, hfind⟩ h

/-- What receipts and gossip do does not count. -/
theorem step_gossip_moved (s : MemoryStorage) {call : Op} (hcall : GossipCall call) :
    Moved true 0 s (step cfg s call) := by
  have hsame : (step cfg s call).reports = s.reports ∧
      (step cfg s call).unsealedCount = s.unsealedCount := by
    -- Gossip touches the known nodes, the synced flag and the missed hashes.
    refine step_gossip cfg
      (fun t => t.reports = s.reports ∧ t.unsealedCount = s.unsealedCount)
      (fun t txHash node ht => ⟨ht.1, ?_⟩) (fun t txHash ht => ⟨ht.1, ?_⟩)
      (fun t missedTxs ht => ht) hcall ⟨rfl, rfl⟩
    · have hknown := t.unsealedCount_modify_quiet txHash
        (fun tx => { tx with knownNodes := Insert.insert node tx.knownNodes }) (fun _ => rfl)
        (fun _ => rfl)
      exact hknown.trans ht.2
    · have hsynced := t.unsealedCount_modify_quiet txHash (fun tx => { tx with synced := true })
        (fun _ => rfl) (fun _ => rfl)
      exact hsynced.trans ht.2
  exact Moved.of_eq true hsame.1 hsame.2

/-- A call that ends without a report moves the number exactly when it flips
    flags unreported. The cases are the calls of the storage, and most of them
    leave the flags alone. -/
theorem step_moved (s : MemoryStorage) {op : TxPool.Op} {call : Op}
    (hcall : TxPool.NodeCall cfg op call) (hsilent : ¬ Reports cfg s call) :
    ∃ sealFlag n, Moved sealFlag n s (step cfg s call) ∧ (n = 0 ↔ ¬ FlipsUnreported s call) := by
  cases call with
  | submitTransaction tx txSubmitCallback enforceImport =>
      exact ⟨true, s.submitTransaction_moved tx txSubmitCallback enforceImport hsilent⟩
  | notifyInvalidReceipt txHash status txSubmitCallback =>
      refine ⟨true, 0, ?_, iff_of_true rfl id⟩
      unfold step notifyInvalidReceipt
      cases txSubmitCallback with
      | none => exact Moved.refl true s
      | some callback => exact Moved.of_eq true rfl rfl
  -- There is nothing to clean up, or the cleanup would report.
  | removeInvalidTxs =>
      refine ⟨true, 0, ?_, iff_of_true rfl id⟩
      rw [step, removeInvalidTxs, if_pos (not_not.mp hsilent)]
      exact Moved.refl true s
  | batchMarkTxs txsHashList batchId batchHash sealFlag =>
      rcases s.batchMarkTxs_moved batchId batchHash sealFlag txsHashList with ⟨n, hmoved, hzero⟩
      refine ⟨sealFlag, n, hmoved, hzero.trans ?_⟩
      simp only [FlipsUnreported, not_exists, not_and]
  | filterUnknownTxs txsHashList peer =>
      exact ⟨true, 0, s.step_gossip_moved trivial, iff_of_true rfl id⟩
  | fetchNewTxs order txsLimit =>
      exact ⟨true, 0, s.step_gossip_moved trivial, iff_of_true rfl id⟩
  | appendKnownNode txHash node =>
      exact ⟨true, 0, s.step_gossip_moved trivial, iff_of_true rfl id⟩
  | batchFetchTxs order txsLimit avoidTxs avoidDuplicate => exact absurd trivial hsilent
  | batchRemove batchId txsResult => exact absurd trivial hsilent
  | batchMarkAllTxs sealFlag => exact absurd trivial hsilent
  | _ => exact hcall.elim

/-- A call that ends with a report leaves the right number reported. -/
theorem step_lastReport (hack : Acknowledged cfg) {s : MemoryStorage} (h : s.Counted)
    {op : TxPool.Op} {call : Op} (hcall : TxPool.NodeCall cfg op call)
    (hreports : Reports cfg s call) :
    (step cfg s call).lastReport = some (step cfg s call).unsealedCount := by
  -- The report leaves the counter right, since the whole call does.
  have hcounted := step_counted cfg h call
  cases call with
  | submitTransaction tx txSubmitCallback enforceImport =>
      cases enforceImport with
      | false =>
          rcases s.verifyAndSubmitTransaction_cases cfg tx.1 txSubmitCallback with
            ⟨hno, _⟩ | ⟨_, he⟩
          · exact absurd hreports hno
          · have hstep : step cfg s (.submitTransaction tx txSubmitCallback false)
                = (s.verifyAndSubmitTransaction cfg tx.1 txSubmitCallback).1 := rfl
            rw [hstep, he] at hcounted ⊢
            exact lastReport_notify hack hcounted
      | true =>
          have hstep : step cfg s (.submitTransaction tx txSubmitCallback true)
              = (s.enforceSubmitTransaction cfg tx.1).1 := rfl
          -- The report is made only where the transaction was not pooled before.
          have he := s.enforceSubmitTransaction_of_find?_none cfg hreports.1 hreports.2
          rw [hstep, he] at hcounted ⊢
          exact lastReport_notify hack hcounted
  | batchFetchTxs order txsLimit avoidTxs avoidDuplicate => exact lastReport_notify hack hcounted
  | removeInvalidTxs =>
      rw [step, removeInvalidTxs, if_neg hreports] at hcounted ⊢
      exact lastReport_notify hack hcounted
  | batchRemove batchId txsResult => exact lastReport_notify hack hcounted
  | batchMarkAllTxs sealFlag => exact lastReport_notify hack hcounted
  | notifyInvalidReceipt txHash status txSubmitCallback => exact hreports.elim
  | batchMarkTxs txsHashList batchId batchHash sealFlag => exact hreports.elim
  | filterUnknownTxs txsHashList peer => exact hreports.elim
  | fetchNewTxs order txsLimit => exact hreports.elim
  | appendKnownNode txHash node => exact hreports.elim
  | _ => exact hcall.elim

/-- The number of unsealed transactions is a gauge, and the last report its
    display. The rules of gauges then say what holds over several calls. -/
theorem reports_meter (hack : Acknowledged cfg) :
    Meter (step cfg) Counted (fun call => ∃ op, TxPool.NodeCall cfg op call) unsealedCount
      lastReport FlipsUnreported (Reports cfg) where
  inv := fun _ call _ h => step_counted cfg h call
  shows := by
    intro s call hcall h hreports
    rcases hcall with ⟨op, hcall⟩
    exact step_lastReport hack h hcall hreports
  silent := by
    intro s call hcall hsilent
    rcases hcall with ⟨op, hcall⟩
    rcases s.step_moved hcall hsilent with ⟨_, _, hmoved, _⟩
    rw [lastReport, lastReport, hmoved.reports]
  still := by
    intro s call hcall hsilent hquiet
    rcases hcall with ⟨op, hcall⟩
    rcases s.step_moved hcall hsilent with ⟨sealFlag, n, hmoved, hzero⟩
    -- Nothing was flipped, so nothing was moved, in either direction.
    have hn : n = 0 := hzero.mpr hquiet
    subst hn
    cases sealFlag with
    | true => exact hmoved.down rfl
    | false => exact hmoved.up rfl

end MemoryStorage

/-! ### Operations -/

namespace TxPool

variable {cfg : TxPoolConfig}

/-- A submission for a proposal never raises the number of unsealed
    transactions: it seals what it finds, and brings in what is sealed. -/
theorem enforced_unsealedCount_le (s : MemoryStorage) (tx : UnsealedTx) :
    (MemoryStorage.step cfg s (.submitTransaction tx none true)).unsealedCount
      ≤ s.unsealedCount := by
  by_cases hadmits : MemoryStorage.Admits cfg s tx.1 true
  · -- What it brings in is sealed and does not count.
    have hcount := s.txsTable.countP_insert (fun tx => !tx.sealed) { tx.1 with sealed := true }
      hadmits.2
    have hstep : (MemoryStorage.step cfg s (.submitTransaction tx none true)).txsTable
        = s.txsTable.insert { tx.1 with sealed := true } := by
      have hsubmit : MemoryStorage.step cfg s (.submitTransaction tx none true)
          = (s.enforceSubmitTransaction cfg tx.1).1 := rfl
      rw [hsubmit, s.enforceSubmitTransaction_of_find?_none cfg hadmits.1 hadmits.2]
      exact MemoryStorage.notifyUnsealedTxsSize_txsTable cfg _
    simp only [Bool.not_true, Bool.false_eq_true, if_false, Nat.add_zero] at hcount
    rw [MemoryStorage.unsealedCount, MemoryStorage.unsealedCount, hstep, hcount]
  · rcases s.submitTransaction_moved tx none true hadmits with ⟨n, hmoved, _⟩
    exact Nat.le.intro (hmoved.down rfl)

/-- It lowers the number if it seals a pooled transaction. -/
theorem enforced_unsealedCount_lt (s : MemoryStorage) (tx : UnsealedTx)
    (hflips : MemoryStorage.FlipsUnreported s (.submitTransaction tx none true)) :
    (MemoryStorage.step cfg s (.submitTransaction tx none true)).unsealedCount
      < s.unsealedCount := by
  have hpooled : ¬ MemoryStorage.Admits cfg s tx.1 true := by
    intro hadmits
    rcases hflips with ⟨_, entry, hfind, _⟩
    exact absurd (hadmits.2.symm.trans hfind) (Option.some_ne_none entry).symm
  rcases s.submitTransaction_moved tx none true hpooled with ⟨n, hmoved, hzero⟩
  have hdown : (MemoryStorage.step cfg s (.submitTransaction tx none true)).unsealedCount + n
      = s.unsealedCount := hmoved.down rfl
  have hpos : n ≠ 0 := fun hn => hzero.mp hn hflips
  omega

/-- The calls of an operation are one list of marks, or submissions for a
    proposal, or calls that flip no flag unreported. -/
theorem calls_kinds (cfg : TxPoolConfig) (s : MemoryStorage) (op : Op) :
    (∃ txsHash batchId batchHash sealFlag,
      calls cfg s op = [.batchMarkTxs txsHash batchId batchHash sealFlag]) ∨
    (∀ call ∈ calls cfg s op, ∃ tx, call = .submitTransaction tx none true) ∨
    (∀ t, ∀ call ∈ calls cfg s op, ¬ MemoryStorage.FlipsUnreported t call) := by
  cases op with
  | asyncSubmit existsInGroup txData txSubmitCallback =>
      refine Or.inr (Or.inr (fun t call hmem hflips => ?_))
      simp only [calls] at hmem
      -- A client's submission is refused, or it is imported and perhaps answered at
      -- once.
      split at hmem
      · split at hmem
        · rw [List.mem_singleton.mp hmem] at hflips
          exact hflips
        · rcases List.mem_cons.mp hmem with rfl | hmem
          · exact hflips
          · split at hmem
            · rw [List.mem_singleton.mp hmem] at hflips
              exact hflips
            · exact absurd hmem List.not_mem_nil
      · rw [List.mem_singleton.mp hmem] at hflips
        exact hflips
  | importDownloadedTxs fromNode txs verifiedProposal =>
      simp only [calls]
      split
      · exact Or.inr (Or.inr (fun t call hmem => absurd hmem List.not_mem_nil))
      · -- Only the header makes an import an enforced one.
        cases hheader : (TransactionSync.proposalHeader verifiedProposal).isSome with
        | true =>
            refine Or.inr (Or.inl (fun call hmem => ?_))
            rcases mem_importCalls cfg true _ call s hmem with ⟨tx, _, _, rfl⟩
            exact ⟨tx, rfl⟩
        | false =>
            refine Or.inr (Or.inr (fun t call hmem => ?_))
            rcases mem_importCalls cfg false _ call s hmem with ⟨tx, _, _, rfl⟩
            exact id
  | asyncMarkTxs txsHash sealedFlag batchId batchHash =>
      exact Or.inl ⟨txsHash, batchId, batchHash, sealedFlag, rfl⟩
  | _ =>
      refine Or.inr (Or.inr (fun t call hmem hflips => ?_))
      rw [List.mem_singleton.mp hmem] at hflips
      exact hflips

/-- If an operation changes the number of unsealed transactions, the new number
    is the last one reported. -/
def ReportsChange (cfg : TxPoolConfig) (s : MemoryStorage) (op : Op) : Prop :=
  (step cfg s op).unsealedCount ≠ s.unsealedCount →
    (step cfg s op).lastReport = some (step cfg s op).unSealedTxsSize.2

/-- Every flag that an operation flips without a report is followed by a report
    of a later call of the same operation. Only an import has more than one call
    that matters here. -/
def LeavesReported (cfg : TxPoolConfig) (s : MemoryStorage) (op : Op) : Prop :=
  ¬ Owed (MemoryStorage.step cfg) MemoryStorage.FlipsUnreported (MemoryStorage.Reports cfg) s
    (calls cfg s op)

/-- What the sealer was last told, or zero if it was told nothing, is the number
    of unsealed transactions. -/
def Informed (s : MemoryStorage) : Prop := s.lastReport.getD 0 = s.unsealedCount

/-- The calls of an operation are calls that a node makes. -/
theorem exists_nodeCall (s : MemoryStorage) (op : Op) :
    ∀ call ∈ calls cfg s op, ∃ op, NodeCall cfg op call :=
  fun call hmem => ⟨op, calls_nodeCall cfg s op call hmem⟩

/-- After an operation the counter is right, and so is the number that the
    source computes from it. -/
theorem unSealedTxsSize_step (cfg : TxPoolConfig) {s : MemoryStorage} (h : s.Counted) (op : Op) :
    (step cfg s op).unSealedTxsSize.2 = (step cfg s op).unsealedCount :=
  MemoryStorage.unSealedTxsSize_snd (run_counted cfg h [op])

/-- An operation that leaves nothing unreported keeps the sealer informed. -/
theorem step_informed (hack : MemoryStorage.Acknowledged cfg) {s : MemoryStorage} (h : s.Counted)
    (hs : Informed s) {op : Op} (hop : LeavesReported cfg s op) :
    ReportsChange cfg s op ∧ Informed (step cfg s op) := by
  have hsettled := (MemoryStorage.reports_meter hack).settled h (calls cfg s op)
    (exists_nodeCall s op) hop
  have hsize := unSealedTxsSize_step cfg h op
  rw [← step_eq_run_calls] at hsettled
  unfold ReportsChange Informed
  rw [hsize]
  -- The last call that moved the number has reported it, or none has moved it.
  rcases hsettled with hright | ⟨hreport, hcount⟩
  · exact ⟨fun _ => hright, by rw [hright, Option.getD_some]⟩
  · exact ⟨fun hne => absurd hcount hne, by rw [hreport, hcount]; exact hs⟩

/-- An operation that leaves something unreported has changed the number and not
    reported it. -/
theorem step_uninformed (hack : MemoryStorage.Acknowledged cfg) {s : MemoryStorage}
    (h : s.Counted) (hs : Informed s) {op : Op} (hop : ¬ LeavesReported cfg s op) :
    ¬ ReportsChange cfg s op := by
  have howed := not_not.mp hop
  have hsize := unSealedTxsSize_step cfg h op
  have hshown : ∀ v, s.lastReport = some v → v = s.unsealedCount := by
    intro v hv
    rw [Informed, hv, Option.getD_some] at hs
    exact hs
  intro hchange
  rw [ReportsChange, hsize] at hchange
  -- A debt at the end is a change: the marks all point the same way, and so do the
  -- submissions. Unreported changes of one operation cannot cancel.
  rcases calls_kinds cfg s op with
    ⟨txsHash, batchId, batchHash, sealFlag, hcalls⟩ | henforced | hquiet
  · -- Marks report nothing, so the last report is the old number.
    have hstep : step cfg s op = s.batchMarkTxs txsHash batchId batchHash sealFlag := by
      rw [step_eq_run_calls, hcalls]
      rfl
    rw [hcalls, ← List.nil_append [_], owed_concat] at howed
    have hflips := howed.2.resolve_left (not_owed_nil _ _ _ _)
    rcases s.flipping_mark_unreported hflips with ⟨hne, hreports⟩
    rw [hstep] at hchange
    have hlast := hchange hne
    rw [MemoryStorage.lastReport, hreports] at hlast
    exact hne (hshown _ hlast)
  · -- Submissions only lower the number, so the last report is above it.
    have hbehind := (MemoryStorage.reports_meter hack).behind h (calls cfg s op)
      (exists_nodeCall s op)
      (fun t call hmem => by
        rcases henforced call hmem with ⟨tx, rfl⟩
        exact enforced_unsealedCount_le t tx)
      (fun t call hmem hflips => by
        rcases henforced call hmem with ⟨tx, rfl⟩
        exact enforced_unsealedCount_lt t tx hflips)
      (fun v hv => Nat.le_of_eq (hshown v hv).symm)
    rw [← step_eq_run_calls] at hbehind
    rcases hbehind.2.2 howed with ⟨hlower, hoff⟩
    have hlast := hchange (Nat.ne_of_lt hlower)
    exact absurd (hoff _ hlast) (Nat.lt_irrefl _)
  · exact not_owed_of_forall _ hquiet howed

/-- In a run from an empty pool whose notifier acknowledges every report, every
    change of the number of unsealed transactions is reported by the operation
    that makes it, exactly when every operation reports, by a later call of its
    own, the flags it has flipped without a report. -/
theorem changes_reported_iff (hack : MemoryStorage.Acknowledged cfg)
    (ledger : LedgerNonceChecker) (ops : List Op) :
    Along (step cfg) (ReportsChange cfg) { ledgerNonceChecker := ledger } ops ↔
      Along (step cfg) (LeavesReported cfg) { ledgerNonceChecker := ledger } ops := by
  have hempty : MemoryStorage.Counted { ledgerNonceChecker := ledger } := rfl
  have hstart : Informed { ledgerNonceChecker := ledger } := rfl
  generalize ({ ledgerNonceChecker := ledger } : MemoryStorage) = s at hempty hstart
  -- The induction is on the run. It goes on from a sealer that is informed, and
  -- both sides fail at the first operation that leaves a debt.
  induction ops generalizing s with
  | nil => exact Iff.rfl
  | cons op ops ih =>
      by_cases hop : LeavesReported cfg s op
      · rcases step_informed hack hempty hstart hop with ⟨hchange, hnext⟩
        exact and_congr (iff_of_true hchange hop)
          (ih (step cfg s op) (run_counted cfg hempty [op]) hnext)
      · exact iff_of_false (fun hc => step_uninformed hack hempty hstart hop hc.1)
          (fun hc => hop hc.1)

/-- The example pool with a notifier that acknowledges every report. -/
def reportingConfig : TxPoolConfig :=
  { exampleConfig with unsealedTxsNotifier := some (fun _ => false) }

/-- A transaction comes in and is sealed, and the sealer is told of both:
    neither operation ends with a debt. -/
theorem changes_reported_iff_exampleRun :
    let ops : List Op := [.importDownloadedTxs 1 [exampleTx 1 7 1] none, .asyncSealTxs [1] 1 []]
    Along (step reportingConfig) (ReportsChange reportingConfig) examplePool ops ∧
    (run (step reportingConfig) examplePool ops).reports = [1, 0] := by
  intro ops
  have hquiet : ∀ (s : MemoryStorage) (op : Op), op ∈ ops →
      LeavesReported reportingConfig s op := by
    intro s op hmem
    refine not_owed_of_forall _ (fun t call hcall hflips => ?_)
    rcases List.mem_cons.mp hmem with rfl | hmem
    · rcases mem_importCalls reportingConfig false _ call s hcall with ⟨tx, _, _, rfl⟩
      exact hflips
    · rw [List.mem_singleton.mp hmem] at hcall
      rw [List.mem_singleton.mp hcall] at hflips
      exact hflips
  refine ⟨(changes_reported_iff ⟨_, rfl, fun _ => rfl⟩ examplePool.ledgerNonceChecker ops).mpr
    ⟨hquiet _ _ List.mem_cons_self, hquiet _ _ (List.mem_cons_of_mem _ List.mem_cons_self),
      trivial⟩, by decide⟩

/-- A proposal is marked that holds the one pooled transaction. The sealer was
    last told of one unsealed transaction, and there is none. -/
theorem changes_reported_counterexample :
    let ops : List Op :=
      [.importDownloadedTxs 1 [exampleTx 1 7 1] none, .asyncMarkTxs [1] true 1 9]
    ¬ Along (step reportingConfig) (ReportsChange reportingConfig) examplePool ops ∧
    (run (step reportingConfig) examplePool ops).reports = [1] ∧
    (run (step reportingConfig) examplePool ops).unSealedTxsSize.2 = 0 := by
  refine ⟨fun hchanges => ?_, by decide, by decide⟩
  have hlast := hchanges.2.1 (by decide)
  exact absurd hlast (by decide)

end TxPool

end BcosTxPool
