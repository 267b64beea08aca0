import Mathlib.Data.Finset.Card
import BcosTxPool.Theory.Redelivery
import BcosTxPool.Theory.SealCounter

/-!
# A Failed Import

What an import for a proposal leaves behind when it fails. A bad signature is
found before anything is imported, and the pool stays as it is. The other two
reasons, a nonce that is on chain and a seal of another proposal, are found by
the submissions, one after the other, and the import stops at the first. What
it has sealed by then stays sealed for the proposal it has just rejected.

So it matters what comes before the first rejected transaction. If all of that
was in the pool with the seal of the proposal, there was nothing to capture; a
pooled transaction with any other seal is captured, and one that was not pooled
enters the table and the counter.

The counter has a way back that no node takes: a report sets a counter that is
larger than the table to the size of the table, and if it was larger by exactly
the number of the new transactions it ends where it began.

## Main definitions

* `acceptedPrefix`: The transactions before the first rejected one.
* `newHashes`: The hashes that the pool does not hold.
* `Uncaptured`: Seals and counter are what they were.
* `NothingToCapture`: What a failed import needs to leave them alone.

## Theorems

* `importLoop_counter`: The counter at the end of an enforced import.
* `nothingToCapture_iff_of_counted`: The condition where the counter is right.
* `failed_import_uncaptured_iff`: When a failed import captures nothing.
* `failed_import_counterexample`: One that captures a pending transaction.
-/

namespace BcosTxPool

open Library TxPool

namespace MemoryStorage

variable (cfg : TxPoolConfig)

/-- The hashes of the transactions that the pool does not hold. A hash that a
    list names twice is one new hash, since its second occurrence meets the
    entry of the first. -/
def newHashes (s : MemoryStorage) (txs : List TxData) : Finset HashType :=
  (txs.map (fun tx => tx.hash)).toFinset.filter (fun txHash => s.exist txHash = false)

/-- A new hash is that of a transaction in the list, and it is not pooled. -/
theorem mem_newHashes (s : MemoryStorage) (txs : List TxData) (txHash : HashType) :
    txHash ∈ s.newHashes txs ↔ txHash ∈ txs.map (fun tx => tx.hash) ∧ s.exist txHash = false := by
  rw [newHashes, Finset.mem_filter, List.mem_toFinset]

/-- A pooled transaction is not new, and in front of a list it adds nothing. -/
theorem newHashes_cons_of_exist (s : MemoryStorage) {data : TxData} (txs : List TxData)
    (h : s.exist data.hash = true) : s.newHashes (data :: txs) = s.newHashes txs := by
  ext txHash
  rw [mem_newHashes, mem_newHashes, List.map_cons, List.mem_cons]
  refine and_congr_left (fun hfree => or_iff_right ?_)
  -- The front hash itself would have to be free, and it is pooled.
  rintro rfl
  exact Bool.false_ne_true (hfree.symm.trans h)

/-- Once a new transaction is in, there is one new hash less. The count goes
    down by one with each entry of the table that the import makes. -/
theorem card_newHashes_cons {s s' : MemoryStorage} {data : TxData} (txs : List TxData)
    (h : s.exist data.hash = false)
    (hin : ∀ txHash, s'.exist txHash = true ↔ s.exist txHash = true ∨ txHash = data.hash) :
    (s.newHashes (data :: txs)).card = (s'.newHashes txs).card + 1 := by
  have hfree : ∀ txHash, s'.exist txHash = false ↔ s.exist txHash = false ∧ txHash ≠ data.hash := by
    intro txHash
    rw [← Bool.not_eq_true, hin, not_or, Bool.not_eq_true]
  -- Free before is this hash, or free afterwards.
  have hsplit : s.newHashes (data :: txs) = Insert.insert data.hash (s'.newHashes txs) := by
    ext txHash
    rw [mem_newHashes, Finset.mem_insert, mem_newHashes, List.map_cons, List.mem_cons, hfree]
    by_cases hthis : txHash = data.hash
    · subst hthis
      exact iff_of_true ⟨Or.inl rfl, h⟩ (Or.inl rfl)
    · rw [or_iff_right hthis, or_iff_right hthis, and_iff_left hthis]
  rw [hsplit, Finset.card_insert_of_notMem]
  -- This hash is pooled now, so it is counted once only.
  intro hmem
  exact ((hfree data.hash).mp ((mem_newHashes s' txs data.hash).mp hmem).2).2 rfl

/-! ### The counter -/

/-- The counter after a number of sealed transactions have entered the table,
    each with its report. The first report may set the counter back to the size
    of the table, and those after it find nothing to correct. -/
def counterAfter (s : MemoryStorage) (entered : Nat) : Nat :=
  if entered = 0 then s.sealedTxsSize
  else (if cfg.unsealedTxsNotifier.isSome then min s.sealedTxsSize s.size else s.sealedTxsSize)
    + entered

/-- It is where it was if nothing has entered, or if it was ahead of the table
    by just as much and the report has set it back. -/
theorem counterAfter_eq_iff (s : MemoryStorage) (entered : Nat) :
    s.counterAfter cfg entered = s.sealedTxsSize ↔
      entered = 0 ∨
        (cfg.unsealedTxsNotifier.isSome = true ∧ s.sealedTxsSize = s.size + entered) := by
  unfold counterAfter
  by_cases hzero : entered = 0
  · rw [if_pos hzero]
    exact iff_of_true rfl (Or.inl hzero)
  · rw [if_neg hzero, or_iff_right hzero]
    split
    · -- With reports the counter is cut to the table first.
      rename_i hnotifier
      rw [and_iff_right hnotifier]
      omega
    · rename_i hnotifier
      exact iff_of_false (by omega) (fun h => hnotifier h.1)

/-- One more has entered, and the count from here is the count from the pool
    before it. -/
theorem counterAfter_succ {s s' : MemoryStorage} (entered : Nat) (hsize : s'.size = s.size + 1)
    (hcounter : s'.sealedTxsSize = s.counterAfter cfg 1) :
    s'.counterAfter cfg entered = s.counterAfter cfg (entered + 1) := by
  unfold counterAfter at hcounter ⊢
  rw [if_neg Nat.one_ne_zero] at hcounter
  rw [if_neg (Nat.succ_ne_zero entered), hcounter, hsize]
  split
  · omega
  · split
    · omega
    · omega

/-- An enforced insertion adds one entry to the table. -/
theorem size_insertedSealed (s : MemoryStorage) {tx : Transaction}
    (hfind : s.txsTable.find? tx.hash = none) : (s.insertedSealed cfg tx).size = s.size + 1 := by
  simp only [size, insertedSealed, inserted, eraseMissed, notifyUnsealedTxsSize_txsTable]
  exact s.txsTable.size_insert { tx with sealed := true } hfind

/-- It counts the entry as sealed and reports, in this order, while the table
    has grown already. -/
theorem insertedSealed_sealedTxsSize (s : MemoryStorage) {tx : Transaction}
    (htx : tx.sealed = false) (hfind : s.txsTable.find? tx.hash = none) :
    (s.insertedSealed cfg tx).sealedTxsSize = s.counterAfter cfg 1 := by
  have hsize := s.txsTable.size_insert { tx with sealed := true } hfind
  simp only [insertedSealed, inserted, eraseMissed, notifyUnsealedTxsSize_sealedTxsSize, htx,
    Bool.false_eq_true, if_false, counterAfter, Nat.one_ne_zero, size, hsize]
  split
  · omega
  · rfl

/-- And what is pooled afterwards is what was, and the new hash. -/
theorem exist_insertedSealed (s : MemoryStorage) {tx : Transaction}
    (hfind : s.txsTable.find? tx.hash = none) (txHash : HashType) :
    (s.insertedSealed cfg tx).exist txHash = true ↔ s.exist txHash = true ∨ txHash = tx.hash := by
  unfold exist KeyedTable.contains
  rw [s.find?_insertedSealed cfg tx hfind]
  by_cases hthis : tx.hash = txHash
  · rw [if_pos hthis]
    exact iff_of_true rfl (Or.inr hthis.symm)
  · rw [if_neg hthis]
    exact (or_iff_left (Ne.symm hthis)).symm

/-! ### What is captured -/

/-- The transactions that an import for the proposal accepts before it stops.
    They are found with the pool before the import: what it takes in on the way
    changes no answer. -/
def acceptedPrefix (s : MemoryStorage) (header : BlockHeader) (txs : List TxData) : List TxData :=
  txs.takeWhile (fun tx => s.Acceptable header tx)

/-- A transaction that is acceptable goes on with those behind it. -/
theorem acceptedPrefix_cons_of_acceptable {s : MemoryStorage} {header : BlockHeader}
    {data : TxData} (h : s.Acceptable header data) (txs : List TxData) :
    s.acceptedPrefix header (data :: txs) = data :: s.acceptedPrefix header txs := by
  rw [acceptedPrefix, List.takeWhile_cons, decide_eq_true h, if_pos rfl]
  rfl

/-- One that is not ends the prefix. -/
theorem acceptedPrefix_cons_of_not_acceptable {s : MemoryStorage} {header : BlockHeader}
    {data : TxData} (h : ¬ s.Acceptable header data) (txs : List TxData) :
    s.acceptedPrefix header (data :: txs) = [] := by
  rw [acceptedPrefix, List.takeWhile_cons, decide_eq_false h, if_neg Bool.false_ne_true]

/-- Every pooled transaction has the seal it had, and the counter is what it
    was. This is what a rejected proposal ought to leave behind. -/
structure Uncaptured (s s' : MemoryStorage) : Prop where
  seals : ∀ txHash entry, s.txsTable.find? txHash = some entry →
    ∃ entry', s'.txsTable.find? txHash = some entry' ∧ sealState entry' = sealState entry
  counter : s'.sealedTxsSize = s.sealedTxsSize

/-- Before the first rejected transaction, what is pooled has the seal of the
    proposal, and nothing is new, unless the counter is ahead of the table by the
    number of the new ones. -/
structure NothingToCapture (s : MemoryStorage) (header : BlockHeader) (txs : List TxData) :
    Prop where
  own : ∀ data ∈ s.acceptedPrefix header txs, ∀ entry,
    s.txsTable.find? data.hash = some entry → sealState entry = header.seals
  new : s.newHashes (s.acceptedPrefix header txs) = ∅ ∨
    (cfg.unsealedTxsNotifier.isSome = true ∧
      s.sealedTxsSize = s.size + (s.newHashes (s.acceptedPrefix header txs)).card)

/-- Where the counter is right, all that comes before the first rejected
    transaction has to be pooled with the seal of the proposal. In such a pool
    the way back by a report does not exist. -/
theorem nothingToCapture_iff_of_counted {s : MemoryStorage} (hs : s.Counted)
    (header : BlockHeader) (txs : List TxData) :
    NothingToCapture cfg s header txs ↔ ∀ data ∈ s.acceptedPrefix header txs,
      ∃ entry, s.txsTable.find? data.hash = some entry ∧ sealState entry = header.seals := by
  constructor
  · intro h data hdata
    -- A right counter is not ahead of the table.
    have hempty : s.newHashes (s.acceptedPrefix header txs) = ∅ := by
      rcases h.new with hempty | ⟨_, hahead⟩
      · exact hempty
      · have hle : s.sealedTxsSize ≤ s.size := hs.le_size
        exact Finset.card_eq_zero.mp (by omega)
    cases hfind : s.txsTable.find? data.hash with
    | some entry => exact ⟨entry, rfl, h.own data hdata entry hfind⟩
    -- A transaction that is not pooled would be new.
    | none =>
        have hnew : data.hash ∈ s.newHashes (s.acceptedPrefix header txs) :=
          (mem_newHashes _ _ _).mpr
            ⟨List.mem_map_of_mem hdata, (s.txsTable.contains_eq_false_iff _).mpr hfind⟩
        rw [hempty] at hnew
        exact absurd hnew (Finset.notMem_empty _)
  · intro h
    refine ⟨fun data hdata entry hfind => ?_, Or.inl (Finset.eq_empty_of_forall_notMem ?_)⟩
    · rcases h data hdata with ⟨e, he, hseals⟩
      rw [he, Option.some.injEq] at hfind
      exact hfind ▸ hseals
    · -- All of them are pooled, so none is new.
      intro txHash hmem
      rcases (mem_newHashes _ _ _).mp hmem with ⟨hin, hfree⟩
      rcases List.mem_map.mp hin with ⟨data, hdata, rfl⟩
      rcases h data hdata with ⟨e, he, _⟩
      exact Bool.false_ne_true (hfree.symm.trans ((s.txsTable.contains_iff _).mpr ⟨e, he⟩))

end MemoryStorage

namespace TransactionSync

open MemoryStorage

variable (cfg : TxPoolConfig)

/-- The counter at the end of an enforced import that meets no pooled
    transaction but with the seal of the proposal. Such a transaction changes
    nothing, and every new one is counted. -/
theorem importLoop_counter (header : BlockHeader) (txs : List Transaction)
    (htxs : ∀ tx ∈ txs, tx.invalid = false ∧ StampedFor header tx ∧ tx.sealed = false) :
    ∀ s : MemoryStorage,
      (∀ data ∈ s.acceptedPrefix header (txs.map (fun tx => tx.toTxData)), ∀ entry,
        s.txsTable.find? data.hash = some entry → sealState entry = header.seals) →
      (importLoop cfg true txs s).1.sealedTxsSize = s.counterAfter cfg
        (s.newHashes (s.acceptedPrefix header (txs.map (fun tx => tx.toTxData)))).card := by
  -- The induction is on the transactions that are left, for all pools that may meet
  -- them.
  induction txs with
  | nil => exact fun _ _ => rfl
  | cons tx txs ih =>
      intro s hown
      have ih := ih (fun t ht => htxs t (List.mem_cons_of_mem tx ht))
      rcases htxs tx List.mem_cons_self with ⟨hvalid, hstamped, hopen⟩
      have hnone := s.enforceSubmitTransaction_snd_eq_none_iff cfg hstamped
      rw [importLoop_enforced_cons cfg s hvalid]
      rw [List.map_cons] at hown ⊢
      by_cases haccepted : s.Acceptable header tx.toTxData
      · rw [acceptedPrefix_cons_of_acceptable haccepted] at hown ⊢
        rw [if_neg (not_not.mpr (hnone.mpr haccepted))]
        cases hfind : s.txsTable.find? tx.hash with
        | some entry =>
            -- Pooled, it has the seal already, and the turn changes nothing.
            have hentry := hown tx.toTxData List.mem_cons_self entry hfind
            have hexist : s.exist tx.hash = true := (s.txsTable.contains_iff _).mpr ⟨entry, hfind⟩
            rw [s.enforceSubmitTransaction_of_seals cfg haccepted.1 hfind hentry hstamped,
              s.newHashes_cons_of_exist _ hexist]
            exact ih s (fun data hdata => hown data (List.mem_cons_of_mem _ hdata))
        | none =>
            have hfree : s.exist tx.hash = false := (s.txsTable.contains_eq_false_iff _).mpr hfind
            have hseals := s.enforceSubmitTransaction_sealsFor cfg hstamped haccepted
            rw [s.enforceSubmitTransaction_of_find?_none cfg haccepted.1 hfind] at hseals ⊢
            -- What is accepted after it is what was accepted before it.
            have hsame : (s.insertedSealed cfg tx).acceptedPrefix header
                (txs.map (fun tx => tx.toTxData))
                = s.acceptedPrefix header (txs.map (fun tx => tx.toTxData)) := by
              unfold acceptedPrefix
              simp only [hseals.acceptable_iff]
            have hrest := ih (s.insertedSealed cfg tx)
            rw [hsame] at hrest
            rw [card_newHashes_cons _ hfree (s.exist_insertedSealed cfg hfind),
              ← counterAfter_succ cfg _ (s.size_insertedSealed cfg hfind)
                (s.insertedSealed_sealedTxsSize cfg hopen hfind)]
            refine hrest (fun data hdata entry hentry => ?_)
            rw [s.find?_insertedSealed cfg tx hfind] at hentry
            split at hentry
            · -- A repetition meets the entry this turn has made.
              rw [← Option.some.inj hentry, sealState, BlockHeader.seals, hstamped.1, hstamped.2]
            · exact hown data (List.mem_cons_of_mem _ hdata) entry hentry
      · -- The first rejected transaction ends the import, with nothing counted for
        -- it.
        have hrejected : (s.enforceSubmitTransaction cfg tx).2 ≠ .none :=
          fun h => haccepted (hnone.mp h)
        rw [if_pos hrejected, acceptedPrefix_cons_of_not_acceptable haccepted,
          s.enforceSubmitTransaction_rejected cfg tx hrejected]
        rfl

/-- The counter at the end of an import for a proposal whose signatures are
    good, under the same assumption. -/
theorem importDownloadedTxs_counter (s : MemoryStorage) (fromNode : NodeID) (txs : List TxData)
    {verifiedProposal : Option Block} {header : BlockHeader}
    (hheader : proposalHeader verifiedProposal = some header) (hverified : Verified cfg s txs)
    (hown : ∀ data ∈ s.acceptedPrefix header txs, ∀ entry,
      s.txsTable.find? data.hash = some entry → sealState entry = header.seals) :
    (importDownloadedTxs cfg s fromNode txs verifiedProposal).1.sealedTxsSize
      = s.counterAfter cfg (s.newHashes (s.acceptedPrefix header txs)).card := by
  -- The verification writes the flags, and the contents stay those of the list.
  have hcontents : (txs.map (fun data =>
      (verifyDownloaded cfg s fromNode (some header) data).1)).map (fun tx => tx.toTxData)
      = txs := by
    simp only [List.map_map, Function.comp_def, verifyDownloaded_toTxData, List.map_id']
  have hloop := importLoop_counter cfg header
    (txs.map (fun data => (verifyDownloaded cfg s fromNode (some header) data).1))
    (fun tx htx => by
      rcases List.mem_map.mp htx with ⟨data, hdata, rfl⟩
      rcases verifyDownloaded_stamped cfg s fromNode header (hverified data hdata) with
        ⟨hvalid, hstamped⟩
      exact ⟨hvalid, hstamped, verifyDownloaded_sealed cfg s fromNode (some header) data⟩) s
  rw [hcontents] at hloop
  rw [importDownloadedTxs_eq_importLoop cfg s fromNode txs hheader hverified]
  exact hloop hown

/-- An import for a proposal leaves seals and counter alone if a signature is
    bad or there is nothing to capture, and only then. Whether it fails does not
    matter here. -/
theorem import_uncaptured_iff (s : MemoryStorage) (fromNode : NodeID) (txs : List TxData)
    {verifiedProposal : Option Block} {header : BlockHeader}
    (hheader : proposalHeader verifiedProposal = some header) :
    Uncaptured s (importDownloadedTxs cfg s fromNode txs verifiedProposal).1 ↔
      (Verified cfg s txs → NothingToCapture cfg s header txs) := by
  by_cases hverified : Verified cfg s txs
  · rw [forall_prop_of_true hverified]
    have hseals := (importDownloadedTxs_enforced cfg s fromNode txs hheader hverified).2
    have hcounter := importDownloadedTxs_counter cfg s fromNode txs hheader hverified
    constructor
    · intro h
      -- What is pooled of the prefix has the seal of the proposal now, so it had it before.
      have hown : ∀ data ∈ s.acceptedPrefix header txs, ∀ entry,
          s.txsTable.find? data.hash = some entry → sealState entry = header.seals := by
        intro data hdata entry hfind
        rcases hseals.holds data.hash (List.mem_map_of_mem hdata) with ⟨after, hafter, hnow⟩
        rcases h.seals data.hash entry hfind with ⟨e, he, hsame⟩
        rw [hafter, Option.some.injEq] at he
        rw [← hsame, ← he]
        exact hnow
      refine ⟨hown, ?_⟩
      rw [← Finset.card_eq_zero, ← counterAfter_eq_iff, ← hcounter hown]
      exact h.counter
    · intro h
      refine ⟨fun txHash entry hfind => ?_, ?_⟩
      · -- A hash of the prefix has the seal of the proposal, and any other hash
        -- what it had.
        by_cases hmem : txHash ∈ (s.acceptedPrefix header txs).map (fun tx => tx.hash)
        · rcases List.mem_map.mp hmem with ⟨data, hdata, rfl⟩
          rcases hseals.holds data.hash hmem with ⟨after, hafter, hnow⟩
          exact ⟨after, hafter, hnow.trans (h.own data hdata entry hfind).symm⟩
        · exact ⟨entry, (hseals.frame txHash hmem).trans hfind, rfl⟩
      · rw [hcounter h.own, counterAfter_eq_iff, Finset.card_eq_zero]
        exact h.new
  · -- A bad signature is found before the pool is touched.
    rw [importDownloadedTxs_unverified cfg s fromNode txs hheader hverified]
    exact iff_of_true ⟨fun _ entry hfind => ⟨entry, hfind, rfl⟩, rfl⟩
      (fun h => absurd h hverified)

/-- When an import for a proposal that fails leaves seals and counter as they
    were. If it fails for a signature it does. If it fails for a transaction that
    is not acceptable, there must have been nothing to capture before that one. -/
theorem failed_import_uncaptured_iff (cfg : TxPoolConfig) (s : MemoryStorage) (fromNode : NodeID)
    (txs : List TxData) (block : Block) (header : BlockHeader)
    (hheader : block.blockHeader = some header) :
    ((importDownloadedTxs cfg s fromNode txs (some block)).2 = false →
      Uncaptured s (importDownloadedTxs cfg s fromNode txs (some block)).1) ↔
    (Verified cfg s txs → (∃ data ∈ txs, ¬ s.Acceptable header data) →
      NothingToCapture cfg s header txs) := by
  have hproposal : proposalHeader (some block) = some header := hheader
  rw [import_uncaptured_iff cfg s fromNode txs hproposal]
  by_cases hverified : Verified cfg s txs
  · -- With the signatures good, it fails exactly for what is not acceptable.
    have hfails : (importDownloadedTxs cfg s fromNode txs (some block)).2 = false ↔
        ∃ data ∈ txs, ¬ s.Acceptable header data := by
      rw [(importDownloadedTxs_enforced cfg s fromNode txs hproposal hverified).1,
        List.all_eq_false]
      simp only [decide_eq_true_eq]
    rw [hfails, forall_prop_of_true hverified, forall_prop_of_true hverified]
  · exact iff_of_true (fun _ h => absurd h hverified) (fun h => absurd h hverified)

/-- Transaction one is pending and transaction two is sealed for a proposal. -/
def halfSealed : MemoryStorage :=
  run (TxPool.step exampleConfig) examplePool
    [.importDownloadedTxs 1 [exampleTx 1 3 1] none,
      .importDownloadedTxs 1 [exampleTx 2 4 1] (some ⟨some ⟨1, 9⟩, [2], []⟩)]

/-- Another proposal names both, and its import stops at once if transaction two
    comes first. -/
theorem failed_import_uncaptured_iff_atOnce :
    Uncaptured halfSealed (importDownloadedTxs exampleConfig halfSealed 1
      [exampleTx 2 4 1, exampleTx 1 3 1] (some ⟨some ⟨2, 8⟩, [2, 1], []⟩)).1 := by
  have hnone : halfSealed.acceptedPrefix ⟨2, 8⟩ [exampleTx 2 4 1, exampleTx 1 3 1] = [] := by
    decide
  refine (failed_import_uncaptured_iff exampleConfig halfSealed 1
    [exampleTx 2 4 1, exampleTx 1 3 1] ⟨some ⟨2, 8⟩, [2, 1], []⟩ ⟨2, 8⟩ rfl).mpr
    (fun _ _ => ⟨fun data hdata => ?_, Or.inl ?_⟩) (by decide)
  · rw [hnone] at hdata
    exact absurd hdata List.not_mem_nil
  · rw [hnone]
    rfl

/-- If transaction one comes first, the import fails all the same, and
    transaction one stays sealed for the rejected proposal. -/
theorem failed_import_counterexample :
    ¬ ((importDownloadedTxs exampleConfig halfSealed 1 [exampleTx 1 3 1, exampleTx 2 4 1]
        (some ⟨some ⟨2, 8⟩, [1, 2], []⟩)).2 = false →
      Uncaptured halfSealed (importDownloadedTxs exampleConfig halfSealed 1
        [exampleTx 1 3 1, exampleTx 2 4 1] (some ⟨some ⟨2, 8⟩, [1, 2], []⟩)).1) := by
  intro h
  exact absurd (h (by decide)).counter (by decide)

end TransactionSync

end BcosTxPool
