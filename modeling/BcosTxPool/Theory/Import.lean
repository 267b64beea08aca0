import Mathlib.Data.List.TakeWhile
import BcosTxPool.Theory.Seal

/-!
# Imports

What the two forms of an import do to the pool, and what a peer can do with
its answer.

An enforced import works through its list up to the first transaction it
rejects. Whether it rejects one was decided before it began: the ledger
checker stands still, and an entry that the import itself has sealed is not
one that another proposal holds. So what it accepts is the longest prefix of
acceptable transactions, and afterwards exactly the hashes of that prefix are
sealed for the proposal. `SealsFor` is the state this leaves behind; it
composes, which is what the loop and later the two stages of a request need.

A normal import only ever adds unsealed entries. `Grows` says so, and it says
what else a rejected transaction needs to stay rejected.

`verifyFetchedTxs` compares the hashes of an answer with those it asked for,
but only after the enforced import has run. An answer of the right length
therefore takes effect whatever it contains, and the comparison changes the
verdict alone. The sibling branch for an answer of the wrong length is
careful: it gives its verdict first, and imports without the proposal.

## Main definitions

* `SealedForOther`, `Acceptable`: What makes an enforced import stop.
* `SealsFor`: Hashes are sealed for a proposal, and nothing else changes.
* `Grows`: Only unsealed entries have been added.
* `Refused`: A normal submission of a content is rejected.
* `Answers`, `Delivered`: The transactions in a peer's answer.
* `Smuggled`: An entry was brought in sealed, or its seal was changed.

## Theorems

* `importLoop_enforced`: An enforced import seals the acceptable prefix.
* `importLoop_normal`: A normal import adds unsealed entries.
* `smuggled_subset_iff`: When an answer cannot smuggle anything in.
* `smuggled_counterexample`: An answer that does.
-/

namespace BcosTxPool

open Library TxPool

/-- The seal that a proposal with the header gives: the flag, the number and the
    hash. -/
def BlockHeader.seals (header : BlockHeader) : Bool × Int × HashType :=
  (true, header.number, header.hash)

namespace MemoryStorage

/-! ### One enforced submission -/

/-- An entry sealed under a non-zero hash for another proposal. The zero hash
    stands for a proposal whose hash is not known yet, and it holds nothing. -/
def SealedForOther (header : BlockHeader) (entry : Transaction) : Prop :=
  entry.sealed = true ∧ entry.batchHash ≠ 0 ∧
    ¬ (entry.batchId = header.number ∧ entry.batchHash = header.hash)

instance (header : BlockHeader) (entry : Transaction) : Decidable (SealedForOther header entry) :=
  inferInstanceAs (Decidable (_ ∧ _ ∧ _))

/-- A content that an enforced import for the proposal accepts: its nonce is
    not on chain and no other proposal holds the transaction. -/
def Acceptable (s : MemoryStorage) (header : BlockHeader) (data : TxData) : Prop :=
  ¬ data.nonce ∈ s.ledgerNonceChecker.nonceCache ∧
    ∀ entry ∈ s.txsTable.find? data.hash, ¬ SealedForOther header entry

instance (s : MemoryStorage) (header : BlockHeader) (data : TxData) :
    Decidable (s.Acceptable header data) :=
  inferInstanceAs (Decidable (_ ∧ _))

/-- An entry with the seal of the proposal is not one that another proposal
    holds. -/
theorem not_sealedForOther_of_seals {header : BlockHeader} {entry : Transaction}
    (h : sealState entry = header.seals) : ¬ SealedForOther header entry := by
  intro hheld
  rcases hheld with ⟨_, _, hother⟩
  exact hother ⟨congrArg (fun x => x.2.1) h, congrArg (fun x => x.2.2) h⟩

variable (cfg : TxPoolConfig)

/-- The hashes have become sealed for the proposal, where no other proposal held
    them, and nothing else in the table has changed. The relation composes, so a
    loop has it if each of its turns has. -/
structure SealsFor (header : BlockHeader) (hashes : HashList) (s s' : MemoryStorage) : Prop where
  free : ∀ txHash ∈ hashes, ∀ entry, s.txsTable.find? txHash = some entry →
    ¬ SealedForOther header entry
  holds : ∀ txHash ∈ hashes, ∃ entry, s'.txsTable.find? txHash = some entry ∧
    sealState entry = header.seals
  frame : ∀ txHash, ¬ txHash ∈ hashes → s'.txsTable.find? txHash = s.txsTable.find? txHash
  ledger : s'.ledgerNonceChecker = s.ledgerNonceChecker

/-- Without hashes nothing has to change. -/
theorem SealsFor.refl (header : BlockHeader) (s : MemoryStorage) : SealsFor header [] s s where
  free := fun _ h => absurd h List.not_mem_nil
  holds := fun _ h => absurd h List.not_mem_nil
  frame := fun _ _ => rfl
  ledger := rfl

/-- What is sealed for the proposal first stays so, and is free for it later. -/
theorem SealsFor.trans {header : BlockHeader} {hashes hashes' : HashList}
    {s s' s'' : MemoryStorage} (h : SealsFor header hashes s s')
    (h' : SealsFor header hashes' s' s'') : SealsFor header (hashes ++ hashes') s s'' where
  free := by
    intro txHash hmem entry hfind
    by_cases hfirst : txHash ∈ hashes
    · exact h.free txHash hfirst entry hfind
    · have hsecond := (List.mem_append.mp hmem).resolve_left hfirst
      exact h'.free txHash hsecond entry ((h.frame txHash hfirst).trans hfind)
  holds := by
    intro txHash hmem
    -- The later seal holds in any case; the earlier one where the later is silent.
    by_cases hsecond : txHash ∈ hashes'
    · exact h'.holds txHash hsecond
    · have hfirst := (List.mem_append.mp hmem).resolve_right hsecond
      rw [h'.frame txHash hsecond]
      exact h.holds txHash hfirst
  frame := by
    intro txHash hmem
    rw [List.mem_append, not_or] at hmem
    exact (h'.frame txHash hmem.2).trans (h.frame txHash hmem.1)
  ledger := h'.ledger.trans h.ledger

/-- Sealing for the proposal decides nothing about what it accepts. -/
theorem SealsFor.acceptable_iff {header : BlockHeader} {hashes : HashList}
    {s s' : MemoryStorage} (h : SealsFor header hashes s s') (data : TxData) :
    s'.Acceptable header data ↔ s.Acceptable header data := by
  unfold Acceptable
  rw [h.ledger]
  by_cases hmem : data.hash ∈ hashes
  · rcases h.holds data.hash hmem with ⟨entry, hfind, hseals⟩
    -- It is this proposal that holds the entry now, and none held it before.
    have hafter : ∀ e ∈ s'.txsTable.find? data.hash, ¬ SealedForOther header e := by
      intro e he
      rw [hfind, Option.mem_some_iff] at he
      exact he ▸ not_sealedForOther_of_seals hseals
    exact and_congr_right (fun _ => ⟨fun _ => h.free data.hash hmem, fun _ => hafter⟩)
  · -- The entry of another hash is as it was.
    rw [h.frame data.hash hmem]

/-- An entry that another proposal holds is the same afterwards. -/
theorem SealsFor.find?_of_sealedForOther {header : BlockHeader} {hashes : HashList}
    {s s' : MemoryStorage} (h : SealsFor header hashes s s') {txHash : HashType}
    {entry : Transaction} (hfind : s.txsTable.find? txHash = some entry)
    (hother : SealedForOther header entry) : s'.txsTable.find? txHash = some entry := by
  rw [h.frame txHash (fun hmem => h.free txHash hmem entry hfind hother), hfind]

/-- What was in the table is there afterwards, and so is what has been
    sealed. -/
theorem SealsFor.contains {header : BlockHeader} {hashes : HashList} {s s' : MemoryStorage}
    (h : SealsFor header hashes s s') {txHash : HashType}
    (hmem : txHash ∈ hashes ∨ s.txsTable.contains txHash = true) :
    s'.txsTable.contains txHash = true := by
  by_cases hhash : txHash ∈ hashes
  · rcases h.holds txHash hhash with ⟨entry, hfind, _⟩
    exact (s'.txsTable.contains_iff txHash).mpr ⟨entry, hfind⟩
  · rw [KeyedTable.contains, h.frame txHash hhash]
    exact hmem.resolve_left hhash

/-- A lookup after a pooled transaction has been sealed. -/
theorem find?_sealedFor (s : MemoryStorage) (tx entry : Transaction) (txHash : HashType) :
    (s.sealedFor tx entry).txsTable.find? txHash
      = if tx.hash = txHash then (s.txsTable.find? txHash).map (sealFor tx)
        else s.txsTable.find? txHash :=
  s.txsTable.find?_modify tx.hash (sealFor tx) (sealFor_hash tx) txHash

/-- A lookup after one has been inserted sealed. The report behind the insertion
    does not change the table. -/
theorem find?_insertedSealed (s : MemoryStorage) (tx : Transaction)
    (hfind : s.txsTable.find? tx.hash = none) (txHash : HashType) :
    (s.insertedSealed cfg tx).txsTable.find? txHash
      = if tx.hash = txHash then some { tx with sealed := true }
        else s.txsTable.find? txHash := by
  have htable : (s.insertedSealed cfg tx).txsTable
      = s.txsTable.insert { tx with sealed := true } := by
    simp only [insertedSealed, inserted, eraseMissed, notifyUnsealedTxsSize_txsTable]
  rw [htable]
  exact s.txsTable.find?_insert { tx with sealed := true } txHash hfind

/-- Neither does the ledger checker change. -/
theorem insertedSealed_ledgerNonceChecker (s : MemoryStorage) (tx : Transaction) :
    (s.insertedSealed cfg tx).ledgerNonceChecker = s.ledgerNonceChecker := by
  simp only [insertedSealed, inserted, eraseMissed, notifyUnsealedTxsSize_ledgerNonceChecker]

/-- An object stamped with the header of a proposal. The stamp is written before
    any submission, on every transaction of the list. -/
def StampedFor (header : BlockHeader) (tx : Transaction) : Prop :=
  tx.batchId = header.number ∧ tx.batchHash = header.hash

/-- An enforced submission accepts what is acceptable. Acceptable is said of a
    content and a header, and the submission reads both off its object. -/
theorem enforceSubmitTransaction_snd_eq_none_iff (s : MemoryStorage) {header : BlockHeader}
    {tx : Transaction} (htx : StampedFor header tx) :
    (s.enforceSubmitTransaction cfg tx).2 = .none ↔ s.Acceptable header tx.toTxData := by
  have hother : ∀ entry, SealedElsewhere tx entry ↔ SealedForOther header entry := by
    intro entry
    rw [SealedElsewhere, SealedForOther, htx.1, htx.2]
  have hrejected := s.enforceSubmitTransaction_snd_ne_none_iff cfg tx
  rw [← not_iff_not]
  refine hrejected.trans ?_
  simp only [Acceptable, not_and_or, not_not, not_forall, Option.mem_def, hother, exists_prop]

/-- What an accepted enforced submission leaves behind. -/
theorem enforceSubmitTransaction_sealsFor (s : MemoryStorage) {header : BlockHeader}
    {tx : Transaction} (htx : StampedFor header tx)
    (haccepted : s.Acceptable header tx.toTxData) :
    SealsFor header [tx.hash] s (s.enforceSubmitTransaction cfg tx).1 := by
  have hfree : ∀ txHash ∈ [tx.hash], ∀ entry, s.txsTable.find? txHash = some entry →
      ¬ SealedForOther header entry := by
    intro txHash hmem entry hfind
    rw [List.mem_singleton.mp hmem] at hfind
    exact haccepted.2 entry hfind
  have hnone := (s.enforceSubmitTransaction_snd_eq_none_iff cfg htx).mpr haccepted
  rcases s.enforceSubmitTransaction_cases cfg tx with
    ⟨_, h⟩ | ⟨_, entry, _, _, h⟩ | ⟨_, entry, hfind, hhere, h⟩ | ⟨_, entry, hfind, _, h⟩ |
    ⟨_, hfind, h⟩
  · -- The first two cases are rejections.
    rw [h] at hnone
    exact absurd hnone (fun hc => by cases hc)
  · rw [h] at hnone
    exact absurd hnone (fun hc => by cases hc)
  · -- Sealed for this very proposal already.
    rw [h]
    refine ⟨hfree, fun txHash hmem => ⟨entry, ?_, ?_⟩, fun _ _ => rfl, rfl⟩
    · rw [List.mem_singleton.mp hmem, hfind]
    · rw [sealState, BlockHeader.seals, hhere.1, hhere.2.2.1, hhere.2.2.2, htx.1, htx.2]
  · rw [h]
    -- Pooled and free: the entry gets the seal.
    refine ⟨hfree, fun txHash hmem => ⟨sealFor tx entry, ?_, ?_⟩, fun txHash hmem => ?_, rfl⟩
    · rw [List.mem_singleton.mp hmem, find?_sealedFor, if_pos rfl, hfind, Option.map_some]
    · rw [sealState, BlockHeader.seals, sealFor, htx.1, htx.2]
    · rw [List.mem_singleton] at hmem
      rw [find?_sealedFor, if_neg (fun hc => hmem hc.symm)]
  · rw [h]
    -- Not pooled: the transaction comes in sealed.
    refine ⟨hfree, fun txHash hmem => ⟨{ tx with sealed := true }, ?_, ?_⟩,
      fun txHash hmem => ?_, s.insertedSealed_ledgerNonceChecker cfg tx⟩
    · rw [List.mem_singleton.mp hmem, s.find?_insertedSealed cfg tx hfind, if_pos rfl]
    · rw [sealState, BlockHeader.seals, htx.1, htx.2]
    · rw [List.mem_singleton] at hmem
      rw [s.find?_insertedSealed cfg tx hfind, if_neg (fun hc => hmem hc.symm)]

/-! ### Normal submissions -/

/-- Only unsealed entries have been added, and only what an insertion takes has
    been taken: room, and nonces of the pool. No check gets easier by that. -/
structure Grows (s s' : MemoryStorage) : Prop where
  keeps : ∀ txHash entry, s.txsTable.find? txHash = some entry →
    s'.txsTable.find? txHash = some entry
  fresh : ∀ txHash entry, s.txsTable.find? txHash = none →
    s'.txsTable.find? txHash = some entry → entry.sealed = false
  size : s.size ≤ s'.size
  nonces : ∀ nonce ∈ s.txPoolNonceChecker.nonceCache, nonce ∈ s'.txPoolNonceChecker.nonceCache
  ledger : s'.ledgerNonceChecker = s.ledgerNonceChecker

/-- A pool grows into itself. -/
theorem Grows.refl (s : MemoryStorage) : Grows s s where
  keeps := fun _ _ h => h
  fresh := fun _ entry hnone hsome => by
    rw [hnone] at hsome
    exact absurd hsome (Option.some_ne_none entry).symm
  size := le_refl _
  nonces := fun _ h => h
  ledger := rfl

/-- And growing composes, so a normal import grows if its submissions do. -/
theorem Grows.trans {s s' s'' : MemoryStorage} (h : Grows s s') (h' : Grows s' s'') :
    Grows s s'' where
  keeps := fun txHash entry hfind => h'.keeps txHash entry (h.keeps txHash entry hfind)
  fresh := by
    intro txHash entry hnone hsome
    -- An entry that is new at the end came in the first part or in the second.
    cases hmid : s'.txsTable.find? txHash with
    | none => exact h'.fresh txHash entry hmid hsome
    | some e =>
        rw [h'.keeps txHash e hmid, Option.some.injEq] at hsome
        exact hsome ▸ h.fresh txHash e hnone hmid
  size := h.size.trans h'.size
  nonces := fun nonce hmem => h'.nonces nonce (h.nonces nonce hmem)
  ledger := h'.ledger.trans h.ledger

/-- Nothing leaves while a table grows. -/
theorem Grows.contains {s s' : MemoryStorage} (h : Grows s s') {txHash : HashType}
    (hmem : s.txsTable.contains txHash = true) : s'.txsTable.contains txHash = true := by
  rcases (s.txsTable.contains_iff txHash).mp hmem with ⟨entry, hfind⟩
  exact (s'.txsTable.contains_iff txHash).mpr ⟨entry, h.keeps txHash entry hfind⟩

/-- A normal submission of a fresh object with the content is rejected. -/
def Refused (s : MemoryStorage) (data : TxData) : Prop :=
  (s.verifyAndSubmitTransaction cfg (createTransaction data) none).2 ≠ .none

/-- What is refused stays refused while the table grows. Room gets less, hashes
    and nonces stay taken, and the ledger checker stands still. -/
theorem Refused.grows {s s' : MemoryStorage} {data : TxData} (h : Refused cfg s data)
    (hgrows : Grows s s') : Refused cfg s' data := by
  intro haccepted
  rw [verifyAndSubmitTransaction_snd_eq_none_iff] at haccepted
  refine h ((s.verifyAndSubmitTransaction_snd_eq_none_iff cfg _ none).mpr ⟨?_, ?_, ?_⟩)
  · exact lt_of_le_of_lt hgrows.size haccepted.room
  · cases hs : s.txsTable.find? data.hash with
    | none => exact hs
    | some entry =>
        have hkept := hgrows.keeps data.hash entry hs
        exact absurd (hkept.symm.trans haccepted.free) (Option.some_ne_none entry)
  · have hchecks := haccepted.accepted
    rw [hgrows.ledger] at hchecks
    exact hchecks.congr rfl rfl hgrows.nonces

/-- A normal submission of an unsealed object grows the table, rejected or
    not. -/
theorem verifyAndSubmitTransaction_grows (s : MemoryStorage) {tx : Transaction}
    (htx : tx.sealed = false) (txSubmitCallback : Option TxSubmitCallback) :
    Grows s (s.verifyAndSubmitTransaction cfg tx txSubmitCallback).1 := by
  rcases s.verifyAndSubmitTransaction_cases cfg tx txSubmitCallback with
    ⟨_, _, h⟩ | ⟨⟨_, hfind, _⟩, h⟩
  · rw [h]
    exact Grows.refl s
  · have hmarked : (TxValidator.marked cfg.framework (withCallback tx txSubmitCallback)).hash
        = tx.hash := by
      rw [TxValidator.marked_toTxData, withCallback_toTxData]
    -- Accepted, it has inserted the marked object, whose hash is the one submitted.
    have htable : (s.verifyAndSubmitTransaction cfg tx txSubmitCallback).1.txsTable
        = s.txsTable.insert (TxValidator.marked cfg.framework
            (withCallback tx txSubmitCallback)) := by
      rw [h]
      simp only [inserted, eraseMissed, notifyUnsealedTxsSize_txsTable]
    have hfree : s.txsTable.find? (TxValidator.marked cfg.framework
        (withCallback tx txSubmitCallback)).hash = none := by
      rw [hmarked]
      exact hfind
    have hlookup := fun txHash => s.txsTable.find?_insert _ txHash hfree
    -- The hash was free, so every other lookup is what it was.
    refine ⟨fun txHash entry hentry => ?_, fun txHash entry hnone hsome => ?_, ?_,
      fun nonce hmem => ?_, ?_⟩
    · rw [htable, hlookup txHash, if_neg ?_]
      · exact hentry
      · rw [hmarked]
        rintro rfl
        rw [hfind] at hentry
        exact absurd hentry (Option.some_ne_none entry).symm
    · rw [htable, hlookup txHash] at hsome
      by_cases heq : (TxValidator.marked cfg.framework
          (withCallback tx txSubmitCallback)).hash = txHash
      · rw [if_pos heq, Option.some.injEq] at hsome
        rw [← hsome, TxValidator.marked_sealed, withCallback_sealed]
        exact htx
      · rw [if_neg heq, hnone] at hsome
        exact absurd hsome (Option.some_ne_none entry).symm
    · rw [size, size, htable, s.txsTable.size_insert _ hfree]
      omega
    · rw [h]
      simp only [inserted, eraseMissed, notifyUnsealedTxsSize_txPoolNonceChecker]
      exact (s.txPoolNonceChecker.mem_insert tx.nonce nonce).mpr (Or.inr hmem)
    · rw [h]
      simp only [inserted, eraseMissed, notifyUnsealedTxsSize_ledgerNonceChecker]

/-- What the pool holds is refused. -/
theorem refused_of_contains {s : MemoryStorage} {data : TxData}
    (h : s.txsTable.contains data.hash = true) : Refused cfg s data := by
  intro haccepted
  rw [verifyAndSubmitTransaction_snd_eq_none_iff] at haccepted
  rw [(s.txsTable.contains_eq_false_iff data.hash).mpr haccepted.free] at h
  exact absurd h Bool.false_ne_true

/-- What was submitted is refused afterwards: for the reason it was rejected
    for, or because the pool holds it. -/
theorem verifyAndSubmitTransaction_refused (s : MemoryStorage) {tx : Transaction}
    (hvalid : tx.invalid = false) :
    Refused cfg (s.verifyAndSubmitTransaction cfg tx none).1 tx.toTxData := by
  rcases s.verifyAndSubmitTransaction_cases cfg tx none with ⟨hno, _, h⟩ | ⟨⟨_, hfind, _⟩, h⟩
  · rw [h]
    intro haccepted
    rw [verifyAndSubmitTransaction_snd_eq_none_iff] at haccepted
    -- The rejection changed nothing, and a fresh object would be rejected too.
    exact hno ⟨haccepted.room, haccepted.free,
      haccepted.accepted.congr rfl hvalid (fun _ hmem => hmem)⟩
  · have hhash : (TxValidator.marked cfg.framework tx).hash = tx.hash :=
      congrArg TxData.hash (TxValidator.marked_toTxData cfg.framework tx)
    refine refused_of_contains cfg ((KeyedTable.contains_iff _ _).mpr
      ⟨TxValidator.marked cfg.framework tx, ?_⟩)
    rw [h]
    simp only [withCallback, inserted, eraseMissed, notifyUnsealedTxsSize_txsTable]
    rw [s.txsTable.find?_insert _ _ (by rw [hhash]; exact hfind), if_pos hhash]

end MemoryStorage

namespace TransactionSync

open MemoryStorage

variable (cfg : TxPoolConfig)

/-! ### The two loops -/

/-- One turn of the loop of an enforced import. -/
theorem importLoop_enforced_cons (s : MemoryStorage) {tx : Transaction}
    (hvalid : tx.invalid = false) (txs : List Transaction) :
    importLoop cfg true (tx :: txs) s
      = if (s.enforceSubmitTransaction cfg tx).2 ≠ .none then
          ((s.enforceSubmitTransaction cfg tx).1, false)
        else importLoop cfg true txs (s.enforceSubmitTransaction cfg tx).1 := by
  rw [importLoop, hvalid, if_neg Bool.false_ne_true]
  rfl

/-- The loop of an enforced import over transactions stamped for the proposal:
    it succeeds when all are acceptable, and it seals those before the first
    that is not. -/
theorem importLoop_enforced {header : BlockHeader} (txs : List Transaction)
    (htxs : ∀ tx ∈ txs, tx.invalid = false ∧ StampedFor header tx) :
    ∀ s : MemoryStorage,
      (importLoop cfg true txs s).2 = txs.all (fun tx => s.Acceptable header tx.toTxData) ∧
      SealsFor header
        ((txs.takeWhile (fun tx => s.Acceptable header tx.toTxData)).map (fun tx => tx.hash))
        s (importLoop cfg true txs s).1 := by
  -- The induction is on the transactions that are left, for all pools that may meet
  -- them.
  induction txs with
  | nil => exact fun s => ⟨rfl, SealsFor.refl header s⟩
  | cons tx txs ih =>
      intro s
      have ih := ih (fun t ht => htxs t (List.mem_cons_of_mem tx ht))
      rcases htxs tx List.mem_cons_self with ⟨hvalid, hstamped⟩
      have hnone := s.enforceSubmitTransaction_snd_eq_none_iff cfg hstamped
      rw [importLoop_enforced_cons cfg s hvalid, List.all_cons, List.takeWhile_cons]
      by_cases haccepted : s.Acceptable header tx.toTxData
      · have hseals := s.enforceSubmitTransaction_sealsFor cfg hstamped haccepted
        rcases ih (s.enforceSubmitTransaction cfg tx).1 with ⟨hverdict, hrest⟩
        -- The rest is acceptable to the new state just as it was to the old one.
        simp only [hseals.acceptable_iff] at hverdict hrest
        rw [if_neg (not_not.mpr (hnone.mpr haccepted)), decide_eq_true haccepted, Bool.true_and,
          if_pos rfl, List.map_cons]
        exact ⟨hverdict, hseals.trans hrest⟩
      · have hrejected : (s.enforceSubmitTransaction cfg tx).2 ≠ .none :=
          fun h => haccepted (hnone.mp h)
        -- The loop stops here, with the state it had.
        rw [if_pos hrejected, decide_eq_false haccepted, Bool.false_and,
          if_neg Bool.false_ne_true, s.enforceSubmitTransaction_rejected cfg tx hrejected]
        exact ⟨rfl, SealsFor.refl header s⟩

/-- The loop of a normal import never stops. It grows the table, and whatever
    it submitted is refused at its end. -/
theorem importLoop_normal (txs : List Transaction) (htxs : ∀ tx ∈ txs, tx.sealed = false) :
    ∀ s : MemoryStorage,
      (importLoop cfg false txs s).2 = true ∧ Grows s (importLoop cfg false txs s).1 ∧
      ∀ tx ∈ txs, tx.invalid = false → Refused cfg (importLoop cfg false txs s).1 tx.toTxData := by
  induction txs with
  | nil => exact fun s => ⟨rfl, Grows.refl s, fun _ h => absurd h List.not_mem_nil⟩
  | cons tx txs ih =>
      intro s
      have ih := ih (fun t ht => htxs t (List.mem_cons_of_mem tx ht))
      by_cases hinv : tx.invalid = true
      · have hskip : importLoop cfg false (tx :: txs) s = importLoop cfg false txs s := by
          rw [importLoop, if_pos hinv]
        rw [hskip]
        -- An invalid transaction is passed over, and nothing is said of it.
        rcases ih s with ⟨hret, hgrows, hrefused⟩
        refine ⟨hret, hgrows, fun t ht hvalid => ?_⟩
        rcases List.mem_cons.mp ht with rfl | ht
        · exact absurd (hinv.symm.trans hvalid) (by decide)
        · exact hrefused t ht hvalid
      · have hnext : importLoop cfg false (tx :: txs) s
            = importLoop cfg false txs (s.verifyAndSubmitTransaction cfg tx none).1 := by
          rw [importLoop, if_neg hinv]
          simp only [submitTransaction, Bool.not_false, if_true, Bool.false_eq_true, if_false,
            ite_self]
        rw [hnext]
        -- A rejected submission does not stop a normal import.
        have hsubmit := s.verifyAndSubmitTransaction_grows cfg (htxs tx List.mem_cons_self) none
        rcases ih (s.verifyAndSubmitTransaction cfg tx none).1 with ⟨hret, hgrows, hrefused⟩
        refine ⟨hret, hsubmit.trans hgrows, fun t ht hvalid => ?_⟩
        rcases List.mem_cons.mp ht with rfl | ht
        · exact (s.verifyAndSubmitTransaction_refused cfg hvalid).grows cfg hgrows
        · exact hrefused t ht hvalid

/-! ### Imports -/

/-- Every transaction of the list is pooled or has a good signature. -/
def Verified (s : MemoryStorage) (txs : List TxData) : Prop :=
  ∀ tx ∈ txs, s.exist tx.hash = true ∨ cfg.framework.verify tx = true

/-- The verification succeeds for a list exactly if each transaction is pooled
    or has a good signature. The signature of a pooled one is not looked at. -/
theorem verifySuccess_iff (s : MemoryStorage) (fromNode : NodeID) (header : Option BlockHeader)
    (txs : List TxData) :
    (txs.map (verifyDownloaded cfg s fromNode header)).all (fun v => v.2) = true ↔
      Verified cfg s txs := by
  simp only [List.all_map, List.all_eq_true, Function.comp_apply,
    (verifyDownloaded_verdict cfg s fromNode header _).1, Bool.or_eq_true, Verified]

/-- The object made of a pooled or well signed transaction is valid and
    stamped. -/
theorem verifyDownloaded_stamped (s : MemoryStorage) (fromNode : NodeID) (header : BlockHeader)
    {data : TxData} (hdata : s.exist data.hash = true ∨ cfg.framework.verify data = true) :
    (verifyDownloaded cfg s fromNode (some header) data).1.invalid = false ∧
      StampedFor header (verifyDownloaded cfg s fromNode (some header) data).1 := by
  refine ⟨?_, verifyDownloaded_batch cfg s fromNode header data⟩
  rw [(verifyDownloaded_verdict cfg s fromNode (some header) data).2, Bool.not_eq_false',
    Bool.or_eq_true]
  exact hdata

/-- An import for a proposal with a header is its loop, when the signatures are
    good. -/
theorem importDownloadedTxs_eq_importLoop (s : MemoryStorage) (fromNode : NodeID)
    (txs : List TxData) {verifiedProposal : Option Block} {header : BlockHeader}
    (hheader : proposalHeader verifiedProposal = some header) (hverified : Verified cfg s txs) :
    importDownloadedTxs cfg s fromNode txs verifiedProposal
      = importLoop cfg true
          (txs.map (fun data => (verifyDownloaded cfg s fromNode (some header) data).1)) s := by
  unfold importDownloadedTxs
  -- An empty list returns before the loop, which would have done nothing.
  by_cases hempty : txs.length = 0
  · rw [if_pos hempty, List.length_eq_zero_iff.mp hempty]
    rfl
  · have hsuccess := (verifySuccess_iff cfg s fromNode (some header) txs).mpr hverified
    rw [if_neg hempty]
    simp only [hheader, Option.isSome_some, hsuccess, Bool.not_true, Bool.and_false,
      Bool.false_eq_true, if_false, List.map_map, Function.comp_def]

/-- An import for a proposal with a header, when the signatures are good. -/
theorem importDownloadedTxs_enforced (s : MemoryStorage) (fromNode : NodeID) (txs : List TxData)
    {verifiedProposal : Option Block} {header : BlockHeader}
    (hheader : proposalHeader verifiedProposal = some header) (hverified : Verified cfg s txs) :
    (importDownloadedTxs cfg s fromNode txs verifiedProposal).2
        = txs.all (fun tx => s.Acceptable header tx) ∧
      SealsFor header
        ((txs.takeWhile (fun tx => s.Acceptable header tx)).map (fun tx => tx.hash))
        s (importDownloadedTxs cfg s fromNode txs verifiedProposal).1 := by
  have hstamped : ∀ tx ∈ txs.map (fun data =>
      (verifyDownloaded cfg s fromNode (some header) data).1),
      tx.invalid = false ∧ StampedFor header tx := by
    intro tx htx
    rcases List.mem_map.mp htx with ⟨data, hdata, rfl⟩
    exact verifyDownloaded_stamped cfg s fromNode header (hverified data hdata)
  -- Making the objects leaves the contents alone, so the loop is over `txs`.
  have hloop := importLoop_enforced cfg _ hstamped s
  simp only [List.all_map, List.takeWhile_map, List.map_map, Function.comp_def,
    verifyDownloaded_toTxData] at hloop
  rw [importDownloadedTxs_eq_importLoop cfg s fromNode txs hheader hverified]
  exact hloop

/-- An import for a proposal with a header does nothing when a signature is
    bad. -/
theorem importDownloadedTxs_unverified (s : MemoryStorage) (fromNode : NodeID)
    (txs : List TxData) {verifiedProposal : Option Block} {header : BlockHeader}
    (hheader : proposalHeader verifiedProposal = some header) (hbad : ¬ Verified cfg s txs) :
    importDownloadedTxs cfg s fromNode txs verifiedProposal = (s, false) := by
  have hempty : ¬ txs.length = 0 := by
    intro hlen
    rw [List.length_eq_zero_iff.mp hlen] at hbad
    exact hbad (fun _ h => absurd h List.not_mem_nil)
  have hfail : (txs.map (verifyDownloaded cfg s fromNode (some header))).all (fun v => v.2)
      = false := by
    rw [← Bool.not_eq_true, verifySuccess_iff]
    exact hbad
  unfold importDownloadedTxs
  rw [if_neg hempty]
  simp only [hheader, Option.isSome_some, hfail, Bool.not_false, Bool.and_true, if_true]

/-- An import for a proposal with a header seals some of the hashes it was
    given, and all of them when it succeeds. -/
theorem importDownloadedTxs_sealsFor (s : MemoryStorage) (fromNode : NodeID)
    (txs : List TxData) {verifiedProposal : Option Block} {header : BlockHeader}
    (hheader : proposalHeader verifiedProposal = some header) :
    ∃ hashes, SealsFor header hashes s
        (importDownloadedTxs cfg s fromNode txs verifiedProposal).1 ∧
      ((importDownloadedTxs cfg s fromNode txs verifiedProposal).2 = true →
        hashes = txs.map (fun tx => tx.hash)) := by
  by_cases hverified : Verified cfg s txs
  · rcases importDownloadedTxs_enforced cfg s fromNode txs hheader hverified with
      ⟨hverdict, hseals⟩
    refine ⟨_, hseals, fun hsuccess => ?_⟩
    rw [hverdict, List.all_eq_true] at hsuccess
    rw [List.takeWhile_eq_self_iff.mpr hsuccess]
  · -- A bad signature is found before anything is sealed.
    rw [importDownloadedTxs_unverified cfg s fromNode txs hheader hverified]
    exact ⟨[], SealsFor.refl header s, fun h => absurd h Bool.false_ne_true⟩

/-- Without a proposal there is no header. -/
theorem proposalHeader_none : proposalHeader none = none := rfl

/-- A normal import succeeds and grows the table, and whatever it was given is
    refused at its end. -/
theorem importDownloadedTxs_normal (s : MemoryStorage) (fromNode : NodeID) (txs : List TxData)
    {verifiedProposal : Option Block} (hheader : proposalHeader verifiedProposal = none) :
    (importDownloadedTxs cfg s fromNode txs verifiedProposal).2 = true ∧
      Grows s (importDownloadedTxs cfg s fromNode txs verifiedProposal).1 ∧
      ∀ tx ∈ txs, Refused cfg (importDownloadedTxs cfg s fromNode txs verifiedProposal).1 tx := by
  unfold importDownloadedTxs
  by_cases hempty : txs.length = 0
  · rw [if_pos hempty, List.length_eq_zero_iff.mp hempty]
    exact ⟨rfl, Grows.refl s, fun _ h => absurd h List.not_mem_nil⟩
  · rw [if_neg hempty]
    simp only [hheader, Option.isSome_none, Bool.false_and, Bool.false_eq_true, if_false,
      List.map_map, Function.comp_def]
    rcases importLoop_normal cfg
      (txs.map (fun data => (verifyDownloaded cfg s fromNode none data).1)) (fun tx htx => by
        rcases List.mem_map.mp htx with ⟨data, _, rfl⟩
        exact verifyDownloaded_sealed cfg s fromNode none data) s with ⟨hret, hgrows, hrefused⟩
    refine ⟨hret, hgrows, fun data hdata => ?_⟩
    have hverdict := (verifyDownloaded_verdict cfg s fromNode none data).2
    -- A good signature has made a valid object, which the loop has submitted.
    by_cases hgood : (s.exist data.hash || cfg.framework.verify data) = true
    · rw [hgood] at hverdict
      have hdone := hrefused _ (List.mem_map_of_mem hdata) hverdict
      rw [verifyDownloaded_toTxData] at hdone
      exact hdone
    · -- A bad signature is refused wherever it is submitted.
      intro haccepted
      rw [verifyAndSubmitTransaction_snd_eq_none_iff] at haccepted
      have hsignature : cfg.framework.verify data = true := haccepted.accepted.signature
      rw [hsignature, Bool.or_true] at hgood
      exact hgood rfl

/-! ### A peer's answer -/

/-- The transactions in a peer's answer, if it is one: no error, a message that
    decodes and is a response, and a block in it that decodes. -/
def Answers (response : FrontResponse) (txs : List TxData) : Prop :=
  response.error = none ∧ ∃ txsResponse transactions,
    cfg.framework.createTxsSyncMsg response.data = some txsResponse ∧
    txsResponse.type = .txsResponsePacket ∧
    cfg.framework.createBlock txsResponse.txsData = some transactions ∧
    transactions.transactions = txs

/-- The verdict on an answer of the right length, once it has been imported. -/
def answered (missedTxs : HashList) (txs : List TxData) (imported : MemoryStorage × Bool) :
    VerifyResponse :=
  if !imported.2 then
    ⟨some ⟨.txsSignatureVerifyFailed,
      "invalid transaction for invalid signature or nonce or blockLimit"⟩, false, imported.1⟩
  else if missedTxs ≠ txs.map (fun tx => tx.hash) then
    ⟨some ⟨.inconsistentTransactions, "InconsistentTransactions"⟩, false, imported.1⟩
  else ⟨none, true, imported.1⟩

/-- What becomes of an answer. One of the wrong length is told first and
    imported without the proposal, and one of the right length is imported for
    it. -/
theorem verifyFetchedTxs_of_answers (s : MemoryStorage) {response : FrontResponse}
    {txs : List TxData} (h : Answers cfg response txs) (missedTxs : HashList)
    (verifiedProposal : Option Block) :
    verifyFetchedTxs cfg s response missedTxs verifiedProposal =
      if missedTxs.length ≠ txs.length then
        some ((importDownloadedTxs cfg s response.nodeID txs none).1,
          [⟨some ⟨.transactionsMissing, "TransactionsMissing"⟩, false, s⟩])
      else
        some ((importDownloadedTxs cfg s response.nodeID txs verifiedProposal).1,
          [answered missedTxs txs
            (importDownloadedTxs cfg s response.nodeID txs verifiedProposal)]) := by
  rcases h with ⟨herror, txsResponse, transactions, hmsg, htype, hblock, rfl⟩
  unfold verifyFetchedTxs answered
  rw [herror]
  simp only [hmsg, hblock, htype, ne_eq, not_true_eq_false, if_false]
  split
  · rfl
  · split
    · rfl
    · split
      · rfl
      · rfl

/-- What is not an answer changes nothing and is no success. -/
theorem verifyFetchedTxs_of_not_answers (s : MemoryStorage) {response : FrontResponse}
    (h : ∀ txs, ¬ Answers cfg response txs) (missedTxs : HashList)
    (verifiedProposal : Option Block) :
    verifyFetchedTxs cfg s response missedTxs verifiedProposal = none ∨
      ∃ error, verifyFetchedTxs cfg s response missedTxs verifiedProposal
        = some (s, [⟨some error, false, s⟩]) := by
  unfold verifyFetchedTxs
  cases herror : response.error with
  | some error => exact Or.inr ⟨error, rfl⟩
  | none =>
      simp only
      cases hmsg : cfg.framework.createTxsSyncMsg response.data with
      | none => exact Or.inl rfl
      | some txsResponse =>
          simp only
          -- A message of another type is told as an error, and a decoder that fails
          -- throws.
          by_cases htype : txsResponse.type ≠ .txsResponsePacket
          · rw [if_pos htype]
            exact Or.inr ⟨_, rfl⟩
          · rw [if_neg htype]
            cases hblock : cfg.framework.createBlock txsResponse.txsData with
            | none => exact Or.inl rfl
            | some transactions =>
                exact absurd ⟨herror, txsResponse, transactions, hmsg, not_not.mp htype, hblock,
                  rfl⟩ (h transactions.transactions)

/-- The pool after an answer; an exception leaves it alone. -/
def afterAnswer (s : MemoryStorage) (result : Option (MemoryStorage × List VerifyResponse)) :
    MemoryStorage :=
  match result with
  | none => s
  | some (s', _) => s'

/-- The entry came into the table sealed, or its seal was changed. -/
def Smuggled (s s' : MemoryStorage) (txHash : HashType) : Prop :=
  (s.txsTable.find? txHash = none ∧
    ∃ entry, s'.txsTable.find? txHash = some entry ∧ entry.sealed = true) ∨
  ∃ entry entry', s.txsTable.find? txHash = some entry ∧
    s'.txsTable.find? txHash = some entry' ∧ sealState entry' ≠ sealState entry

/-- What an enforced import smuggles in: all it seals, except what had the seal
    of the proposal before. -/
theorem smuggled_iff_of_sealsFor {header : BlockHeader} {hashes : HashList}
    {s s' : MemoryStorage} (h : SealsFor header hashes s s') (txHash : HashType) :
    Smuggled s s' txHash ↔ txHash ∈ hashes ∧
      ¬ ∃ entry, s.txsTable.find? txHash = some entry ∧ sealState entry = header.seals := by
  -- A hash that was given holds the seal now; whether that is news depends on
  -- what was there. Any other hash is as it was.
  by_cases hmem : txHash ∈ hashes
  · rcases h.holds txHash hmem with ⟨after, hafter, hseals⟩
    have hsealed : after.sealed = true := congrArg (fun x => x.1) hseals
    cases hfind : s.txsTable.find? txHash with
    | none =>
        refine iff_of_true (Or.inl ⟨hfind, after, hafter, hsealed⟩) ⟨hmem, ?_⟩
        intro hbefore
        rcases hbefore with ⟨entry, hentry, _⟩
        exact Option.some_ne_none entry hentry.symm
    | some entry =>
        constructor
        · intro hsmuggled
          rcases hsmuggled with ⟨hnone, _⟩ | ⟨old, new, hold, hnew, hne⟩
          · exact absurd (hfind.symm.trans hnone) (Option.some_ne_none entry)
          · rw [hfind, Option.some.injEq] at hold
            rw [hafter, Option.some.injEq] at hnew
            subst hold hnew
            refine ⟨hmem, ?_⟩
            intro hbefore
            rcases hbefore with ⟨e, he, heq⟩
            rw [Option.some.injEq] at he
            exact hne (hseals.trans (he ▸ heq).symm)
        · intro hgiven
          rcases hgiven with ⟨_, hother⟩
          refine Or.inr ⟨entry, after, hfind, hafter, fun heq => ?_⟩
          exact hother ⟨entry, rfl, heq.symm.trans hseals⟩
  · -- What the import did not seal is as it was.
    refine iff_of_false ?_ (fun hc => hmem hc.1)
    have hsame := h.frame txHash hmem
    intro hsmuggled
    rcases hsmuggled with ⟨hnone, entry, hentry, _⟩ | ⟨old, new, hold, hnew, hne⟩
    · rw [hsame, hnone] at hentry
      exact Option.some_ne_none entry hentry.symm
    · rw [hsame, hold, Option.some.injEq] at hnew
      exact hne (congrArg sealState hnew.symm)

/-- A normal import smuggles nothing in: what it adds is unsealed, and it writes
    no seal. -/
theorem not_smuggled_of_grows {s s' : MemoryStorage} (h : Grows s s') (txHash : HashType) :
    ¬ Smuggled s s' txHash := by
  intro hsmuggled
  rcases hsmuggled with ⟨hnone, entry, hentry, hsealed⟩ | ⟨old, new, hold, hnew, hne⟩
  · exact absurd (hsealed.symm.trans (h.fresh txHash entry hnone hentry)) (by decide)
  · rw [h.keeps txHash old hold, Option.some.injEq] at hnew
    exact hne (congrArg sealState hnew.symm)

/-- When an answer cannot smuggle anything in. The enforced import takes hold
    of an answer with the right number of transactions whose signatures are
    good, up to the first it rejects; every transaction so far must have been
    asked for, unless it had the seal of the proposal already. -/
theorem smuggled_subset_iff (cfg : TxPoolConfig) (s : MemoryStorage) (response : FrontResponse)
    (missedTxs : HashList) (block : Block) (header : BlockHeader)
    (hheader : block.blockHeader = some header) :
    (∀ txHash, Smuggled s
        (afterAnswer s (verifyFetchedTxs cfg s response missedTxs (some block))) txHash →
      txHash ∈ missedTxs) ↔
    ∀ txs, Answers cfg response txs → txs.length = missedTxs.length → Verified cfg s txs →
      ∀ tx ∈ txs.takeWhile (fun tx => s.Acceptable header tx),
        tx.hash ∈ missedTxs ∨
          ∃ entry, s.txsTable.find? tx.hash = some entry ∧ sealState entry = header.seals := by
  have hproposal : proposalHeader (some block) = some header := hheader
  constructor
  · intro hclean txs hanswers hlen hverified tx htx
    -- A transaction of the prefix is sealed now. If it was not before, it is
    -- smuggled, and so it was asked for.
    by_contra hcontra
    rw [not_or] at hcontra
    have hseals := (importDownloadedTxs_enforced cfg s response.nodeID txs hproposal hverified).2
    refine hcontra.1 (hclean tx.hash ?_)
    rw [verifyFetchedTxs_of_answers cfg s hanswers, if_neg (fun hne => hne hlen.symm)]
    exact (smuggled_iff_of_sealsFor hseals tx.hash).mpr
      ⟨List.mem_map_of_mem htx, hcontra.2⟩
  · intro hcond txHash hsmuggled
    by_cases hanswers : ∃ txs, Answers cfg response txs
    · rcases hanswers with ⟨txs, hanswers⟩
      rw [verifyFetchedTxs_of_answers cfg s hanswers] at hsmuggled
      by_cases hlen : missedTxs.length ≠ txs.length
      · rw [if_pos hlen] at hsmuggled
        -- The branch for the wrong size imports without the proposal.
        have hnormal : proposalHeader none = none := rfl
        have hgrows := (importDownloadedTxs_normal cfg s response.nodeID txs hnormal).2.1
        exact absurd hsmuggled (not_smuggled_of_grows hgrows txHash)
      · rw [if_neg hlen] at hsmuggled
        by_cases hverified : Verified cfg s txs
        · have hseals := (importDownloadedTxs_enforced cfg s response.nodeID txs hproposal
            hverified).2
          rcases (smuggled_iff_of_sealsFor hseals txHash).mp hsmuggled with ⟨hmem, hother⟩
          rcases List.mem_map.mp hmem with ⟨tx, htx, rfl⟩
          exact (hcond txs hanswers (not_not.mp hlen).symm hverified tx htx).resolve_right hother
        · rw [importDownloadedTxs_unverified cfg s response.nodeID txs hproposal hverified]
            at hsmuggled
          exact absurd hsmuggled (not_smuggled_of_grows (Grows.refl s) txHash)
    · have hno : ∀ txs, ¬ Answers cfg response txs := fun txs h => hanswers ⟨txs, h⟩
      rcases verifyFetchedTxs_of_not_answers cfg s hno missedTxs (some block) with
        h | ⟨error, h⟩
      · rw [h] at hsmuggled
        exact absurd hsmuggled (not_smuggled_of_grows (Grows.refl s) txHash)
      · rw [h] at hsmuggled
        exact absurd hsmuggled (not_smuggled_of_grows (Grows.refl s) txHash)

/-- The answer that was asked for brings in nothing else. -/
theorem smuggled_subset_iff_honest :
    ¬ Smuggled examplePool (afterAnswer examplePool
      (verifyFetchedTxs clearConfig examplePool ⟨none, 1, [5]⟩ [5] (some (exampleBlock [0, 5]))))
      1 := by
  intro hsmuggled
  refine absurd ((smuggled_subset_iff clearConfig examplePool ⟨none, 1, [5]⟩ [5]
    (exampleBlock [0, 5]) ⟨1, 9⟩ (by decide)).mpr ?_ 1 hsmuggled) (by decide)
  rintro txs ⟨_, txsResponse, transactions, hmsg, _, hblock, rfl⟩ _ _ tx htx
  rw [← Option.some.inj hmsg] at hblock
  rw [← Option.some.inj hblock] at htx
  have hmem : tx ∈ [exampleTx 5 7 1] := List.takeWhile_subset _ htx
  rw [List.mem_singleton.mp hmem]
  exact Or.inl (by decide)

/-- Asked for transaction five, a peer sends a valid transaction one, and it
    enters the pool sealed for the proposal. -/
theorem smuggled_counterexample :
    ¬ ∀ txHash, Smuggled examplePool (afterAnswer examplePool
      (verifyFetchedTxs clearConfig examplePool ⟨none, 1, [1]⟩ [5] (some (exampleBlock [0, 5]))))
      txHash → txHash ∈ ([5] : HashList) := by
  intro h
  exact absurd (h 1 (Or.inl ⟨by decide,
    { toTxData := exampleTx 1 7 1
      sealed := true
      batchId := 1
      batchHash := 9
      knownNodes := {1} }, by decide, rfl⟩)) (by decide)

end TransactionSync

end BcosTxPool
