import BcosTxPool.Core.Concurrency
import BcosTxPool.Library.History
import BcosTxPool.Theory.BlockResult
import BcosTxPool.Theory.Frames
import BcosTxPool.Theory.NonceWindow

/-!
# While a Block Is Committed

`batchRemove` works in three sections, and submissions run between them. A
committed transaction should not come back. The table rejects it before the
first section and the ledger cache after the second. Between the two there is
the txpool cache, which only a normal submission consults, and which holds the
nonce only if the transaction came in by a normal submission.

So an enforced submission of the transaction passes between the first two
sections, and it is pooled again after it was committed. A normal one passes
there if the transaction had been imported by an enforced one. And the second
section itself may take the nonce out of the ledger cache again, when the block
that leaves the window has the same nonce. Then the third section gives the nonce
free, and nothing is left that knows the transaction.

What stands against a submission can be told before the commit begins. Submissions
put entries in and take none out, they reserve nonces and release none, and they
leave the ledger cache alone. So other submissions can only add to what rejects the
transaction, and what the sections themselves do follows from the results and from
the checkers as they were. `Barred` says it in these terms, for either route and for
each place between the sections.

## Main definitions

* `Gap`, `Schedule`: The places after the sections, and the submissions that run there.
* `stateAt`: The pool when submissions have run up to a place.
* `NoGap`: No submission of the transaction passes.
* `Evicts`, `OnChain`, `ReservedAt`, `remainingSize`: What is left to know the transaction by
  after each section, told from before.
* `Checked`: The checks that do not depend on what else is pooled.
* `Barred`: What bars a submission at a place.
* `Keeps`, `Meets`: What a pool has of it at least, and exactly.

## Theorems

* `size_le_submit`, `reserved_submit`: What no submission undoes.
* `rejected_iff`: What rejects a transaction that is not pooled.
* `Keeps.throughout`: Submissions that are barred are rejected, whatever else runs.
* `Meets.all_barred`: Rejected submissions of the transaction alone were all barred.
* `no_gap_iff`: When no submission passes.
-/

namespace BcosTxPool

open Library

namespace LedgerNonceChecker

/-- Recording the block takes the nonce out of the cache, or keeps it from
    staying there: the block that leaves the window carries it. Where the window
    has no room at all, the block that leaves is the new one, unless its number
    was known before. The nonce is one of the new block. -/
def Evicts (c : LedgerNonceChecker) (batchId : Int) (nonce : NonceType) : Prop :=
  c.blockLimit < batchId ∧
    ((c.blockLimit = 0 ∧ ¬ batchId ∈ c.blockNonceCache) ∨
      ∃ nonceList, c.blockNonceCache.lookup (batchId - c.blockLimit) = some nonceList ∧
        nonce ∈ nonceList)

/-- The list that is evicted is looked up in the map with the new block already
    in it. This matters only where the new block is the one that leaves. -/
theorem mem_expired_iff (c : LedgerNonceChecker) (batchId : Int) {nonceList : NonceList}
    {nonce : NonceType} (hnonce : nonce ∈ nonceList) :
    nonce ∈ (c.expired batchId nonceList).getD [] ↔ c.Evicts batchId nonce := by
  have hexpired : nonce ∈ (c.expired batchId nonceList).getD [] ↔
      ∃ l, c.expired batchId nonceList = some l ∧ nonce ∈ l := by
    cases c.expired batchId nonceList with
    | none =>
        refine iff_of_false List.not_mem_nil ?_
        rintro ⟨l, h, _⟩
        cases h
    | some l =>
        refine ⟨fun h => ⟨l, rfl, h⟩, ?_⟩
        rintro ⟨l', h, hmem⟩
        exact Option.some.inj h ▸ hmem
  -- What is evicted is a list that was found in the map, and the nonce is in it.
  rw [hexpired]
  simp only [expired_eq_some_iff, and_assoc, exists_and_left]
  refine and_congr_right (fun _ => ?_)
  unfold recorded
  by_cases hknown : batchId ∈ c.blockNonceCache
  · rw [if_pos hknown]
    exact ⟨Or.inr, fun h => h.resolve_left (fun hnew => hnew.2 hknown)⟩
  · rw [if_neg hknown]
    by_cases hzero : c.blockLimit = 0
    · -- The new block leaves at once, and the nonce with it.
      rw [hzero, Int.sub_zero, AList.lookup_insert]
      exact iff_of_true ⟨nonceList, rfl, hnonce⟩ (Or.inl ⟨rfl, hknown⟩)
    · rw [AList.lookup_insert_ne (by omega)]
      exact ⟨Or.inr, fun h => h.resolve_left (fun hnew => hzero hnew.1)⟩

end LedgerNonceChecker

/-- A place where submissions can run: after the transactions have left the
    table, after their nonces have entered the ledger cache, and after they have
    left the txpool cache. Only the last lies behind the whole of
    `batchRemove`. -/
inductive Gap where
  | table
  | ledger
  | txPool
deriving DecidableEq

/-- The submissions that run at each place, in their order. They are of any
    transactions and on either route. -/
abbrev Schedule := Gap → List Submission

namespace MemoryStorage

variable (cfg : TxPoolConfig)

/-! ### The sections and what runs between them -/

section Sections

variable (s : MemoryStorage) (batchId : Int) (txsResult : List TransactionSubmitResult)

/-- The pool when submissions have run after the first section, which has taken
    the transactions out of the table. -/
def tableState (l : List Submission) : MemoryStorage :=
  run (submit cfg) (s.removeSection cfg batchId txsResult).1 l

/-- The pool when submissions have run after the second section. It has recorded
    the nonces that the first one collected. -/
def ledgerState (afterTable l : List Submission) : MemoryStorage :=
  run (submit cfg) ((s.tableState cfg batchId txsResult afterTable).ledgerSection batchId
    (s.removeSection cfg batchId txsResult).2) l

/-- The pool when submissions have run after the third section, which gives the
    same nonces free. -/
def txPoolState (afterTable afterLedger l : List Submission) : MemoryStorage :=
  run (submit cfg) ((s.ledgerState cfg batchId txsResult afterTable afterLedger).txPoolSection
    (s.removeSection cfg batchId txsResult).2) l

/-- The pool at a place, when the submissions of the places before have run, and
    these of the place itself. -/
def stateAt (schedule : Schedule) : Gap → List Submission → MemoryStorage
  | .table, l => s.tableState cfg batchId txsResult l
  | .ledger, l => s.ledgerState cfg batchId txsResult (schedule .table) l
  | .txPool, l => s.txPoolState cfg batchId txsResult (schedule .table) (schedule .ledger) l

/-- A submission is of another transaction, or it is rejected. Any status but
    `None` is a rejection. -/
def Rejected (txHash : HashType) (s : MemoryStorage) (b : Submission) : Prop :=
  b.tx.hash = txHash → s.submitStatus cfg b ≠ .none

/-- No submission of the transaction passes after the first section, each taken
    in the pool that it meets. -/
def NoGap (txHash : HashType) (schedule : Schedule) : Prop :=
  ∀ gap, Throughout (fun pre => Rejected cfg txHash (s.stateAt cfg batchId txsResult schedule
    gap pre)) (schedule gap)

end Sections

/-! ### What is known before -/

section Before

variable (s : MemoryStorage) (batchId : Int) (txsResult : List TransactionSubmitResult)
  (tx : Transaction)

/-- The ledger cache holds the nonce. Before the second section it is the cache
    from before the block. Afterwards the block has brought the nonce, unless it
    was evicted at once. -/
def OnChain : Gap → Prop
  | .table => tx.nonce ∈ s.ledgerNonceChecker.nonceCache
  | .ledger => ¬ s.ledgerNonceChecker.Evicts batchId tx.nonce
  | .txPool => ¬ s.ledgerNonceChecker.Evicts batchId tx.nonce

/-- The txpool cache holds the nonce: it did before, and the third section has
    not yet released it. An enforced submission reserves none. -/
def ReservedAt : Gap → Prop
  | .table => tx.nonce ∈ s.txPoolNonceChecker.nonceCache
  | .ledger => tx.nonce ∈ s.txPoolNonceChecker.nonceCache
  | .txPool => False

/-- The height that the block limit is checked against. It follows the blocks
    that are recorded and never falls. -/
def heightAt : Gap → Int
  | .table => s.ledgerNonceChecker.blockNumber
  | .ledger => max s.ledgerNonceChecker.blockNumber batchId
  | .txPool => max s.ledgerNonceChecker.blockNumber batchId

/-- How many entries the results do not name. So many are in the table when the
    commit has taken its own out, and no submission takes more. -/
def remainingSize : Nat :=
  s.txsTable.countWithout (txsResult.map (fun r => r.txHash))

/-- A submission is of a transaction: it has its hash, and so the nonce that the
    hash covers. The route, the callback, the signature and the flags of the
    object are its own. -/
structure IsOf (tx : Transaction) (b : Submission) : Prop where
  hash : b.tx.hash = tx.hash
  nonce : b.tx.nonce = tx.nonce

/-- What a normal submission is asked besides its nonce, at a height. An
    enforced one is asked none of it. -/
structure Checked (height blockLimit : Int) (b : Submission) : Prop where
  valid : b.tx.invalid = false
  group : b.tx.groupId = cfg.groupId
  chain : b.tx.chainId = cfg.chainId
  signature : cfg.framework.verify b.tx.toTxData = true
  open' : height < b.tx.blockLimit ∧ b.tx.blockLimit ≤ height + blockLimit

/-- What bars a submission of a transaction that the block commits, told from
    the pool before the commit, from the results and from the submission. On
    either route it is the nonce on chain. On the normal route it may also be a
    pool that is full of transactions not named, the nonce in the txpool cache,
    or a check that the transaction fails. -/
def Barred (gap : Gap) (b : Submission) : Prop :=
  s.OnChain batchId tx gap ∨
    (b.enforceImport = false ∧
      (cfg.poolLimit ≤ s.remainingSize txsResult ∨ s.ReservedAt tx gap ∨
        ¬ Checked cfg (s.heightAt batchId gap) s.ledgerNonceChecker.blockLimit b))

end Before

/-! ### What a submission does and does not -/

/-- No submission takes an entry out of the pool. So a pool that was full when
    the section ended is full for all that follow. -/
theorem size_le_submit (s : MemoryStorage) (b : Submission) : s.size ≤ (s.submit cfg b).size := by
  rcases b with ⟨tx, txSubmitCallback, enforceImport⟩
  cases enforceImport with
  | false =>
      have hsubmit : s.submit cfg ⟨tx, txSubmitCallback, false⟩
          = (s.verifyAndSubmitTransaction cfg tx txSubmitCallback).1 := rfl
      rw [hsubmit]
      rcases s.verifyAndSubmitTransaction_cases cfg tx txSubmitCallback with
        ⟨_, _, hsame⟩ | ⟨hyes, heq⟩
      · rw [hsame]
      · -- What goes in is the transaction with a mark and a callback, under the
        -- same hash.
        have hfree : s.txsTable.find?
            (TxValidator.marked cfg.framework (withCallback tx txSubmitCallback)).hash = none := by
          rw [TxValidator.marked_toTxData, withCallback_toTxData]
          exact hyes.free
        have hsize := size_inserted cfg
          { s with txPoolNonceChecker := s.txPoolNonceChecker.insert tx.nonce } hfree
        rw [heq]
        exact (Nat.le_succ _).trans (Nat.le_of_eq hsize.symm)
  | true =>
      have hsubmit : s.submit cfg ⟨tx, txSubmitCallback, true⟩
          = (s.enforceSubmitTransaction cfg tx).1 := rfl
      rw [hsubmit]
      -- Only in the last case does an entry come in, and in the fourth a flag is
      -- set.
      rcases s.enforceSubmitTransaction_cases cfg tx with
        ⟨_, he⟩ | ⟨_, _, _, _, he⟩ | ⟨_, _, _, _, he⟩ | ⟨_, entry, _, _, he⟩ | ⟨_, hfree, he⟩
      · rw [he]
      · rw [he]
      · rw [he]
      · rw [he]
        exact Nat.le_of_eq (s.txsTable.size_modify tx.hash (sealFor tx) (sealFor_hash tx)).symm
      · -- The object is sealed before it goes in, which leaves its hash as it is.
        have hfreeSealed : s.txsTable.find? ({ tx with sealed := true } : Transaction).hash
            = none := hfree
        have hsize := size_inserted cfg
          { s with sealedTxsSize := if tx.sealed then s.sealedTxsSize else s.sealedTxsSize + 1 }
          hfreeSealed
        rw [he]
        exact (Nat.le_succ _).trans (Nat.le_of_eq hsize.symm)

/-- No submission releases a nonce. A normal one that passes reserves its
    own. -/
theorem reserved_submit {s : MemoryStorage} (b : Submission) {nonce : NonceType}
    (h : nonce ∈ s.txPoolNonceChecker.nonceCache) :
    nonce ∈ (s.submit cfg b).txPoolNonceChecker.nonceCache := by
  unfold submit
  by_cases hadmits : Admits cfg s b.tx b.enforceImport
  · rw [(s.submitTransaction_of_admits cfg b.tx b.txSubmitCallback hadmits).2.txPool]
    exact Or.inr h
  · rw [(s.submitTransaction_of_not_admits cfg (fun tx => tx.toTxData) b.tx (fun _ => rfl)
      b.txSubmitCallback hadmits).1.txPool]
    exact h

/-- A submission leaves a hash out if it is of another transaction or rejected.
    The ledger checker it only reads. -/
theorem submit_free {cfg : TxPoolConfig} {txHash : HashType} {s : MemoryStorage} {b : Submission}
    (hfree : s.txsTable.find? txHash = none) (h : Rejected cfg txHash s b) :
    (s.submit cfg b).txsTable.find? txHash = none ∧
      (s.submit cfg b).ledgerNonceChecker = s.ledgerNonceChecker := by
  unfold submit
  by_cases hadmits : Admits cfg s b.tx b.enforceImport
  · rcases s.submitTransaction_of_admits cfg b.tx b.txSubmitCallback hadmits with ⟨hnone, hin⟩
    refine ⟨?_, hin.ledger⟩
    -- What comes in was not rejected, so it has another hash.
    rw [hin.find, if_neg (fun hhash => h hhash hnone)]
    exact hfree
  · have hsame := (s.submitTransaction_of_not_admits cfg (fun tx => tx.toTxData) b.tx
      (fun _ => rfl) b.txSubmitCallback hadmits).1
    exact ⟨(hsame.find?_eq_none_iff txHash).mpr hfree, hsame.ledger⟩

/-- A transaction that is not pooled is rejected exactly if it does not come in,
    and then nothing has changed. -/
theorem submit_of_free {s : MemoryStorage} {b : Submission}
    (hfree : s.txsTable.find? b.tx.hash = none) :
    (s.submitStatus cfg b ≠ .none ↔ ¬ Admits cfg s b.tx b.enforceImport) ∧
      (s.submitStatus cfg b ≠ .none → s.submit cfg b = s) := by
  by_cases hadmits : Admits cfg s b.tx b.enforceImport
  · have hnone : s.submitStatus cfg b = .none :=
      (s.submitTransaction_of_admits cfg b.tx b.txSubmitCallback hadmits).1
    exact ⟨iff_of_false (not_not.mpr hnone) (not_not.mpr hadmits), fun h => absurd hnone h⟩
  · rcases b with ⟨tx, txSubmitCallback, enforceImport⟩
    cases enforceImport with
    | false =>
        have hrejected := s.submitTransaction_rejected cfg tx txSubmitCallback hadmits
        exact ⟨iff_of_true hrejected.1 hadmits, fun _ => hrejected.2⟩
    | true =>
        -- With no entry to find sealed, only the nonce can make it fail.
        have hnonce : tx.nonce ∈ s.ledgerNonceChecker.nonceCache :=
          not_not.mp (fun h => hadmits ⟨h, hfree⟩)
        refine ⟨iff_of_true ((s.enforceSubmitTransaction_snd_ne_none_iff cfg tx).mpr
          (Or.inl hnonce)) hadmits, fun _ => ?_⟩
        rcases s.enforceSubmitTransaction_of_not_admits cfg tx hadmits with
          hsame | ⟨hfresh, _⟩
        · exact hsame
        · exact absurd hnonce hfresh

/-- What rejects a transaction that is not pooled, in the pool that it meets:
    the nonce on chain, and on the normal route also the limit, the nonce in the
    pool and the checks. -/
theorem rejected_iff {s : MemoryStorage} {b : Submission}
    (hfree : s.txsTable.find? b.tx.hash = none) :
    s.submitStatus cfg b ≠ .none ↔
      b.tx.nonce ∈ s.ledgerNonceChecker.nonceCache ∨
        (b.enforceImport = false ∧
          (cfg.poolLimit ≤ s.size ∨ b.tx.nonce ∈ s.txPoolNonceChecker.nonceCache ∨
            ¬ Checked cfg s.ledgerNonceChecker.blockNumber s.ledgerNonceChecker.blockLimit b)) := by
  rw [(submit_of_free cfg hfree).1]
  cases hroute : b.enforceImport with
  | true =>
      rw [Admits, and_iff_left hfree, not_not]
      exact ⟨Or.inl, fun h => h.resolve_right (fun hnormal => Bool.false_ne_true hnormal.1.symm)⟩
  | false =>
      rw [← not_iff_not, not_not]
      -- To come in is to fail none of them.
      simp only [true_and, not_or, not_not, Nat.not_le]
      constructor
      · intro h
        have honChain := (TxValidator.submittedToChain_eq_none_iff _ _).mp h.accepted.onChain
        exact ⟨honChain.1, h.room, h.accepted.nonce, h.accepted.valid, h.accepted.group,
          h.accepted.chain, h.accepted.signature, honChain.2⟩
      · rintro ⟨hfresh, hroom, hnonce, hchecked⟩
        exact ⟨hroom, hfree, hchecked.valid, hchecked.group, hchecked.chain,
          (TxValidator.submittedToChain_eq_none_iff _ _).mpr ⟨hfresh, hchecked.open'⟩,
          hchecked.signature, hnonce⟩

/-! ### The first section -/

/-- The first section touches the table, the counter, the height, the receipts
    and the reports. -/
theorem removeSection_eq (s : MemoryStorage) (batchId : Int)
    (txsResult : List TransactionSubmitResult) :
    ∃ n height receipts reports, (s.removeSection cfg batchId txsResult).1 = { s with
      txsTable := (txsResult.map (fun r => r.txHash)).foldl KeyedTable.erase s.txsTable
      sealedTxsSize := n
      blockNumber := height
      receipts := receipts
      reports := reports } := by
  rcases s.batchRemoveTxs_eq batchId txsResult with ⟨n, height, rs, htxs⟩
  rcases notifyUnsealedTxsSize_eq cfg (s.batchRemoveTxs batchId txsResult).1 with ⟨m, rs', h, _⟩
  unfold removeSection
  simp only [h]
  rw [htxs]
  exact ⟨m, height, rs, rs', rfl⟩

section Committed

variable (s : MemoryStorage) (batchId : Int) (txsResult : List TransactionSubmitResult)

/-- The ledger checker at a place: as it was, or with the block recorded. -/
def ledgerAt : Gap → LedgerNonceChecker
  | .table => s.ledgerNonceChecker
  | .ledger => s.ledgerNonceChecker.batchInsert batchId (s.blockNonces txsResult)
  | .txPool => s.ledgerNonceChecker.batchInsert batchId (s.blockNonces txsResult)

/-- What a pool has at a place at least of what stands against the transaction.
    This is what survives the submissions of others. -/
structure Keeps (tx : Transaction) (gap : Gap) (t : MemoryStorage) : Prop where
  free : t.txsTable.find? tx.hash = none
  ledger : t.ledgerNonceChecker = s.ledgerAt batchId txsResult gap
  room : s.remainingSize txsResult ≤ t.size
  reserved : s.ReservedAt tx gap → tx.nonce ∈ t.txPoolNonceChecker.nonceCache

/-- A pool has no more than that. So it is where nothing but rejected
    submissions of the transaction itself has run. -/
structure Meets (tx : Transaction) (gap : Gap) (t : MemoryStorage) : Prop extends
    Keeps s batchId txsResult tx gap t where
  noRoom : t.size ≤ s.remainingSize txsResult
  notReserved : tx.nonce ∈ t.txPoolNonceChecker.nonceCache → s.ReservedAt tx gap

variable {s batchId txsResult} {tx : Transaction} {gap : Gap} {t : MemoryStorage}

/-- The cache with the block recorded, told from before the block. -/
theorem onChain_iff (hpooled : s.txsTable.find? tx.hash = some tx)
    (hnamed : ∃ r ∈ txsResult, r.txHash = tx.hash) :
    tx.nonce ∈ (s.ledgerAt batchId txsResult gap).nonceCache ↔ s.OnChain batchId tx gap := by
  -- The block takes the nonce from the pooled entry, not from the result.
  have hnonce : tx.nonce ∈ s.blockNonces txsResult :=
    nonce_mem_of_pooled txsResult tx.hash tx.nonce hnamed (s, []) ⟨tx, hpooled, rfl⟩
  have hrecorded : tx.nonce ∈ (s.ledgerNonceChecker.batchInsert batchId
      (s.blockNonces txsResult)).nonceCache ↔ ¬ s.ledgerNonceChecker.Evicts batchId tx.nonce := by
    rw [LedgerNonceChecker.mem_batchInsert_iff, and_iff_right (Or.inr hnonce),
      LedgerNonceChecker.mem_expired_iff _ _ hnonce]
  cases gap with
  | table => exact Iff.rfl
  | ledger => exact hrecorded
  | txPool => exact hrecorded

/-- Recording a block raises the height and leaves the limit. -/
theorem ledgerAt_height :
    (s.ledgerAt batchId txsResult gap).blockNumber = s.heightAt batchId gap ∧
      (s.ledgerAt batchId txsResult gap).blockLimit = s.ledgerNonceChecker.blockLimit := by
  have hrecorded : (s.ledgerNonceChecker.batchInsert batchId
      (s.blockNonces txsResult)).blockNumber = max s.ledgerNonceChecker.blockNumber batchId := by
    rw [LedgerNonceChecker.batchInsert_eq]
    simp only
    split
    · omega
    · omega
  have hlimit : (s.ledgerNonceChecker.batchInsert batchId
      (s.blockNonces txsResult)).blockLimit = s.ledgerNonceChecker.blockLimit := by
    rw [LedgerNonceChecker.batchInsert_eq]
  cases gap with
  | table => exact ⟨rfl, rfl⟩
  | ledger => exact ⟨hrecorded, hlimit⟩
  | txPool => exact ⟨hrecorded, hlimit⟩

/-- A submission that is barred is rejected by any pool that keeps what bars
    it. -/
theorem Barred.rejected {cfg : TxPoolConfig} {b : Submission}
    (h : Barred cfg s batchId txsResult tx gap b)
    (hpooled : s.txsTable.find? tx.hash = some tx)
    (hnamed : ∃ r ∈ txsResult, r.txHash = tx.hash) (hsame : IsOf tx b)
    (ht : Keeps s batchId txsResult tx gap t) : t.submitStatus cfg b ≠ .none := by
  have hhash := hsame.hash
  rw [rejected_iff cfg (hhash ▸ ht.free), hsame.nonce, ht.ledger, onChain_iff hpooled hnamed,
    ledgerAt_height.1, ledgerAt_height.2]
  refine h.imp_right (fun hnormal => ⟨hnormal.1, ?_⟩)
  rcases hnormal.2 with hfull | hreserved | hchecked
  · exact Or.inl (hfull.trans ht.room)
  · exact Or.inr (Or.inl (ht.reserved hreserved))
  · exact Or.inr (Or.inr hchecked)

/-- Where a pool has no more than that, nothing else rejects the submission. -/
theorem Meets.barred {cfg : TxPoolConfig} {b : Submission} (ht : Meets s batchId txsResult tx gap t)
    (hpooled : s.txsTable.find? tx.hash = some tx)
    (hnamed : ∃ r ∈ txsResult, r.txHash = tx.hash) (hsame : IsOf tx b)
    (h : t.submitStatus cfg b ≠ .none) : Barred cfg s batchId txsResult tx gap b := by
  have hhash := hsame.hash
  rw [rejected_iff cfg (hhash ▸ ht.free), hsame.nonce, ht.ledger, onChain_iff hpooled hnamed,
    ledgerAt_height.1, ledgerAt_height.2] at h
  refine h.imp_right (fun hnormal => ⟨hnormal.1, ?_⟩)
  rcases hnormal.2 with hfull | hreserved | hchecked
  · exact Or.inl (hfull.trans ht.noRoom)
  · exact Or.inr (Or.inl (ht.notReserved hreserved))
  · exact Or.inr (Or.inr hchecked)

/-! ### From place to place -/

/-- The first section leaves a pool that meets the description of the first
    place. -/
theorem meets_removeSection (hnamed : ∃ r ∈ txsResult, r.txHash = tx.hash) :
    Meets s batchId txsResult tx .table (s.removeSection cfg batchId txsResult).1 := by
  rcases s.removeSection_eq cfg batchId txsResult with ⟨n, height, rs, rs', h⟩
  have hsize : (s.removeSection cfg batchId txsResult).1.size = s.remainingSize txsResult := by
    rw [h]
    exact KeyedTable.size_foldl_erase _ _
  -- The hash is gone, the size is what remains, and both caches are as they were.
  refine ⟨⟨?_, ?_, Nat.le_of_eq hsize.symm, ?_⟩, Nat.le_of_eq hsize, ?_⟩
  · rw [h, KeyedTable.find?_foldl_erase, if_pos]
    rcases hnamed with ⟨r, hr, hname⟩
    exact List.mem_map.mpr ⟨r, hr, hname⟩
  · rw [h]
    rfl
  · rw [h]
    exact id
  · rw [h]
    exact id

/-- The second section records the block. It touches neither the table nor the
    txpool cache. -/
theorem Keeps.ledgerSection (ht : Keeps s batchId txsResult tx .table t) :
    Keeps s batchId txsResult tx .ledger (t.ledgerSection batchId
      (s.removeSection cfg batchId txsResult).2) where
  free := ht.free
  ledger := by
    have hledger : t.ledgerNonceChecker = s.ledgerNonceChecker := ht.ledger
    rw [MemoryStorage.ledgerSection, hledger]
    rfl
  room := ht.room
  reserved := ht.reserved

/-- Where there was no more than that, there is no more after the section. -/
theorem Meets.ledgerSection (ht : Meets s batchId txsResult tx .table t) :
    Meets s batchId txsResult tx .ledger (t.ledgerSection batchId
      (s.removeSection cfg batchId txsResult).2) where
  toKeeps := ht.toKeeps.ledgerSection cfg
  noRoom := ht.noRoom
  notReserved := ht.notReserved

/-- The third section gives the nonce free, so the txpool cache bars nothing any
    more. -/
theorem Keeps.txPoolSection (ht : Keeps s batchId txsResult tx .ledger t) :
    Keeps s batchId txsResult tx .txPool (t.txPoolSection
      (s.removeSection cfg batchId txsResult).2) where
  free := ht.free
  ledger := ht.ledger
  room := ht.room
  reserved := False.elim

/-- Nor does the cache hold the nonce by chance: the section has taken out every
    nonce of the block. -/
theorem Meets.txPoolSection (ht : Meets s batchId txsResult tx .ledger t)
    (hpooled : s.txsTable.find? tx.hash = some tx)
    (hnamed : ∃ r ∈ txsResult, r.txHash = tx.hash) :
    Meets s batchId txsResult tx .txPool (t.txPoolSection
      (s.removeSection cfg batchId txsResult).2) where
  toKeeps := ht.toKeeps.txPoolSection cfg
  noRoom := ht.noRoom
  notReserved := by
    intro hnonce
    rw [MemoryStorage.txPoolSection, TxPoolNonceChecker.mem_batchRemove] at hnonce
    -- The nonce is one of the block, so the section has taken it out.
    exact hnonce.2 (nonce_mem_of_pooled txsResult tx.hash tx.nonce hnamed (s, [])
      ⟨tx, hpooled, rfl⟩)

variable {cfg}

/-- Other submissions leave what bars the transaction, and its own do while they
    are rejected. -/
theorem Keeps.step {b : Submission} (ht : Keeps s batchId txsResult tx gap t)
    (h : Rejected cfg tx.hash t b) : Keeps s batchId txsResult tx gap (t.submit cfg b) where
  free := (submit_free ht.free h).1
  ledger := (submit_free ht.free h).2.trans ht.ledger
  room := ht.room.trans (t.size_le_submit cfg b)
  reserved := fun hreserved => reserved_submit cfg b (ht.reserved hreserved)

/-- What bars the transaction is left by any run in which its own submissions
    are rejected. -/
theorem Keeps.of_run (ht : Keeps s batchId txsResult tx gap t) {l : List Submission}
    (h : Throughout (fun pre => Rejected cfg tx.hash (run (submit cfg) t pre)) l) :
    Keeps s batchId txsResult tx gap (run (submit cfg) t l) := by
  refine throughout_invariant _
    (fun l => Keeps s batchId txsResult tx gap (run (submit cfg) t l)) ht
    (fun l b hb ih => ?_) l h
  rw [run_concat]
  exact ih.step hb

/-- Where the submissions of the transaction are barred, they are all rejected,
    whatever others run among them. -/
theorem Keeps.throughout (ht : Keeps s batchId txsResult tx gap t)
    (hpooled : s.txsTable.find? tx.hash = some tx)
    (hnamed : ∃ r ∈ txsResult, r.txHash = tx.hash) {l : List Submission}
    (h : ∀ b ∈ l, b.tx.hash = tx.hash →
      IsOf tx b ∧ Barred cfg s batchId txsResult tx gap b) :
    Throughout (fun pre => Rejected cfg tx.hash (run (submit cfg) t pre)) l := by
  -- The induction is on the submissions from the last one, which meets the pool
  -- that those before it have left. These were rejected, so what bars the
  -- transaction is still there.
  induction l using List.reverseRecOn with
  | nil => exact throughout_nil _
  | append_singleton l b ih =>
      have hbefore := ih (fun b' hb' => h b' (List.mem_append_left _ hb'))
      refine (throughout_concat _ l b).mpr ⟨hbefore, fun hhash => ?_⟩
      rcases h b (List.mem_append_right l (List.mem_singleton.mpr rfl)) hhash with
        ⟨hsame, hbarred⟩
      exact hbarred.rejected hpooled hnamed hsame (ht.of_run hbefore)

/-- Submissions of the transaction alone, all of them rejected, change nothing.
    So each met the pool that the section left, and was barred by what is in
    there. -/
theorem Meets.all_barred (ht : Meets s batchId txsResult tx gap t)
    (hpooled : s.txsTable.find? tx.hash = some tx)
    (hnamed : ∃ r ∈ txsResult, r.txHash = tx.hash) {l : List Submission}
    (hsame : ∀ b ∈ l, IsOf tx b)
    (h : Throughout (fun pre => Rejected cfg tx.hash (run (submit cfg) t pre)) l) :
    run (submit cfg) t l = t ∧ ∀ b ∈ l, Barred cfg s batchId txsResult tx gap b := by
  -- Those before the last one have changed nothing, so the last one too meets the
  -- pool of the start.
  induction l using List.reverseRecOn with
  | nil => exact ⟨rfl, fun b hb => absurd hb List.not_mem_nil⟩
  | append_singleton l b ih =>
      rcases (throughout_concat _ l b).mp h with ⟨hbefore, hlast⟩
      rcases ih (fun b' hb' => hsame b' (List.mem_append_left _ hb')) hbefore with ⟨hrun, hall⟩
      have hb := hsame b (List.mem_append_right l (List.mem_singleton.mpr rfl))
      have hhash := hb.hash
      have hrejected := hlast hhash
      rw [hrun] at hrejected
      refine ⟨?_, fun b' hb' => ?_⟩
      · rw [run_concat, hrun]
        exact (submit_of_free cfg (hhash ▸ ht.free)).2 hrejected
      · rcases List.mem_append.mp hb' with hb' | hb'
        · exact hall b' hb'
        · rw [List.mem_singleton.mp hb']
          exact ht.barred hpooled hnamed hb hrejected

end Committed

/-- The submissions of a transaction, which carry that they are of it. -/
abbrev SubmissionOf (tx : Transaction) := { b : Submission // IsOf tx b }

/-- The schedule in which submissions of the transaction run and no others. -/
def alone {tx : Transaction} (again : Gap → List (SubmissionOf tx)) : Schedule :=
  fun gap => (again gap).map (fun b => b.1)

/-- What runs in such a schedule is of the transaction. -/
theorem isOf_of_mem_alone {tx : Transaction} {again : Gap → List (SubmissionOf tx)}
    (gap : Gap) {b : Submission} (hb : b ∈ alone again gap) : IsOf tx b := by
  rcases List.mem_map.mp hb with ⟨b', _, rfl⟩
  exact b'.2

/-- A pooled transaction is committed, and submissions run after each section of
    `batchRemove`: some are of this transaction, and any others may run among
    them. None of this transaction passes, whatever the others are, exactly if
    each of them is barred by what is known before the commit. -/
theorem no_gap_iff (cfg : TxPoolConfig) (s : MemoryStorage) (batchId : Int)
    (txsResult : List TransactionSubmitResult) (tx : Transaction)
    (hpooled : s.txsTable.find? tx.hash = some tx)
    (hnamed : ∃ r ∈ txsResult, r.txHash = tx.hash) (again : Gap → List (SubmissionOf tx)) :
    (∀ schedule : Schedule,
        (∀ gap, (schedule gap).filter (fun b => decide (b.tx.hash = tx.hash))
          = alone again gap) →
        NoGap cfg s batchId txsResult tx.hash schedule) ↔
      ∀ gap, ∀ b ∈ again gap, Barred cfg s batchId txsResult tx gap b.1 := by
  have hstart : Meets s batchId txsResult tx .table (s.removeSection cfg batchId txsResult).1 :=
    meets_removeSection cfg hnamed
  constructor
  · -- The schedule with no other submission tells what bars each.
    intro h
    have hsame : ∀ gap, ∀ b ∈ alone again gap, IsOf tx b := fun gap b hb => isOf_of_mem_alone gap hb
    have hno := h (alone again) (fun gap => List.filter_eq_self.mpr (fun b hb =>
      decide_eq_true (hsame gap b hb).hash))
    rcases hstart.all_barred hpooled hnamed (hsame .table) (hno .table) with ⟨htable, hfirst⟩
    have hledger := hstart.ledgerSection cfg
    have hnoLedger := hno .ledger
    simp only [stateAt, ledgerState, tableState, htable] at hnoLedger
    rcases hledger.all_barred hpooled hnamed (hsame .ledger) hnoLedger with ⟨hrun, hsecond⟩
    have hnoTxPool := hno .txPool
    simp only [stateAt, txPoolState, ledgerState, tableState, htable, hrun] at hnoTxPool
    have hthird := ((hledger.txPoolSection cfg hpooled hnamed).all_barred hpooled hnamed
      (hsame .txPool) hnoTxPool).2
    intro gap b hb
    have hmem : b.1 ∈ alone again gap := List.mem_map_of_mem hb
    cases gap with
    | table => exact hfirst b.1 hmem
    | ledger => exact hsecond b.1 hmem
    | txPool => exact hthird b.1 hmem
  · -- Whatever else runs, each place hands on what bars the transaction.
    intro h schedule hschedule
    have hbarred : ∀ gap, ∀ b ∈ schedule gap, b.tx.hash = tx.hash →
        IsOf tx b ∧ Barred cfg s batchId txsResult tx gap b := by
      intro gap b hb hhash
      have hmem : b ∈ alone again gap := by
        rw [← hschedule gap]
        exact List.mem_filter.mpr ⟨hb, decide_eq_true hhash⟩
      rcases List.mem_map.mp hmem with ⟨b', hb', rfl⟩
      exact ⟨b'.2, h gap b' hb'⟩
    -- What bars the transaction at one place is kept until the next section.
    have hfirst := hstart.toKeeps.throughout hpooled hnamed (hbarred .table)
    have hledger := (hstart.toKeeps.of_run hfirst).ledgerSection cfg
    have hsecond := hledger.throughout hpooled hnamed (hbarred .ledger)
    have htxPool := (hledger.of_run hsecond).txPoolSection cfg
    have hthird := htxPool.throughout hpooled hnamed (hbarred .txPool)
    intro gap
    cases gap with
    | table => exact hfirst
    | ledger => exact hsecond
    | txPool => exact hthird

/-- The transaction with hash 1 as a client sends it, and as a proposal brings
    it in. -/
def exampleSubmit (enforceImport : Bool) : Submission :=
  ⟨createTransaction (TxPool.exampleTx 1 7 1), none, enforceImport⟩

/-- A pool with the transaction, which a client has sent. -/
def exampleCommit : MemoryStorage :=
  TxPool.examplePool.submit TxPool.exampleConfig (exampleSubmit false)

/-- A client sends the transaction again after the first section and a proposal
    brings it after the second. A proposal for another transaction comes in
    among them. -/
def exampleSchedule : Schedule
  | .table => [⟨createTransaction (TxPool.exampleTx 2 8 1), none, true⟩, exampleSubmit false]
  | .ledger => [exampleSubmit true]
  | .txPool => []

/-- What the schedule has of the transaction that is committed. -/
def exampleAgain : Gap → List (SubmissionOf (exampleSubmit true).tx)
  | .table => [⟨exampleSubmit false, rfl, rfl⟩]
  | .ledger => [⟨exampleSubmit true, rfl, rfl⟩]
  | .txPool => []

/-- Neither passes: the nonce is reserved at first, and then it is on chain. -/
theorem no_gap_iff_exampleCommit :
    NoGap TxPool.exampleConfig exampleCommit 1 [{ txHash := 1, status := .none }] 1
      exampleSchedule := by
  refine (no_gap_iff TxPool.exampleConfig exampleCommit 1 [{ txHash := 1, status := .none }]
    (exampleSubmit true).tx rfl ⟨_, List.mem_singleton.mpr rfl, rfl⟩ exampleAgain).mpr ?_
    exampleSchedule ?_
  · intro gap b hb
    cases gap with
    | table =>
        have hreserved : (exampleSubmit true).tx.nonce
            ∈ exampleCommit.txPoolNonceChecker.nonceCache := by decide
        rw [List.mem_singleton.mp hb]
        exact Or.inr ⟨rfl, Or.inr (Or.inl hreserved)⟩
    | ledger =>
        -- The window still has room, so the nonce was not evicted.
        have hkept : ¬ exampleCommit.ledgerNonceChecker.blockLimit < 1 := by decide
        exact Or.inl (fun hevicts => hkept hevicts.1)
    | txPool => exact absurd hb List.not_mem_nil
  · intro gap
    cases gap with
    | table => rfl
    | ledger => rfl
    | txPool => rfl

/-- A proposal brings the transaction after the first section, when nothing that
    is asked on this route knows it, and it is pooled again. -/
theorem no_gap_counterexample :
    (exampleCommit.txsTable.find? 1).isSome = true ∧
    exampleCommit.blockNonces [{ txHash := 1, status := .none }] = [7] ∧
    ¬ NoGap TxPool.exampleConfig exampleCommit 1 [{ txHash := 1, status := .none }] 1
      (fun gap => if gap = .table then [exampleSubmit true] else []) ∧
    ((exampleCommit.txPoolState TxPool.exampleConfig 1 [{ txHash := 1, status := .none }]
      [exampleSubmit true] [] []).txsTable.find? 1).isSome = true :=
  ⟨rfl, rfl, fun h => h .table [] (exampleSubmit true) [] rfl rfl rfl, rfl⟩

end MemoryStorage

end BcosTxPool
