import Mathlib.Data.Finset.Erase
import Mathlib.Data.List.AList
import BcosTxPool.Core.Protocol

/-!
# Nonce Checkers

The two caches of nonces a submission is compared with. The txpool checker
holds the nonces of transactions accepted and still pending. The ledger
checker holds those of the blocks committed last, and it also knows the
height, so it checks the block limit as well.

The ledger checker keeps its nonces twice: in the flat set it inherits, which
is what `checkNonce` consults, and block by block in `blockNonceCache`, which
tells it what to take out of the set again. `batchInsert` does all of it in
one call: it raises the height, puts the new nonces into the set, records
them under the block number, and then removes from the set every nonce
recorded for the block that leaves the window.

## Main definitions

* `TxPoolNonceChecker`: The flat set of nonces.
* `LedgerNonceChecker`: The flat set, the height and the nonces by block.
* `LedgerNonceChecker.create`: The constructor with its initial nonces.
* `LedgerNonceChecker.batchInsert`: A block is committed.

## Theorems

* `TxPoolNonceChecker.mem_batchInsert`, `mem_batchRemove`: What the loops over
  a nonce list do to the set.
* `LedgerNonceChecker.checkNonce_eq`: A check without update changes nothing.
-/

namespace BcosTxPool

/-- `TxPoolNonceChecker`: the nonces of pending transactions. A nonce enters
    when a normal submission passes its last check, and leaves when a block
    commits it or the cleanup drops its transaction. -/
structure TxPoolNonceChecker where
  nonceCache : Finset NonceType := ∅
deriving DecidableEq

namespace TxPoolNonceChecker

/-- `TxPoolNonceChecker::exists`, which the ledger checker inherits: both ask
    the flat set. -/
def existsNonce (c : TxPoolNonceChecker) (nonce : NonceType) : Bool :=
  nonce ∈ c.nonceCache

/-- `TxPoolNonceChecker::insert`. -/
def insert (c : TxPoolNonceChecker) (nonce : NonceType) : TxPoolNonceChecker :=
  { c with nonceCache := Insert.insert nonce c.nonceCache }

/-- `TxPoolNonceChecker::remove`. The set does not count, so one removal frees a
    nonce however often it was inserted. -/
def remove (c : TxPoolNonceChecker) (nonce : NonceType) : TxPoolNonceChecker :=
  if nonce ∈ c.nonceCache then { c with nonceCache := c.nonceCache.erase nonce } else c

/-- `TxPoolNonceChecker::checkNonce`. With `shouldUpdate` the check and the
    reservation are one call, which is what makes a nonce granted to one of two
    submissions that follow each other. -/
def checkNonce (c : TxPoolNonceChecker) (tx : Transaction) (shouldUpdate : Bool) :
    TransactionStatus × TxPoolNonceChecker :=
  if tx.nonce ∈ c.nonceCache then
    (.nonceCheckFail, c)
  else if shouldUpdate then
    (.none, c.insert tx.nonce)
  else
    (.none, c)

/-- `TxPoolNonceChecker::batchInsert`; the batch id is not used here. -/
def batchInsert (c : TxPoolNonceChecker) (_batchId : Int) (nonceList : NonceList) :
    TxPoolNonceChecker :=
  nonceList.foldl insert c

/-- `TxPoolNonceChecker::batchRemove`: the loop over `remove`. Nonces that were
    never reserved pass through it without effect. -/
def batchRemove (c : TxPoolNonceChecker) (nonceList : NonceList) : TxPoolNonceChecker :=
  nonceList.foldl remove c

theorem mem_insert (c : TxPoolNonceChecker) (nonce n : NonceType) :
    n ∈ (c.insert nonce).nonceCache ↔ n = nonce ∨ n ∈ c.nonceCache :=
  Finset.mem_insert

theorem mem_remove (c : TxPoolNonceChecker) (nonce n : NonceType) :
    n ∈ (c.remove nonce).nonceCache ↔ n ∈ c.nonceCache ∧ n ≠ nonce := by
  unfold remove
  by_cases hmem : nonce ∈ c.nonceCache
  · rw [if_pos hmem, Finset.mem_erase, and_comm]
  · rw [if_neg hmem]
    -- An absent nonce is left alone, and then nothing equal to it is a member.
    refine ⟨fun h => ⟨h, ?_⟩, fun h => h.1⟩
    rintro rfl
    exact hmem h

theorem mem_batchInsert (c : TxPoolNonceChecker) (b : Int) (l : NonceList)
    (n : NonceType) : n ∈ (c.batchInsert b l).nonceCache ↔ n ∈ c.nonceCache ∨ n ∈ l := by
  unfold batchInsert
  -- The accumulator of the loop is the checker, so it varies in the induction.
  induction l generalizing c with
  | nil => simp only [List.foldl_nil, List.not_mem_nil, or_false]
  | cons m l ih =>
      rw [List.foldl_cons, ih, mem_insert, List.mem_cons]
      tauto

theorem mem_batchRemove (c : TxPoolNonceChecker) (l : NonceList) (n : NonceType) :
    n ∈ (c.batchRemove l).nonceCache ↔ n ∈ c.nonceCache ∧ n ∉ l := by
  unfold batchRemove
  -- As for the insertion: the checker is the accumulator.
  induction l generalizing c with
  | nil => simp only [List.foldl_nil, List.not_mem_nil, not_false_eq_true, and_true]
  | cons m l ih =>
      rw [List.foldl_cons, ih, mem_remove, List.mem_cons]
      tauto

end TxPoolNonceChecker

/-- `std::map<int64_t, NonceListPtr>`: nonce lists by block number. An
    association list keeps the one property of the map that the checker uses, a
    single list for each number. -/
abbrev BlockNonceCache := AList (fun _ : Int => NonceList)

/-- `LedgerNonceChecker`: the nonces of the blocks committed last. The flat set
    it inherits answers the queries; the cache by block only records what to
    take out of the set when a block leaves the window. -/
structure LedgerNonceChecker extends TxPoolNonceChecker where
  blockNumber : Int
  blockLimit : Int
  blockNonceCache : BlockNonceCache := ∅

namespace LedgerNonceChecker

/-- One turn of the loop of `LedgerNonceChecker::initNonceCache`. Unlike
    `batchInsert` it neither raises the height nor lets a block leave the
    window. -/
def initBlock (c : LedgerNonceChecker) (batchId : Int) (nonceList : NonceList) :
    LedgerNonceChecker :=
  { c with
    toTxPoolNonceChecker := c.toTxPoolNonceChecker.batchInsert batchId nonceList
    blockNonceCache := c.blockNonceCache.insert batchId nonceList }

/-- `LedgerNonceChecker::initNonceCache`: the blocks the ledger returned are
    taken over one by one. -/
def initNonceCache (c : LedgerNonceChecker) (initialNonces : BlockNonceCache) :
    LedgerNonceChecker :=
  initialNonces.entries.foldl (fun c it => c.initBlock it.1 it.2) c

/-- The constructor of `LedgerNonceChecker`; the initial nonces may be a null
    pointer. -/
def create (initialNonces : Option BlockNonceCache) (blockNumber : Int)
    (blockLimit : Int) : LedgerNonceChecker :=
  let c : LedgerNonceChecker := { blockNumber := blockNumber, blockLimit := blockLimit }
  match initialNonces with
  | some nonces => c.initNonceCache nonces
  | none => c

/-- `LedgerNonceChecker::checkBlockLimit`. The source adds two values of type
    `int64_t`; the sum of the height and the window is assumed to stay in their
    range. -/
def checkBlockLimit (c : LedgerNonceChecker) (tx : Transaction) : TransactionStatus :=
  if c.blockNumber ≥ tx.blockLimit ∨ c.blockNumber + c.blockLimit < tx.blockLimit then
    .blockLimitCheckFail
  else .none

/-- `LedgerNonceChecker::checkNonce`: the flat set first and the block limit
    second, so a transaction that fails on both is rejected for its nonce. An
    enforced submission relies on this order, since it honours that failure
    alone. -/
def checkNonce (c : LedgerNonceChecker) (tx : Transaction) (shouldUpdate : Bool) :
    TransactionStatus × LedgerNonceChecker :=
  match c.toTxPoolNonceChecker.checkNonce tx shouldUpdate with
  | (.none, p) => (c.checkBlockLimit tx, { c with toTxPoolNonceChecker := p })
  | (status, p) => (status, { c with toTxPoolNonceChecker := p })

/-- The block that leaves the window when `batchId` arrives, `-1` for none. The
    window holds `blockLimit` blocks, the new one included. -/
def batchToBeRemoved (c : LedgerNonceChecker) (batchId : Int) : Int :=
  if batchId > c.blockLimit then batchId - c.blockLimit else -1

/-- `LedgerNonceChecker::batchInsert`. The nonces of the block that leaves the
    window are removed by value, so a nonce that a younger block carries as well
    is gone with them. -/
def batchInsert (c : LedgerNonceChecker) (batchId : Int) (nonceList : NonceList) :
    LedgerNonceChecker :=
  let batchToBeRemoved := c.batchToBeRemoved batchId
  -- The height is raised first, then the new nonces enter the flat set.
  let c := if c.blockNumber < batchId then { c with blockNumber := batchId } else c
  let c := { c with
    toTxPoolNonceChecker := c.toTxPoolNonceChecker.batchInsert batchId nonceList }
  -- A list recorded for this number before is kept, while the set takes both.
  let c := if batchId ∈ c.blockNonceCache then c
    else { c with blockNonceCache := c.blockNonceCache.insert batchId nonceList }
  if batchToBeRemoved = -1 then c
  else
    -- Only a block that the cache knows is expired; a height that jumped leaves the lists in
    -- between behind.
    match c.blockNonceCache.lookup batchToBeRemoved with
    | none => c
    | some expired =>
        { c with
          blockNonceCache := c.blockNonceCache.erase batchToBeRemoved
          toTxPoolNonceChecker := c.toTxPoolNonceChecker.batchRemove expired }

/-- A check without update reports on the flat set first and on the block
    limit second, and changes nothing. -/
theorem checkNonce_eq (c : LedgerNonceChecker) (tx : Transaction) :
    c.checkNonce tx false
      = (if tx.nonce ∈ c.nonceCache then .nonceCheckFail else c.checkBlockLimit tx, c) := by
  unfold checkNonce TxPoolNonceChecker.checkNonce
  by_cases hmem : tx.nonce ∈ c.nonceCache
  · rw [if_pos hmem, if_pos hmem]
  · rw [if_neg hmem, if_neg hmem]
    simp only [Bool.false_eq_true, if_false]

/-- With or without update, the status is that of a check without: the
    reservation happens inside the flat set and does not reach the block
    limit. -/
theorem checkNonce_fst_eq (c : LedgerNonceChecker) (tx : Transaction) (shouldUpdate : Bool) :
    (c.checkNonce tx shouldUpdate).1
      = if tx.nonce ∈ c.nonceCache then .nonceCheckFail else c.checkBlockLimit tx := by
  unfold checkNonce TxPoolNonceChecker.checkNonce
  by_cases hmem : tx.nonce ∈ c.nonceCache
  · rw [if_pos hmem, if_pos hmem]
  · rw [if_neg hmem, if_neg hmem]
    -- The nonce is new: an update reserves it, and the status is the same.
    cases shouldUpdate with
    | true => rfl
    | false => rfl

theorem checkBlockLimit_ne_nonceCheckFail (c : LedgerNonceChecker) (tx : Transaction) :
    c.checkBlockLimit tx ≠ .nonceCheckFail := by
  unfold checkBlockLimit
  split
  · exact fun h => by cases h
  · exact fun h => by cases h

theorem checkBlockLimit_eq_none_iff (c : LedgerNonceChecker) (tx : Transaction) :
    c.checkBlockLimit tx = .none ↔
      c.blockNumber < tx.blockLimit ∧ tx.blockLimit ≤ c.blockNumber + c.blockLimit := by
  unfold checkBlockLimit
  -- The source states when it fails; the two bounds are the negation of that.
  by_cases h : c.blockNumber ≥ tx.blockLimit ∨ c.blockNumber + c.blockLimit < tx.blockLimit
  · rw [if_pos h]
    refine ⟨(fun hc => by cases hc), fun hc => ?_⟩
    omega
  · rw [if_neg h]
    exact ⟨fun _ => by omega, fun _ => rfl⟩

end LedgerNonceChecker

end BcosTxPool
