import BcosTxPool.Core.Validator

/-!
# Memory Storage

The pool itself: a table of transactions by hash, two nonce checkers, the
sets of hashes and nonces awaiting removal, the set of hashes already asked
for, and a counter of sealed transactions that is kept beside the flags.

The transactions in the table are shared objects, so setting a flag changes
the table's entry in place. The counter is a `size_t`: taking one from zero
leaves the largest value, which `sizePred` says. Its other end is out of
reach, since no table has 2^64 entries.

A traversal of the table meets the entries in the order of the hash map,
which no caller controls. Operations that traverse it take that order as an
argument.

Three things a call does outside the pool are recorded in the state: the
receipts handed to submit callbacks or queued for them, the numbers reported
to the sealer, and the flag that wakes the gossip loop, which the `onReady`
handler of the sync module sets. Writing the transaction to the ledger ahead
of time (`preCommitTransaction`) has no effect on the pool and is modelled
elsewhere; `importTime`, which nothing reads, is left out.

## Main definitions

* `MemoryStorage`: The state of the pool.
* `notifyUnsealedTxsSize`: The report to the sealer, with its retries.
* `insert`, `removeWithoutLock`: One transaction enters or leaves the table.
* `enforceSubmitTransaction`: A submission for a proposal.
* `verifyAndSubmitTransaction`: A normal submission.
* `batchRemove`: A block is committed.
* `batchFetchTxs`, `removeInvalidTxs`: Sealing and the deferred cleanup.
* `batchMarkTxs`, `batchMarkAllTxs`: Seal flags are set from outside.
* `fetchTxs`, `fetchNewTxs`, `filterUnknownTxs`, `batchVerifyProposal`: The
  queries of the sync module and the verifier.
-/

namespace BcosTxPool

open Library

/-- A receipt handed to a submit callback: the error code, if any, and the
    result. -/
structure Receipt where
  callback : TxSubmitCallback
  error : Option ErrorCode
  result : TransactionSubmitResult
deriving DecidableEq

/-- `MemoryStorage`, with the two nonce checkers it reaches through its
    configuration. -/
structure MemoryStorage where
  txsTable : TxsTable := KeyedTable.empty
  txPoolNonceChecker : TxPoolNonceChecker := {}
  ledgerNonceChecker : LedgerNonceChecker
  invalidTxs : SortedSet HashType := SortedSet.empty
  invalidNonces : SortedSet NonceType := SortedSet.empty
  missedTxs : SortedSet HashType := SortedSet.empty
  sealedTxsSize : Nat := 0
  blockNumber : Int := 0
  newTransactions : Bool := false
  receipts : List Receipt := []
  reports : List Nat := []

/-- Taking one from a `size_t`. The counter of sealed transactions is the only
    unsigned value of the pool that is counted down. -/
def sizePred (n : Nat) : Nat := if n = 0 then 2 ^ 64 - 1 else n - 1

/-- `c_maxRetryTime`: a report that fails is repeated this often, so the sealer
    is called four times at most. -/
def maxRetryTime : Nat := 3

namespace MemoryStorage

/-- `MemoryStorage::size`: what the pool limit is compared with, before the
    insertion and not under its lock. -/
def size (s : MemoryStorage) : Nat := s.txsTable.size

/-- `MemoryStorage::exist`, the test on which duplicate submissions and unneeded
    requests are dropped. -/
def exist (s : MemoryStorage) (txHash : HashType) : Bool := s.txsTable.contains txHash

/-- `MemoryStorage::unSealedTxsSizeWithoutLock`. The first branch corrects a
    counter that has run ahead of the table. -/
def unSealedTxsSizeWithoutLock (s : MemoryStorage) : MemoryStorage × Nat :=
  if s.txsTable.size < s.sealedTxsSize then
    ({ s with sealedTxsSize := s.txsTable.size }, 0)
  else
    (s, s.txsTable.size - s.sealedTxsSize)

/-- `MemoryStorage::unSealedTxsSize`: the same under the lock of the table,
    which changes nothing when calls do not overlap. -/
def unSealedTxsSize (s : MemoryStorage) : MemoryStorage × Nat := s.unSealedTxsSizeWithoutLock

/-- One call of the notifier, and what its error callback does while there
    are retries left. -/
def reportUnsealed (notifier : List Nat → Bool) : Nat → MemoryStorage → MemoryStorage
  | retries, s =>
    let (s, unsealedTxsSize) := s.unSealedTxsSizeWithoutLock
    let s := { s with reports := s.reports ++ [unsealedTxsSize] }
    match retries with
    | 0 => s
    | retries + 1 => if notifier s.reports then reportUnsealed notifier retries s else s

/-- `MemoryStorage::notifyUnsealedTxsSize`. The size is taken afresh for every
    report, so a repeated report may carry a corrected one. -/
def notifyUnsealedTxsSize (cfg : TxPoolConfig) (s : MemoryStorage) : MemoryStorage :=
  match cfg.unsealedTxsNotifier with
  | none => s
  | some notifier => reportUnsealed notifier maxRetryTime s

/-- `MemoryStorage::txpoolStorageCheck`: the check by hash, made before those of
    the validator. -/
def txpoolStorageCheck (s : MemoryStorage) (tx : Transaction) : TransactionStatus :=
  if s.exist tx.hash then .alreadyInTxPool else .none

/-- `MemoryStorage::insert`. The hash is looked up once more here, because the
    check of the submission is not made under the lock of the insertion. A new
    entry wakes the gossip loop and is reported to the sealer. -/
def insert (cfg : TxPoolConfig) (s : MemoryStorage) (tx : Transaction) :
    MemoryStorage × TransactionStatus :=
  if s.txsTable.contains tx.hash then (s, .alreadyInTxPool)
  else
    let s := { s with txsTable := s.txsTable.insert tx, newTransactions := true }
    (s.notifyUnsealedTxsSize cfg, .none)

/-- `m_missedTxs.unsafe_erase`: a transaction that has come in is no longer owed
    by the peer it was requested from. -/
def eraseMissed (s : MemoryStorage) (txHash : HashType) : MemoryStorage :=
  { s with missedTxs := s.missedTxs.erase txHash }

/-- `MemoryStorage::batchInsert`. No check but that of the hash is made, and no
    status is returned. It belongs to the interface of the storage; no code of
    this repository calls it. -/
def batchInsert (cfg : TxPoolConfig) (s : MemoryStorage) (txs : List Transaction) :
    MemoryStorage :=
  let s := txs.foldl (fun s tx => (s.insert cfg tx).1) s
  txs.foldl (fun s tx => s.eraseMissed tx.hash) s

/-- The entry of a pooled transaction sealed for the proposal that `tx` was
    fetched for. -/
def sealFor (tx : Transaction) (entry : Transaction) : Transaction :=
  { entry with sealed := true, batchId := tx.batchId, batchHash := tx.batchHash }

theorem sealFor_hash (tx entry : Transaction) : (sealFor tx entry).hash = entry.hash := rfl

/-- `MemoryStorage::enforceSubmitTransaction`. Neither the nonces of pending
    transactions nor the pool limit are looked at: a proposal decides what
    enters with it, and its transactions enter sealed. -/
def enforceSubmitTransaction (cfg : TxPoolConfig) (s : MemoryStorage) (tx : Transaction) :
    MemoryStorage × TransactionStatus :=
  -- A block limit that is not open is no reason to reject here.
  if TxValidator.submittedToChain s.ledgerNonceChecker tx = .nonceCheckFail then
    (s, .nonceCheckFail)
  else
    match s.txsTable.find? tx.hash with
    | some entry =>
        -- Pooled and free, or sealed for no proposal yet: the proposal takes it.
        if !entry.sealed || entry.batchHash = 0 then
          ({ s with
              sealedTxsSize := if entry.sealed then s.sealedTxsSize else s.sealedTxsSize + 1
              txsTable := s.txsTable.modify tx.hash (sealFor tx) (sealFor_hash tx) }, .none)
        -- A repeated import of one proposal is accepted, one of another is not.
        else if entry.batchId = tx.batchId ∧ entry.batchHash = tx.batchHash then
          (s, .none)
        else
          (s, .alreadyInTxPool)
    | none =>
        -- The counter follows the object, which a caller may hand over sealed
        -- already.
        let s := if tx.sealed then s else { s with sealedTxsSize := s.sealedTxsSize + 1 }
        -- The status of the insertion is ignored.
        let s := (s.insert cfg { tx with sealed := true }).1
        (s.eraseMissed tx.hash, .none)

/-- The transaction object with the callback of its submission, if it has one.
    It is set once the pool is known to have room, before the object itself is
    checked. -/
def withCallback (tx : Transaction) (txSubmitCallback : Option TxSubmitCallback) : Transaction :=
  match txSubmitCallback with
  | some callback => { tx with submitCallback := some callback }
  | none => tx

/-- `MemoryStorage::verifyAndSubmitTransaction`. The checks go from the cheapest
    to the dearest: the limit, the hash, then those of the validator, the last
    of which reserves the nonce. -/
def verifyAndSubmitTransaction (cfg : TxPoolConfig) (s : MemoryStorage) (tx : Transaction)
    (txSubmitCallback : Option TxSubmitCallback) : MemoryStorage × TransactionStatus :=
  if s.size ≥ cfg.poolLimit then (s, .txPoolIsFull)
  else
    let tx := withCallback tx txSubmitCallback
    if s.txpoolStorageCheck tx ≠ .none then (s, s.txpoolStorageCheck tx)
    else
      match TxValidator.verify cfg s.ledgerNonceChecker s.txPoolNonceChecker tx with
      | (.none, pool, tx) =>
          -- Accepted: the nonce is reserved before the transaction is in the table.
          let (s, result) := { s with txPoolNonceChecker := pool }.insert cfg tx
          (s.eraseMissed tx.hash, result)
      | (status, pool, _) => ({ s with txPoolNonceChecker := pool }, status)

/-- `MemoryStorage::submitTransaction` on a transaction object. An enforced
    submission has no callback to answer. -/
def submitTransaction (cfg : TxPoolConfig) (s : MemoryStorage) (tx : Transaction)
    (txSubmitCallback : Option TxSubmitCallback) (enforceImport : Bool) :
    MemoryStorage × TransactionStatus :=
  if !enforceImport then s.verifyAndSubmitTransaction cfg tx txSubmitCallback
  else s.enforceSubmitTransaction cfg tx

/-- `MemoryStorage::notifyInvalidReceipt`: the client is told at once, on the
    thread of its call, and the error names the status. -/
def notifyInvalidReceipt (s : MemoryStorage) (txHash : HashType) (status : TransactionStatus)
    (txSubmitCallback : Option TxSubmitCallback) : MemoryStorage :=
  match txSubmitCallback with
  | none => s
  | some callback =>
      { s with receipts := s.receipts ++
          [⟨callback, some (.transactionStatus status), { txHash := txHash, status := status }⟩] }

/-- `MemoryStorage::submitTransaction` on the bytes a client sent. Bytes that do
    not decode are answered with the zero hash, since none is known. -/
def submitTransactionData (cfg : TxPoolConfig) (s : MemoryStorage) (txData : Bytes)
    (txSubmitCallback : Option TxSubmitCallback) : MemoryStorage × TransactionStatus :=
  match cfg.framework.decodeTransaction txData with
  | some data =>
      let (s, result) :=
        s.submitTransaction cfg (createTransaction data) txSubmitCallback false
      if result ≠ .none then
        (s.notifyInvalidReceipt data.hash result txSubmitCallback, result)
      else (s, result)
  | none => (s.notifyInvalidReceipt 0 .malform txSubmitCallback, .malform)

/-- `MemoryStorage::removeWithoutLock`. A sealed transaction is taken off the
    counter as it leaves; its nonce stays with the checkers. -/
def removeWithoutLock (s : MemoryStorage) (txHash : HashType) :
    MemoryStorage × Option Transaction :=
  match s.txsTable.find? txHash with
  | none => (s, none)
  | some tx =>
      ({ s with
          txsTable := s.txsTable.erase txHash
          sealedTxsSize := if tx.sealed then sizePred s.sealedTxsSize else s.sealedTxsSize },
        some tx)

/-- `MemoryStorage::remove`: the removal of a single transaction, followed by a
    report to the sealer. -/
def remove (cfg : TxPoolConfig) (s : MemoryStorage) (txHash : HashType) :
    MemoryStorage × Option Transaction :=
  let (s, tx) := s.removeWithoutLock txHash
  (s.notifyUnsealedTxsSize cfg, tx)

/-- `MemoryStorage::notifyTxResult`: the receipt queued on the notifier. A
    transaction whose callback was taken away, or that never had one, is removed
    in silence. -/
def notifyTxResult (s : MemoryStorage) (tx : Transaction)
    (txSubmitResult : TransactionSubmitResult) : MemoryStorage :=
  match tx.submitCallback with
  | none => s
  | some callback => { s with receipts := s.receipts ++ [⟨callback, none, txSubmitResult⟩] }

/-- `MemoryStorage::removeSubmittedTxWithoutLock`: a transaction leaves the
    table and its client learns the result. -/
def removeSubmittedTxWithoutLock (s : MemoryStorage)
    (txSubmitResult : TransactionSubmitResult) : MemoryStorage × Option Transaction :=
  match s.removeWithoutLock txSubmitResult.txHash with
  | (s, none) => (s, none)
  | (s, some tx) => (s.notifyTxResult tx txSubmitResult, some tx)

/-- `MemoryStorage::removeSubmittedTx`: the same for a single transaction, with
    the report of `remove`. -/
def removeSubmittedTx (cfg : TxPoolConfig) (s : MemoryStorage)
    (txSubmitResult : TransactionSubmitResult) : MemoryStorage × Option Transaction :=
  match s.remove cfg txSubmitResult.txHash with
  | (s, none) => (s, none)
  | (s, some tx) => (s.notifyTxResult tx txSubmitResult, some tx)

/-- One turn of the loop of `batchRemove`: the transaction leaves the table,
    and its nonce, or else the result's, joins the nonce list. -/
def batchRemoveTx (acc : MemoryStorage × NonceList) (txResult : TransactionSubmitResult) :
    MemoryStorage × NonceList :=
  match acc.1.removeSubmittedTxWithoutLock txResult with
  | (s, some tx) => (s, acc.2 ++ [tx.nonce])
  | (s, none) => (s, if txResult.carriesNonce then acc.2 ++ [txResult.nonce] else acc.2)

/-- The first section of `batchRemove`, under the lock of the table. -/
def batchRemoveTxs (s : MemoryStorage) (batchId : Int)
    (txsResult : List TransactionSubmitResult) : MemoryStorage × NonceList :=
  let (s, nonceList) := txsResult.foldl batchRemoveTx (s, [])
  (if batchId > s.blockNumber then { s with blockNumber := batchId } else s, nonceList)

/-- `MemoryStorage::batchRemove`. The sections lock for themselves: the table
    first, then the ledger checker, into which the nonces are entered as
    committed, and last the txpool checker, which releases them. -/
def batchRemove (cfg : TxPoolConfig) (s : MemoryStorage) (batchId : Int)
    (txsResult : List TransactionSubmitResult) : MemoryStorage :=
  let (s, nonceList) := s.batchRemoveTxs batchId txsResult
  let s := s.notifyUnsealedTxsSize cfg
  let s := { s with ledgerNonceChecker := s.ledgerNonceChecker.batchInsert batchId nonceList }
  { s with txPoolNonceChecker := s.txPoolNonceChecker.batchRemove nonceList }

/-- `MemoryStorage::fetchTxs`: the transactions hit and the hashes missed, each
    in the order of the request. -/
def fetchTxs (s : MemoryStorage) (txs : HashList) : List Transaction × HashList :=
  (txs.filterMap s.txsTable.find?, txs.filter (fun txHash => !s.txsTable.contains txHash))

/-- `MemoryStorage::fetchNewTxs`, walking the table in the given order. -/
def fetchNewTxs (txsLimit : Nat) : HashList → MemoryStorage → List Transaction →
    MemoryStorage × List Transaction
  | [], s, fetchedTxs => (s, fetchedTxs)
  | txHash :: order, s, fetchedTxs =>
    match s.txsTable.find? txHash with
    | none => fetchNewTxs txsLimit order s fetchedTxs
    | some tx =>
        if tx.synced then fetchNewTxs txsLimit order s fetchedTxs
        else
          -- The mark is set while walking, so the next call passes over this entry.
          let s := { s with
            txsTable := s.txsTable.modify txHash (fun tx => { tx with synced := true }) }
          let fetchedTxs := fetchedTxs ++ [{ tx with synced := true }]
          -- The limit is compared after the transaction was appended.
          if fetchedTxs.length ≥ txsLimit then (s, fetchedTxs)
          else fetchNewTxs txsLimit order s fetchedTxs

/-- The two blocks that `batchFetchTxs` fills: the sealer gets the system
    transactions apart from the others. -/
structure FetchedTxs where
  txsList : List TransactionMetaData := []
  sysTxsList : List TransactionMetaData := []
deriving DecidableEq

/-- The number of transactions in the two blocks, which the limit of a seal is
    compared with. -/
def FetchedTxs.size (f : FetchedTxs) : Nat := f.txsList.length + f.sysTxsList.length

/-- The hashes in the two blocks, that is, all that one call has sealed. -/
def FetchedTxs.hashes (f : FetchedTxs) : HashList :=
  f.txsList.map (fun m => m.hash) ++ f.sysTxsList.map (fun m => m.hash)

/-- The meta data of a transaction joins the block of its kind. -/
def FetchedTxs.append (f : FetchedTxs) (tx : Transaction) : FetchedTxs :=
  let txMetaData : TransactionMetaData := ⟨tx.hash, tx.toAddress, tx.txAttribute⟩
  if tx.systemTx then { f with sysTxsList := f.sysTxsList ++ [txMetaData] }
  else { f with txsList := f.txsList ++ [txMetaData] }

/-- What `batchFetchTxs` decides about one entry of the table. -/
inductive FetchDecision where
  /-- Left alone: already invalid, avoided, or sealed by an earlier proposal. -/
  | skip
  /-- Its nonce is on chain. -/
  | onChain
  /-- Its block limit has passed and no proposal holds it. -/
  | expired
  /-- Sealed and handed out. -/
  | fetch
deriving DecidableEq

/-- The tests of the loop of `batchFetchTxs`, in their order. Both checks
    against the ledger are made again here, since blocks were committed after
    the transaction was accepted. -/
def fetchDecision (s : MemoryStorage) (avoidTxs : HashList) (avoidDuplicate : Bool)
    (tx : Transaction) : FetchDecision :=
  if tx.hash ∈ s.invalidTxs then .skip
  else
    match TxValidator.submittedToChain s.ledgerNonceChecker tx with
    -- A nonce on the ledger rules the transaction out, sealed or not.
    | .nonceCheckFail => .onChain
    | result =>
        if result = .blockLimitCheckFail ∧ !tx.sealed then .expired
        -- A sealed transaction past its limit is left to its proposal.
        else if tx.hash ∈ avoidTxs then .skip
        else if avoidDuplicate && tx.sealed then .skip
        else .fetch

/-- The loop of `batchFetchTxs`, walking the table in the given order. -/
def fetchLoop (txsLimit : Nat) (avoidTxs : HashList) (avoidDuplicate : Bool) :
    HashList → MemoryStorage → FetchedTxs → MemoryStorage × FetchedTxs
  | [], s, f => (s, f)
  | txHash :: order, s, f =>
    match s.txsTable.find? txHash with
    | none => fetchLoop txsLimit avoidTxs avoidDuplicate order s f
    | some tx =>
        match s.fetchDecision avoidTxs avoidDuplicate tx with
        | .skip => fetchLoop txsLimit avoidTxs avoidDuplicate order s f
        | .onChain =>
            -- The nonce is put among the invalid hashes, by conversion.
            fetchLoop txsLimit avoidTxs avoidDuplicate order
              { s with
                txsTable := s.txsTable.modify txHash (fun tx => { tx with submitCallback := none })
                invalidTxs := (s.invalidTxs.insert txHash).insert (nonceToHash tx.nonce) } f
        | .expired =>
            fetchLoop txsLimit avoidTxs avoidDuplicate order
              { s with
                invalidTxs := s.invalidTxs.insert txHash
                invalidNonces := s.invalidNonces.insert tx.nonce } f
        | .fetch =>
            let f := f.append tx
            let s := { s with
              sealedTxsSize := if tx.sealed then s.sealedTxsSize else s.sealedTxsSize + 1
              txsTable := s.txsTable.modify txHash
                (fun tx => { tx with sealed := true, batchId := -1, batchHash := 0 }) }
            if f.size ≥ txsLimit then (s, f)
            else fetchLoop txsLimit avoidTxs avoidDuplicate order s f

/-- `MemoryStorage::batchFetchTxs` into two fresh blocks. The cleanup it
    queues at its end is `removeInvalidTxs`. -/
def batchFetchTxs (cfg : TxPoolConfig) (s : MemoryStorage) (order : HashList) (txsLimit : Nat)
    (avoidTxs : HashList) (avoidDuplicate : Bool) : MemoryStorage × FetchedTxs :=
  let (s, f) := fetchLoop txsLimit avoidTxs avoidDuplicate order s {}
  (s.notifyUnsealedTxsSize cfg, f)

/-- The task that `MemoryStorage::removeInvalidTxs` puts on the notifier. It
    drops what the seals before it set aside, with the status of an expired
    block limit, whatever the reason was, and releases the nonces set aside with
    them. -/
def removeInvalidTxs (cfg : TxPoolConfig) (s : MemoryStorage) : MemoryStorage :=
  if s.invalidTxs.size = 0 then s
  else
    let invalidTxs := s.invalidTxs.toList
    let invalidNonces := s.invalidNonces.toList
    -- The source runs this loop beside the release of the nonces; neither reads
    -- what the other writes.
    let s := invalidTxs.foldl (fun s txHash =>
      (s.removeSubmittedTxWithoutLock
        { txHash := txHash, status := .blockLimitCheckFail }).1) s
    let s := s.notifyUnsealedTxsSize cfg
    { s with
      txPoolNonceChecker := s.txPoolNonceChecker.batchRemove invalidNonces
      invalidTxs := SortedSet.empty
      invalidNonces := SortedSet.empty }

/-- `Transaction::appendKnownNode` on a pooled transaction. A hash that is not
    pooled leaves the table as it is. -/
def appendKnownNode (s : MemoryStorage) (txHash : HashType) (node : NodeID) : MemoryStorage :=
  { s with
    txsTable := s.txsTable.modify txHash
      (fun tx => { tx with knownNodes := Insert.insert node tx.knownNodes }) }

/-- One turn of the second loop of `filterUnknownTxs`: a hash that is neither
    pooled nor already asked for is requested, and noted as asked for. -/
def filterUnknownTx (acc : MemoryStorage × HashList) (txHash : HashType) :
    MemoryStorage × HashList :=
  if acc.1.txsTable.contains txHash then acc
  else if txHash ∈ acc.1.missedTxs then acc
  else ({ acc.1 with missedTxs := acc.1.missedTxs.insert txHash }, acc.2 ++ [txHash])

/-- `MemoryStorage::filterUnknownTxs`: the hashes of an announcement worth a
    request. The peer that announced them knows the pooled ones, which the first
    loop records. When the set of hashes asked for reaches the pool limit it is
    emptied, and all of them may be asked for again. -/
def filterUnknownTxs (cfg : TxPoolConfig) (s : MemoryStorage) (txsHashList : HashList)
    (peer : NodeID) : MemoryStorage × HashList :=
  let s := txsHashList.foldl (fun s txHash => s.appendKnownNode txHash peer) s
  let (s, unknownTxsList) := txsHashList.foldl filterUnknownTx (s, [])
  (if s.missedTxs.size ≥ cfg.poolLimit then { s with missedTxs := SortedSet.empty } else s,
    unknownTxsList)

/-- An entry with its seal flag set from outside. Releasing it leaves the number
    and hash of its last proposal behind. -/
def markTx (batchId : Int) (batchHash : HashType) (sealFlag : Bool) (tx : Transaction) :
    Transaction :=
  if sealFlag then { tx with sealed := true, batchId := batchId, batchHash := batchHash }
  else { tx with sealed := false }

theorem markTx_hash (batchId : Int) (batchHash : HashType) (sealFlag : Bool) (tx : Transaction) :
    (markTx batchId batchHash sealFlag tx).hash = tx.hash := by
  cases sealFlag with
  | true => rfl
  | false => rfl

/-- One turn of the loop of `batchMarkTxs`. -/
def batchMarkTx (batchId : Int) (batchHash : HashType) (sealFlag : Bool) (s : MemoryStorage)
    (txHash : HashType) : MemoryStorage :=
  match s.txsTable.find? txHash with
  | none => s
  | some tx =>
      -- A transaction re-sealed for another proposal is not unsealed.
      if tx.batchHash ≠ 0 ∧ tx.batchHash ≠ batchHash ∧ !sealFlag then s
      else
        -- The counter moves with the flag, and only when the flag does.
        let s := if sealFlag && !tx.sealed then { s with sealedTxsSize := s.sealedTxsSize + 1 }
          else s
        let s := if !sealFlag && tx.sealed then { s with sealedTxsSize := sizePred s.sealedTxsSize }
          else s
        { s with
          txsTable := s.txsTable.modify txHash (markTx batchId batchHash sealFlag)
            (markTx_hash batchId batchHash sealFlag) }

/-- `MemoryStorage::batchMarkTxs`: consensus takes the transactions of a
    proposal, or gives them back when the proposal fails. -/
def batchMarkTxs (s : MemoryStorage) (txsHashList : HashList) (batchId : Int)
    (batchHash : HashType) (sealFlag : Bool) : MemoryStorage :=
  txsHashList.foldl (batchMarkTx batchId batchHash sealFlag) s

/-- An entry with its seal flag set by `batchMarkAllTxs`. Here a release clears
    the proposal as well. -/
def markAny (sealFlag : Bool) (tx : Transaction) : Transaction :=
  if sealFlag then { tx with sealed := true }
  else { tx with sealed := false, batchId := -1, batchHash := 0 }

theorem markAny_hash (sealFlag : Bool) (tx : Transaction) :
    (markAny sealFlag tx).hash = tx.hash := by
  cases sealFlag with
  | true => rfl
  | false => rfl

/-- `MemoryStorage::batchMarkAllTxs`. Every entry has the flag afterwards, so
    the counter is set outright and not counted. -/
def batchMarkAllTxs (cfg : TxPoolConfig) (s : MemoryStorage) (sealFlag : Bool) :
    MemoryStorage :=
  let s := { s with
    txsTable := s.txsTable.modifyAll (markAny sealFlag) (markAny_hash sealFlag) }
  let s := if sealFlag then { s with sealedTxsSize := s.txsTable.size }
    else { s with sealedTxsSize := 0 }
  s.notifyUnsealedTxsSize cfg

/-- `MemoryStorage::batchVerifyProposal` on a block: the hashes not in the
    table, which are those a node has to fetch before it can vote. -/
def batchVerifyProposal (s : MemoryStorage) (block : Block) : HashList :=
  block.transactionsHash.filter (fun txHash => !s.txsTable.contains txHash)

/-- `MemoryStorage::batchVerifyProposal` on a list of hashes: whether all of
    them are in the table by now. -/
def batchVerifyHashes (s : MemoryStorage) (txsHashList : HashList) : Bool :=
  txsHashList.all s.txsTable.contains

end MemoryStorage

end BcosTxPool
