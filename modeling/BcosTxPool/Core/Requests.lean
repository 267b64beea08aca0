import BcosTxPool.Core.Pool

/-!
# Requests and Announcements

What a node does when a peer asks it for transactions, when a peer announces
transactions it may not have, and when the executor asks it to fill a block.

Announcements are where the order of events matters. `onPeerTxsStatus` imports
what has been downloaded, asks the pool which hashes are new, and requests
these, from the ledger first and then from the peer that announced them. The
peer answers later or not at all, so a request here is an entry of a list and
its answer an event of its own. `SyncNode` is the state in which these events
meet, and `SyncOp` the events.

Decoding a downloaded packet may throw. The buffer has been swapped by then,
so the packets behind it are lost, and when it is `onPeerTxsStatus` that was
importing, the announcement is lost with them.

`fillBlock` answers from the pool if the pool holds every hash. Otherwise it
has the ledger asked for the missing ones, which are imported as any others
are, and then looks into the pool once more.

## Main definitions

* `Codec`: The encoders of the framework.
* `onReceiveTxsRequest`: A peer asks for transactions.
* `SyncNode`: The pool, the packets downloaded and the requests sent.
* `maintainDownloadingTransactions`, `onPeerTxsStatus`, `onTxsResponse`: The
  handlers of the sync module.
* `SyncOp`, `syncStep`: The events of a node and their effect.
* `asyncFillBlock`: The executor asks for transactions.
-/

namespace BcosTxPool

open Library

/-- The encoders of the framework, the other half of its decoders. -/
structure Codec where
  encodeBlock : Block → Bytes
  encodeTxsSyncMsg : TxsSyncMsg → Bytes

/-- A request sent to a peer, with the answer if there has been one. An error
    and a timeout are answers too. -/
structure Request where
  nodeID : NodeID
  txsHash : HashList
  response : Option FrontResponse := none

/-- The sync module and its pool: the packets downloaded and not imported yet,
    each with its sender, and the requests sent so far. -/
structure SyncNode where
  storage : MemoryStorage
  downloadTxsBuffer : List (NodeID × Bytes) := []
  requests : List Request := []

namespace TransactionSync

/-! ### A peer asks -/

/-- The block of an answer: the transactions that the pool holds. -/
def responseBlock (s : MemoryStorage) (txsHash : HashList) : Block where
  blockHeader := none
  transactionsHash := []
  transactions := (s.fetchTxs txsHash).1.map (fun tx => tx.toTxData)

/-- The message of an answer. It carries the transactions in full and names no
    hash. -/
def txsResponse (codec : Codec) (s : MemoryStorage) (txsHash : HashList) : TxsSyncMsg where
  type := .txsResponsePacket
  txsHash := []
  txsData := codec.encodeBlock (responseBlock s txsHash)

/-- `TransactionSync::onReceiveTxsRequest`: the bytes sent back. Hashes that are
    missed are only logged. -/
def onReceiveTxsRequest (codec : Codec) (s : MemoryStorage) (txsRequest : TxsSyncMsg) : Bytes :=
  codec.encodeTxsSyncMsg (txsResponse codec s txsRequest.txsHash)

/-! ### A peer announces -/

/-- The loop of `maintainDownloadingTransactions`, and whether it ran to its
    end: `false` where decoding throws. -/
def importBuffer (cfg : TxPoolConfig) :
    List (NodeID × Bytes) → MemoryStorage → MemoryStorage × Bool
  | [], s => (s, true)
  | txsBuffer :: localBuffer, s =>
    match cfg.framework.createBlock txsBuffer.2 with
    -- The packets behind it are not in the buffer any more.
    | none => (s, false)
    | some transactions =>
        importBuffer cfg localBuffer
          (importDownloadedTxs cfg s txsBuffer.1 transactions.transactions none).1

/-- `TransactionSync::maintainDownloadingTransactions`. -/
def maintainDownloadingTransactions (cfg : TxPoolConfig) (n : SyncNode) (existsInGroup : Bool) :
    SyncNode × Bool :=
  if n.downloadTxsBuffer.length = 0 then (n, true)
  else
    let localBuffer := n.downloadTxsBuffer
    let n := { n with downloadTxsBuffer := [] }
    -- Outside the group the packets are dropped.
    if !existsInGroup then (n, true)
    else
      let (s, finished) := importBuffer cfg localBuffer n.storage
      ({ n with storage := s }, finished)

/-- `requestMissedTxs` for an announcement, without proposal and callback: the
    ledger is asked, and what it leaves is requested from the peer. -/
def requestAnnounced (cfg : TxPoolConfig) (n : SyncNode) (fromNode : NodeID)
    (requestTxs : HashList) (ledger : HashList → LedgerResponse) : SyncNode :=
  let (s, missedTxsSet, _) := onGetMissedTxsFromLedger cfg n.storage
    (SortedSet.ofList requestTxs) (ledger requestTxs) none false
  -- Nobody waits for the result, so a request that is settled leaves no trace.
  if missedTxsSet.size = 0 then { n with storage := s }
  else { n with
    storage := s
    requests := n.requests ++ [⟨fromNode, missedTxsSet.toList, none⟩] }

/-- `TransactionSync::onPeerTxsStatus`. Its loop over the buffer takes one turn,
    since a turn empties the buffer. -/
def onPeerTxsStatus (cfg : TxPoolConfig) (n : SyncNode) (fromNode : NodeID) (txsHash : HashList)
    (existsInGroup : Bool) (ledger : HashList → LedgerResponse) : SyncNode :=
  match maintainDownloadingTransactions cfg n existsInGroup with
  | (n, false) => n
  | (n, true) =>
      if txsHash.length = 0 then n
      else
        -- What was asked for before is not asked for again.
        let (s, requestTxs) := n.storage.filterUnknownTxs cfg txsHash fromNode
        let n := { n with storage := s }
        if requestTxs.length = 0 then n
        else requestAnnounced cfg n fromNode requestTxs ledger

/-- The lambda of `requestMissedTxsFromPeer`, for a request without proposal and
    callback. Each request is answered once. -/
def onTxsResponse (cfg : TxPoolConfig) (n : SyncNode) (index : Nat) (response : FrontResponse) :
    SyncNode :=
  match n.requests[index]? with
  | none => n
  | some request =>
      if request.response.isSome then n
      else
        { n with
          -- An exception in the lambda leaves the pool alone.
          storage := match verifyFetchedTxs cfg n.storage response request.txsHash none with
            | some (s, _) => s
            | none => n.storage
          requests := n.requests.set index { request with response := some response } }

/-- The events of a node: an operation on the pool, a packet of transactions
    received, the worker importing such packets, an announcement, and the answer
    to a request. -/
inductive SyncOp where
  | pool (op : TxPool.Op)
  | txsPacket (fromNode : NodeID) (txsData : Bytes)
  | maintainDownloadingTransactions (existsInGroup : Bool)
  | onPeerTxsStatus (fromNode : NodeID) (txsHash : HashList) (existsInGroup : Bool)
      (ledger : HashList → LedgerResponse)
  | onTxsResponse (index : Nat) (response : FrontResponse)

/-- The effect of one event. The answer to a request is an event of its own, so
    any number of other events may come before it. -/
def syncStep (cfg : TxPoolConfig) (n : SyncNode) : SyncOp → SyncNode
  | .pool op => { n with storage := TxPool.step cfg n.storage op }
  | .txsPacket fromNode txsData =>
      { n with downloadTxsBuffer := n.downloadTxsBuffer ++ [(fromNode, txsData)] }
  | .maintainDownloadingTransactions existsInGroup =>
      (maintainDownloadingTransactions cfg n existsInGroup).1
  | .onPeerTxsStatus fromNode txsHash existsInGroup ledger =>
      onPeerTxsStatus cfg n fromNode txsHash existsInGroup ledger
  | .onTxsResponse index response => onTxsResponse cfg n index response

end TransactionSync

/-! ### The executor asks -/

/-- One invocation of the callback of `asyncFillBlock`: an error or null, and a
    list of transactions or null. -/
structure FillResponse where
  error : Option Error
  txs : Option (List Transaction)
deriving DecidableEq

namespace TxPool

/-- The answer when a transaction is missing. It does not say which. -/
def fillMissing : FillResponse := ⟨some ⟨.transactionsMissing, "TransactionsMissing"⟩, none⟩

/-- `TxPool::fillBlock`, with what it does about missed hashes where it may
    fetch from the ledger. -/
def fillBlock (s : MemoryStorage) (txsHash : HashList)
    (fetchFromLedger : Option (HashList → MemoryStorage × List FillResponse)) :
    MemoryStorage × List FillResponse :=
  let (txs, missedTxs) := s.fetchTxs txsHash
  if missedTxs.length > 0 then
    match fetchFromLedger with
    -- Only the first look may lead to the ledger.
    | some getTxsFromLocalLedger => getTxsFromLocalLedger missedTxs
    | none => (s, [fillMissing])
  else (s, [⟨none, some txs⟩])

/-- The callback that `getTxsFromLocalLedger` hands to `requestMissedTxs`, for one
    invocation. The second look into the pool changes nothing. -/
def onRequested (txsHash : HashList) (response : VerifyResponse) : List FillResponse :=
  if response.error.isSome || !response.result then [fillMissing]
  else (fillBlock response.pool txsHash none).2

/-- `TxPool::getTxsFromLocalLedger`. No peer is named, so no front service is
    asked. -/
def getTxsFromLocalLedger (cfg : TxPoolConfig) (s : MemoryStorage) (txsHash : HashList)
    (ledger : HashList → LedgerResponse) (frontService : NodeID → HashList → FrontResponse)
    (missedTxs : HashList) : MemoryStorage × List FillResponse :=
  let (s, responses) := TransactionSync.requestMissedTxs cfg s none missedTxs none true ledger
    frontService
  (s, responses.flatMap (onRequested txsHash))

/-- `TxPool::asyncFillBlock`. Of the front service it makes no use, since no
    peer is named. -/
def asyncFillBlock (cfg : TxPoolConfig) (s : MemoryStorage) (txsHash : HashList)
    (ledger : HashList → LedgerResponse) (frontService : NodeID → HashList → FrontResponse) :
    MemoryStorage × List FillResponse :=
  fillBlock s txsHash (some (getTxsFromLocalLedger cfg s txsHash ledger frontService))

end TxPool

end BcosTxPool
