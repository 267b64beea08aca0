import BcosTxPool.Core.Gossip
import BcosTxPool.Core.Requests

/-!
# A Node and Its Queues

A node as the front service and the other modules see it: inputs go in, packets
and callbacks come out, and work waits in queues in between.

`onRecvSyncMessage` decides by the type of a packet. Transactions go into the
download buffer, a request is a task for `m_worker` and an announcement one for
`m_txsRequester`. Each of these pools has one thread, so its tasks run in the
order in which they came. The worker of the sync module imports what has been
downloaded and passes new transactions on.

A request for missed transactions has three stages, and anything may happen
between them. The ledger is asked, its answer arrives, and what it leaves is
requested from a peer, whose answer arrives under the `uuid` of the request. An
announcement, the verification of a proposal and the filling of a block all go
this way; they differ in the callback, which carries what it has captured.
`requestMissedTxs` and its callers are modelled elsewhere with the two answers
as arguments. Here the answers are inputs of their own.

An exception that a handler raises is logged and ends the handler. What the
framework does with a worker thread after one is not modelled: whether further
turns follow is up to the inputs.

## Main definitions

* `Node`: The pool, the queues and the requests under way.
* `onRecvSyncMessage`: A packet arrives.
* `executeWorker`, `runWorker`, `runTxsRequester`: The three threads.
* `requestMissedTxs`, `onLedgerResponse`, `onPeerResponse`: The stages of a request.
* `asyncVerifyBlock`, `asyncFillBlock`: The callers with a callback.
* `Input`, `Output`, `nodeStep`, `nodeNext`, `nodeOutput`: One step of a node.
-/

namespace BcosTxPool

open Library

/-- The number under which the front service keeps the callback of a request. It
    goes out with the packet, and the answer brings it back. -/
abbrev Uuid := Nat

/-- A request of a peer that waits on `m_worker`, with the number under which
    the answer is expected. -/
structure RequestTask where
  txsRequest : TxsSyncMsg
  uuid : Option Uuid
  nodeID : NodeID
deriving DecidableEq

/-- An `_onVerifyFinished` of `requestMissedTxs` with what it has captured: the
    wrapper of `asyncVerifyBlock`, or the lambda of `getTxsFromLocalLedger`. The
    callback behind it is known by a number. -/
inductive OnVerifyFinished where
  | verifyBlock (callback : Nat) (block : Block) (missedTxs : HashList)
  | fillBlock (callback : Nat) (txsHash : HashList)
deriving DecidableEq

/-- A request for missed transactions that waits for the ledger. If the ledger
    leaves hashes, the peer named is asked next. -/
structure LedgerRequest where
  generatedNodeID : Option NodeID
  missedTxs : HashList
  onVerifyFinished : Option OnVerifyFinished
deriving DecidableEq

/-- A request for missed transactions that waits for a peer, under its number,
    with the hashes that were sent. -/
structure PeerRequest where
  uuid : Uuid
  nodeID : NodeID
  missedTxs : HashList
  onVerifyFinished : Option OnVerifyFinished
deriving DecidableEq

/-- A node: its pool, the packets downloaded, the tasks of `m_worker` and
    `m_txsRequester`, and the requests under way. -/
structure Node where
  storage : MemoryStorage
  downloadTxsBuffer : List (NodeID × Bytes) := []
  worker : List RequestTask := []
  txsRequester : List (NodeID × HashList) := []
  ledgerRequests : List LedgerRequest := []
  peerRequests : List PeerRequest := []
  nextUuid : Uuid := 0

/-- What leaves a node: a packet, with a `uuid` where an answer is expected, the
    answer to one, and the calls of the callbacks of `asyncVerifyBlock` and
    `asyncFillBlock`. -/
inductive Output where
  | asyncSendMessage (dst : NodeID) (uuid : Option Uuid) (data : Bytes)
  | asyncSendResponse (dst : NodeID) (uuid : Option Uuid) (data : Bytes)
  | onVerifyFinished (callback : Nat) (response : VerifyResponse)
  | onBlockFilled (callback : Nat) (response : FillResponse)

namespace OnVerifyFinished

/-- The proposal that `requestMissedTxs` is given along with the callback.
    Without one an import is not enforced. -/
def verifiedProposal : Option OnVerifyFinished → Option Block
  | some (.verifyBlock _ block _) => some block
  | _ => none

/-- What one invocation leads to. A verification is reported in any case, a fill
    once the pool has been looked up again. -/
def invoke (response : VerifyResponse) : OnVerifyFinished → List Output
  | .verifyBlock callback _ missedTxs =>
      [.onVerifyFinished callback (TxPool.onVerifyFinishedWrapper missedTxs response)]
  | .fillBlock callback txsHash =>
      (TxPool.onRequested txsHash response).map (.onBlockFilled callback)

/-- What several invocations of a callback lead to, if there is one. -/
def invokeAll (onVerifyFinished : Option OnVerifyFinished) (responses : List VerifyResponse) :
    List Output :=
  match onVerifyFinished with
  | none => []
  | some f => responses.flatMap (fun response => invoke response f)

end OnVerifyFinished

namespace Node

open TransactionSync

/-! ### A packet arrives -/

/-- `TransactionSync::onRecvSyncMessage`. A packet that does not decode is
    dropped, and so is one of another type. -/
def onRecvSyncMessage (cfg : TxPoolConfig) (n : Node) (error : Option Error) (nodeID : NodeID)
    (data : Bytes) (uuid : Option Uuid) : Node :=
  match error with
  | some _ => n
  | none =>
    match cfg.framework.createTxsSyncMsg data with
    | none => n
    | some txsSyncMsg =>
      match txsSyncMsg.type with
      -- Imported later, by the worker or before an announcement is looked at.
      | .txsPacket =>
          { n with downloadTxsBuffer := n.downloadTxsBuffer ++ [(nodeID, txsSyncMsg.txsData)] }
      | .txsRequestPacket => { n with worker := n.worker ++ [⟨txsSyncMsg, uuid, nodeID⟩] }
      | .txsStatusPacket =>
          { n with txsRequester := n.txsRequester ++ [(nodeID, txsSyncMsg.txsHash)] }
      -- A response is the business of the callback that waits for it.
      | _ => n

/-! ### Requests for missed transactions -/

/-- `TransactionSync::requestMissedTxs` up to the question to the ledger. The
    rest is what the ledger's answer does. -/
def requestMissedTxs (n : Node) (generatedNodeID : Option NodeID) (missedTxs : HashList)
    (onVerifyFinished : Option OnVerifyFinished) : Node :=
  { n with
    ledgerRequests := n.ledgerRequests ++ [⟨generatedNodeID, missedTxs, onVerifyFinished⟩] }

/-- `TransactionSync::requestMissedTxsFromPeer` up to the packet. The callback
    waits under a fresh number. -/
def requestMissedTxsFromPeer (codec : Codec) (n : Node) (generatedNodeID : NodeID)
    (missedTxs : HashList) (onVerifyFinished : Option OnVerifyFinished) : Node × List Output :=
  -- Without a callback even an empty request is sent.
  if missedTxs.length = 0 && onVerifyFinished.isSome then
    (n, OnVerifyFinished.invokeAll onVerifyFinished [⟨none, true, n.storage⟩])
  else
    let txsRequest : TxsSyncMsg := ⟨.txsRequestPacket, missedTxs, []⟩
    ({ n with
        peerRequests := n.peerRequests ++ [⟨n.nextUuid, generatedNodeID, missedTxs,
          onVerifyFinished⟩]
        nextUuid := n.nextUuid + 1 },
      [.asyncSendMessage generatedNodeID (some n.nextUuid) (codec.encodeTxsSyncMsg txsRequest)])

/-- What `requestMissedTxs` does with the ledger's answer to a request. -/
def onLedgerAnswer (cfg : TxPoolConfig) (codec : Codec) (n : Node) (r : LedgerRequest)
    (response : LedgerResponse) : Node × List Output :=
  let (s, missedTxsSet, responses) := onGetMissedTxsFromLedger cfg n.storage
    (SortedSet.ofList r.missedTxs) response (OnVerifyFinished.verifiedProposal r.onVerifyFinished)
    r.onVerifyFinished.isSome
  -- The import has happened even where the answer does not settle the request.
  let n := { n with storage := s }
  let invoked := OnVerifyFinished.invokeAll r.onVerifyFinished responses
  if missedTxsSet.size = 0 then (n, invoked)
  else
    match r.generatedNodeID with
    -- No peer is named where a block is filled, and then the request ends here.
    | none =>
        (n, invoked ++ OnVerifyFinished.invokeAll r.onVerifyFinished
          [⟨some ⟨.transactionsMissing,
            "requestMissedTxs failed from the ledger for Transaction missing"⟩, false, s⟩])
    | some generatedNodeID =>
        let (n, out) := requestMissedTxsFromPeer codec n generatedNodeID missedTxsSet.toList
          r.onVerifyFinished
        (n, invoked ++ out)

/-- The ledger answers the question at a place of the list. It answers each
    once, in any order. -/
def onLedgerResponse (cfg : TxPoolConfig) (codec : Codec) (n : Node) (index : Nat)
    (response : LedgerResponse) : Node × List Output :=
  match n.ledgerRequests[index]? with
  | none => (n, [])
  | some r =>
      onLedgerAnswer cfg codec { n with ledgerRequests := n.ledgerRequests.eraseIdx index } r
        response

/-- The lambda of `requestMissedTxsFromPeer`, with the answer to a request. An
    exception in it is swallowed. -/
def onPeerAnswer (cfg : TxPoolConfig) (n : Node) (r : PeerRequest) (response : FrontResponse) :
    Node × List Output :=
  match verifyFetchedTxs cfg n.storage response r.missedTxs
    (OnVerifyFinished.verifiedProposal r.onVerifyFinished) with
  -- The callback is lost with the exception.
  | none => (n, [])
  | some (s, responses) =>
      ({ n with storage := s }, OnVerifyFinished.invokeAll r.onVerifyFinished responses)

/-- The front service calls the callback of a request and forgets it. An error and
    a timeout are answers too. -/
def onPeerResponse (cfg : TxPoolConfig) (n : Node) (uuid : Uuid) (response : FrontResponse) :
    Node × List Output :=
  match n.peerRequests.find? (fun r => r.uuid = uuid) with
  | none => (n, [])
  | some r =>
      onPeerAnswer cfg
        { n with peerRequests := n.peerRequests.filter (fun r => r.uuid ≠ uuid) } r response

/-! ### The threads -/

/-- The part of a node that `maintainDownloadingTransactions` works on: the
    worker and the handler of announcements both call it. -/
def sync (n : Node) : SyncNode := ⟨n.storage, n.downloadTxsBuffer, []⟩

/-- The node after it. -/
def withSync (n : Node) (m : SyncNode) : Node :=
  { n with storage := m.storage, downloadTxsBuffer := m.downloadTxsBuffer }

/-- The message that carries a packet of the gossip. -/
def packetMsg (codec : Codec) : Packet → TxsSyncMsg
  | .txsPacket transactions => ⟨.txsPacket, [], codec.encodeBlock ⟨none, [], transactions⟩⟩
  | .txsStatusPacket txsHash => ⟨.txsStatusPacket, txsHash, []⟩

/-- A packet of the gossip is sent. No answer is expected. -/
def sendPacket (codec : Codec) (sent : Sent) : Output :=
  .asyncSendMessage sent.nodeID none (codec.encodeTxsSyncMsg (packetMsg codec sent.packet))

/-- `TransactionSync::executeWorker`, one turn of the worker. -/
def executeWorker (cfg : TxPoolConfig) (codec : Codec) (forwardPercent : Nat) (n : Node)
    (existsInGroup : Bool) (order : HashList) (connectedNodeList : Finset NodeID)
    (consensusNodeList : List NodeID) : Node × List Output :=
  -- An exception in the import ends the turn.
  match maintainDownloadingTransactions cfg n.sync existsInGroup with
  | (m, false) => (n.withSync m, [])
  | (m, true) =>
      let n := n.withSync m
      -- Packets may have come in meanwhile, and they go first.
      if existsInGroup && n.downloadTxsBuffer.length = 0 && n.storage.newTransactions then
        let (s, _, sent) := maintainTransactions cfg forwardPercent n.storage order
          connectedNodeList consensusNodeList
        ({ n with storage := s }, sent.map (sendPacket codec))
      else (n, [])

/-- The next task of `m_worker`: `onReceiveTxsRequest`. The answer is made from
    the pool as it is now, not as it was when the request arrived. -/
def runWorker (codec : Codec) (n : Node) : Node × List Output :=
  match n.worker with
  | [] => (n, [])
  | task :: worker =>
      ({ n with worker := worker },
        [.asyncSendResponse task.nodeID task.uuid
          (onReceiveTxsRequest codec n.storage task.txsRequest)])

/-- `TransactionSync::onPeerTxsStatus`. -/
def onPeerTxsStatus (cfg : TxPoolConfig) (n : Node) (fromNode : NodeID) (txsHash : HashList)
    (existsInGroup : Bool) : Node :=
  match maintainDownloadingTransactions cfg n.sync existsInGroup with
  -- The announcement is lost with the exception.
  | (m, false) => n.withSync m
  | (m, true) =>
      let n := n.withSync m
      if txsHash.length = 0 then n
      else
        let (s, requestTxs) := n.storage.filterUnknownTxs cfg txsHash fromNode
        let n := { n with storage := s }
        if requestTxs.length = 0 then n
        -- Nobody waits for what an announcement leads to.
        else n.requestMissedTxs (some fromNode) requestTxs none

/-- The next task of `m_txsRequester`: an announcement is looked at. Whether the
    node is in the group is asked now. -/
def runTxsRequester (cfg : TxPoolConfig) (n : Node) (existsInGroup : Bool) : Node :=
  match n.txsRequester with
  | [] => n
  | task :: txsRequester =>
      onPeerTxsStatus cfg { n with txsRequester := txsRequester } task.1 task.2 existsInGroup

/-! ### Consensus and the executor ask -/

/-- `TxPool::asyncVerifyBlock`. Where decoding the block throws nothing is
    done. -/
def asyncVerifyBlock (cfg : TxPoolConfig) (n : Node) (callback : Nat)
    (generatedNodeID : Option NodeID) (data : Bytes) : Node × List Output :=
  match cfg.framework.createBlock data with
  | none => (n, [])
  | some block =>
      let missedTxs := n.storage.batchVerifyProposal block
      if missedTxs.length = 0 then
        (n, OnVerifyFinished.invoke ⟨none, true, n.storage⟩ (.verifyBlock callback block missedTxs))
      else
        (n.requestMissedTxs generatedNodeID missedTxs
          (some (.verifyBlock callback block missedTxs)), [])

/-- `TxPool::asyncFillBlock`. Where the pool holds everything the callback is
    made at once. -/
def asyncFillBlock (n : Node) (callback : Nat) (txsHash : HashList) : Node × List Output :=
  let (txs, missedTxs) := n.storage.fetchTxs txsHash
  if missedTxs.length > 0 then
    -- Only the ledger is asked.
    (n.requestMissedTxs none missedTxs (some (.fillBlock callback txsHash)), [])
  else (n, [.onBlockFilled callback ⟨none, some txs⟩])

end Node

/-! ### Steps -/

/-- The operations that come from clients, the sealer and consensus, and the
    cleanup. The others are the sync module's own. -/
def TxPool.Op.isCall : TxPool.Op → Bool
  | .asyncSubmit _ _ _ => true
  | .asyncSealTxs _ _ _ => true
  | .removeInvalidTxs => true
  | .asyncNotifyBlockResult _ _ => true
  | .asyncMarkTxs _ _ _ _ => true
  | .asyncResetTxPool => true
  | _ => false

/-- Such an operation, as a type: an input cannot be an operation that only the
    sync module makes. -/
abbrev PoolCall := { op : TxPool.Op // op.isCall = true }

/-- What a node reacts to: calls of other modules, packets, the turns of its
    three threads, and the answers of the ledger and of peers. -/
inductive Input where
  | call (op : PoolCall)
  | asyncNotifyTxsSyncMessage (error : Option Error) (uuid : Option Uuid) (nodeID : NodeID)
      (data : Bytes)
  | executeWorker (existsInGroup : Bool) (order : HashList) (connectedNodeList : Finset NodeID)
      (consensusNodeList : List NodeID)
  | worker
  | txsRequester (existsInGroup : Bool)
  | asyncVerifyBlock (callback : Nat) (generatedNodeID : Option NodeID) (data : Bytes)
  | asyncFillBlock (callback : Nat) (txsHash : HashList)
  | onLedgerResponse (index : Nat) (response : LedgerResponse)
  | onPeerResponse (uuid : Uuid) (response : FrontResponse)

/-- One step of a node: the node after it, and what leaves it. -/
def nodeStep (cfg : TxPoolConfig) (codec : Codec) (forwardPercent : Nat) (n : Node) :
    Input → Node × List Output
  -- What such a call reports goes into the receipts of the pool.
  | .call op => ({ n with storage := TxPool.step cfg n.storage op.1 }, [])
  | .asyncNotifyTxsSyncMessage error uuid nodeID data =>
      (n.onRecvSyncMessage cfg error nodeID data uuid, [])
  | .executeWorker existsInGroup order connectedNodeList consensusNodeList =>
      n.executeWorker cfg codec forwardPercent existsInGroup order connectedNodeList
        consensusNodeList
  | .worker => n.runWorker codec
  | .txsRequester existsInGroup => (n.runTxsRequester cfg existsInGroup, [])
  | .asyncVerifyBlock callback generatedNodeID data =>
      n.asyncVerifyBlock cfg callback generatedNodeID data
  | .asyncFillBlock callback txsHash => n.asyncFillBlock callback txsHash
  | .onLedgerResponse index response => n.onLedgerResponse cfg codec index response
  | .onPeerResponse uuid response => n.onPeerResponse cfg uuid response

/-- The node after one step. -/
def nodeNext (cfg : TxPoolConfig) (codec : Codec) (forwardPercent : Nat) (n : Node)
    (input : Input) : Node :=
  (nodeStep cfg codec forwardPercent n input).1

/-- What leaves a node in one step. -/
def nodeOutput (cfg : TxPoolConfig) (codec : Codec) (forwardPercent : Nat) (n : Node)
    (input : Input) : List Output :=
  (nodeStep cfg codec forwardPercent n input).2

end BcosTxPool
