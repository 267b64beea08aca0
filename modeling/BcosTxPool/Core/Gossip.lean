import BcosTxPool.Core.Concurrency
import BcosTxPool.Core.Pool
import Mathlib.Data.Finset.Card

/-!
# Gossip

How the sync worker passes new transactions on. `maintainTransactions` takes
the transactions that are not synced yet and goes over them twice.
`broadcastTxsFromRpc` sends those that a client waits for to every consensus
node in full, and notes the connected ones as knowing them.
`forwardTxsFromP2P` then picks, for each of all the transactions, some
connected consensus nodes that are not noted, and sends them its hash.

The transactions fetched are the objects of the table. The two phases pass them
on with what they have noted, and `storeKnownNodes` is how the notes show in the
table at the end of the call.

The nodes connected are a set, the consensus nodes a list in which a node may
stand more than once. A packet is kept as what it says, before the framework
encodes it.

## Main definitions

* `Packet`, `Sent`: A packet and where it goes.
* `selectPeers`: The nodes that a hash is sent to.
* `broadcastTxsFromRpc`, `forwardTxsFromP2P`: The two phases.
* `maintainTransactions`: The whole call.
* `GossipNode`, `GossipOp`, `gossipStep`: A node that imports and gossips.
-/

namespace BcosTxPool

open Library

/-- A packet that the gossip of a node sends. -/
inductive Packet where
  | txsPacket (transactions : List TxData)
  | txsStatusPacket (txsHash : HashList)
deriving DecidableEq

/-- A packet and the node it is sent to. Whether it arrives is a matter of the
    network. -/
structure Sent where
  nodeID : NodeID
  packet : Packet
deriving DecidableEq

namespace TransactionSync

/-- `m_forwardPercent` where nothing else is set: a hash goes to a quarter of
    the connected nodes. -/
def defaultForwardPercent : Nat := 25

/-- `TransactionSync::selectPeers`: the transaction with its known nodes, and the
    nodes selected. -/
def selectPeers (cfg : TxPoolConfig) (connectedPeers : Finset NodeID) (expectedSize : Nat) :
    List NodeID → Transaction → List NodeID → Transaction × List NodeID
  | [], tx, selectedPeers => (tx, selectedPeers)
  | nodeId :: consensusNodeList, tx, selectedPeers =>
    if ¬ nodeId ∈ connectedPeers then
      selectPeers cfg connectedPeers expectedSize consensusNodeList tx selectedPeers
    else if nodeId = cfg.nodeID then
      selectPeers cfg connectedPeers expectedSize consensusNodeList tx selectedPeers
    else if nodeId ∈ tx.knownNodes then
      selectPeers cfg connectedPeers expectedSize consensusNodeList tx selectedPeers
    else
      let selectedPeers := selectedPeers ++ [nodeId]
      let tx := { tx with knownNodes := Insert.insert nodeId tx.knownNodes }
      -- Only after the node has been selected is the number compared.
      if selectedPeers.length ≥ expectedSize then (tx, selectedPeers)
      else selectPeers cfg connectedPeers expectedSize consensusNodeList tx selectedPeers

/-- The inner loop of `broadcastTxsFromRpc`, on a transaction that a client waits
    for: the connected consensus nodes know it. -/
def noteConsensusNodes (connectedPeers : Finset NodeID) (consensusNodeList : List NodeID)
    (tx : Transaction) : Transaction :=
  if tx.submitCallback.isNone then tx
  else
    { tx with
      knownNodes := consensusNodeList.foldl (fun knownNodes node =>
        if node ∈ connectedPeers then Insert.insert node knownNodes else knownNodes)
        tx.knownNodes }

/-- `TransactionSync::broadcastTxsFromRpc`: the transactions with their known
    nodes, and the packets. -/
def broadcastTxsFromRpc (cfg : TxPoolConfig) (connectedPeers : Finset NodeID)
    (consensusNodeList : List NodeID) (txs : List Transaction) : List Transaction × List Sent :=
  -- The block carries the contents; the flags of a transaction are not encoded.
  let block := (txs.filter (fun tx => tx.submitCallback.isSome)).map (fun tx => tx.toTxData)
  let txs := txs.map (noteConsensusNodes connectedPeers consensusNodeList)
  if block.length = 0 then (txs, [])
  else
    -- Whether a node is connected is not asked here, and one that the list names twice
    -- is sent the packet twice.
    (txs, (consensusNodeList.filter (fun consensusNode => consensusNode ≠ cfg.nodeID)).map
      (fun consensusNode => ⟨consensusNode, .txsPacket block⟩))

/-- `peerToForwardedTxs[peer]->emplace_back(txHash)`, where the list may have to
    be made first. The map is ordered by its keys. -/
def forwardTo (peer : NodeID) (txHash : HashType) :
    List (NodeID × HashList) → List (NodeID × HashList)
  | [] => [(peer, [txHash])]
  | it :: peerToForwardedTxs =>
    -- Before the first larger key there is no list for the peer yet.
    if peer < it.1 then (peer, [txHash]) :: it :: peerToForwardedTxs
    else if peer = it.1 then (it.1, it.2 ++ [txHash]) :: peerToForwardedTxs
    else it :: forwardTo peer txHash peerToForwardedTxs

/-- One turn of the first loop of `forwardTxsFromP2P`: the peers are selected
    for one transaction and its hash is added to their lists. -/
def forwardTx (cfg : TxPoolConfig) (connectedPeers : Finset NodeID)
    (consensusNodeList : List NodeID) (expectedPeers : Nat)
    (acc : List Transaction × List (NodeID × HashList)) (tx : Transaction) :
    List Transaction × List (NodeID × HashList) :=
  let (tx, selectedPeers) := selectPeers cfg connectedPeers expectedPeers consensusNodeList tx []
  (acc.1 ++ [tx],
    selectedPeers.foldl (fun peerToForwardedTxs peer => forwardTo peer tx.hash peerToForwardedTxs)
      acc.2)

/-- `TransactionSync::forwardTxsFromP2P`: the transactions with their known nodes,
    and the packets. -/
def forwardTxsFromP2P (cfg : TxPoolConfig) (forwardPercent : Nat) (connectedPeers : Finset NodeID)
    (consensusNodeList : List NodeID) (txs : List Transaction) : List Transaction × List Sent :=
  -- A percentage of all that are connected, rounded up.
  let expectedPeers := (connectedPeers.card * forwardPercent + 99) / 100
  let (txs, peerToForwardedTxs) :=
    txs.foldl (forwardTx cfg connectedPeers consensusNodeList expectedPeers) ([], [])
  (txs, peerToForwardedTxs.map (fun it => ⟨it.1, .txsStatusPacket it.2⟩))

/-- What has been noted on the transactions, in the table. -/
def storeKnownNodes (s : MemoryStorage) (txs : List Transaction) : MemoryStorage :=
  txs.foldl (fun s tx => { s with
    txsTable := s.txsTable.modify tx.hash
      (fun entry => { entry with knownNodes := tx.knownNodes }) }) s

/-- `TransactionSync::maintainTransactions`: the pool, the transactions fetched
    and the packets. The walk over the table has the given order. -/
def maintainTransactions (cfg : TxPoolConfig) (forwardPercent : Nat) (s : MemoryStorage)
    (order : HashList) (connectedNodeList : Finset NodeID) (consensusNodeList : List NodeID) :
    MemoryStorage × List Transaction × List Sent :=
  let (s, txs) := s.fetchNewTxs maxSendTransactions order []
  if txs.length = 0 then ({ s with newTransactions := false }, [], [])
  else
    -- What the first phase notes on the transactions, the second one finds on them.
    let (noted, packets) := broadcastTxsFromRpc cfg connectedNodeList consensusNodeList txs
    let (noted, statuses) :=
      forwardTxsFromP2P cfg forwardPercent connectedNodeList consensusNodeList noted
    (storeKnownNodes s noted, txs, packets ++ statuses)

/-! ### A node that gossips -/

/-- The pool, the hashes that `fetchNewTxs` has taken so far and the packets sent
    so far. -/
structure GossipNode where
  storage : MemoryStorage
  fetchedTxs : HashList := []
  sent : List Sent := []

/-- A transaction comes in from a client or from other nodes, or the worker
    gossips with the nodes as they are then. The lists of nodes change from call
    to call. -/
inductive GossipOp where
  | asyncSubmit (existsInGroup : Bool) (txData : Bytes)
      (txSubmitCallback : Option TxSubmitCallback)
  | importDownloadedTxs (fromNode : NodeID) (txs : List TxData) (verifiedProposal : Option Block)
  | maintainTransactions (order : HashList) (connectedNodeList : Finset NodeID)
      (consensusNodeList : List NodeID)

/-- The effect of one operation. Only a call of the worker fetches and sends. -/
def gossipStep (cfg : TxPoolConfig) (forwardPercent : Nat) (n : GossipNode) :
    GossipOp → GossipNode
  | .asyncSubmit existsInGroup txData txSubmitCallback =>
      { n with storage := TxPool.asyncSubmit cfg n.storage existsInGroup txData txSubmitCallback }
  | .importDownloadedTxs fromNode txs verifiedProposal =>
      { n with storage := (importDownloadedTxs cfg n.storage fromNode txs verifiedProposal).1 }
  | .maintainTransactions order connectedNodeList consensusNodeList =>
      let (s, txs, packets) := maintainTransactions cfg forwardPercent n.storage order
        connectedNodeList consensusNodeList
      { storage := s
        fetchedTxs := n.fetchedTxs ++ txs.map (fun tx => tx.hash)
        sent := n.sent ++ packets }

end TransactionSync

end BcosTxPool
