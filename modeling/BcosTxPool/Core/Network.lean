import Mathlib.Logic.Function.Basic
import BcosTxPool.Core.Dispatch

/-!
# A Network of Nodes

Nodes that run the code of this repository, and the front service between them.
What a node sends is in flight until it arrives. Messages may overtake each other
and may get lost, and the front service may give up on a request at any time. It
makes nothing up: what arrives was sent, and the sender is who sent it.

`TxPool::asyncNotifyTxsSyncMessage` hands over a packet with its `uuid`, and the
answer to it goes back to the sender under the same `uuid`. There the front service
finds the callback of the request. A response without a `uuid` belongs to no
request, and it gets nowhere.

Clients, the ledgers, consensus and the threads are the environment. What they do
at a node is an input that does not come over the network.

## Main definitions

* `Message`: What is in flight.
* `Network`: The nodes and the messages in flight.
* `NetOp`, `netStep`: One step of the network.
-/

namespace BcosTxPool

open Library

/-- What is on its way from one node to another: a packet, with a `uuid` if an
    answer is expected, or the answer to one. -/
inductive Message where
  | packet (src dst : NodeID) (uuid : Option Uuid) (data : Bytes)
  | response (src dst : NodeID) (uuid : Uuid) (data : Bytes)
deriving DecidableEq

namespace Message

/-- The node that a message is for. Its front service hands the message over. -/
def dst : Message → NodeID
  | .packet _ dst _ _ => dst
  | .response _ dst _ _ => dst

/-- What its arrival is to that node. The sender's name is put there by the
    front service, so it is the true one. -/
def input : Message → Input
  | .packet src _ uuid data => .asyncNotifyTxsSyncMessage none uuid src data
  | .response src _ uuid data => .onPeerResponse uuid ⟨none, src, data⟩

end Message

/-- The message that an output of a node is. The call of a callback is none. -/
def Output.message (src : NodeID) : Output → Option Message
  | .asyncSendMessage dst uuid data => some (.packet src dst uuid data)
  | .asyncSendResponse dst (some uuid) data => some (.response src dst uuid data)
  -- An answer to a packet that expects none goes nowhere.
  | _ => none

/-- The inputs that do not come over the network: the calls of the other
    modules, the turns of the threads and the answers of the ledger. -/
def Input.isLocal : Input → Bool
  | .asyncNotifyTxsSyncMessage _ _ _ _ => false
  | .onPeerResponse _ _ => false
  | _ => true

/-- Such an input, as a type: an act at a node cannot be a forged message. -/
abbrev LocalInput := { input : Input // input.isLocal = true }

/-- The nodes, and what is in flight between them. The list is a bag: any
    message of it may be the next to arrive. -/
structure Network where
  nodes : NodeID → Node
  flight : List Message := []

/-- What happens in a network: something at one node, a message arrives or is
    lost, or the front service of a node gives up on a request. -/
inductive NetOp where
  | act (nodeID : NodeID) (input : LocalInput)
  | deliver (index : Nat)
  | lose (index : Nat)
  | giveUp (nodeID : NodeID) (uuid : Uuid) (error : Error)

namespace Network

/-- The node that an operation is at and the input that it is to that node. -/
def input (w : Network) : NetOp → Option (NodeID × Input)
  | .act nodeID input => some (nodeID, input.1)
  | .deliver index => (w.flight[index]?).map (fun message => (message.dst, message.input))
  | .lose _ => none
  -- An error or a timeout of the front service is an answer as well.
  | .giveUp nodeID uuid error => some (nodeID, .onPeerResponse uuid ⟨some error, nodeID, []⟩)

/-- What stays in flight. A message arrives once. -/
def remaining (w : Network) : NetOp → List Message
  | .deliver index => w.flight.eraseIdx index
  | .lose index => w.flight.eraseIdx index
  | _ => w.flight

end Network

/-- One step of the network. The configuration of each node is its own. -/
def netStep (cfg : NodeID → TxPoolConfig) (codec : Codec) (forwardPercent : Nat) (w : Network)
    (op : NetOp) : Network :=
  match w.input op with
  | none => { w with flight := w.remaining op }
  | some (nodeID, input) =>
      let (n, out) := nodeStep (cfg nodeID) codec forwardPercent (w.nodes nodeID) input
      { nodes := Function.update w.nodes nodeID n
        flight := w.remaining op ++ out.filterMap (Output.message nodeID) }

end BcosTxPool
