import BcosTxPool.Library.Account
import BcosTxPool.Theory.Callbacks

/-!
# Every Message Is Handled Once and in Order

A node keeps three queues: the packets downloaded, the requests of peers and the
announcements of peers. Messages are put at their ends while threads take from
their heads, in any order of events.

For each queue what was there at the beginning, with what has arrived since
behind it, is what has been taken, with what is still there behind it. So nothing
is lost, nothing is handled twice, and nothing overtakes. Requests and announcements
are taken one at a time. The packets are taken all at once, by whichever thread
comes first: the sync worker, or the thread that looks at an announcement and
imports first what was downloaded.

A request that has been taken has been answered, and no answer is sent otherwise.
What the peer gets is what the pool held when its turn came.

## Main definitions

* `Node.served`: The requests that a step takes, with the pool they meet.
* `Node.taken`, `Node.handled`: The packets and the announcements that a step takes.
* `responses`: The answers among what leaves a node.

## Theorems

* `nodeStep_queues`: One step.
* `queues_in_order`: Every run.
-/

namespace BcosTxPool

open Library

/-- The answers that are sent, out of all that leaves a node. -/
def responses (out : List Output) : List (NodeID × Option Uuid × Bytes) :=
  out.filterMap fun
    | .asyncSendResponse dst uuid data => some (dst, uuid, data)
    | _ => none

namespace Node

open TransactionSync

/-- The requests that a step takes, with the pool they are answered from. The
    worker takes one request at a time, and it is the only thread that takes
    any. -/
def served (n : Node) : Input → List (RequestTask × MemoryStorage)
  | .worker => (n.worker.take 1).map (fun task => (task, n.storage))
  | _ => []

/-- The packets that a step takes. Either thread takes all of them at once, and
    the one that looks at announcements only if there is one. -/
def taken (n : Node) : Input → List (NodeID × Bytes)
  | .executeWorker _ _ _ _ => n.downloadTxsBuffer
  | .txsRequester _ => if n.txsRequester = [] then [] else n.downloadTxsBuffer
  | _ => []

/-- The announcements that a step takes, one at a time like the requests. -/
def handled (n : Node) : Input → List (NodeID × HashList)
  | .txsRequester _ => n.txsRequester.take 1
  | _ => []

variable (cfg : TxPoolConfig) (codec : Codec) (forwardPercent : Nat)

/-- The answer to a request: to the peer that sent it, under its number, with
    what the pool holds of the hashes. -/
def answer (request : RequestTask × MemoryStorage) : NodeID × Option Uuid × Bytes :=
  (request.1.nodeID, request.1.uuid, onReceiveTxsRequest codec request.2 request.1.txsRequest)

/-- What a step does to the queues, and which answers it sends. In each equation
    the left side is what there was with what arrives, and the right side is
    what is taken with what stays. -/
structure QueueStep (n : Node) (input : Input) (after : Node × List Output) : Prop where
  worker : n.worker ++ input.tasks cfg
    = (n.served input).map (fun request => request.1) ++ after.1.worker
  downloadTxsBuffer : n.downloadTxsBuffer ++ input.packets cfg
    = n.taken input ++ after.1.downloadTxsBuffer
  txsRequester : n.txsRequester ++ input.announcements cfg
    = n.handled input ++ after.1.txsRequester
  responses : responses after.2 = (n.served input).map (answer codec)

/-- A step that leaves the queues alone. Most events are of this kind: they take
    nothing, bring nothing and answer nobody. -/
theorem queueStep_of_same {n : Node} {input : Input} {after : Node × List Output}
    (hmessage : input.message cfg = none) (hserved : n.served input = [])
    (htaken : n.taken input = []) (hhandled : n.handled input = [])
    (hworker : after.1.worker = n.worker)
    (hbuffer : after.1.downloadTxsBuffer = n.downloadTxsBuffer)
    (hrequester : after.1.txsRequester = n.txsRequester)
    (hresponses : BcosTxPool.responses after.2 = []) : QueueStep cfg codec n input after where
  worker := by
    rw [hworker, hserved, Input.tasks, hmessage, List.map_nil, List.append_nil, List.nil_append]
  downloadTxsBuffer := by
    rw [hbuffer, htaken, Input.packets, hmessage, List.append_nil, List.nil_append]
  txsRequester := by
    rw [hrequester, hhandled, Input.announcements, hmessage, List.append_nil, List.nil_append]
  responses := by
    rw [hresponses, hserved, List.map_nil]

/-- A callback answers its own caller, and no peer. -/
theorem responses_invokeAll (onVerifyFinished : Option OnVerifyFinished)
    (verdicts : List VerifyResponse) :
    responses (OnVerifyFinished.invokeAll onVerifyFinished verdicts) = [] := by
  unfold OnVerifyFinished.invokeAll
  cases onVerifyFinished with
  | none => rfl
  | some f =>
      rw [responses, List.filterMap_eq_nil_iff]
      intro out hout
      rcases List.mem_flatMap.mp hout with ⟨verdict, _, hinvoked⟩
      cases f with
      | verifyBlock callback block missedTxs => rw [List.mem_singleton.mp hinvoked]
      | fillBlock callback txsHash =>
          rcases List.mem_map.mp hinvoked with ⟨response, _, rfl⟩
          rfl

/-- Gossip is sent as messages, and none of them is an answer. -/
theorem responses_sendPacket (sent : List Sent) :
    responses (sent.map (sendPacket codec)) = [] := by
  rw [responses, List.filterMap_map]
  exact List.filterMap_eq_nil_iff.mpr (fun _ _ => rfl)

/-- A thread takes from the front of its queue and the network adds at the back.
    What the sync worker and an announcement take is the whole buffer. -/
theorem nodeStep_queues {n : Node} (h : n.Consistent) (input : Input) :
    QueueStep cfg codec n input (nodeStep cfg codec forwardPercent n input) := by
  have hstep := nodeStep_cases cfg codec forwardPercent h.missed input
  generalize nodeStep cfg codec forwardPercent n input = after at hstep ⊢
  cases hstep with
  -- A message goes to the end of its queue, by its type.
  | received error uuid nodeID data => exact ⟨rfl, rfl, rfl, rfl⟩
  -- An empty queue gives nothing away, and neither does an event that is passed
  -- over.
  | ignored hignores =>
      cases hignores with
      | worker hworker =>
          refine queueStep_of_same cfg codec rfl ?_ rfl rfl rfl rfl rfl rfl
          rw [served, hworker]
          rfl
      | txsRequester hrequester =>
          refine queueStep_of_same cfg codec rfl rfl (if_pos hrequester) ?_ rfl rfl rfl rfl
          rw [handled, hrequester]
          rfl
      | _ => exact queueStep_of_same cfg codec rfl rfl rfl rfl rfl rfl rfl rfl
  | imported hquiet => exact ⟨List.append_nil _, rfl, List.append_nil _, rfl⟩
  | gossiped hgossips =>
      exact ⟨List.append_nil _, rfl, List.append_nil _, responses_sendPacket codec _⟩
  | @served task worker hworker =>
      have hserved : n.served .worker = [(task, n.storage)] := by rw [served, hworker]; rfl
      refine ⟨?_, List.append_nil _, List.append_nil _, ?_⟩
      · rw [hserved, hworker]
        exact List.append_nil _
      · rw [hserved]
        rfl
  | @announced existsInGroup task txsRequester filtered hrequester hfiltered =>
      -- An announcement empties the buffer of packets before it is looked at.
      have htaken : n.taken (.txsRequester existsInGroup) = n.downloadTxsBuffer := by
        rw [taken, if_neg]
        rw [hrequester]
        exact List.cons_ne_nil task txsRequester
      have hhandled : n.handled (.txsRequester existsInGroup) = [task] := by
        rw [handled, hrequester]
        rfl
      refine ⟨List.append_nil _, ?_, ?_, rfl⟩
      · rw [htaken]
        rfl
      · rw [hhandled, hrequester]
        exact List.append_nil _
  -- A verdict answers no peer.
  | ledgerVerdict hrequest hbrings hverdict =>
      exact queueStep_of_same cfg codec rfl rfl rfl rfl rfl rfl rfl (responses_invokeAll _ _)
  | peerVerdict hrequest hverify =>
      exact queueStep_of_same cfg codec rfl rfl rfl rfl rfl rfl rfl (responses_invokeAll _ _)
  | _ => exact queueStep_of_same cfg codec rfl rfl rfl rfl rfl rfl rfl rfl

end Node

/-- Over any run of a node that starts with empty queues, the requests, the
    packets and the announcements that have arrived are those taken, and then
    those that still wait, in the order of their arrival. The answers sent are
    those to the requests taken, one for each and in that order, from the pool
    as it was when the request was taken. -/
theorem queues_in_order (cfg : TxPoolConfig) (codec : Codec) (forwardPercent : Nat)
    (s : MemoryStorage) (inputs : List Input) :
    let next := nodeNext cfg codec forwardPercent
    let n := run next { storage := s } inputs
    let served := gather next Node.served { storage := s } inputs
    inputs.flatMap (Input.tasks cfg) = served.map (fun request => request.1) ++ n.worker ∧
      responses (gather next (nodeOutput cfg codec forwardPercent) { storage := s } inputs)
        = served.map (Node.answer codec) ∧
      inputs.flatMap (Input.packets cfg)
        = gather next Node.taken { storage := s } inputs ++ n.downloadTxsBuffer ∧
      inputs.flatMap (Input.announcements cfg)
        = gather next Node.handled { storage := s } inputs ++ n.txsRequester := by
  intro next n served
  -- The account of a step needs the bookkeeping of the node, which holds all along.
  have hconsistent := Node.along_consistent cfg codec forwardPercent
    (Node.consistent_of_idle (n := { storage := s }) rfl rfl) inputs
  have hstep := fun (n : Node) (input : Input) (h : n.Consistent) =>
    Node.nodeStep_queues cfg codec forwardPercent h input
  have hworker := gather_eq_served next (fun n input h => (hstep n input h).worker) _ inputs
    hconsistent
  have hbuffer := gather_eq_served next (fun n input h => (hstep n input h).downloadTxsBuffer) _
    inputs hconsistent
  have hrequester := gather_eq_served next (fun n input h => (hstep n input h).txsRequester) _
    inputs hconsistent
  rw [gather_const] at hworker hbuffer hrequester
  refine ⟨?_, ?_, hbuffer, hrequester⟩
  · rw [map_gather]
    exact hworker
  · -- The answers are those of the steps, put together in the order of the run.
    rw [responses, filterMap_gather, map_gather]
    exact gather_congr next (fun n input h => (hstep n input h).responses) _ inputs hconsistent

end BcosTxPool
