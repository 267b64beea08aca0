import Mathlib.Algebra.BigOperators.Group.Finset.Piecewise
import Mathlib.Algebra.Order.BigOperators.Group.Finset
import BcosTxPool.Theory.Answers

/-!
# A Network Comes to Rest

What the nodes have to do for each other ends by itself. A packet becomes at most
a task, a task at most a response, and a response nothing. So once clients, ledgers
and the other threads are quiet, the messages in flight and the tasks of the workers
are used up in so many steps, in whatever order they come: a packet counts for three,
a task for two, a response for one.

Where nothing has been lost, a request that waits for a peer is on its way in one
of the three forms. At rest there is none, and every callback has been called
that does not wait for the ledger. So no order of events blocks the nodes against
each other, and none keeps them busy forever.

## Main definitions

* `Underway`: A request is on its way.
* `Network.AtRest`: Nothing is in flight, and the workers are idle.
* `Network.Proceeds`: A message is delivered, or a worker does a task.
* `Network.weight`: What there is to do.

## Theorems

* `netStep_underway`, `run_underway`: Requests are on their way.
* `callbacks_called`: At rest every callback has been called.
* `netStep_weight`: What there is to do becomes less.
* `comes_to_rest`: Every order of deliveries and turns ends at rest.
-/

namespace BcosTxPool

open Library

/-! ### On the way -/

/-- The message of a request, with the hashes that it asks for. -/
def PeerRequest.txsRequest (r : PeerRequest) : TxsSyncMsg := ⟨.txsRequestPacket, r.missedTxs, []⟩

/-- A request is on its way: to the peer, in the queue of its worker, or back. -/
def Underway (codec : Codec) (w : Network) (nodeID : NodeID) (r : PeerRequest) : Prop :=
  .packet nodeID r.nodeID (some r.uuid) (codec.encodeTxsSyncMsg r.txsRequest) ∈ w.flight ∨
    ⟨r.txsRequest, some r.uuid, nodeID⟩ ∈ (w.nodes r.nodeID).worker ∨
      ∃ data, .response r.nodeID nodeID r.uuid data ∈ w.flight

/-- The step does not lose a message. Losses are steps of their own, and what is
    lost has no answer. -/
def NetOp.delivers : NetOp → Prop
  | .lose _ => False
  | _ => True

namespace Network

variable (cfg : NodeID → TxPoolConfig) (codec : Codec) (forwardPercent : Nat)

/-- All requests to peers are on their way. Nothing is said of requests to the
    ledger, which is not part of the network. -/
def AllUnderway (w : Network) : Prop :=
  ∀ nodeID, ∀ r ∈ (w.nodes nodeID).peerRequests, Underway codec w nodeID r

/-- A message stays in flight, or it is the one delivered. Only a loss would be
    a third way. -/
theorem mem_remaining {w : Network} {op : NetOp} (hop : op.delivers) {message : Message}
    (h : message ∈ w.flight) :
    message ∈ w.remaining op ∨ w.input op = some (message.dst, message.input) := by
  cases op with
  | deliver index =>
      cases hget : w.flight[index]? with
      | none =>
          rw [remaining, List.eraseIdx_of_length_le (List.getElem?_eq_none_iff.mp hget)]
          exact Or.inl h
      | some delivered =>
          rcases List.mem_cons.mp ((perm_cons_eraseIdx hget).mem_iff.mp h) with rfl | h
          · exact Or.inr (by rw [input, hget]; rfl)
          · exact Or.inl h
  | lose index => exact hop.elim
  | act nodeID given => exact Or.inl h
  | giveUp nodeID uuid error => exact Or.inl h

/-- A message that stays is in flight after the step. -/
theorem mem_flight_of_remaining {w : Network} {op : NetOp} {message : Message}
    (h : message ∈ w.remaining op) : message ∈ (netStep cfg codec forwardPercent w op).flight := by
  unfold netStep
  -- What the step sends is added behind what remains.
  split
  · exact h
  · exact List.mem_append_left _ h

/-- And so is one that the step sends. -/
theorem mem_flight_of_sent {w : Network} {op : NetOp} {nodeID : NodeID} {input : Input}
    (hinput : w.input op = some (nodeID, input)) {out : Output}
    (hout : out ∈ nodeOutput (cfg nodeID) codec forwardPercent (w.nodes nodeID) input)
    {message : Message} (hmessage : out.message nodeID = some message) :
    message ∈ (netStep cfg codec forwardPercent w op).flight := by
  unfold netStep
  rw [hinput]
  exact List.mem_append_right _ (List.mem_filterMap.mpr ⟨out, hout, hmessage⟩)

variable {cfg}

/-- A packet that asks for transactions is still in flight, or has become a
    task. -/
theorem underway_of_packet (hlawful : ∀ nodeID, Lawful (cfg nodeID).framework codec)
    {w : Network} (hw : w.Consistent) {op : NetOp} (hop : op.delivers) {nodeID : NodeID}
    {r : PeerRequest}
    (h : .packet nodeID r.nodeID (some r.uuid) (codec.encodeTxsSyncMsg r.txsRequest) ∈ w.flight) :
    Underway codec (netStep cfg codec forwardPercent w op) nodeID r := by
  rcases mem_remaining hop h with hremains | hinput
  · exact Or.inl (mem_flight_of_remaining cfg codec forwardPercent hremains)
  · refine Or.inr (Or.inl ?_)
    simp only [Message.dst, Message.input] at hinput
    rw [netStep_at cfg codec forwardPercent hinput]
    -- It is delivered, and the peer puts it into the queue of its worker.
    have hqueue := (Node.nodeStep_queues (cfg r.nodeID) codec forwardPercent (hw r.nodeID)
      (.asyncNotifyTxsSyncMessage none (some r.uuid) nodeID
        (codec.encodeTxsSyncMsg r.txsRequest))).worker
    have hserved : ((w.nodes r.nodeID).served (.asyncNotifyTxsSyncMessage none (some r.uuid) nodeID
        (codec.encodeTxsSyncMsg r.txsRequest))) = [] := rfl
    rw [hserved, List.map_nil, List.nil_append] at hqueue
    refine hqueue ▸ List.mem_append_right _ ?_
    simp only [Input.tasks, Input.message, (hlawful r.nodeID).txsSyncMsg, Option.map_some,
      PeerRequest.txsRequest, List.mem_singleton]

/-- A task is still in the queue, or has been answered. -/
theorem underway_of_task {w : Network} (hw : w.Consistent) (op : NetOp) {nodeID : NodeID}
    {r : PeerRequest} (h : ⟨r.txsRequest, some r.uuid, nodeID⟩ ∈ (w.nodes r.nodeID).worker) :
    Underway codec (netStep cfg codec forwardPercent w op) nodeID r := by
  rcases netStep_nodes_cases cfg codec forwardPercent w op r.nodeID with
    heq | ⟨input, hinput, heq⟩
  · -- The peer did nothing in this step, or it did, and then its queue tells.
    exact Or.inr (Or.inl (heq ▸ h))
  · have hqueues := Node.nodeStep_queues (cfg r.nodeID) codec forwardPercent (hw r.nodeID) input
    have hmem := List.mem_append_left (input.tasks (cfg r.nodeID)) h
    rw [hqueues.worker] at hmem
    rcases List.mem_append.mp hmem with hserved | hwaits
    · -- Its turn has come, and the answer leaves.
      rcases List.mem_map.mp hserved with ⟨request, hrequest, htask⟩
      have hresponse := List.mem_map_of_mem (f := Node.answer codec) hrequest
      rw [← hqueues.responses] at hresponse
      rcases List.mem_filterMap.mp hresponse with ⟨out, hout, hsent⟩
      rw [Node.answer, htask] at hsent
      cases out with
      | asyncSendResponse dst uuid data =>
          rcases Option.some.inj hsent with ⟨rfl, rfl, rfl⟩
          exact Or.inr (Or.inr ⟨_, mem_flight_of_sent cfg codec forwardPercent hinput hout rfl⟩)
      | asyncSendMessage dst uuid data => exact absurd hsent (Option.some_ne_none _).symm
      | onVerifyFinished callback response => exact absurd hsent (Option.some_ne_none _).symm
      | onBlockFilled callback response => exact absurd hsent (Option.some_ne_none _).symm
    · exact Or.inr (Or.inl (heq ▸ hwaits))

/-- A response is still in flight as long as its request waits. When it arrives
    the request is closed, since a number belongs to one request. -/
theorem underway_of_response {w : Network} (hw : w.Consistent) {op : NetOp} (hop : op.delivers)
    {nodeID : NodeID} {r : PeerRequest} (hbefore : r ∈ (w.nodes nodeID).peerRequests)
    (hafter : r ∈ ((netStep cfg codec forwardPercent w op).nodes nodeID).peerRequests)
    {data : Bytes} (h : .response r.nodeID nodeID r.uuid data ∈ w.flight) :
    Underway codec (netStep cfg codec forwardPercent w op) nodeID r := by
  rcases mem_remaining hop h with hremains | hinput
  · exact Or.inr (Or.inr ⟨data, mem_flight_of_remaining cfg codec forwardPercent hremains⟩)
  · -- It arrives, and the request is answered.
    simp only [Message.dst, Message.input] at hinput
    rw [netStep_at cfg codec forwardPercent hinput] at hafter
    have hnone : ∀ r' ∈ (nodeNext (cfg nodeID) codec forwardPercent (w.nodes nodeID)
        (.onPeerResponse r.uuid ⟨none, r.nodeID, data⟩)).peerRequests, r'.uuid ≠ r.uuid := by
      unfold nodeNext
      cases Node.nodeStep_requests (cfg nodeID) codec forwardPercent (hw nodeID)
        (.onPeerResponse r.uuid ⟨none, r.nodeID, data⟩) with
      -- The event is an answer to a request that waits, so it is not passed over.
      | asked hmissed hledger hpeer huuid hnotAsked =>
          exact absurd rfl (hnotAsked _ _ rfl r hbefore)
      | closed hledger hpeer huuid hanswer => cases hanswer
      | passedOn hr hledger hpeer huuid hsent hanswer => cases hanswer
      | answered hledger hpeer huuid hanswer =>
          injection hanswer with heq _
          rw [hpeer, ← heq]
          exact fun r' hr' => of_decide_eq_true (List.mem_filter.mp hr').2
    exact absurd rfl (hnone r hafter)

/-- A request that waits after a step waited before, or is sent in the step. -/
theorem mem_peerRequests {w : Network} (hw : w.Consistent) (op : NetOp) {nodeID : NodeID}
    {r : PeerRequest}
    (h : r ∈ ((netStep cfg codec forwardPercent w op).nodes nodeID).peerRequests) :
    r ∈ (w.nodes nodeID).peerRequests ∨
      .packet nodeID r.nodeID (some r.uuid) (codec.encodeTxsSyncMsg r.txsRequest)
        ∈ (netStep cfg codec forwardPercent w op).flight := by
  rcases netStep_nodes_cases cfg codec forwardPercent w op nodeID with heq | ⟨input, hinput, heq⟩
  · exact Or.inl (heq ▸ h)
  · rw [heq, nodeNext] at h
    cases Node.nodeStep_requests (cfg nodeID) codec forwardPercent (hw nodeID) input with
    | asked hmissed hledger hpeer huuid hnotAsked => exact Or.inl (hpeer ▸ h)
    | closed hledger hpeer huuid hanswer => exact Or.inl (hpeer ▸ h)
    | answered hledger hpeer huuid hanswer =>
        rw [hpeer] at h
        exact Or.inl (List.mem_of_mem_filter h)
    -- The ledger has left hashes, and the message to the peer leaves in the same
    -- step.
    | @passedOn index response r' hr hledger hpeer huuid hsent hanswer =>
        rw [hpeer] at h
        rcases List.mem_append.mp h with h | h
        · exact Or.inl h
        · rw [List.mem_singleton.mp h]
          have hout : .asyncSendMessage r'.nodeID (some r'.uuid)
              (codec.encodeTxsSyncMsg r'.txsRequest)
              ∈ nodeOutput (cfg nodeID) codec forwardPercent (w.nodes nodeID) input := by
            rw [nodeOutput, hsent]
            exact List.mem_singleton.mpr rfl
          exact Or.inr (mem_flight_of_sent cfg codec forwardPercent hinput hout rfl)

/-- A step that loses nothing leaves every request on its way. -/
theorem netStep_underway (hlawful : ∀ nodeID, Lawful (cfg nodeID).framework codec) {w : Network}
    (hw : w.Consistent) (h : w.AllUnderway codec) {op : NetOp} (hop : op.delivers) :
    (netStep cfg codec forwardPercent w op).AllUnderway codec := by
  intro nodeID r hr
  rcases mem_peerRequests codec forwardPercent hw op hr with hbefore | hsent
  -- The request moves from one of the three stages to the next.
  · rcases h nodeID r hbefore with hpacket | htask | ⟨data, hresponse⟩
    · exact underway_of_packet codec forwardPercent hlawful hw hop hpacket
    · exact underway_of_task codec forwardPercent hw op htask
    · exact underway_of_response codec forwardPercent hw hop hbefore hr hresponse
  · exact Or.inl hsent

/-- In a run from the start that loses nothing, all requests to peers are on
    their way. -/
theorem run_underway (hlawful : ∀ nodeID, Lawful (cfg nodeID).framework codec)
    (ledger : NodeID → LedgerNonceChecker) (ops : List NetOp) (hops : ∀ op ∈ ops, op.delivers) :
    (run (netStep cfg codec forwardPercent) (start ledger) ops).AllUnderway codec := by
  have hinv := run_invariant (netStep cfg codec forwardPercent)
    (fun w => w.Consistent ∧ w.AllUnderway codec) NetOp.delivers
    (fun w op hop hw => ⟨netStep_consistent cfg codec forwardPercent hw.1 op,
      netStep_underway codec forwardPercent hlawful hw.1 hw.2 hop⟩) ops (start ledger) hops
    ⟨fun _ => Node.consistent_of_idle rfl rfl, fun _ _ hr => absurd hr List.not_mem_nil⟩
  -- The bookkeeping of the nodes is carried along, since the step needs it.
  exact hinv.2

/-- Nothing is in flight, and the workers have nothing to do. Requests to the
    ledger may still wait. -/
structure AtRest (w : Network) : Prop where
  flight : w.flight = []
  worker : ∀ nodeID, (w.nodes nodeID).worker = []

/-- At rest no request waits for a peer: there is no place left where it could
    be on its way. -/
theorem AtRest.peerRequests {codec : Codec} {w : Network} (h : w.AtRest)
    (hunderway : w.AllUnderway codec) (nodeID : NodeID) : (w.nodes nodeID).peerRequests = [] := by
  rw [List.eq_nil_iff_forall_not_mem]
  intro r hr
  rcases hunderway nodeID r hr with hpacket | htask | ⟨data, hresponse⟩
  · rw [h.flight] at hpacket
    exact List.not_mem_nil hpacket
  · rw [h.worker] at htask
    exact List.not_mem_nil htask
  · rw [h.flight] at hresponse
    exact List.not_mem_nil hresponse

/-! ### What there is to do -/

/-- The step delivers a message, or a worker does a task. These are the steps
    that the nodes make for each other, without anybody from outside. -/
def Proceeds (w : Network) : NetOp → Prop
  | .deliver index => index < w.flight.length
  | .act nodeID input => input.1 = .worker ∧ (w.nodes nodeID).worker ≠ []
  | _ => False

end Network

/-- What a message may still lead to: a packet to a task, a task to a response.
    A packet that leads to nothing is counted as if it did. -/
def Message.weight : Message → Nat
  | .packet _ _ _ _ => 3
  | .response _ _ _ _ => 1

namespace Network

/-- What there is to do in a network whose workers are idle but for some nodes.
    A task counts for two, between the packet it came from and the response it
    leads to. -/
def weight (nodeIDs : Finset NodeID) (w : Network) : Nat :=
  (w.flight.map Message.weight).sum + ∑ nodeID ∈ nodeIDs, 2 * (w.nodes nodeID).worker.length

/-- Tasks are and will be at these nodes only. A network has no bound on its
    nodes, and the sum needs one. -/
structure Within (nodeIDs : Finset NodeID) (w : Network) : Prop where
  worker : ∀ nodeID, nodeID ∉ nodeIDs → (w.nodes nodeID).worker = []
  flight : ∀ src dst uuid data, .packet src dst uuid data ∈ w.flight → dst ∈ nodeIDs

variable (cfg : NodeID → TxPoolConfig) (codec : Codec) (forwardPercent : Nat)

/-- Verdicts are not sent to anyone, so a callback adds nothing to the
    flight. -/
theorem message_invokeAll (src : NodeID) (onVerifyFinished : Option OnVerifyFinished)
    (verdicts : List VerifyResponse) :
    (OnVerifyFinished.invokeAll onVerifyFinished verdicts).filterMap (Output.message src) = [] := by
  rw [List.filterMap_eq_nil_iff]
  intro out hout
  cases onVerifyFinished with
  | none => exact absurd hout List.not_mem_nil
  | some f =>
      rcases List.mem_flatMap.mp hout with ⟨verdict, _, hinvoked⟩
      exact Node.message_of_mem_invoke hinvoked src

/-- A message that arrives leads to no other at once. -/
theorem deliver_flight (w : Network) (index : Nat) :
    (netStep cfg codec forwardPercent w (.deliver index)).flight = w.flight.eraseIdx index := by
  cases hget : w.flight[index]? with
  | none =>
      have hinput : w.input (.deliver index) = none := by rw [input, hget]; rfl
      rw [netStep, hinput]
      rfl
  | some message =>
      have hinput : w.input (.deliver index) = some (message.dst, message.input) := by
        rw [input, hget]
        rfl
      rw [netStep, hinput]
      refine (congrArg (w.flight.eraseIdx index ++ ·) ?_).trans (List.append_nil _)
      -- A packet is queued, and a response closes a request or is dropped.
      cases message with
      | packet src dst uuid data => rfl
      | response src dst uuid data =>
          simp only [Message.dst, Message.input, nodeStep, Node.onPeerResponse]
          split
          · rfl
          · rw [Node.onPeerAnswer]
            split
            · rfl
            · exact message_invokeAll dst _ _

/-- A packet adds one task at most, and a response none. -/
theorem deliver_worker {w : Network} (hw : w.Consistent) {index : Nat} {message : Message}
    (hget : w.flight[index]? = some message) (nodeID : NodeID) :
    2 * ((netStep cfg codec forwardPercent w (.deliver index)).nodes nodeID).worker.length
      ≤ 2 * (w.nodes nodeID).worker.length +
        if nodeID = message.dst then message.weight - 1 else 0 := by
  have hinput : w.input (.deliver index) = some (message.dst, message.input) := by
    rw [input, hget]
    rfl
  -- Only the node that the message is for can be given a task.
  by_cases hat : nodeID = message.dst
  · rw [if_pos hat, hat, netStep_at cfg codec forwardPercent hinput, nodeNext]
    have hqueue := congrArg List.length (Node.nodeStep_queues (cfg message.dst) codec forwardPercent
      (hw message.dst) message.input).worker
    rw [List.length_append, List.length_append] at hqueue
    have htasks : 2 * (message.input.tasks (cfg message.dst)).length ≤ message.weight - 1 := by
      cases message with
      | packet src dst uuid data =>
          simp only [Message.input, Input.tasks, Message.weight]
          split
          · exact Nat.le_refl 2
          · exact Nat.zero_le 2
      | response src dst uuid data => exact Nat.le_refl 0
    omega
  · have hother : inputsAt nodeID w (.deliver index) = [] := by
      rw [inputsAt, hinput]
      exact if_neg (Ne.symm hat)
    rw [if_neg hat, netStep_nodes, hother, run_nil]
    omega

/-- A turn of a worker takes a task, and adds one message at most, which is a
    response. A task whose request had no number is answered with none. -/
theorem worker_flight {w : Network} {nodeID : NodeID} {input : LocalInput}
    (hinput : input.1 = .worker) {task : RequestTask} {tasks : List RequestTask}
    (htask : (w.nodes nodeID).worker = task :: tasks) :
    (netStep cfg codec forwardPercent w (.act nodeID input)).flight
        = w.flight ++ ((task.uuid.map (fun uuid => Message.response nodeID task.nodeID uuid
          (TransactionSync.onReceiveTxsRequest codec (w.nodes nodeID).storage
            task.txsRequest))).toList) ∧
      ∀ nodeID', ((netStep cfg codec forwardPercent w (.act nodeID input)).nodes nodeID').worker
        = if nodeID' = nodeID then tasks else (w.nodes nodeID').worker := by
  rcases input with ⟨input, hlocal⟩
  simp only at hinput
  subst hinput
  constructor
  · simp only [netStep, Network.input, nodeStep, Node.runWorker, htask]
    refine congrArg (w.flight ++ ·) ?_
    cases task.uuid with
    | none => rfl
    | some uuid => rfl
  · intro nodeID'
    simp only [netStep, Network.input, nodeStep, Node.runWorker, htask]
    -- The queues of the other nodes are as they were.
    by_cases hat : nodeID' = nodeID
    · rw [if_pos hat, hat, Function.update_self]
    · rw [if_neg hat, Function.update_of_ne hat]

/-- Such a step leaves all tasks at these nodes, and all packets on their way to
    them. -/
theorem netStep_within {nodeIDs : Finset NodeID} {w : Network} (hw : w.Consistent)
    (h : w.Within nodeIDs) {op : NetOp} (hop : w.Proceeds op) :
    (netStep cfg codec forwardPercent w op).Within nodeIDs := by
  cases op with
  | deliver index =>
      have hget := List.getElem?_eq_getElem hop
      constructor
      · intro nodeID hnotin
        have hless := deliver_worker cfg codec forwardPercent hw hget nodeID
        rw [h.worker nodeID hnotin] at hless
        split at hless
        · -- Only a packet brings a task, and its destination is one of the nodes.
          rename_i hat
          have hmem := List.getElem_mem hop
          cases hmessage : w.flight[index] with
          | packet src dst uuid data =>
              rw [hmessage] at hmem hat
              exact absurd (hat ▸ h.flight src dst uuid data hmem) hnotin
          | response src dst uuid data =>
              rw [hmessage] at hless
              exact List.length_eq_zero_iff.mp (by
                simp only [Message.weight, List.length_nil] at hless
                omega)
        · exact List.length_eq_zero_iff.mp (by
            simp only [List.length_nil] at hless
            omega)
      · -- A delivery adds no packet.
        intro src dst uuid data hmem
        rw [deliver_flight] at hmem
        exact h.flight src dst uuid data (List.mem_of_mem_eraseIdx hmem)
  | act nodeID input =>
      rcases hop with ⟨hinput, hne⟩
      -- The node of the turn had a task, so it is one of the nodes.
      rcases List.exists_cons_of_ne_nil hne with ⟨task, tasks, htask⟩
      rcases worker_flight cfg codec forwardPercent hinput htask with ⟨hflight, hworker⟩
      constructor
      · intro nodeID' hnotin
        rw [hworker, if_neg]
        · exact h.worker nodeID' hnotin
        · rintro rfl
          exact hne (h.worker nodeID' hnotin)
      · intro src dst uuid data hmem
        rw [hflight] at hmem
        rcases List.mem_append.mp hmem with hmem | hmem
        · exact h.flight src dst uuid data hmem
        -- What a turn sends is a response, never a packet.
        · cases huuid : task.uuid with
          | none =>
              rw [huuid] at hmem
              exact absurd hmem List.not_mem_nil
          | some uuid' =>
              rw [huuid] at hmem
              exact absurd (List.mem_singleton.mp hmem) (by intro heq; cases heq)
  | lose index => exact hop.elim
  | giveUp nodeID uuid error => exact hop.elim

/-- What a turn of a worker sends weighs one at most: a response, or nothing. -/
theorem weight_answer_le (src dst : NodeID) (uuid : Option Uuid) (data : Bytes) :
    ((uuid.map (fun uuid => Message.response src dst uuid data)).toList.map
      Message.weight).sum ≤ 1 := by
  cases uuid with
  | none => exact Nat.zero_le 1
  | some uuid => exact Nat.le_refl 1

/-- A turn of a worker takes two from what the tasks weigh together. -/
theorem worker_tasks {nodeIDs : Finset NodeID} {w : Network} {nodeID : NodeID} {input : LocalInput}
    (hinput : input.1 = .worker) {task : RequestTask} {tasks : List RequestTask}
    (htask : (w.nodes nodeID).worker = task :: tasks) (hmem : nodeID ∈ nodeIDs) :
    ∑ nodeID' ∈ nodeIDs, 2 * (w.nodes nodeID').worker.length
      = ∑ nodeID' ∈ nodeIDs, 2 * ((netStep cfg codec forwardPercent w
        (.act nodeID input)).nodes nodeID').worker.length + 2 := by
  have hpoint : ∀ nodeID' ∈ nodeIDs, 2 * (w.nodes nodeID').worker.length
      = 2 * ((netStep cfg codec forwardPercent w
        (.act nodeID input)).nodes nodeID').worker.length +
        if nodeID' = nodeID then 2 else 0 := by
    intro nodeID' _
    rw [(worker_flight cfg codec forwardPercent hinput htask).2]
    split
    · rename_i hat
      rw [hat, htask, List.length_cons]
      omega
    · rfl
  -- The difference is at one node, which is one of those summed over.
  rw [Finset.sum_congr rfl hpoint, Finset.sum_add_distrib, Finset.sum_ite_eq', if_pos hmem]

/-- With each delivery and each turn there is less to do. This is what bounds
    their number, and the order in which they come has no part in it. -/
theorem netStep_weight {nodeIDs : Finset NodeID} {w : Network} (hw : w.Consistent)
    (h : w.Within nodeIDs) {op : NetOp} (hop : w.Proceeds op) :
    (netStep cfg codec forwardPercent w op).weight nodeIDs < w.weight nodeIDs := by
  cases op with
  | deliver index =>
      have hget := List.getElem?_eq_getElem hop
      have hsum := ((perm_cons_eraseIdx hget).map Message.weight).sum_eq
      rw [List.map_cons, List.sum_cons] at hsum
      have hpos : 0 < w.flight[index].weight := by
        cases w.flight[index] with
        | packet src dst uuid data => exact Nat.zero_lt_succ 2
        | response src dst uuid data => exact Nat.zero_lt_succ 0
      -- The tasks added are paid for by the message.
      have htasks := Finset.sum_le_sum (s := nodeIDs)
        (fun nodeID _ => deliver_worker cfg codec forwardPercent hw hget nodeID)
      rw [Finset.sum_add_distrib, Finset.sum_ite_eq'] at htasks
      rw [weight, weight, deliver_flight, hsum]
      split at htasks
      · omega
      · omega
  | act nodeID input =>
      rcases hop with ⟨hinput, hne⟩
      rcases List.exists_cons_of_ne_nil hne with ⟨task, tasks, htask⟩
      rcases worker_flight cfg codec forwardPercent hinput htask with ⟨hflight, _⟩
      have hmem : nodeID ∈ nodeIDs := by
        by_contra hnotin
        exact hne (h.worker nodeID hnotin)
      have htasks := worker_tasks cfg codec forwardPercent hinput htask hmem
      have hsent := weight_answer_le nodeID task.nodeID task.uuid
        (TransactionSync.onReceiveTxsRequest codec (w.nodes nodeID).storage task.txsRequest)
      -- The task taken weighs two, the response that it leads to one.
      rw [weight, weight, hflight, htasks, List.map_append, List.sum_append]
      omega
  | lose index => exact hop.elim
  | giveUp nodeID uuid error => exact hop.elim

/-- In a run from the start, tasks are at finitely many nodes, since each step
    is at one. -/
theorem exists_within (ledger : NodeID → LedgerNonceChecker) (ops : List NetOp) :
    ∃ nodeIDs, (run (netStep cfg codec forwardPercent) (start ledger) ops).Within nodeIDs := by
  have hworkers : ∃ nodeIDs : Finset NodeID, ∀ nodeID, nodeID ∉ nodeIDs →
      ((run (netStep cfg codec forwardPercent) (start ledger) ops).nodes nodeID).worker = [] := by
    refine run_invariant (netStep cfg codec forwardPercent) (fun w => ∃ nodeIDs : Finset NodeID,
      ∀ nodeID, nodeID ∉ nodeIDs → (w.nodes nodeID).worker = []) (fun _ => True) ?_ ops _
      (fun _ _ => trivial) ⟨∅, fun _ _ => rfl⟩
    rintro w op _ ⟨nodeIDs, hidle⟩
    -- A step is at one node at most.
    cases hinput : w.input op with
    | none =>
        refine ⟨nodeIDs, fun nodeID hnotin => ?_⟩
        rw [netStep_nodes, inputsAt, hinput]
        exact hidle nodeID hnotin
    | some event =>
        refine ⟨insert event.1 nodeIDs, fun nodeID hnotin => ?_⟩
        rw [Finset.mem_insert, not_or] at hnotin
        rcases netStep_nodes_cases cfg codec forwardPercent w op nodeID with
          heq | ⟨input, hat, _⟩
        · rw [heq]
          exact hidle nodeID hnotin.2
        · rw [hinput] at hat
          exact absurd (congrArg Prod.fst (Option.some.inj hat)).symm hnotin.1
  rcases hworkers with ⟨nodeIDs, hidle⟩
  -- Packets in flight may still bring tasks to their destinations.
  refine ⟨nodeIDs ∪ ((run (netStep cfg codec forwardPercent) (start ledger) ops).flight.map
    Message.dst).toFinset, fun nodeID hnotin => ?_, fun src dst uuid data hmem => ?_⟩
  · exact hidle nodeID (fun hin => hnotin (Finset.mem_union_left _ hin))
  · exact Finset.mem_union_right _ (List.mem_toFinset.mpr (List.mem_map_of_mem hmem))

/-- A network that is not at rest can proceed: a message can be delivered, or a
    worker has a task. -/
theorem proceeds_of_not_atRest {w : Network} (h : ¬ w.AtRest) : ∃ op, w.Proceeds op := by
  by_cases hflight : w.flight = []
  · by_cases hworker : ∀ nodeID, (w.nodes nodeID).worker = []
    · exact absurd ⟨hflight, hworker⟩ h
    · rcases not_forall.mp hworker with ⟨nodeID, hne⟩
      exact ⟨.act nodeID ⟨.worker, rfl⟩, rfl, hne⟩
  · exact ⟨.deliver 0, List.length_pos_iff.mpr hflight⟩

end Network

/-- After any run, the deliveries and the turns of workers that can follow each
    other are bounded in number, in whatever order they come, and where no other
    can follow the network is at rest. -/
theorem comes_to_rest (cfg : NodeID → TxPoolConfig) (codec : Codec) (forwardPercent : Nat)
    (ledger : NodeID → LedgerNonceChecker) (ops : List NetOp) :
    let next := netStep cfg codec forwardPercent
    let w := run next (Network.start ledger) ops
    ∃ bound, ∀ more, Along next Network.Proceeds w more → more.length ≤ bound ∧
      ((∀ op, ¬ (run next w more).Proceeds op) → (run next w more).AtRest) := by
  intro next w
  rcases Network.exists_within cfg codec forwardPercent ledger ops with
    ⟨nodeIDs, hwithin⟩
  refine ⟨w.weight nodeIDs, fun more hmore => ⟨?_, fun hstuck => ?_⟩⟩
  · -- The weight is a natural number and falls with each step.
    refine along_length_le next Network.Proceeds (fun w => w.Consistent ∧ w.Within nodeIDs)
      (fun w => w.weight nodeIDs) ?_ more w hmore
      ⟨Network.run_consistent cfg codec forwardPercent ledger ops, hwithin⟩
    rintro v op hop ⟨hv, hvwithin⟩
    exact ⟨⟨Network.netStep_consistent cfg codec forwardPercent hv op,
      Network.netStep_within cfg codec forwardPercent hv hvwithin hop⟩,
      Network.netStep_weight cfg codec forwardPercent hv hvwithin hop⟩
  · -- A network where nothing can follow has nothing left to do.
    by_contra hrest
    rcases Network.proceeds_of_not_atRest hrest with ⟨op, hop⟩
    exact hstuck op hop

/-- Where no message has been lost, a node of a network at rest has no request
    that waits for a peer, and of the callbacks given to it all have been
    called, once each, but those that wait for the ledger. -/
theorem callbacks_called (cfg : NodeID → TxPoolConfig) (codec : Codec) (forwardPercent : Nat)
    (hlawful : ∀ nodeID, Lawful (cfg nodeID).framework codec)
    (ledger : NodeID → LedgerNonceChecker) (ops : List NetOp) (hops : ∀ op ∈ ops, op.delivers)
    (hrest : (run (netStep cfg codec forwardPercent) (Network.start ledger) ops).AtRest)
    (nodeID : NodeID) :
    let next := netStep cfg codec forwardPercent
    let n := (run next (Network.start ledger) ops).nodes nodeID
    n.peerRequests = [] ∧
      (gather next (Network.givenAt cfg nodeID) (Network.start ledger) ops).Perm
        (gather next (Network.calledAt cfg codec forwardPercent nodeID) (Network.start ledger)
            ops ++
          (n.ledgerRequests.filterMap (fun r => r.onVerifyFinished)).map
            OnVerifyFinished.callback) := by
  intro next n
  have hpeer : n.peerRequests = [] := hrest.peerRequests
    (Network.run_underway codec forwardPercent hlawful ledger ops hops) nodeID
  refine ⟨hpeer, ?_⟩
  -- What was given has been called or still waits.
  have hkept := gather_perm_spent next
    (fun _ op hw => Network.netStep_callbacks codec forwardPercent hlawful hw.1 hw.2 nodeID op)
    (Network.start ledger) ops (Network.along_genuine codec forwardPercent hlawful ledger ops)
  have hwaiting : n.waitingCallbacks
      = (n.ledgerRequests.filterMap (fun r => r.onVerifyFinished)).map
        OnVerifyFinished.callback := by
    rw [Node.waitingCallbacks, Node.waiting, hpeer, List.filterMap_nil, List.append_nil]
  rw [← hwaiting]
  exact hkept

/-- The answer has arrived, and the callback has been called. -/
theorem callbacks_called_oneRequest :
    let ops := oneRequest ++ [.deliver 0]
    ((run (netStep (fun _ => bookConfig) bookCodec 25) (Network.start emptyLedgers) ops).nodes
        0).peerRequests = [] ∧
      [Callback.verifyBlock 7].Perm
        (gather (netStep (fun _ => bookConfig) bookCodec 25)
          (Network.calledAt (fun _ => bookConfig) bookCodec 25 0) (Network.start emptyLedgers)
          ops ++ []) := by
  intro ops
  have hops : ∀ op ∈ ops, op.delivers := by
    intro op hop
    simp only [ops, oneRequest, List.cons_append, List.nil_append, List.mem_cons,
      List.not_mem_nil, or_false] at hop
    rcases hop with rfl | rfl | rfl | rfl | rfl
    all_goals exact trivial
  have hrest : (run (netStep (fun _ => bookConfig) bookCodec 25) (Network.start emptyLedgers)
      ops).AtRest := by
    refine ⟨by decide, fun nodeID => ?_⟩
    -- The steps are at two nodes.
    match nodeID with
    | 0 => rfl
    | 1 => rfl
    | _ + 2 => rfl
  exact callbacks_called (fun _ => bookConfig) bookCodec 25 (fun _ => book_lawful) emptyLedgers
    ops hops hrest 0

end BcosTxPool
