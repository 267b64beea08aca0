import BcosTxPool.Theory.Exchange
import BcosTxPool.Theory.Network

/-!
# Requests Between Honest Nodes

A request for missed transactions is on its way three times: as a packet to the
peer, as a task of the peer's worker, and as a response under the `uuid` of the
request. Meanwhile both pools change, other requests overtake it, and the front
service may lose it or give it up.

A response still answers the request under whose `uuid` it arrives. A `uuid` is
taken once, so whatever is on its way under it concerns the one request that may
still wait under it: the peer is the one asked, and the hashes answered for are
the hashes missed. That is an invariant of the network.

A node then reports no false errors. A proposal is reported with a missing
transaction only where the peer did not have one of the hashes when it looked, and
never as inconsistent. And no callback is lost: the decoders throw on no answer of
an honest peer. Whatever the network loses, the callback still waits.

## Main definitions

* `Node.Concerns`: The request under a `uuid`.
* `Message.Genuine`, `Network.Genuine`: What is on its way concerns a request.
* `PeerRequest.Arrived`, `ServedAt`: The turn of a worker that serves a request.
* `Captures`: The request behind a callback.

## Theorems

* `netStep_genuine`, `run_genuine`: What is on its way concerns a request.
* `reports_truthful`: What an error that a node reports says.
* `callbacks_kept`: No callback is lost.
-/

namespace BcosTxPool

open Library

namespace Node

open TransactionSync

variable (cfg : TxPoolConfig) (codec : Codec) (forwardPercent : Nat)

/-! ### The request under a number -/

/-- The number has been given out, and a request that waits under it is for
    these hashes and to this peer. -/
structure Concerns (n : Node) (uuid : Uuid) (peer : NodeID) (missedTxs : HashList) : Prop where
  used : uuid < n.nextUuid
  same : ∀ r ∈ n.peerRequests, r.uuid = uuid → r.nodeID = peer ∧ r.missedTxs = missedTxs

/-- A request that waits has a number that was given out, and it is the only one
    under it. -/
theorem concerns_of_mem {n : Node} (h : n.Consistent) {r : PeerRequest} (hr : r ∈ n.peerRequests) :
    n.Concerns r.uuid r.nodeID r.missedTxs where
  used := h.fresh r hr
  same r' hr' huuid := by
    rw [List.inj_on_of_nodup_map h.uuids hr' hr huuid]
    exact ⟨rfl, rfl⟩

/-- A number is not given out again, so what is said of it stays true: a step
    takes requests away or adds one under the next number. -/
theorem nodeNext_concerns {n : Node} (h : n.Consistent) (input : Input) {uuid : Uuid}
    {peer : NodeID} {missedTxs : HashList} (hconcerns : n.Concerns uuid peer missedTxs) :
    (nodeNext cfg codec forwardPercent n input).Concerns uuid peer missedTxs := by
  unfold nodeNext
  cases nodeStep_requests cfg codec forwardPercent h input with
  | asked hmissed hledger hpeer huuid hinput =>
      exact ⟨huuid ▸ hconcerns.used, hpeer ▸ hconcerns.same⟩
  | closed hledger hpeer huuid hinput =>
      exact ⟨huuid ▸ hconcerns.used, hpeer ▸ hconcerns.same⟩
  | @passedOn index response r hr hledger hpeer huuid hsent hinput =>
      refine ⟨huuid ▸ Nat.lt_succ_of_lt hconcerns.used, ?_⟩
      intro r' hr' huuid'
      rw [hpeer] at hr'
      rcases List.mem_append.mp hr' with hr' | hr'
      · exact hconcerns.same r' hr' huuid'
      · -- The new request has a new number.
        rw [List.mem_singleton.mp hr', hr] at huuid'
        exact absurd (huuid' ▸ hconcerns.used) (Nat.lt_irrefl _)
  | answered hledger hpeer huuid hinput =>
      -- The requests that remain were there before.
      refine ⟨huuid ▸ hconcerns.used, ?_⟩
      rw [hpeer]
      exact fun r hr => hconcerns.same r (List.mem_of_mem_filter hr)

/-! ### An honest answer -/

/-- The decoders do not throw on an honest answer, and the verdict is one of
    three. The peer lacked a hash, or it had them all and the import has
    succeeded, or it has not. An answer with other transactions than those asked
    for is not among them. -/
theorem verifyFetchedTxs_honest {cfg : TxPoolConfig} {codec : Codec}
    (hlawful : Lawful cfg.framework codec) (s t : MemoryStorage) (nodeID : NodeID)
    (missedTxs : HashList) (verifiedProposal : Option Block) :
    ∃ s' verdict, verifyFetchedTxs cfg s (answerOf codec t nodeID missedTxs) missedTxs
        verifiedProposal = some (s', [verdict]) ∧
      ((∃ k ∈ missedTxs, t.exist k = false) ∧
          verdict = ⟨some ⟨.transactionsMissing, "TransactionsMissing"⟩, false, s⟩ ∨
        (∀ k ∈ missedTxs, t.exist k = true) ∧
          (verdict = ⟨none, true, s'⟩ ∨
            (importDownloadedTxs cfg s nodeID (responseBlock t missedTxs).transactions
              verifiedProposal).2 = false ∧
            verdict = ⟨some ⟨.txsSignatureVerifyFailed,
              "invalid transaction for invalid signature or nonce or blockLimit"⟩, false,
              s'⟩)) := by
  -- The payload decodes to the block that the peer has made, so the answer is read
  -- as it was meant.
  have hround : RoundTrips cfg codec t missedTxs := ⟨hlawful.txsSyncMsg _, hlawful.block _⟩
  have hverify := verifyFetchedTxs_of_answers cfg s (answers_answerOf cfg hround nodeID) missedTxs
    verifiedProposal
  by_cases hall : ∀ k ∈ missedTxs, t.exist k = true
  · -- The answer has the length and the hashes of the request.
    rcases responseBlock_complete hall with ⟨hlength, hhashes⟩
    rw [if_neg (fun hne => hne hlength.symm)] at hverify
    refine ⟨_, _, hverify, Or.inr ⟨hall, ?_⟩⟩
    unfold TransactionSync.answered
    rw [hhashes]
    split
    · rename_i hfailed
      rw [Bool.not_eq_true'] at hfailed
      exact Or.inr ⟨hfailed, rfl⟩
    · rw [if_neg (fun hne : missedTxs ≠ missedTxs => hne rfl)]
      exact Or.inl rfl
  · -- The peer puts in what it has. One hash short, and the sizes differ.
    simp only [not_forall, Bool.not_eq_true] at hall
    rcases hall with ⟨k, hk, hfree⟩
    rw [if_pos (Nat.ne_of_gt (length_responseBlock_lt ⟨k, hk, hfree⟩))] at hverify
    exact ⟨_, _, hverify, Or.inl ⟨⟨k, hk, hfree⟩, rfl⟩⟩

end Node

/-! ### What is on its way -/

/-- A task of a peer's worker is the request with which a node waits: it came
    from that node, under that number, and asks for those hashes. -/
structure PeerRequest.Arrived (r : PeerRequest) (nodeID : NodeID) (task : RequestTask) : Prop where
  nodeID : task.nodeID = nodeID
  uuid : task.uuid = some r.uuid
  missedTxs : task.txsRequest.txsHash = r.missedTxs

/-- In this step the worker of a peer takes the first task of its queue, and
    this is the pool from which it answers. A request is looked up then, not
    when its packet arrives. -/
def ServedAt (peer : NodeID) (task : RequestTask) (t : MemoryStorage) (w : Network) (op : NetOp) :
    Prop :=
  w.input op = some (peer, .worker) ∧ (w.nodes peer).served .worker = [(task, t)]

/-- A message in flight belongs to a request. The packet asks for what is
    missed. The response was made by a worker that served the request, from the
    pool that it had then: `Had` tells which tasks have been served and from
    what. Packets without a `uuid` are gossip. -/
def Message.Genuine (codec : Codec) (Had : NodeID → RequestTask → MemoryStorage → Prop)
    (w : Network) : Message → Prop
  | .packet src dst uuid data => ∀ u, uuid = some u → ∃ missedTxs,
      data = codec.encodeTxsSyncMsg ⟨.txsRequestPacket, missedTxs, []⟩ ∧
        (w.nodes src).Concerns u dst missedTxs
  | .response src dst uuid data => ∃ task t, Had src task t ∧ task.nodeID = dst ∧
      task.uuid = some uuid ∧
      data = TransactionSync.onReceiveTxsRequest codec t task.txsRequest ∧
        (w.nodes dst).Concerns uuid src task.txsRequest.txsHash

namespace Network

variable (cfg : NodeID → TxPoolConfig) (codec : Codec) (forwardPercent : Nat)

/-- All messages in flight belong to requests, and so do the tasks of the
    workers. This is the invariant of the network: it says of each stage on the
    way what the next one needs. -/
structure Genuine (Had : NodeID → RequestTask → MemoryStorage → Prop) (w : Network) : Prop where
  flight : ∀ message ∈ w.flight, message.Genuine codec Had w
  tasks : ∀ peer, ∀ task ∈ (w.nodes peer).worker, ∀ uuid, task.uuid = some uuid →
    (w.nodes task.nodeID).Concerns uuid peer task.txsRequest.txsHash

/-- The node that a step is at has made one step of its own. -/
theorem netStep_at {w : Network} {op : NetOp} {nodeID : NodeID} {input : Input}
    (h : w.input op = some (nodeID, input)) :
    (netStep cfg codec forwardPercent w op).nodes nodeID
      = nodeNext (cfg nodeID) codec forwardPercent (w.nodes nodeID) input := by
  rw [netStep_nodes, inputsAt, h]
  simp only [if_true]
  rfl

/-- A node is what it was, or the step was at it. -/
theorem netStep_nodes_cases (w : Network) (op : NetOp) (nodeID : NodeID) :
    (netStep cfg codec forwardPercent w op).nodes nodeID = w.nodes nodeID ∨
      ∃ input, w.input op = some (nodeID, input) ∧
        (netStep cfg codec forwardPercent w op).nodes nodeID
          = nodeNext (cfg nodeID) codec forwardPercent (w.nodes nodeID) input := by
  cases hinput : w.input op with
  | none =>
      rw [netStep_nodes, inputsAt, hinput]
      exact Or.inl rfl
  | some event =>
      rcases event with ⟨at', input⟩
      by_cases hat : at' = nodeID
      · rw [hat] at hinput ⊢
        exact Or.inr ⟨input, rfl, netStep_at cfg codec forwardPercent hinput⟩
      · rw [netStep_nodes, inputsAt, hinput]
        simp only [if_neg hat]
        exact Or.inl rfl

/-- No step of the network changes what a number stands for, wherever the step
    is. -/
theorem netStep_concerns {w : Network} (hw : w.Consistent) (op : NetOp) {nodeID : NodeID}
    {uuid : Uuid} {peer : NodeID} {missedTxs : HashList}
    (h : (w.nodes nodeID).Concerns uuid peer missedTxs) :
    ((netStep cfg codec forwardPercent w op).nodes nodeID).Concerns uuid peer missedTxs := by
  rcases netStep_nodes_cases cfg codec forwardPercent w op nodeID with heq | ⟨input, _, heq⟩
  · rw [heq]
    exact h
  · rw [heq]
    exact Node.nodeNext_concerns _ codec forwardPercent (hw nodeID) input h

/-- A message that stays in flight still belongs to its request after the
    step. -/
theorem netStep_message {Had Had' : NodeID → RequestTask → MemoryStorage → Prop}
    (hHad : ∀ peer task t, Had peer task t → Had' peer task t) {w : Network} (hw : w.Consistent)
    (op : NetOp) {message : Message} (h : message.Genuine codec Had w) :
    message.Genuine codec Had' (netStep cfg codec forwardPercent w op) := by
  cases message with
  | packet src dst uuid data =>
      intro u hu
      rcases h u hu with ⟨missedTxs, hdata, hconcerns⟩
      exact ⟨missedTxs, hdata, netStep_concerns cfg codec forwardPercent hw op hconcerns⟩
  | response src dst uuid data =>
      rcases h with ⟨task, t, ht, hnode, huuid, hdata, hconcerns⟩
      exact ⟨task, t, hHad src task t ht, hnode, huuid, hdata,
        netStep_concerns cfg codec forwardPercent hw op hconcerns⟩

variable {cfg}

/-- A message that a node sends belongs to a request. A request begins to wait
    as it is sent, and a response is sent as its task is served. -/
theorem sent_genuine {Had Had' : NodeID → RequestTask → MemoryStorage → Prop} {w : Network}
    (hw : w.Consistent) (h : w.Genuine codec Had) {op : NetOp}
    (hnow : ∀ peer task t, ServedAt peer task t w op → Had' peer task t) {nodeID : NodeID}
    {input : Input} (hinput : w.input op = some (nodeID, input)) {out : Output}
    (hout : out ∈ nodeOutput (cfg nodeID) codec forwardPercent (w.nodes nodeID) input)
    {message : Message} (hmessage : out.message nodeID = some message) :
    message.Genuine codec Had' (netStep cfg codec forwardPercent w op) := by
  have hnext := netStep_at cfg codec forwardPercent hinput
  -- By what has left the node: gossip has no number, a request and a response have
  -- one, and a call of a callback is no message.
  cases Node.nodeOutput_leaves (cfg nodeID) codec forwardPercent (hw nodeID) input hout with
  | @gossip existsInGroup order connectedNodeList consensusNodeList sent hsent =>
      rw [Node.sendPacket, Output.message, Option.some.injEq] at hmessage
      rw [← hmessage]
      exact fun u hu => absurd hu (Option.some_ne_none u).symm
  | @request r huuid hnew hmissed =>
      -- The request waits under its number from now on.
      rw [Output.message, Option.some.injEq] at hmessage
      rw [← hmessage]
      intro u hu
      rw [← Option.some.inj hu]
      refine ⟨r.missedTxs, rfl, ?_⟩
      rw [hnext]
      exact Node.concerns_of_mem
        (Node.nodeNext_consistent (cfg nodeID) codec forwardPercent (hw nodeID) input) hnew
  | @response task hworker hserved htask =>
      -- The task was in the queue of the worker, and belongs to a request.
      cases huuid : task.uuid with
      | none =>
          rw [huuid] at hmessage
          exact absurd hmessage (Option.some_ne_none message).symm
      | some uuid =>
          rw [huuid, Output.message, Option.some.injEq] at hmessage
          rw [← hmessage]
          exact ⟨task, _, hnow nodeID task _ ⟨hworker ▸ hinput, hserved⟩, rfl, huuid, rfl,
            netStep_concerns cfg codec forwardPercent hw op
              (h.tasks nodeID task htask uuid huuid)⟩
  | called hcalled =>
      rw [hcalled nodeID] at hmessage
      exact absurd hmessage (Option.some_ne_none message).symm

/-- A task keeps the number of its packet. Only a request makes a task, and it
    makes one. -/
theorem uuid_of_mem_tasks (cfg : TxPoolConfig) {uuid : Option Uuid} {src : NodeID} {data : Bytes}
    {task : RequestTask}
    (h : task ∈ (Input.asyncNotifyTxsSyncMessage none uuid src data).tasks cfg) :
    task.uuid = uuid := by
  simp only [Input.tasks, Input.message] at h
  cases hmessage : cfg.framework.createTxsSyncMsg data with
  | none =>
      rw [hmessage] at h
      exact absurd h List.not_mem_nil
  | some txsSyncMsg =>
      rcases txsSyncMsg with ⟨type, txsHash, txsData⟩
      rw [hmessage] at h
      cases type with
      | txsRequestPacket => rw [List.mem_singleton.mp h]
      | _ => exact absurd h List.not_mem_nil

/-- A task of a worker after a step was there before, or has arrived in the
    step. -/
theorem mem_worker {w : Network} (hw : w.Consistent) (op : NetOp) {peer : NodeID}
    {task : RequestTask}
    (htask : task ∈ ((netStep cfg codec forwardPercent w op).nodes peer).worker) :
    task ∈ (w.nodes peer).worker ∨
      ∃ src uuid data, .packet src peer uuid data ∈ w.flight ∧
        task ∈ (Input.asyncNotifyTxsSyncMessage none uuid src data).tasks (cfg peer) := by
  rcases netStep_nodes_cases cfg codec forwardPercent w op peer with heq | ⟨input, hinput, heq⟩
  · rw [heq] at htask
    exact Or.inl htask
  · -- The queue before and the arrivals are the task served, if any, and the queue
    -- after.
    have hqueue := (Node.nodeStep_queues (cfg peer) codec forwardPercent (hw peer) input).worker
    rw [heq] at htask
    have hmem : task ∈ (w.nodes peer).worker ++ input.tasks (cfg peer) := by
      rw [hqueue]
      exact List.mem_append_right _ htask
    rcases List.mem_append.mp hmem with hbefore | harrived
    · exact Or.inl hbefore
    · -- Only a packet that is delivered adds a task.
      cases op with
      | act nodeID given =>
          rcases given with ⟨given, hlocal⟩
          rcases Option.some.inj hinput with ⟨rfl, rfl⟩
          cases given with
          | asyncNotifyTxsSyncMessage error uuid nodeID data =>
              exact absurd hlocal Bool.false_ne_true
          | _ => exact absurd harrived List.not_mem_nil
      | deliver index =>
          rcases Option.map_eq_some_iff.mp hinput with ⟨message, hmessage, hevent⟩
          injection hevent with hdst hinput'
          rw [← hinput'] at harrived
          cases message with
          | packet src dst uuid data =>
              rw [Message.dst] at hdst
              rw [hdst] at hmessage
              exact Or.inr ⟨src, uuid, data, List.mem_of_getElem? hmessage, harrived⟩
          | response src dst uuid data => exact absurd harrived List.not_mem_nil
      | lose index => exact absurd hinput (Option.some_ne_none _).symm
      | giveUp nodeID uuid error =>
          rcases Option.some.inj hinput with ⟨rfl, rfl⟩
          exact absurd harrived List.not_mem_nil

/-- The invariant is kept by every step. The record of the turns may only grow,
    and it has to take in the turn of a worker that this step is. -/
theorem netStep_genuine (hlawful : ∀ nodeID, Lawful (cfg nodeID).framework codec)
    {Had Had' : NodeID → RequestTask → MemoryStorage → Prop}
    (hHad : ∀ peer task t, Had peer task t → Had' peer task t) {w : Network}
    (hw : w.Consistent) (h : w.Genuine codec Had) (op : NetOp)
    (hnow : ∀ peer task t, ServedAt peer task t w op → Had' peer task t) :
    (netStep cfg codec forwardPercent w op).Genuine codec Had' := by
  constructor
  · intro message hmessage
    -- A message was in flight before, or the node at the step has just sent it.
    rcases mem_flight cfg codec forwardPercent hmessage with
      hbefore | ⟨nodeID, input, hinput, out, hout, hsent⟩
    · exact netStep_message cfg codec forwardPercent hHad hw op
        (h.flight message (mem_of_mem_remaining hbefore))
    · exact sent_genuine codec forwardPercent hw h hnow hinput hout hsent
  · intro peer task htask uuid huuid
    refine netStep_concerns cfg codec forwardPercent hw op ?_
    rcases mem_worker codec forwardPercent hw op htask with
      hbefore | ⟨src, uuid', data, hmessage, harrived⟩
    · exact h.tasks peer task hbefore uuid huuid
    · -- The packet decodes to the request that it was encoded from.
      cases uuid' with
      | none =>
          rw [uuid_of_mem_tasks (cfg peer) harrived] at huuid
          exact absurd huuid (Option.some_ne_none uuid).symm
      | some u =>
          rcases h.flight _ hmessage u rfl with ⟨missedTxs, rfl, hconcerns⟩
          simp only [Input.tasks, Input.message, (hlawful peer).txsSyncMsg, Option.map_some,
            List.mem_singleton] at harrived
          rw [harrived] at huuid ⊢
          rw [← Option.some.inj huuid]
          exact hconcerns

/-- In a run from the start, what is on its way belongs to a request, and each
    response to a turn of a worker. -/
theorem run_genuine (hlawful : ∀ nodeID, Lawful (cfg nodeID).framework codec)
    (ledger : NodeID → LedgerNonceChecker) (ops : List NetOp) :
    (run (netStep cfg codec forwardPercent) (start ledger) ops).Genuine codec
      (fun peer task t => Once (netStep cfg codec forwardPercent) (ServedAt peer task t)
        (start ledger) ops) := by
  -- The induction is on the run from its end, since the record of the turns grows
  -- with the run.
  induction ops using List.reverseRecOn with
  | nil =>
      refine ⟨fun message h => ?_, fun peer task h => ?_⟩
      · exact absurd h List.not_mem_nil
      · exact absurd h List.not_mem_nil
  | append_singleton ops op ih =>
      rw [run_concat]
      refine netStep_genuine codec forwardPercent hlawful ?_
        (run_consistent cfg codec forwardPercent ledger ops) ih op ?_
      · exact fun peer task t hserved => (once_concat _ _ _ _ _).mpr (Or.inl hserved)
      · exact fun peer task t hserved => (once_concat _ _ _ _ _).mpr (Or.inr hserved)

/-! ### Answers -/

/-- An answer that arrives is an honest one to the request that it closes, from
    the pool that the peer had when it served that request. -/
theorem answer_honest {Had : NodeID → RequestTask → MemoryStorage → Prop} {w : Network}
    (h : w.Genuine codec Had) {op : NetOp} {nodeID : NodeID} {uuid : Uuid}
    {response : FrontResponse}
    (hinput : w.input op = some (nodeID, .onPeerResponse uuid response)) :
    (∃ error, op = .giveUp nodeID uuid error ∧ response.error = some error) ∨
      ∀ r ∈ (w.nodes nodeID).peerRequests, r.uuid = uuid → ∃ task t, Had r.nodeID task t ∧
        r.Arrived nodeID task ∧
        response = TransactionSync.answerOf codec t r.nodeID r.missedTxs := by
  -- An answer comes from the front service or as a response in flight.
  cases op with
  | act nodeID' given =>
      rcases given with ⟨given, hlocal⟩
      rcases Option.some.inj hinput with ⟨rfl, rfl⟩
      exact absurd hlocal Bool.false_ne_true
  | deliver index =>
      rcases Option.map_eq_some_iff.mp hinput with ⟨message, hmessage, hevent⟩
      injection hevent with hdst hinput'
      cases message with
      | packet src dst uuid' data => cases hinput'
      | response src dst uuid' data =>
          injection hinput' with huuid hresponse
          rcases h.flight _ (List.mem_of_getElem? hmessage) with
            ⟨task, t, ht, hnode, htask, hdata, hconcerns⟩
          rw [Message.dst] at hdst
          rw [hdst, huuid] at hconcerns
          refine Or.inr (fun r hr hr' => ?_)
          -- The one request that may wait under the number is the one that was served.
          rcases hconcerns.same r hr hr' with ⟨hpeer, hmissed⟩
          refine ⟨task, t, hpeer ▸ ht, ⟨hnode.trans hdst, ?_, hmissed.symm⟩, ?_⟩
          · rw [htask, huuid, hr']
          · rw [← hresponse, hdata, hpeer, hmissed]
            rfl
  | lose index => exact absurd hinput (Option.some_ne_none _).symm
  | giveUp nodeID' uuid' error =>
      rcases Option.some.inj hinput with ⟨rfl, rfl⟩
      exact Or.inl ⟨error, rfl, rfl⟩

end Network

/-! ### Errors -/

/-- A request has captured the callback of a proposal. -/
def Captures (onVerifyFinished : Option OnVerifyFinished) (callback : Nat) : Prop :=
  ∃ block missedTxs, onVerifyFinished = some (.verifyBlock callback block missedTxs)

/-- A callback that is called with an error is one for a proposal, and was given
    that error. -/
theorem error_of_mem_invoke {f : OnVerifyFinished} {verdict response : VerifyResponse}
    {callback : Nat} {error : Error} (herror : response.error = some error)
    (h : .onVerifyFinished callback response ∈ f.invoke verdict) :
    Captures (some f) callback ∧ verdict.error = some error := by
  cases f with
  | verifyBlock callback' block missedTxs =>
      injection List.mem_singleton.mp h with hcallback hresponse
      refine ⟨⟨block, missedTxs, by rw [hcallback]⟩, ?_⟩
      rw [hresponse, TxPool.onVerifyFinishedWrapper] at herror
      split at herror
      · -- The wrapper takes an error away or leaves it.
        exact (Option.ite_none_left_eq_some.mp herror).2
      · exact herror
  | fillBlock callback' txsHash =>
      -- A block that is filled reports no error about a proposal.
      rcases List.mem_map.mp h with ⟨filled, _, hfilled⟩
      cases hfilled

/-- The same where there may be no callback at all, as with an announcement. -/
theorem error_of_mem_invokeAll {onVerifyFinished : Option OnVerifyFinished}
    {verdict response : VerifyResponse} {callback : Nat} {error : Error}
    (herror : response.error = some error)
    (h : .onVerifyFinished callback response
      ∈ OnVerifyFinished.invokeAll onVerifyFinished [verdict]) :
    Captures onVerifyFinished callback ∧ verdict.error = some error := by
  rcases Node.mem_invokeAll h with ⟨f, rfl, hinvoked⟩
  exact error_of_mem_invoke herror hinvoked

namespace Node

variable (cfg : TxPoolConfig) (codec : Codec) (forwardPercent : Nat)

/-- An error about a proposal is reported on an answer of the ledger that leaves
    hashes where no peer is named, or on an answer of a peer. The request
    answered has captured the callback. -/
theorem error_of_mem_output {n : Node} (h : n.Consistent) {input : Input} {callback : Nat}
    {response : VerifyResponse} {error : Error}
    (hout : .onVerifyFinished callback response ∈ nodeOutput cfg codec forwardPercent n input)
    (herror : response.error = some error) :
    (∃ index answer r, input = .onLedgerResponse index answer ∧
      n.ledgerRequests[index]? = some r ∧ Captures r.onVerifyFinished callback ∧
      r.generatedNodeID = none ∧
      (∃ k ∈ r.missedTxs, LeavesOut cfg n.storage answer
        (OnVerifyFinished.verifiedProposal r.onVerifyFinished) k) ∧
      (ledgerMissing n.storage).error = some error) ∨
    ∃ uuid answer r s verdict, input = .onPeerResponse uuid answer ∧ r ∈ n.peerRequests ∧
      r.uuid = uuid ∧ Captures r.onVerifyFinished callback ∧
      TransactionSync.verifyFetchedTxs cfg n.storage answer r.missedTxs
        (OnVerifyFinished.verifiedProposal r.onVerifyFinished) = some (s, [verdict]) ∧
      verdict.error = some error := by
  unfold nodeOutput at hout
  have hstep := nodeStep_cases cfg codec forwardPercent h.missed input
  generalize nodeStep cfg codec forwardPercent n input = after at hstep hout
  cases hstep with
  | gossiped hgossips =>
      rcases List.mem_map.mp hout with ⟨sent, _, heq⟩
      cases heq
  | served hworker =>
      have heq := List.mem_singleton.mp hout
      cases heq
  | @verified callback' generatedNodeID data block hblock hmissed =>
      -- What is found at once is no error.
      have hnone := (error_of_mem_invoke (f := .verifyBlock callback' block []) herror hout).2
      exact absurd hnone (Option.some_ne_none error).symm
  | filled hmissed =>
      have heq := List.mem_singleton.mp hout
      cases heq
  | @ledgerVerdict index answer r s left verdict hrequest hbrings hverdict =>
      rcases error_of_mem_invokeAll herror hout with ⟨hcaptures, hgiven⟩
      -- The ledger had everything, or it left some and nobody else can be asked.
      rcases hverdict with ⟨_, rfl⟩ | ⟨hleft, hpeer, rfl⟩
      · exact absurd hgiven (Option.some_ne_none error).symm
      · rcases List.exists_mem_of_ne_nil left hleft with ⟨k, hk⟩
        exact Or.inl ⟨index, answer, r, rfl, hrequest, hcaptures, hpeer,
          ⟨k, (hbrings.mem_left k).mp hk⟩, hgiven⟩
  | ledgerPassedOn hrequest hbrings hleft hpeer =>
      have heq := List.mem_singleton.mp hout
      cases heq
  | @peerVerdict uuid answer r s verdict hrequest hverify =>
      have huuid := List.find?_some hrequest
      rcases error_of_mem_invokeAll herror hout with ⟨hcaptures, hgiven⟩
      exact Or.inr ⟨uuid, answer, r, s, verdict, rfl, List.mem_of_find?_eq_some hrequest,
        of_decide_eq_true huuid, hcaptures, hverify, hgiven⟩
  | _ => exact absurd hout List.not_mem_nil

end Node

/-- In a network of nodes that run this code, a node reports an error about a
    proposal in three cases only, and each time the request concerned has
    captured the callback. The front service has given up on the request, and
    this is its error. Or the ledger has answered and left one of the hashes,
    and no peer was named. Or a peer has answered, from the pool that it had in
    the turn of its worker that served this very request. Then it lacked one of
    the hashes asked for and the error says that transactions are missing. Or it
    had them all, but they could not be imported, and the error says that they
    do not pass the check. -/
theorem reports_truthful (cfg : NodeID → TxPoolConfig) (codec : Codec) (forwardPercent : Nat)
    (hlawful : ∀ nodeID, Lawful (cfg nodeID).framework codec)
    (ledger : NodeID → LedgerNonceChecker) (ops : List NetOp) (op : NetOp) (nodeID : NodeID)
    (input : Input) (callback : Nat) (response : VerifyResponse) (error : Error)
    (hinput : (run (netStep cfg codec forwardPercent) (Network.start ledger) ops).input op
      = some (nodeID, input))
    (hout : .onVerifyFinished callback response
      ∈ nodeOutput (cfg nodeID) codec forwardPercent
        ((run (netStep cfg codec forwardPercent) (Network.start ledger) ops).nodes nodeID) input)
    (herror : response.error = some error) :
    let n := (run (netStep cfg codec forwardPercent) (Network.start ledger) ops).nodes nodeID
    (∃ r ∈ n.peerRequests, Captures r.onVerifyFinished callback ∧
      op = .giveUp nodeID r.uuid error) ∨
    (∃ index answer r, input = .onLedgerResponse index answer ∧
      n.ledgerRequests[index]? = some r ∧ Captures r.onVerifyFinished callback ∧
      r.generatedNodeID = none ∧
      (∃ k ∈ r.missedTxs, Node.LeavesOut (cfg nodeID) n.storage answer
        (OnVerifyFinished.verifiedProposal r.onVerifyFinished) k) ∧
      error = ⟨.transactionsMissing,
        "requestMissedTxs failed from the ledger for Transaction missing"⟩) ∨
    ∃ r ∈ n.peerRequests, Captures r.onVerifyFinished callback ∧ ∃ task t,
      r.Arrived nodeID task ∧
      Once (netStep cfg codec forwardPercent) (ServedAt r.nodeID task t) (Network.start ledger)
        ops ∧
      input = .onPeerResponse r.uuid (TransactionSync.answerOf codec t r.nodeID r.missedTxs) ∧
      ((∃ k ∈ r.missedTxs, t.exist k = false) ∧
          error = ⟨.transactionsMissing, "TransactionsMissing"⟩ ∨
        (∀ k ∈ r.missedTxs, t.exist k = true) ∧
          (TransactionSync.importDownloadedTxs (cfg nodeID) n.storage r.nodeID
            (TransactionSync.responseBlock t r.missedTxs).transactions
            (OnVerifyFinished.verifiedProposal r.onVerifyFinished)).2 = false ∧
          error = ⟨.txsSignatureVerifyFailed,
            "invalid transaction for invalid signature or nonce or blockLimit"⟩) := by
  -- By what the node was given in this step: the answer of the ledger, or something
  -- under the number of a request to a peer.
  intro n
  have hconsistent := Network.run_consistent cfg codec forwardPercent ledger ops nodeID
  have hgenuine := Network.run_genuine codec forwardPercent hlawful ledger ops
  rcases Node.error_of_mem_output (cfg nodeID) codec forwardPercent hconsistent hout herror with
    ⟨index, answer, r, hledger, hrequest, hcaptures, hpeer, hleft, hmissing⟩ |
    ⟨uuid, answer, r, s, verdict, hanswer, hr, huuid, hcaptures, hverify, hgiven⟩
  · exact Or.inr (Or.inl ⟨index, answer, r, hledger, hrequest, hcaptures, hpeer, hleft,
      (Option.some.inj hmissing).symm⟩)
  · rw [hanswer] at hinput
    rcases Network.answer_honest codec hgenuine hinput with ⟨given, hop, hfailed⟩ | hhonest
    · -- The error of the front service is passed on as it is.
      refine Or.inl ⟨r, hr, hcaptures, ?_⟩
      unfold TransactionSync.verifyFetchedTxs at hverify
      rw [hfailed] at hverify
      injection hverify with hverify
      injection hverify with _ hverify
      injection hverify with hverify _
      rw [← hverify] at hgiven
      rw [hop, huuid, Option.some.inj hgiven]
    · -- The verdict on an honest answer tells what the peer had.
      rcases hhonest r hr huuid with ⟨task, t, hserved, harrived, heq⟩
      rcases Node.verifyFetchedTxs_honest (hlawful nodeID) n.storage t r.nodeID r.missedTxs
        (OnVerifyFinished.verifiedProposal r.onVerifyFinished) with
        ⟨s', verdict', hverify', hcases⟩
      rw [heq, hverify'] at hverify
      injection hverify with hverify
      injection hverify with _ hverify
      injection hverify with hverify _
      rw [← hverify] at hgiven
      refine Or.inr (Or.inr ⟨r, hr, hcaptures, task, t, harrived, hserved, ?_, ?_⟩)
      · rw [hanswer, huuid, heq]
      · rcases hcases with ⟨hlacks, rfl⟩ | ⟨hall, rfl | ⟨hfailed, rfl⟩⟩
        · exact Or.inl ⟨hlacks, (Option.some.inj hgiven).symm⟩
        · exact absurd hgiven (Option.some_ne_none error).symm
        · exact Or.inr ⟨hall, hfailed, (Option.some.inj hgiven).symm⟩

/-- A proposal is verified at a node, which asks another one for its
    transaction, and the other one answers. -/
def oneRequest : List NetOp :=
  [.act 0 ⟨.asyncVerifyBlock 7 (some 1) [1], rfl⟩, .act 0 ⟨.onLedgerResponse 0 ⟨none, []⟩, rfl⟩,
    .deliver 0, .act 1 ⟨.worker, rfl⟩]

/-- The answer arrives without the transaction. So the other node did not have
    it in the turn of its worker that served the request. -/
theorem reports_truthful_oneRequest :
    ∃ task t, Once (netStep (fun _ => bookConfig) bookCodec 25) (ServedAt 1 task t)
        (Network.start emptyLedgers) oneRequest ∧ task.uuid = some 0 ∧ t.exist 1 = false := by
  have hout : ∃ pool, nodeOutput bookConfig bookCodec 25
      ((run (netStep (fun _ => bookConfig) bookCodec 25) (Network.start emptyLedgers)
        oneRequest).nodes 0) (.onPeerResponse 0 ⟨none, 1, [1, 1]⟩)
      = [.onVerifyFinished 7
        ⟨some ⟨.transactionsMissing, "TransactionsMissing"⟩, false, pool⟩] := ⟨_, rfl⟩
  rcases hout with ⟨pool, hout⟩
  -- One request waits, and the four steps before have sent it.
  have hwaits : ∀ r ∈ ((run (netStep (fun _ => bookConfig) bookCodec 25)
      (Network.start emptyLedgers) oneRequest).nodes 0).peerRequests,
      r.nodeID = 1 ∧ r.uuid = 0 ∧ r.missedTxs = [1] := by
    intro r hr
    rw [List.mem_singleton.mp hr]
    exact ⟨rfl, rfl, rfl⟩
  rcases reports_truthful (fun _ => bookConfig) bookCodec 25 (fun _ => book_lawful) emptyLedgers
    oneRequest (.deliver 0) 0 (.onPeerResponse 0 ⟨none, 1, [1, 1]⟩) 7 _ _ rfl
    (hout ▸ List.mem_singleton.mpr rfl) rfl with
    ⟨r, hr, hcaptures, hop⟩ | ⟨index, answer, r, hinput, _⟩ |
    ⟨r, hr, _, task, t, harrived, hserved, _, ⟨⟨k, hk, hlacks⟩, _⟩ | ⟨_, _, herror⟩⟩
  · cases hop
  · cases hinput
  · rcases hwaits r hr with ⟨hpeer, huuid, hmissed⟩
    rw [hmissed] at hk
    rw [hpeer] at hserved
    rw [List.mem_singleton.mp hk] at hlacks
    exact ⟨task, t, hserved, harrived.uuid.trans (congrArg some huuid), hlacks⟩
  · cases herror

/-! ### Callbacks -/

namespace Network

variable (cfg : NodeID → TxPoolConfig) (codec : Codec) (forwardPercent : Nat)

/-- The callbacks that a step gives to a node. A step elsewhere gives it
    none. -/
def givenAt (nodeID : NodeID) (w : Network) (op : NetOp) : List Callback :=
  (inputsAt nodeID w op).flatMap (Input.given (cfg nodeID))

/-- The callbacks that a step calls at a node. -/
def calledAt (nodeID : NodeID) (w : Network) (op : NetOp) : List Callback :=
  (inputsAt nodeID w op).flatMap
    (fun input => called (nodeOutput (cfg nodeID) codec forwardPercent (w.nodes nodeID) input))

variable {cfg}

/-- No step loses a callback. The decoders throw neither on an error of the
    front service, which they do not see, nor on the answer of an honest
    peer. -/
theorem dropped_eq_nil (hlawful : ∀ nodeID, Lawful (cfg nodeID).framework codec)
    {Had : NodeID → RequestTask → MemoryStorage → Prop} {w : Network} (h : w.Genuine codec Had)
    {op : NetOp} {nodeID : NodeID} {input : Input} (hinput : w.input op = some (nodeID, input)) :
    (w.nodes nodeID).dropped (cfg nodeID) input = [] := by
  cases input with
  | onPeerResponse uuid response =>
      rw [Node.dropped]
      rcases answer_honest codec h hinput with ⟨error, _, hgiven⟩ | hhonest
      · -- An error of the front service is not decoded.
        rw [if_neg]
        rw [Node.throwsOn, hgiven]
        exact Bool.false_ne_true
      · cases hfind : (w.nodes nodeID).peerRequests.find? (fun r => r.uuid = uuid) with
        | none =>
            simp only [Option.bind_none, Option.toList_none, List.map_nil, ite_self]
        | some r =>
            have huuid := List.find?_some hfind
            rcases hhonest r (List.mem_of_find?_eq_some hfind) (of_decide_eq_true huuid) with
              ⟨task, t, _, _, rfl⟩
            rcases Node.verifyFetchedTxs_honest (hlawful nodeID) (w.nodes nodeID).storage t r.nodeID
              r.missedTxs none with ⟨s, verdict, hverify, _⟩
            rw [if_neg]
            intro hthrows
            rw [(Node.verifyFetchedTxs_eq_none_iff (cfg nodeID) _ _ _ _).mpr hthrows] at hverify
            exact absurd hverify (Option.some_ne_none _).symm
  | _ => rfl

/-- The callbacks of one step of the network, at one node: the account of the
    node's own step, with nothing dropped. -/
theorem netStep_callbacks (hlawful : ∀ nodeID, Lawful (cfg nodeID).framework codec)
    {Had : NodeID → RequestTask → MemoryStorage → Prop} {w : Network} (hw : w.Consistent)
    (h : w.Genuine codec Had) (nodeID : NodeID) (op : NetOp) :
    ((w.nodes nodeID).waitingCallbacks ++ givenAt cfg nodeID w op).Perm
      (calledAt cfg codec forwardPercent nodeID w op ++
        ((netStep cfg codec forwardPercent w op).nodes nodeID).waitingCallbacks) := by
  rw [netStep_nodes, givenAt, calledAt]
  by_cases hat : ∃ input, w.input op = some (nodeID, input)
  · rcases hat with ⟨input, hinput⟩
    have hstep := Node.nodeStep_callbacks (cfg nodeID) codec forwardPercent (hw nodeID) input
    rw [dropped_eq_nil codec hlawful h hinput, List.append_nil] at hstep
    simp only [inputsAt, hinput, if_true, List.flatMap_cons, List.flatMap_nil, List.append_nil]
    exact hstep
  · -- The step is elsewhere.
    have hnone : inputsAt nodeID w op = [] := by
      unfold inputsAt
      cases hinput : w.input op with
      | none => rfl
      | some event =>
          rcases event with ⟨at', input⟩
          refine if_neg (fun heq => hat ⟨input, ?_⟩)
          rw [hinput, heq]
    rw [hnone, List.flatMap_nil, List.flatMap_nil, List.append_nil]
    exact List.Perm.refl _

/-- In a run from the start, what is on its way belongs to a request at every
    step. -/
theorem along_genuine (hlawful : ∀ nodeID, Lawful (cfg nodeID).framework codec)
    (ledger : NodeID → LedgerNonceChecker) (ops : List NetOp) :
    Along (netStep cfg codec forwardPercent)
      (fun w _ => w.Consistent ∧ w.Genuine codec (fun _ _ _ => True)) (start ledger) ops := by
  -- For the account it is enough that an answer is an honest one, whenever it was
  -- made: the record of the turns is left open.
  refine along_mono _ (fun _ _ hw => hw.2) ops _ (along_and_invariant _ (fun _ _ => True)
    (fun w => w.Consistent ∧ w.Genuine codec (fun _ _ _ => True)) ?_ ops _
    (along_of_forall _ (fun _ _ => trivial) ops _) ⟨?_, ?_⟩)
  · rintro w op _ ⟨hw, hgenuine⟩
    exact ⟨netStep_consistent cfg codec forwardPercent hw op,
      netStep_genuine codec forwardPercent hlawful (fun _ _ _ _ => trivial) hw hgenuine op
        (fun _ _ _ _ => trivial)⟩
  · exact run_consistent cfg codec forwardPercent ledger []
  · refine ⟨fun message h => absurd h List.not_mem_nil, fun peer task h => absurd h ?_⟩
    exact List.not_mem_nil

end Network

/-- In a network of nodes that run this code, whatever is lost or given up, the
    callbacks that a node has been given are those it has called, once each, and
    those that wait. The callback of a proposal whose bytes do not decode does
    not count as given, see `Input.given`: the source throws before it looks at
    it. -/
theorem callbacks_kept (cfg : NodeID → TxPoolConfig) (codec : Codec) (forwardPercent : Nat)
    (hlawful : ∀ nodeID, Lawful (cfg nodeID).framework codec)
    (ledger : NodeID → LedgerNonceChecker) (ops : List NetOp) (nodeID : NodeID) :
    let next := netStep cfg codec forwardPercent
    (gather next (Network.givenAt cfg nodeID) (Network.start ledger) ops).Perm
      (gather next (Network.calledAt cfg codec forwardPercent nodeID) (Network.start ledger) ops ++
        ((run next (Network.start ledger) ops).nodes nodeID).waitingCallbacks) := by
  intro next
  exact gather_perm_spent next
    (fun _ op hw => Network.netStep_callbacks codec forwardPercent hlawful hw.1 hw.2 nodeID op)
    (Network.start ledger) ops (Network.along_genuine codec forwardPercent hlawful ledger ops)

/-- The one callback given is accounted for while its request is on the way. -/
theorem callbacks_kept_oneRequest :
    gather (netStep (fun _ => bookConfig) bookCodec 25)
        (Network.givenAt (fun _ => bookConfig) 0) (Network.start emptyLedgers) oneRequest
        = [.verifyBlock 7] ∧
      (gather (netStep (fun _ => bookConfig) bookCodec 25)
          (Network.givenAt (fun _ => bookConfig) 0) (Network.start emptyLedgers) oneRequest).Perm
        (gather (netStep (fun _ => bookConfig) bookCodec 25)
            (Network.calledAt (fun _ => bookConfig) bookCodec 25 0) (Network.start emptyLedgers)
            oneRequest ++
          ((run (netStep (fun _ => bookConfig) bookCodec 25) (Network.start emptyLedgers)
            oneRequest).nodes 0).waitingCallbacks) :=
  ⟨by decide, callbacks_kept (fun _ => bookConfig) bookCodec 25 (fun _ => book_lawful)
    emptyLedgers oneRequest 0⟩

end BcosTxPool
