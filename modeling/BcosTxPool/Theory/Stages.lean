import BcosTxPool.Theory.Callbacks

/-!
# A Request Without Interruption

The pool is described at two levels. `TxPool.asyncVerifyBlock` and
`TxPool.asyncFillBlock` are one call each: the answers of the ledger and of the
peer are functions, and what happens meanwhile is left out. A `Node` takes the same
calls apart into a question, the answer of the ledger and the answer of the peer,
and anything may come in between.

The two levels agree where nothing does. If a question is answered at once by the
ledger, and what the ledger leaves at once by the peer, the node ends with the pool
of the one call, its callback is called as often and with the same answers, and the
requests of others wait as they did before.

## Main definitions

* `verdicts`: The calls of callbacks among what leaves a node.
* `Node.uninterrupted`: The answers to a question that come at once.

## Theorems

* `requestMissedTxs_uninterrupted`: The stages of a request.
* `calls_uninterrupted`: `asyncVerifyBlock` and `asyncFillBlock`.
-/

namespace BcosTxPool

open Library

/-- The calls of callbacks. The messages that a node sends meanwhile have no
    counterpart in the one call, where the peer is a function. -/
def verdicts (out : List Output) : List Output := out.filter (fun o => o.callback.isSome)

namespace Node

open TransactionSync

variable (cfg : TxPoolConfig) (codec : Codec) (forwardPercent : Nat)
variable (ledger : HashList → LedgerResponse) (frontService : NodeID → HashList → FrontResponse)

/-- What the ledger and the front service answer to a question at once: the
    question is the one at the place `index`, and what is left of it is
    requested under `uuid`. Which answers there are depends on what the node
    does with the first. -/
def uninterrupted (index : Nat) (uuid : Uuid) (n : Node) : List Input :=
  match n.ledgerRequests[index]? with
  | none => []
  | some r =>
      let answer : Input := .onLedgerResponse index (ledger r.missedTxs)
      match (nodeNext cfg codec forwardPercent n answer).peerRequests.find?
          (fun r => r.uuid = uuid) with
      | none => [answer]
      | some r => [answer, .onPeerResponse uuid (frontService r.nodeID r.missedTxs)]

/-- Verdicts are handed to the callback one after the other. -/
theorem invokeAll_append (onVerifyFinished : Option OnVerifyFinished)
    (responses more : List VerifyResponse) :
    OnVerifyFinished.invokeAll onVerifyFinished (responses ++ more)
      = OnVerifyFinished.invokeAll onVerifyFinished responses ++
        OnVerifyFinished.invokeAll onVerifyFinished more := by
  cases onVerifyFinished with
  | none => rfl
  | some f => exact List.flatMap_append

/-- Without a callback nothing is invoked, whether or not that is looked at
    first. -/
theorem invokeAll_ite (onVerifyFinished : Option OnVerifyFinished)
    (responses : List VerifyResponse) :
    OnVerifyFinished.invokeAll onVerifyFinished
        (if onVerifyFinished.isSome then responses else [])
      = OnVerifyFinished.invokeAll onVerifyFinished responses := by
  cases onVerifyFinished with
  | none => rfl
  | some f => rfl

/-- All that a callback leaves behind are its calls. -/
theorem verdicts_invokeAll (onVerifyFinished : Option OnVerifyFinished)
    (responses : List VerifyResponse) :
    verdicts (OnVerifyFinished.invokeAll onVerifyFinished responses)
      = OnVerifyFinished.invokeAll onVerifyFinished responses := by
  rw [verdicts, List.filter_eq_self]
  intro out hout
  cases onVerifyFinished with
  | none => exact absurd hout List.not_mem_nil
  | some f =>
      rcases List.mem_flatMap.mp hout with ⟨response, _, hinvoked⟩
      -- A verification calls back with each verdict, and a fill with each of its
      -- answers.
      cases f with
      | verifyBlock callback block missedTxs =>
          rw [List.mem_singleton.mp hinvoked]
          rfl
      | fillBlock callback txsHash =>
          rcases List.mem_map.mp hinvoked with ⟨filled, _, rfl⟩
          rfl

/-- A node after the stages of a request: the pool is another one, a number may
    have been used, and everything else is as it was. -/
def Settled (n : Node) (s : MemoryStorage) (after : Node) : Prop :=
  ∃ uuid, after = { n with storage := s, nextUuid := uuid }

/-- The ledger answers the question that was asked last. -/
theorem nodeStep_ledgerAnswer (n : Node) (r : LedgerRequest) (response : LedgerResponse) :
    nodeStep cfg codec forwardPercent { n with ledgerRequests := n.ledgerRequests ++ [r] }
        (.onLedgerResponse n.ledgerRequests.length response)
      = n.onLedgerAnswer cfg codec r response := by
  -- The last question is found at its place, and the others are left.
  have hget : (n.ledgerRequests ++ [r])[n.ledgerRequests.length]? = some r :=
    List.getElem?_concat_length
  have hrest : (n.ledgerRequests ++ [r]).eraseIdx n.ledgerRequests.length = n.ledgerRequests := by
    rw [List.eraseIdx_append_of_length_le (Nat.le_refl _), Nat.sub_self]
    exact List.append_nil _
  rw [nodeStep, onLedgerResponse]
  simp only [hget, hrest]

/-- No request waits under the next number, since the numbers in use are all
    below it. -/
theorem find_nextUuid {n : Node} (h : n.Consistent) :
    n.peerRequests.find? (fun r => r.uuid = n.nextUuid) = none :=
  List.find?_eq_none.mpr fun r hr huuid =>
    Nat.lt_irrefl _ (of_decide_eq_true huuid ▸ h.fresh r hr)

/-- The peer answers the request that was sent last. -/
theorem nodeStep_peerAnswer {n : Node} (h : n.Consistent) (s : MemoryStorage) (r : PeerRequest)
    (hr : r.uuid = n.nextUuid) (response : FrontResponse) :
    nodeStep cfg codec forwardPercent
        { n with storage := s, peerRequests := n.peerRequests ++ [r], nextUuid := n.nextUuid + 1 }
        (.onPeerResponse n.nextUuid response)
      = onPeerAnswer cfg { n with storage := s, nextUuid := n.nextUuid + 1 } r response := by
  have hfind : (n.peerRequests ++ [r]).find? (fun r => r.uuid = n.nextUuid) = some r := by
    rw [List.find?_append, find_nextUuid h, Option.none_or]
    exact List.find?_cons_of_pos (decide_eq_true hr)
  -- Numbers are not given twice, so the request alone goes.
  have hrest : (n.peerRequests ++ [r]).filter (fun r => r.uuid ≠ n.nextUuid) = n.peerRequests := by
    have hothers : ∀ r ∈ n.peerRequests, decide (r.uuid ≠ n.nextUuid) = true :=
      fun r hr => decide_eq_true (Nat.ne_of_lt (h.fresh r hr))
    rw [List.filter_append, List.filter_eq_self.mpr hothers, List.filter_cons_of_neg,
      List.filter_nil, List.append_nil]
    rw [decide_eq_true_eq]
    exact fun hne => hne hr
  rw [nodeStep, onPeerResponse]
  simp only [hfind, hrest]

/-- Where the ledger's answer closes the request it is the only input. The
    number that a request to a peer would have had is still free. -/
theorem settled_of_closed {n : Node} (h : n.Consistent) {r : LedgerRequest} {asked : Node}
    (hget : asked.ledgerRequests[n.ledgerRequests.length]? = some r) {s : MemoryStorage}
    {responses : List VerifyResponse}
    (hstep : nodeStep cfg codec forwardPercent asked
        (.onLedgerResponse n.ledgerRequests.length (ledger r.missedTxs))
      = ({ n with storage := s }, OnVerifyFinished.invokeAll r.onVerifyFinished responses)) :
    let inputs := uninterrupted cfg codec forwardPercent ledger frontService
      n.ledgerRequests.length n.nextUuid asked
    n.Settled s (run (nodeNext cfg codec forwardPercent) asked inputs) ∧
      verdicts (gather (nodeNext cfg codec forwardPercent)
          (nodeOutput cfg codec forwardPercent) asked inputs)
        = OnVerifyFinished.invokeAll r.onVerifyFinished responses := by
  intro inputs
  have hnext : nodeNext cfg codec forwardPercent asked
      (.onLedgerResponse n.ledgerRequests.length (ledger r.missedTxs)) = { n with storage := s } :=
    congrArg Prod.fst hstep
  -- Nothing waits under the next number, so no second answer comes.
  have hinputs : inputs = [.onLedgerResponse n.ledgerRequests.length (ledger r.missedTxs)] := by
    simp only [inputs, uninterrupted, hget, hnext, find_nextUuid h]
  rw [hinputs, run_cons, run_nil, gather_cons, gather_nil, List.append_nil, hnext, nodeOutput,
    hstep, verdicts_invokeAll]
  exact ⟨⟨n.nextUuid, rfl⟩, rfl⟩

/-- Where it leaves hashes the peer's answer follows, and closes the request.
    What the callback was told by the first answer comes before what it is told
    by the second. -/
theorem settled_of_passedOn {n : Node} (h : n.Consistent) {r : LedgerRequest} {asked : Node}
    (hget : asked.ledgerRequests[n.ledgerRequests.length]? = some r) {s : MemoryStorage}
    {responses : List VerifyResponse} {request : PeerRequest} (huuid : request.uuid = n.nextUuid)
    {dst : NodeID} {number : Option Uuid} {data : Bytes}
    (hstep : nodeStep cfg codec forwardPercent asked
        (.onLedgerResponse n.ledgerRequests.length (ledger r.missedTxs))
      = ({ n with
            storage := s
            peerRequests := n.peerRequests ++ [request]
            nextUuid := n.nextUuid + 1 },
          OnVerifyFinished.invokeAll r.onVerifyFinished responses ++
            [.asyncSendMessage dst number data]))
    {result : MemoryStorage × List VerifyResponse}
    (hresult : (verifyFetchedTxs cfg s (frontService request.nodeID request.missedTxs)
      request.missedTxs (OnVerifyFinished.verifiedProposal request.onVerifyFinished)).getD (s, [])
        = result) :
    let inputs := uninterrupted cfg codec forwardPercent ledger frontService
      n.ledgerRequests.length n.nextUuid asked
    n.Settled result.1 (run (nodeNext cfg codec forwardPercent) asked inputs) ∧
      verdicts (gather (nodeNext cfg codec forwardPercent)
          (nodeOutput cfg codec forwardPercent) asked inputs)
        = OnVerifyFinished.invokeAll r.onVerifyFinished responses ++
          OnVerifyFinished.invokeAll request.onVerifyFinished result.2 := by
  intro inputs
  have hnext : nodeNext cfg codec forwardPercent asked
      (.onLedgerResponse n.ledgerRequests.length (ledger r.missedTxs))
        = { n with storage := s, peerRequests := n.peerRequests ++ [request],
                   nextUuid := n.nextUuid + 1 } :=
    congrArg Prod.fst hstep
  have hfind : (n.peerRequests ++ [request]).find? (fun r => r.uuid = n.nextUuid)
      = some request := by
    rw [List.find?_append, find_nextUuid h, Option.none_or]
    exact List.find?_cons_of_pos (decide_eq_true huuid)
  have hinputs : inputs = [.onLedgerResponse n.ledgerRequests.length (ledger r.missedTxs),
      .onPeerResponse n.nextUuid (frontService request.nodeID request.missedTxs)] := by
    simp only [inputs, uninterrupted, hget, hnext, hfind]
  have hanswer := nodeStep_peerAnswer cfg codec forwardPercent h s request huuid
    (frontService request.nodeID request.missedTxs)
  subst hresult
  -- The message to the peer leaves the node, and no callback is called by it.
  have hsent : verdicts [.asyncSendMessage dst number data] = [] := rfl
  rw [hinputs, run_cons, run_cons, run_nil, gather_cons, gather_cons, gather_nil, List.append_nil,
    hnext, nodeOutput, hstep, nodeNext, nodeOutput, hanswer, onPeerAnswer]
  simp only [verdicts, List.filter_append] at hsent ⊢
  rw [hsent, List.append_nil]
  have hkept := fun f responses => verdicts_invokeAll f responses
  simp only [verdicts] at hkept
  rw [hkept]
  -- An exception in the lambda leaves the pool as it was and calls nobody.
  cases hverify : verifyFetchedTxs cfg s (frontService request.nodeID request.missedTxs)
    request.missedTxs (OnVerifyFinished.verifiedProposal request.onVerifyFinished) with
  | none =>
      simp only [Option.getD_none, invokeAll_nil, List.filter_nil, and_true]
      exact ⟨n.nextUuid + 1, rfl⟩
  | some verified =>
      simp only [Option.getD_some]
      rw [hkept]
      exact ⟨⟨n.nextUuid + 1, rfl⟩, rfl⟩

/-- The stages of a request, answered at once, are the one call. Both run the
    same function of the ledger's answer first, and both look at whether
    anything is left. -/
theorem requestMissedTxs_uninterrupted {n : Node} (h : n.Consistent)
    (generatedNodeID : Option NodeID) (missedTxs : HashList)
    (onVerifyFinished : Option OnVerifyFinished) :
    let asked := n.requestMissedTxs generatedNodeID missedTxs onVerifyFinished
    let inputs := uninterrupted cfg codec forwardPercent ledger frontService
      n.ledgerRequests.length n.nextUuid asked
    let result := TransactionSync.requestMissedTxs cfg n.storage generatedNodeID missedTxs
      (OnVerifyFinished.verifiedProposal onVerifyFinished) onVerifyFinished.isSome ledger
      frontService
    n.Settled result.1 (run (nodeNext cfg codec forwardPercent) asked inputs) ∧
      verdicts (gather (nodeNext cfg codec forwardPercent)
          (nodeOutput cfg codec forwardPercent) asked inputs)
        = OnVerifyFinished.invokeAll onVerifyFinished result.2 := by
  intro asked inputs result
  have hget : asked.ledgerRequests[n.ledgerRequests.length]?
      = some ⟨generatedNodeID, missedTxs, onVerifyFinished⟩ := List.getElem?_concat_length
  have hstep := nodeStep_ledgerAnswer cfg codec forwardPercent n
    ⟨generatedNodeID, missedTxs, onVerifyFinished⟩ (ledger missedTxs)
  unfold onLedgerAnswer at hstep
  simp only [result, TransactionSync.requestMissedTxs]
  rcases hanswer : onGetMissedTxsFromLedger cfg n.storage (SortedSet.ofList missedTxs)
    (ledger missedTxs) (OnVerifyFinished.verifiedProposal onVerifyFinished)
    onVerifyFinished.isSome with ⟨s, missedTxsSet, responses⟩
  simp only [hanswer] at hstep ⊢
  by_cases hsize : missedTxsSet.size = 0
  · rw [if_pos hsize] at hstep ⊢
    exact settled_of_closed cfg codec forwardPercent ledger frontService h hget hstep
  · rw [if_neg hsize] at hstep ⊢
    cases generatedNodeID with
    -- Without a peer the verdict of the request is an error, in the node and in the
    -- call.
    | none =>
        refine settled_of_closed cfg codec forwardPercent ledger frontService h hget
          (hstep.trans (congrArg (Prod.mk _) ?_))
        -- The call leaves out the verdict where there is no callback, and the node
        -- invokes nothing.
        rw [invokeAll_append, invokeAll_ite]
    | some peer =>
        -- The hashes left are requested, and the peer answers.
        simp only [requestMissedTxsFromPeer_eq codec _ peer onVerifyFinished hsize] at hstep
        have hlength : ¬ (decide (missedTxsSet.toList.length = 0) && onVerifyFinished.isSome)
            = true := by
          rw [decide_eq_false (show ¬ missedTxsSet.toList.length = 0 from hsize), Bool.false_and]
          exact Bool.false_ne_true
        simp only [TransactionSync.requestMissedTxsFromPeer, if_neg hlength]
        -- Both run the same verification, which may raise an exception.
        cases hverify : verifyFetchedTxs cfg s (frontService peer missedTxsSet.toList)
          missedTxsSet.toList (OnVerifyFinished.verifiedProposal onVerifyFinished) with
        | none =>
            have hsettled := settled_of_passedOn cfg codec forwardPercent ledger frontService h hget
              rfl hstep (congrArg (fun answer => answer.getD (s, [])) hverify)
            rw [Option.getD_none, invokeAll_nil, List.append_nil] at hsettled
            rw [List.append_nil]
            exact hsettled
        | some verified =>
            have hsettled := settled_of_passedOn cfg codec forwardPercent ledger frontService h hget
              rfl hstep (congrArg (fun answer => answer.getD (s, [])) hverify)
            rw [invokeAll_append, invokeAll_ite]
            exact hsettled

/-- Where nothing is asked, nothing is answered. -/
theorem uninterrupted_eq_nil {n : Node} {index : Nat} (hindex : n.ledgerRequests.length ≤ index)
    (uuid : Uuid) :
    uninterrupted cfg codec forwardPercent ledger frontService index uuid n = [] := by
  rw [uninterrupted, List.getElem?_eq_none_iff.mpr hindex]

/-- The verification of a proposal. Bytes that do not decode leave both as they
    were, and a proposal that misses nothing has its verdict at once. -/
theorem asyncVerifyBlock_uninterrupted {n : Node} (h : n.Consistent) (callback : Nat)
    (generatedNodeID : Option NodeID) (data : Bytes) :
    let input : Input := .asyncVerifyBlock callback generatedNodeID data
    let inputs := input :: uninterrupted cfg codec forwardPercent ledger frontService
      n.ledgerRequests.length n.nextUuid (nodeNext cfg codec forwardPercent n input)
    let result := (TxPool.asyncVerifyBlock cfg n.storage generatedNodeID data ledger
      frontService).getD (n.storage, [])
    n.Settled result.1 (run (nodeNext cfg codec forwardPercent) n inputs) ∧
      verdicts (gather (nodeNext cfg codec forwardPercent)
          (nodeOutput cfg codec forwardPercent) n inputs)
        = result.2.map (.onVerifyFinished callback) := by
  intro input inputs result
  have hsame : n.Settled n.storage n := ⟨n.nextUuid, rfl⟩
  have hnone : nodeNext cfg codec forwardPercent n input = n → inputs = [input] := fun hnext => by
    simp only [inputs, hnext, uninterrupted_eq_nil cfg codec forwardPercent ledger frontService
      (Nat.le_refl _)]
  cases hblock : cfg.framework.createBlock data with
  | none =>
      have hstep : nodeStep cfg codec forwardPercent n input = (n, []) := by
        simp only [input, nodeStep, asyncVerifyBlock, hblock]
      have hresult : result = (n.storage, []) := by
        simp only [result, TxPool.asyncVerifyBlock, hblock, Option.map_none, Option.getD_none]
      rw [hnone (congrArg Prod.fst hstep), hresult, run_cons, run_nil, gather_cons, gather_nil,
        nodeNext, nodeOutput, hstep]
      exact ⟨hsame, rfl⟩
  | some block =>
      have hresult : result = TxPool.verifyBlock cfg n.storage generatedNodeID block ledger
          frontService := by
        simp only [result, TxPool.asyncVerifyBlock, hblock, Option.map_some, Option.getD_some]
      rw [hresult, TxPool.verifyBlock]
      -- Where nothing is missed, the one input is all that happens.
      by_cases hmissed : (n.storage.batchVerifyProposal block).length = 0
      · have hstep : nodeStep cfg codec forwardPercent n input
            = (n, OnVerifyFinished.invoke ⟨none, true, n.storage⟩
              (.verifyBlock callback block (n.storage.batchVerifyProposal block))) := by
          simp only [input, nodeStep, asyncVerifyBlock, hblock, hmissed, if_true]
        rw [if_pos hmissed, hnone (congrArg Prod.fst hstep), run_cons, run_nil, gather_cons,
          gather_nil, nodeNext, nodeOutput, hstep]
        exact ⟨hsame, rfl⟩
      · have hstep : nodeStep cfg codec forwardPercent n input
            = (n.requestMissedTxs generatedNodeID (n.storage.batchVerifyProposal block)
              (some (.verifyBlock callback block (n.storage.batchVerifyProposal block))), []) := by
          simp only [input, nodeStep, asyncVerifyBlock, hblock, hmissed, if_false]
        have hnext := congrArg Prod.fst hstep
        have hout := congrArg Prod.snd hstep
        rcases requestMissedTxs_uninterrupted cfg codec forwardPercent ledger frontService h
          generatedNodeID (n.storage.batchVerifyProposal block)
          (some (.verifyBlock callback block (n.storage.batchVerifyProposal block))) with
          ⟨hsettled, hverdicts⟩
        rw [if_neg hmissed]
        simp only [inputs, run_cons, gather_cons, nodeNext, nodeOutput] at hnext hout ⊢
        rw [hnext, hout]
        -- What is left is the form of the verdicts: each is one call.
        refine ⟨hsettled, hverdicts.trans ?_⟩
        simp only [OnVerifyFinished.invokeAll, OnVerifyFinished.invoke, List.map_map]
        exact List.map_eq_flatMap.symm

/-- The filling of a block. Here the question has no peer, so the ledger's
    answer closes it. -/
theorem asyncFillBlock_uninterrupted {n : Node} (h : n.Consistent) (callback : Nat)
    (txsHash : HashList) :
    let input : Input := .asyncFillBlock callback txsHash
    let inputs := input :: uninterrupted cfg codec forwardPercent ledger frontService
      n.ledgerRequests.length n.nextUuid (nodeNext cfg codec forwardPercent n input)
    let result := TxPool.asyncFillBlock cfg n.storage txsHash ledger frontService
    n.Settled result.1 (run (nodeNext cfg codec forwardPercent) n inputs) ∧
      verdicts (gather (nodeNext cfg codec forwardPercent)
          (nodeOutput cfg codec forwardPercent) n inputs)
        = result.2.map (.onBlockFilled callback) := by
  intro input inputs result
  simp only [result, TxPool.asyncFillBlock, TxPool.fillBlock]
  by_cases hmissed : (n.storage.fetchTxs txsHash).2.length > 0
  · have hstep : nodeStep cfg codec forwardPercent n input
        = (n.requestMissedTxs none (n.storage.fetchTxs txsHash).2
          (some (.fillBlock callback txsHash)), []) := by
      simp only [input, nodeStep, asyncFillBlock, hmissed, if_true]
    have hnext := congrArg Prod.fst hstep
    have hout := congrArg Prod.snd hstep
    rcases requestMissedTxs_uninterrupted cfg codec forwardPercent ledger frontService h none
      (n.storage.fetchTxs txsHash).2 (some (.fillBlock callback txsHash)) with
      ⟨hsettled, hverdicts⟩
    simp only [if_pos hmissed, TxPool.getTxsFromLocalLedger]
    simp only [inputs, run_cons, gather_cons, nodeNext, nodeOutput] at hnext hout ⊢
    rw [hnext, hout]
    refine ⟨hsettled, hverdicts.trans ?_⟩
    simp only [OnVerifyFinished.invokeAll, OnVerifyFinished.invoke]
    exact List.map_flatMap.symm
  · have hstep : nodeStep cfg codec forwardPercent n input
        = (n, [.onBlockFilled callback ⟨none, some (n.storage.fetchTxs txsHash).1⟩]) := by
      simp only [input, nodeStep, asyncFillBlock, hmissed, if_false]
    have hnext : nodeNext cfg codec forwardPercent n input = n := congrArg Prod.fst hstep
    -- Nothing is missed, nothing is asked, and no answer follows.
    have hinputs : inputs = [input] := by
      simp only [inputs, hnext, uninterrupted_eq_nil cfg codec forwardPercent ledger frontService
        (Nat.le_refl _)]
    simp only [if_neg hmissed]
    rw [hinputs, run_cons, run_nil, gather_cons, gather_nil, hnext, nodeOutput, hstep]
    exact ⟨⟨n.nextUuid, rfl⟩, rfl⟩

end Node

/-- Where the ledger, and then the peer, answer before anything else happens, a
    node verifies a proposal and fills a block as the one call does: its pool
    becomes the same, the callback gets the same answers, and of the rest of the
    node only the next number may have changed. -/
theorem calls_uninterrupted (cfg : TxPoolConfig) (codec : Codec) (forwardPercent : Nat)
    (ledger : HashList → LedgerResponse) (frontService : NodeID → HashList → FrontResponse)
    {n : Node} (h : n.Consistent) (callback : Nat) :
    let next := nodeNext cfg codec forwardPercent
    let out := nodeOutput cfg codec forwardPercent
    let atOnce := fun input : Input => input :: Node.uninterrupted cfg codec forwardPercent ledger
      frontService n.ledgerRequests.length n.nextUuid (next n input)
    (∀ generatedNodeID data,
      let inputs := atOnce (.asyncVerifyBlock callback generatedNodeID data)
      let result := (TxPool.asyncVerifyBlock cfg n.storage generatedNodeID data ledger
        frontService).getD (n.storage, [])
      n.Settled result.1 (run next n inputs) ∧
        verdicts (gather next out n inputs) = result.2.map (.onVerifyFinished callback)) ∧
    ∀ txsHash,
      let inputs := atOnce (.asyncFillBlock callback txsHash)
      let result := TxPool.asyncFillBlock cfg n.storage txsHash ledger frontService
      n.Settled result.1 (run next n inputs) ∧
        verdicts (gather next out n inputs) = result.2.map (.onBlockFilled callback) :=
  ⟨fun generatedNodeID data => Node.asyncVerifyBlock_uninterrupted cfg codec forwardPercent ledger
    frontService h callback generatedNodeID data,
  fun txsHash => Node.asyncFillBlock_uninterrupted cfg codec forwardPercent ledger frontService h
    callback txsHash⟩

/-- A peer answers at once for a transaction that the ledger does not have. -/
theorem calls_uninterrupted_example :
    verdicts (gather (nodeNext TxPool.clearConfig emptyCodec 25)
        (nodeOutput TxPool.clearConfig emptyCodec 25) idleNode
        (.asyncVerifyBlock 7 (some 2) [1] :: Node.uninterrupted TxPool.clearConfig emptyCodec 25
          (fun _ => ⟨none, []⟩) TxPool.examplePeer 0 0
          (nodeNext TxPool.clearConfig emptyCodec 25 idleNode
            (.asyncVerifyBlock 7 (some 2) [1]))))
      = ((TxPool.asyncVerifyBlock TxPool.clearConfig TxPool.examplePool (some 2) [1]
          (fun _ => ⟨none, []⟩) TxPool.examplePeer).getD (TxPool.examplePool, [])).2.map
            (.onVerifyFinished 7) :=
  ((calls_uninterrupted TxPool.clearConfig emptyCodec 25 (fun _ => ⟨none, []⟩)
    TxPool.examplePeer (n := idleNode) (Node.consistent_of_idle rfl rfl) 7).1 (some 2) [1]).2

end BcosTxPool
