import BcosTxPool.Core.Dispatch
import BcosTxPool.Theory.Announcements

/-!
# What a Handler Does

One lemma for each handler of a node: the node after it, field by field, and what
leaves it. Nothing later unfolds a handler.

A packet ends up in one of three queues or nowhere. A thread that finds its queue
empty does nothing. Before it gossips, and before it looks at an announcement, a
node imports what has been downloaded. This empties the buffer, whether all of it
decodes or not.

The answer of the ledger closes a request, or leaves hashes that are still
missed. Those are the business of the peer named, or if no peer is named of the
callback. The answer of a peer closes a request for good: the callback is invoked
once, unless decoding throws.

## Main definitions

* `Input.message`: The message that an input brings.
* `Input.packets`, `Input.tasks`, `Input.announcements`: What it adds to a queue.
* `GossipsNow`: The sync worker gets as far as gossiping.
* `LedgerBrings`: What the ledger's answer brings and leaves.

## Theorems

* `onRecvSyncMessage_eq`: A packet goes where its type says.
* `executeWorker_cases`, `onPeerTxsStatus_cases`: The threads of the sync module.
* `onLedgerAnswer_cases`, `onPeerAnswer_cases`: The answers to a request.
-/

namespace BcosTxPool

open Library

namespace Input

variable (cfg : TxPoolConfig)

/-- The message that an input brings, with its sender and the `uuid`. -/
def message : Input → Option (TxsSyncMsg × NodeID × Option Uuid)
  | .asyncNotifyTxsSyncMessage none uuid nodeID data =>
      (cfg.framework.createTxsSyncMsg data).map (fun txsSyncMsg => (txsSyncMsg, nodeID, uuid))
  | _ => none

/-- What an input adds to the download buffer: the payload of a packet of
    transactions, with its sender. -/
def packets (input : Input) : List (NodeID × Bytes) :=
  match input.message cfg with
  | some (⟨.txsPacket, _, txsData⟩, nodeID, _) => [(nodeID, txsData)]
  | _ => []

/-- What an input adds to the tasks of `m_worker`: the request of a peer, with
    what is needed to answer it. -/
def tasks (input : Input) : List RequestTask :=
  match input.message cfg with
  | some (⟨.txsRequestPacket, txsHash, txsData⟩, nodeID, uuid) =>
      [⟨⟨.txsRequestPacket, txsHash, txsData⟩, uuid, nodeID⟩]
  | _ => []

/-- What an input adds to the tasks of `m_txsRequester`: the hashes a peer has
    announced. -/
def announcements (input : Input) : List (NodeID × HashList) :=
  match input.message cfg with
  | some (⟨.txsStatusPacket, txsHash, _⟩, nodeID, _) => [(nodeID, txsHash)]
  | _ => []

end Input

namespace Node

open TransactionSync

variable (cfg : TxPoolConfig) (codec : Codec) (n : Node)

/-! ### A packet arrives -/

/-- A packet goes into one of the three queues, or into none. Nothing else of
    the node is touched when it arrives. -/
theorem onRecvSyncMessage_eq (error : Option Error) (nodeID : NodeID) (data : Bytes)
    (uuid : Option Uuid) :
    n.onRecvSyncMessage cfg error nodeID data uuid = { n with
      downloadTxsBuffer := n.downloadTxsBuffer ++
        (Input.asyncNotifyTxsSyncMessage error uuid nodeID data).packets cfg
      worker := n.worker ++ (Input.asyncNotifyTxsSyncMessage error uuid nodeID data).tasks cfg
      txsRequester := n.txsRequester ++
        (Input.asyncNotifyTxsSyncMessage error uuid nodeID data).announcements cfg } := by
  unfold onRecvSyncMessage Input.packets Input.tasks Input.announcements
  cases error with
  | some error => simp only [Input.message, List.append_nil]
  | none =>
      simp only [Input.message]
      -- What does not decode is dropped.
      rcases cfg.framework.createTxsSyncMsg data with _ | ⟨type, txsHash, txsData⟩
      · simp only [Option.map_none, List.append_nil]
      · cases type <;> simp only [Option.map_some, List.append_nil]

/-! ### The threads -/

/-- The sync worker imports, and gets as far as gossiping. -/
structure GossipsNow (existsInGroup : Bool) : Prop where
  inGroup : existsInGroup = true
  decodes : Decodes cfg n.sync existsInGroup
  newTransactions : (downloaded cfg n.sync existsInGroup).newTransactions = true

theorem executeWorker_cases (forwardPercent : Nat) (existsInGroup : Bool) (order : HashList)
    (connectedNodeList : Finset NodeID) (consensusNodeList : List NodeID) :
    (¬ GossipsNow cfg n existsInGroup ∧
      n.executeWorker cfg codec forwardPercent existsInGroup order connectedNodeList
          consensusNodeList
        = ({ n with storage := downloaded cfg n.sync existsInGroup, downloadTxsBuffer := [] },
          [])) ∨
    (GossipsNow cfg n existsInGroup ∧
      n.executeWorker cfg codec forwardPercent existsInGroup order connectedNodeList
          consensusNodeList
        = ({ n with
            storage := (maintainTransactions cfg forwardPercent
              (downloaded cfg n.sync existsInGroup) order connectedNodeList consensusNodeList).1
            downloadTxsBuffer := [] },
          (maintainTransactions cfg forwardPercent (downloaded cfg n.sync existsInGroup) order
            connectedNodeList consensusNodeList).2.2.map (sendPacket codec))) := by
  rcases maintainDownloadingTransactions_eq cfg n.sync existsInGroup with
    ⟨finished, heq, hfinished⟩
  unfold executeWorker
  rw [heq]
  -- Decoding has thrown, or the buffer was imported to its end.
  cases finished with
  | false =>
      exact Or.inl ⟨fun h => Bool.false_ne_true (hfinished.mpr h.decodes), rfl⟩
  | true =>
      simp only [withSync, List.length_nil, decide_true, Bool.and_true]
      -- The import has been completed; whether to gossip is up to the group and the flag.
      by_cases hgossip : (existsInGroup &&
          (downloaded cfg n.sync existsInGroup).newTransactions) = true
      · rw [if_pos hgossip]
        rw [Bool.and_eq_true] at hgossip
        exact Or.inr ⟨⟨hgossip.1, hfinished.mp rfl, hgossip.2⟩, rfl⟩
      · rw [if_neg hgossip]
        refine Or.inl ⟨fun h => hgossip ?_, rfl⟩
        exact Bool.and_eq_true_iff.mpr ⟨h.inGroup, h.newTransactions⟩

/-- An announcement is looked at if what was downloaded decodes, and the new
    hashes in it are asked of the ledger. -/
theorem onPeerTxsStatus_cases (fromNode : NodeID) (txsHash : HashList) (existsInGroup : Bool) :
    ∃ filtered : MemoryStorage × HashList,
      n.onPeerTxsStatus cfg fromNode txsHash existsInGroup = { n with
        storage := filtered.1
        downloadTxsBuffer := []
        ledgerRequests := n.ledgerRequests ++
          if filtered.2 = [] then [] else [⟨some fromNode, filtered.2, none⟩] } ∧
      ((¬ (Decodes cfg n.sync existsInGroup ∧ txsHash ≠ []) ∧
          filtered = (downloaded cfg n.sync existsInGroup, [])) ∨
        ((Decodes cfg n.sync existsInGroup ∧ txsHash ≠ []) ∧
          filtered
            = (downloaded cfg n.sync existsInGroup).filterUnknownTxs cfg txsHash fromNode)) := by
  rcases maintainDownloadingTransactions_eq cfg n.sync existsInGroup with
    ⟨finished, heq, hfinished⟩
  unfold onPeerTxsStatus
  rw [heq]
  cases finished with
  | false =>
      refine ⟨_, ?_, Or.inl ⟨fun h => Bool.false_ne_true (hfinished.mpr h.1), rfl⟩⟩
      simp only [withSync, if_true, List.append_nil]
  | true =>
      simp only [withSync]
      -- An announcement of nothing is dropped after the import.
      by_cases hempty : txsHash.length = 0
      · rw [if_pos hempty]
        refine ⟨_, ?_, Or.inl ⟨fun h => h.2 (List.length_eq_zero_iff.mp hempty), rfl⟩⟩
        simp only [if_true, List.append_nil]
      · rw [if_neg hempty]
        refine ⟨_, ?_, Or.inr ⟨⟨hfinished.mp rfl,
          fun h => hempty (List.length_eq_zero_iff.mpr h)⟩, rfl⟩⟩
        -- The ledger is asked for what is new, if anything is.
        by_cases hnone : ((downloaded cfg n.sync existsInGroup).filterUnknownTxs cfg txsHash
          fromNode).2 = []
        · refine (if_pos (List.length_eq_zero_iff.mpr hnone)).trans ?_
          rw [if_pos hnone, List.append_nil]
        · refine (if_neg (mt List.length_eq_zero_iff.mp hnone)).trans ?_
          rw [if_neg hnone]
          rfl

/-! ### Requests for missed transactions -/

theorem requestMissedTxsFromPeer_eq (generatedNodeID : NodeID) {missedTxs : HashList}
    (onVerifyFinished : Option OnVerifyFinished) (hmissed : missedTxs.length ≠ 0) :
    n.requestMissedTxsFromPeer codec generatedNodeID missedTxs onVerifyFinished
      = ({ n with
          peerRequests := n.peerRequests ++
            [⟨n.nextUuid, generatedNodeID, missedTxs, onVerifyFinished⟩]
          nextUuid := n.nextUuid + 1 },
        [.asyncSendMessage generatedNodeID (some n.nextUuid)
          (codec.encodeTxsSyncMsg ⟨.txsRequestPacket, missedTxs, []⟩)]) := by
  unfold requestMissedTxsFromPeer
  -- Something is missed, so the request is sent whether or not anybody waits.
  rw [if_neg]
  rw [decide_eq_false hmissed, Bool.false_and]
  exact Bool.false_ne_true

theorem invokeAll_singleton (onVerifyFinished : Option OnVerifyFinished)
    (response : VerifyResponse) :
    OnVerifyFinished.invokeAll onVerifyFinished [response]
      = match onVerifyFinished with
        | none => []
        | some f => f.invoke response := by
  cases onVerifyFinished with
  | none => rfl
  | some f => simp only [OnVerifyFinished.invokeAll, List.flatMap_cons, List.flatMap_nil,
      List.append_nil]

@[simp] theorem invokeAll_nil (onVerifyFinished : Option OnVerifyFinished) :
    OnVerifyFinished.invokeAll onVerifyFinished [] = [] := by
  cases onVerifyFinished with
  | none => rfl
  | some f => rfl

/-- The ledger's answer does not settle a hash: it is an error, or its import
    fails, or no transaction in it has the hash. -/
def LeavesOut (s : MemoryStorage) (response : LedgerResponse) (verifiedProposal : Option Block)
    (txHash : HashType) : Prop :=
  response.error.isSome = true ∨
    (importDownloadedTxs cfg s cfg.nodeID response.fetchedTxs verifiedProposal).2 = false ∨
    ∀ tx ∈ response.fetchedTxs, tx.hash ≠ txHash

/-- What the ledger's answer to a request brings, and what it leaves. An answer
    that is not an error is imported, and what is left of the request is what
    the answer does not settle. A failed import leaves all of it, although part
    of it may be pooled by then. -/
structure LedgerBrings (s : MemoryStorage) (missedTxs : HashList) (response : LedgerResponse)
    (verifiedProposal : Option Block) (s' : MemoryStorage) (left : HashList) : Prop where
  pool : s' = if response.error.isSome then s
    else (importDownloadedTxs cfg s cfg.nodeID response.fetchedTxs verifiedProposal).1
  mem_left : ∀ txHash, txHash ∈ left ↔
    txHash ∈ missedTxs ∧ LeavesOut cfg s response verifiedProposal txHash

/-- The ledger's answer invokes a callback where nothing is left. -/
theorem onGetMissedTxsFromLedger_cases (s : MemoryStorage) {missedTxs : HashList}
    (response : LedgerResponse) (verifiedProposal : Option Block) (onVerifyFinished : Bool)
    (hmissed : (SortedSet.ofList missedTxs).size ≠ 0) :
    ∃ s' left, LedgerBrings cfg s missedTxs response verifiedProposal s' left.toList ∧
      onGetMissedTxsFromLedger cfg s (SortedSet.ofList missedTxs) response verifiedProposal
          onVerifyFinished
        = (s', left, if left.size = 0 ∧ onVerifyFinished = true then [⟨none, true, s'⟩]
          else []) := by
  have hofList := fun txHash => SortedSet.mem_ofList txHash missedTxs
  unfold onGetMissedTxsFromLedger
  -- No error: the answer is imported, and the import succeeds or fails.
  rcases response with ⟨_ | error, fetchedTxs⟩
  · simp only
    rcases himport : importDownloadedTxs cfg s cfg.nodeID fetchedTxs verifiedProposal with ⟨t, ret⟩
    cases ret with
    | false =>
        -- Nothing is taken off the request, whatever has come in before the import failed.
        have hfailed : (importDownloadedTxs cfg s cfg.nodeID fetchedTxs verifiedProposal).2
            = false := by rw [himport]
        refine ⟨t, SortedSet.ofList missedTxs, ⟨?_, fun txHash => ?_⟩, ?_⟩
        · simp only [Option.isSome_none, Bool.false_eq_true, if_false, himport]
        · exact (hofList txHash).trans (and_iff_left (Or.inr (Or.inl hfailed))).symm
        · simp only [Bool.not_false, if_true, hmissed, false_and, if_false]
    | true =>
        refine ⟨t, fetchedTxs.foldl eraseFetched (SortedSet.ofList missedTxs),
          ⟨?_, fun txHash => ?_⟩, ?_⟩
        · simp only [Option.isSome_none, Bool.false_eq_true, if_false, himport]
        · refine (mem_foldl_eraseFetched fetchedTxs txHash _).trans
            (and_congr (hofList txHash) ?_)
          simp only [LeavesOut, Option.isSome_none, Bool.false_eq_true, himport, false_or,
            reduceCtorEq, ne_eq]
        · simp only [Bool.not_true, Bool.false_eq_true, if_false, Bool.and_eq_true,
            decide_eq_true_eq]
          split
          · rfl
          · rfl
  · -- An error brings nothing.
    refine ⟨s, SortedSet.ofList missedTxs, ⟨rfl, fun txHash => ?_⟩, ?_⟩
    · exact (hofList txHash).trans (and_iff_left (Or.inl rfl)).symm
    · simp only [hmissed, false_and, if_false]

/-- The answer where the ledger leaves hashes and no peer is named. It is the
    end of a fill, and of a verification without a proposer. -/
def ledgerMissing (s : MemoryStorage) : VerifyResponse :=
  ⟨some ⟨.transactionsMissing,
    "requestMissedTxs failed from the ledger for Transaction missing"⟩, false, s⟩

/-- What the ledger's answer does to a node: the request is closed and the
    callback invoked, or what is still missed is requested from the peer. -/
theorem onLedgerAnswer_cases (r : LedgerRequest) (response : LedgerResponse)
    (hmissed : r.missedTxs ≠ []) :
    ∃ s left, LedgerBrings cfg n.storage r.missedTxs response
        (OnVerifyFinished.verifiedProposal r.onVerifyFinished) s left ∧
      ((∃ verdict, (left = [] ∧ verdict = ⟨none, true, s⟩ ∨
            left ≠ [] ∧ r.generatedNodeID = none ∧ verdict = ledgerMissing s) ∧
          n.onLedgerAnswer cfg codec r response
            = ({ n with storage := s },
              OnVerifyFinished.invokeAll r.onVerifyFinished [verdict])) ∨
        ∃ generatedNodeID, r.generatedNodeID = some generatedNodeID ∧ left ≠ [] ∧
          n.onLedgerAnswer cfg codec r response
            = ({ n with
                storage := s
                peerRequests := n.peerRequests ++
                  [⟨n.nextUuid, generatedNodeID, left, r.onVerifyFinished⟩]
                nextUuid := n.nextUuid + 1 },
              [.asyncSendMessage generatedNodeID (some n.nextUuid)
                (codec.encodeTxsSyncMsg ⟨.txsRequestPacket, left, []⟩)])) := by
  -- Something was missed, so the set is not empty either.
  have hsize : (SortedSet.ofList r.missedTxs).size ≠ 0 := by
    intro h
    rcases List.exists_mem_of_ne_nil _ hmissed with ⟨txHash, hmem⟩
    exact (SortedSet.size_eq_zero_iff _).mp h txHash ((SortedSet.mem_ofList _ _).mpr hmem)
  rcases onGetMissedTxsFromLedger_cases cfg n.storage response
    (OnVerifyFinished.verifiedProposal r.onVerifyFinished) r.onVerifyFinished.isSome hsize with
    ⟨s, left, hbrings, heq⟩
  refine ⟨s, left.toList, hbrings, ?_⟩
  unfold onLedgerAnswer
  rw [heq]
  by_cases hnone : left.size = 0
  · -- Nothing is missed any more.
    refine Or.inl ⟨⟨none, true, s⟩, Or.inl ⟨List.length_eq_zero_iff.mp hnone, rfl⟩, ?_⟩
    simp only [hnone, true_and, if_true]
    cases r.onVerifyFinished with
    | none => rfl
    | some f => rfl
  · have hleft : left.toList ≠ [] := fun h => hnone (List.length_eq_zero_iff.mpr h)
    simp only [hnone, false_and, if_false]
    -- What is left is reported as missing, or asked of the peer.
    cases hpeer : r.generatedNodeID with
    | none =>
        exact Or.inl ⟨ledgerMissing s, Or.inr ⟨hleft, rfl, rfl⟩, by
          rw [invokeAll_nil, List.nil_append, ledgerMissing]⟩
    | some generatedNodeID =>
        refine Or.inr ⟨generatedNodeID, rfl, hleft, ?_⟩
        simp only
        rw [requestMissedTxsFromPeer_eq codec _ generatedNodeID r.onVerifyFinished hnone,
          invokeAll_nil, List.nil_append]

/-- The content of a peer's answer, if it decodes. -/
def answered (response : FrontResponse) : Option Block :=
  if response.error.isSome then none
  else
    match cfg.framework.createTxsSyncMsg response.data with
    | none => none
    | some txsResponse =>
      if txsResponse.type ≠ .txsResponsePacket then none
      else cfg.framework.createBlock txsResponse.txsData

/-- What a peer's answer leads to: nothing where decoding throws, else one
    invocation, which sees the pool before the answer is imported or after it.
    It is imported for the proposal or without it. -/
theorem verifyFetchedTxs_cases (s : MemoryStorage) (response : FrontResponse)
    (missedTxs : HashList) (verifiedProposal : Option Block) :
    verifyFetchedTxs cfg s response missedTxs verifiedProposal = none ∨
    ∃ s' verdict, verifyFetchedTxs cfg s response missedTxs verifiedProposal
        = some (s', [verdict]) ∧ (verdict.pool = s ∨ verdict.pool = s') ∧
      (s' = s ∨ ∃ block proposal, answered cfg response = some block ∧
        (proposal = none ∨ proposal = verifiedProposal) ∧
        s' = (importDownloadedTxs cfg s response.nodeID block.transactions proposal).1) := by
  unfold verifyFetchedTxs answered
  -- In the order of the source: the error, the message, its type, its content.
  cases response.error with
  | some error => exact Or.inr ⟨s, _, rfl, Or.inl rfl, Or.inl rfl⟩
  | none =>
      cases cfg.framework.createTxsSyncMsg response.data with
      | none => exact Or.inl rfl
      | some txsResponse =>
          simp only [Option.isSome_none, Bool.false_eq_true, if_false]
          by_cases htype : txsResponse.type ≠ .txsResponsePacket
          · rw [if_pos htype]
            exact Or.inr ⟨s, _, rfl, Or.inl rfl, Or.inl rfl⟩
          rw [if_neg htype, if_neg htype]
          cases cfg.framework.createBlock txsResponse.txsData with
          | none => exact Or.inl rfl
          | some block =>
              simp only
              split
              · -- An answer of the wrong size is imported without the proposal.
                exact Or.inr ⟨_, _, rfl, Or.inl rfl, Or.inr ⟨block, none, rfl, Or.inl rfl, rfl⟩⟩
              · -- The verdict goes out after the import, whichever it is.
                split
                · exact Or.inr ⟨_, _, rfl, Or.inr rfl, Or.inr ⟨block, _, rfl, Or.inr rfl, rfl⟩⟩
                · split
                  · exact Or.inr ⟨_, _, rfl, Or.inr rfl, Or.inr ⟨block, _, rfl, Or.inr rfl, rfl⟩⟩
                  · exact Or.inr ⟨_, _, rfl, Or.inr rfl, Or.inr ⟨block, _, rfl, Or.inr rfl, rfl⟩⟩

/-- What a peer's answer does to a node: nothing more where decoding throws, and
    otherwise the callback is invoked once. -/
theorem onPeerAnswer_cases (r : PeerRequest) (response : FrontResponse) :
    (verifyFetchedTxs cfg n.storage response r.missedTxs
          (OnVerifyFinished.verifiedProposal r.onVerifyFinished) = none ∧
        n.onPeerAnswer cfg r response = (n, [])) ∨
    ∃ s verdict, verifyFetchedTxs cfg n.storage response r.missedTxs
          (OnVerifyFinished.verifiedProposal r.onVerifyFinished) = some (s, [verdict]) ∧
      n.onPeerAnswer cfg r response
        = ({ n with storage := s },
          OnVerifyFinished.invokeAll r.onVerifyFinished [verdict]) := by
  unfold onPeerAnswer
  rcases verifyFetchedTxs_cases cfg n.storage response r.missedTxs
    (OnVerifyFinished.verifiedProposal r.onVerifyFinished) with heq | ⟨s, verdict, heq, _⟩
  · rw [heq]
    exact Or.inl ⟨rfl, rfl⟩
  · rw [heq]
    exact Or.inr ⟨s, verdict, rfl, rfl⟩

/-- The verdict on a peer's answer sees the pool before or after the import, and
    what is imported is the content of the answer. -/
theorem verifyFetchedTxs_verdict {s s' : MemoryStorage} {response : FrontResponse}
    {missedTxs : HashList} {verifiedProposal : Option Block} {verdict : VerifyResponse}
    (h : verifyFetchedTxs cfg s response missedTxs verifiedProposal = some (s', [verdict])) :
    (verdict.pool = s ∨ verdict.pool = s') ∧
      (s' = s ∨ ∃ block proposal, answered cfg response = some block ∧
        (proposal = none ∨ proposal = verifiedProposal) ∧
        s' = (importDownloadedTxs cfg s response.nodeID block.transactions proposal).1) := by
  rcases verifyFetchedTxs_cases cfg s response missedTxs verifiedProposal with
    heq | ⟨t, verdict', heq, hcases⟩
  · rw [h] at heq
    exact absurd heq (Option.some_ne_none _)
  · rw [h] at heq
    injection heq with heq
    injection heq with hs heq
    injection heq with hverdict _
    -- The answer leads to one invocation, so it is the one of the cases above.
    rw [hs, hverdict]
    exact hcases

end Node

end BcosTxPool
