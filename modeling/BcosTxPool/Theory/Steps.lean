import BcosTxPool.Theory.Handlers

/-!
# One Step of a Node

What a step may be, once and for all. `NodeStep` is a table with one row for each
way in which an input can go: the node afterwards, what leaves it, and what must
have been the case before. Which queue a step touches, which request it closes, which
calls it makes and what it does to the pool are all read off this table, and none
of the results below it looks at a handler again.

An input that finds nothing to do has a row of its own. This is how a thread with
an empty queue, a proposal that does not decode, and an answer that nobody waits
for become one case.

The rows for the answer of the ledger are for requests that miss something. A node
that is consistent has no others.

## Main definitions

* `Node.Ignores`: The node has nothing to do for an input.
* `Node.NodeStep`: What a step does, row by row.

## Theorems

* `nodeStep_cases`: Every step is a row of the table.
-/

namespace BcosTxPool

open Library

namespace Node

open TransactionSync

variable (cfg : TxPoolConfig) (codec : Codec) (forwardPercent : Nat)

/-- The node has nothing to do for an input: the queue of the thread is empty,
    the proposal does not decode, or no request waits for the answer. An answer
    to a request that has been closed is of the last kind. -/
inductive Ignores (n : Node) : Input → Prop where
  | worker (hworker : n.worker = []) : Ignores n .worker
  | txsRequester {existsInGroup : Bool} (hrequester : n.txsRequester = []) :
      Ignores n (.txsRequester existsInGroup)
  | proposal {callback : Nat} {generatedNodeID : Option NodeID} {data : Bytes}
      (hblock : cfg.framework.createBlock data = none) :
      Ignores n (.asyncVerifyBlock callback generatedNodeID data)
  | ledger {index : Nat} {response : LedgerResponse}
      (hrequest : n.ledgerRequests[index]? = none) : Ignores n (.onLedgerResponse index response)
  | peer {uuid : Uuid} {response : FrontResponse}
      (hrequest : n.peerRequests.find? (fun r => r.uuid = uuid) = none) :
      Ignores n (.onPeerResponse uuid response)

/-- What a step does, row by row: the node after the step and what leaves it.
    The hypotheses of a row say when it is taken. The rows of one input exclude
    each other, but nothing here depends on that. -/
inductive NodeStep (n : Node) : Input → Node × List Output → Prop where
  | call (op : PoolCall) :
      NodeStep n (.call op) ({ n with storage := TxPool.step cfg n.storage op.1 }, [])
  | received (error : Option Error) (uuid : Option Uuid) (nodeID : NodeID) (data : Bytes) :
      NodeStep n (.asyncNotifyTxsSyncMessage error uuid nodeID data)
        ({ n with
          downloadTxsBuffer := n.downloadTxsBuffer ++
            (Input.asyncNotifyTxsSyncMessage error uuid nodeID data).packets cfg
          worker := n.worker ++ (Input.asyncNotifyTxsSyncMessage error uuid nodeID data).tasks cfg
          txsRequester := n.txsRequester ++
            (Input.asyncNotifyTxsSyncMessage error uuid nodeID data).announcements cfg }, [])
  | ignored {input : Input} (hignores : n.Ignores cfg input) : NodeStep n input (n, [])
  -- The threads.
  | imported {existsInGroup : Bool} {order : HashList} {connectedNodeList : Finset NodeID}
      {consensusNodeList : List NodeID} (hquiet : ¬ GossipsNow cfg n existsInGroup) :
      NodeStep n (.executeWorker existsInGroup order connectedNodeList consensusNodeList)
        ({ n with storage := downloaded cfg n.sync existsInGroup, downloadTxsBuffer := [] }, [])
  | gossiped {existsInGroup : Bool} {order : HashList} {connectedNodeList : Finset NodeID}
      {consensusNodeList : List NodeID} (hgossips : GossipsNow cfg n existsInGroup) :
      NodeStep n (.executeWorker existsInGroup order connectedNodeList consensusNodeList)
        ({ n with
            storage := (maintainTransactions cfg forwardPercent
              (downloaded cfg n.sync existsInGroup) order connectedNodeList consensusNodeList).1
            downloadTxsBuffer := [] },
          (maintainTransactions cfg forwardPercent (downloaded cfg n.sync existsInGroup) order
            connectedNodeList consensusNodeList).2.2.map (sendPacket codec))
  | served {task : RequestTask} {worker : List RequestTask} (hworker : n.worker = task :: worker) :
      NodeStep n .worker ({ n with worker := worker },
        [.asyncSendResponse task.nodeID task.uuid
          (onReceiveTxsRequest codec n.storage task.txsRequest)])
  | announced {existsInGroup : Bool} {task : NodeID × HashList}
      {txsRequester : List (NodeID × HashList)} {filtered : MemoryStorage × HashList}
      (hrequester : n.txsRequester = task :: txsRequester)
      (hfiltered : filtered = (downloaded cfg n.sync existsInGroup, []) ∨
        filtered = (downloaded cfg n.sync existsInGroup).filterUnknownTxs cfg task.2 task.1) :
      NodeStep n (.txsRequester existsInGroup)
        ({ n with
          storage := filtered.1
          downloadTxsBuffer := []
          txsRequester := txsRequester
          ledgerRequests := n.ledgerRequests ++
            if filtered.2 = [] then [] else [⟨some task.1, filtered.2, none⟩] }, [])
  -- The questions of consensus and of the executor.
  | verified {callback : Nat} {generatedNodeID : Option NodeID} {data : Bytes} {block : Block}
      (hblock : cfg.framework.createBlock data = some block)
      (hmissed : n.storage.batchVerifyProposal block = []) :
      NodeStep n (.asyncVerifyBlock callback generatedNodeID data)
        (n, OnVerifyFinished.invoke ⟨none, true, n.storage⟩ (.verifyBlock callback block []))
  | verifying {callback : Nat} {generatedNodeID : Option NodeID} {data : Bytes} {block : Block}
      (hblock : cfg.framework.createBlock data = some block)
      (hmissed : n.storage.batchVerifyProposal block ≠ []) :
      NodeStep n (.asyncVerifyBlock callback generatedNodeID data)
        ({ n with
          ledgerRequests := n.ledgerRequests ++ [⟨generatedNodeID,
            n.storage.batchVerifyProposal block,
            some (.verifyBlock callback block (n.storage.batchVerifyProposal block))⟩] }, [])
  | filled {callback : Nat} {txsHash : HashList} (hmissed : (n.storage.fetchTxs txsHash).2 = []) :
      NodeStep n (.asyncFillBlock callback txsHash)
        (n, [.onBlockFilled callback ⟨none, some (n.storage.fetchTxs txsHash).1⟩])
  | filling {callback : Nat} {txsHash : HashList} (hmissed : (n.storage.fetchTxs txsHash).2 ≠ []) :
      NodeStep n (.asyncFillBlock callback txsHash)
        ({ n with
          ledgerRequests := n.ledgerRequests ++ [⟨none, (n.storage.fetchTxs txsHash).2,
            some (.fillBlock callback txsHash)⟩] }, [])
  -- The answers.
  | ledgerVerdict {index : Nat} {response : LedgerResponse} {r : LedgerRequest}
      {s : MemoryStorage} {left : HashList} {verdict : VerifyResponse}
      (hrequest : n.ledgerRequests[index]? = some r)
      (hbrings : LedgerBrings cfg n.storage r.missedTxs response
        (OnVerifyFinished.verifiedProposal r.onVerifyFinished) s left)
      (hverdict : left = [] ∧ verdict = ⟨none, true, s⟩ ∨
        left ≠ [] ∧ r.generatedNodeID = none ∧ verdict = ledgerMissing s) :
      NodeStep n (.onLedgerResponse index response)
        ({ n with storage := s, ledgerRequests := n.ledgerRequests.eraseIdx index },
          OnVerifyFinished.invokeAll r.onVerifyFinished [verdict])
  | ledgerPassedOn {index : Nat} {response : LedgerResponse} {r : LedgerRequest}
      {s : MemoryStorage} {left : HashList} {generatedNodeID : NodeID}
      (hrequest : n.ledgerRequests[index]? = some r)
      (hbrings : LedgerBrings cfg n.storage r.missedTxs response
        (OnVerifyFinished.verifiedProposal r.onVerifyFinished) s left)
      (hleft : left ≠ []) (hpeer : r.generatedNodeID = some generatedNodeID) :
      NodeStep n (.onLedgerResponse index response)
        ({ n with
            storage := s
            ledgerRequests := n.ledgerRequests.eraseIdx index
            peerRequests := n.peerRequests ++
              [⟨n.nextUuid, generatedNodeID, left, r.onVerifyFinished⟩]
            nextUuid := n.nextUuid + 1 },
          [.asyncSendMessage generatedNodeID (some n.nextUuid)
            (codec.encodeTxsSyncMsg ⟨.txsRequestPacket, left, []⟩)])
  | peerThrew {uuid : Uuid} {response : FrontResponse} {r : PeerRequest}
      (hrequest : n.peerRequests.find? (fun r => r.uuid = uuid) = some r)
      (hthrew : verifyFetchedTxs cfg n.storage response r.missedTxs
        (OnVerifyFinished.verifiedProposal r.onVerifyFinished) = none) :
      NodeStep n (.onPeerResponse uuid response)
        ({ n with peerRequests := n.peerRequests.filter (fun r => r.uuid ≠ uuid) }, [])
  | peerVerdict {uuid : Uuid} {response : FrontResponse} {r : PeerRequest} {s : MemoryStorage}
      {verdict : VerifyResponse}
      (hrequest : n.peerRequests.find? (fun r => r.uuid = uuid) = some r)
      (hverify : verifyFetchedTxs cfg n.storage response r.missedTxs
        (OnVerifyFinished.verifiedProposal r.onVerifyFinished) = some (s, [verdict])) :
      NodeStep n (.onPeerResponse uuid response)
        ({ n with
            storage := s
            peerRequests := n.peerRequests.filter (fun r => r.uuid ≠ uuid) },
          OnVerifyFinished.invokeAll r.onVerifyFinished [verdict])

variable {n : Node}

/-! ### The threads -/

/-- The worker answers the first request in its queue, or it is idle. -/
theorem runWorker_step : NodeStep cfg codec forwardPercent n .worker (n.runWorker codec) := by
  unfold runWorker
  cases hworker : n.worker with
  | nil => exact NodeStep.ignored (Ignores.worker hworker)
  | cons task worker => exact NodeStep.served hworker

/-- The sync worker imports what was downloaded in any case, and gossips where
    it is time to. -/
theorem executeWorker_step (existsInGroup : Bool) (order : HashList)
    (connectedNodeList : Finset NodeID) (consensusNodeList : List NodeID) :
    NodeStep cfg codec forwardPercent n
      (.executeWorker existsInGroup order connectedNodeList consensusNodeList)
      (n.executeWorker cfg codec forwardPercent existsInGroup order connectedNodeList
        consensusNodeList) := by
  rcases executeWorker_cases cfg codec n forwardPercent existsInGroup order connectedNodeList
    consensusNodeList with ⟨hquiet, heq⟩ | ⟨hgossips, heq⟩
  · rw [heq]
    exact NodeStep.imported hquiet
  · rw [heq]
    exact NodeStep.gossiped hgossips

/-- The thread for announcements looks at the first one, after the packets
    before it have been imported. -/
theorem runTxsRequester_step (existsInGroup : Bool) :
    NodeStep cfg codec forwardPercent n (.txsRequester existsInGroup)
      (n.runTxsRequester cfg existsInGroup, []) := by
  unfold runTxsRequester
  cases hrequester : n.txsRequester with
  | nil => exact NodeStep.ignored (Ignores.txsRequester hrequester)
  | cons task txsRequester =>
      -- What has been downloaded is the same with the task taken off the queue.
      rcases onPeerTxsStatus_cases cfg { n with txsRequester := txsRequester } task.1 task.2
        existsInGroup with ⟨filtered, heq, hfiltered⟩
      simp only [heq]
      exact NodeStep.announced hrequester (hfiltered.imp And.right And.right)

/-! ### The questions -/

/-- A proposal that misses nothing has its verdict at once, and any other one
    becomes a question to the ledger. -/
theorem asyncVerifyBlock_step (callback : Nat) (generatedNodeID : Option NodeID) (data : Bytes) :
    NodeStep cfg codec forwardPercent n (.asyncVerifyBlock callback generatedNodeID data)
      (n.asyncVerifyBlock cfg callback generatedNodeID data) := by
  unfold asyncVerifyBlock
  cases hblock : cfg.framework.createBlock data with
  | none => exact NodeStep.ignored (Ignores.proposal hblock)
  | some block =>
      -- The source asks for the size of the missed hashes.
      simp only [List.length_eq_zero_iff]
      by_cases hmissed : n.storage.batchVerifyProposal block = []
      · rw [if_pos hmissed, hmissed]
        exact NodeStep.verified hblock hmissed
      · rw [if_neg hmissed]
        exact NodeStep.verifying hblock hmissed

/-- The same for the transactions of a block, where no peer is named. -/
theorem asyncFillBlock_step (callback : Nat) (txsHash : HashList) :
    NodeStep cfg codec forwardPercent n (.asyncFillBlock callback txsHash)
      (n.asyncFillBlock callback txsHash) := by
  unfold asyncFillBlock
  simp only [gt_iff_lt, List.length_pos_iff]
  by_cases hmissed : (n.storage.fetchTxs txsHash).2 = []
  · rw [if_neg (not_not.mpr hmissed)]
    exact NodeStep.filled hmissed
  · rw [if_pos hmissed]
    exact NodeStep.filling hmissed

/-! ### The answers -/

/-- The ledger's answer closes the question with a verdict, or what it leaves is
    passed on to a peer. -/
theorem onLedgerResponse_step (h : ∀ r ∈ n.ledgerRequests, r.missedTxs ≠ []) (index : Nat)
    (response : LedgerResponse) :
    NodeStep cfg codec forwardPercent n (.onLedgerResponse index response)
      (n.onLedgerResponse cfg codec index response) := by
  unfold onLedgerResponse
  cases hrequest : n.ledgerRequests[index]? with
  | none => exact NodeStep.ignored (Ignores.ledger hrequest)
  | some r =>
      -- The request is off the list before the answer is looked at, and the pool is as it was.
      rcases onLedgerAnswer_cases cfg codec
        { n with ledgerRequests := n.ledgerRequests.eraseIdx index } r response
        (h r (List.mem_of_getElem? hrequest)) with
        ⟨s, left, hbrings, ⟨verdict, hverdict, heq⟩ | ⟨generatedNodeID, hpeer, hleft, heq⟩⟩
      · simp only [heq]
        exact NodeStep.ledgerVerdict hrequest hbrings hverdict
      · simp only [heq]
        exact NodeStep.ledgerPassedOn hrequest hbrings hleft hpeer

/-- A peer's answer closes its request, with a verdict or with an exception that
    is caught. -/
theorem onPeerResponse_step (uuid : Uuid) (response : FrontResponse) :
    NodeStep cfg codec forwardPercent n (.onPeerResponse uuid response)
      (n.onPeerResponse cfg uuid response) := by
  unfold onPeerResponse
  cases hrequest : n.peerRequests.find? (fun r => r.uuid = uuid) with
  | none => exact NodeStep.ignored (Ignores.peer hrequest)
  | some r =>
      -- The request is off the list in either case.
      rcases onPeerAnswer_cases cfg
        { n with peerRequests := n.peerRequests.filter (fun r => r.uuid ≠ uuid) } r response with
        ⟨hthrew, heq⟩ | ⟨s, verdict, hverify, heq⟩
      · simp only [heq]
        exact NodeStep.peerThrew hrequest hthrew
      · simp only [heq]
        exact NodeStep.peerVerdict hrequest hverify

/-! ### Every step -/

/-- Every step of a node whose requests are for something is a row of the table.
    This is the one place where a step is taken apart by its input. -/
theorem nodeStep_cases (h : ∀ r ∈ n.ledgerRequests, r.missedTxs ≠ []) (input : Input) :
    NodeStep cfg codec forwardPercent n input (nodeStep cfg codec forwardPercent n input) := by
  cases input with
  | call op => exact NodeStep.call op
  | asyncNotifyTxsSyncMessage error uuid nodeID data =>
      rw [nodeStep, onRecvSyncMessage_eq]
      exact NodeStep.received error uuid nodeID data
  | executeWorker existsInGroup order connectedNodeList consensusNodeList =>
      exact executeWorker_step cfg codec forwardPercent existsInGroup order connectedNodeList
        consensusNodeList
  | worker => exact runWorker_step cfg codec forwardPercent
  | txsRequester existsInGroup => exact runTxsRequester_step cfg codec forwardPercent existsInGroup
  | asyncVerifyBlock callback generatedNodeID data =>
      exact asyncVerifyBlock_step cfg codec forwardPercent callback generatedNodeID data
  | asyncFillBlock callback txsHash =>
      exact asyncFillBlock_step cfg codec forwardPercent callback txsHash
  | onLedgerResponse index response =>
      exact onLedgerResponse_step cfg codec forwardPercent h index response
  | onPeerResponse uuid response =>
      exact onPeerResponse_step cfg codec forwardPercent uuid response

end Node

end BcosTxPool
