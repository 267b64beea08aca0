import Mathlib.Logic.Equiv.List
import BcosTxPool.Core.Network
import BcosTxPool.Theory.Queues
import BcosTxPool.Theory.Refinement
import BcosTxPool.Theory.Reservation

/-!
# Where Transactions Come From

In a network whose nodes all run this code, messages may be lost, delayed and
reordered, but none is made up. A content can then only be spread: whatever lies
in a pool, waits in a download buffer or is in flight was handed to some node by a
client, or by the ledger of some node.

That is an invariant of the whole network. A node passes on what is in its pool,
imports what arrives, and the encoders and decoders of the framework undo each
other, so nothing is altered on the way.

To each node the network is a run of inputs, and so its pool runs through operations.
What comes over the network is never a call and never a proposal to verify.

Agreement follows where a hash stands for one content. Two nodes that hold a
transaction under the same hash hold the same transaction, at whatever moments one
looks. So blocks filled for the same hashes carry the same transactions, wherever
and whenever they were filled. No node asks another which transactions it has used.

## Main definitions

* `Lawful`: The decoders undo the encoders.
* `Input.Brings`: A content that an input hands to a node.
* `Leaves`: What leaves a node.
* `Node.Holds`, `Network.Holds`: A property of all contents there are.
* `NetOp.callsAt`, `NetOp.VerifiesAt`: What a node is asked from outside the network.
* `NetOp.Sources`: A client or a ledger hands over a content.
* `FilledAt`: A block is filled.
* `bookConfig`, `bookCodec`: A framework to run a network with.

## Theorems

* `nodeOutput_leaves`: What leaves a node in a step.
* `filled_as_asked`, `filled_asked`: A block is filled with the hashes asked for.
* `run_nodes`: A node of a network runs as a node does.
* `nodeNext_holds`, `nodeOutput_holds`: What a node does with contents.
* `nodes_refine_pools`: Each node of a network refines its pool.
* `network_origin`: Where a content comes from.
* `filled_agree`: Blocks filled for the same hashes agree.
-/

namespace BcosTxPool

open Library

/-- What the framework encodes it decodes. Nothing is said of other bytes, which
    may decode to anything or to nothing. -/
structure Lawful (fw : Framework) (codec : Codec) : Prop where
  txsSyncMsg : ∀ msg, fw.createTxsSyncMsg (codec.encodeTxsSyncMsg msg) = some msg
  block : ∀ block, fw.createBlock (codec.encodeBlock block) = some block

/-- A content that an input hands to a node: with a call, in a packet that is
    kept, as what the ledger has found, or in a peer's answer. -/
def Input.Brings (cfg : TxPoolConfig) (data : TxData) : Input → Prop
  | .call op => op.1.Carries cfg data
  | .asyncNotifyTxsSyncMessage error uuid nodeID bytes =>
      ∃ packet ∈ (Input.asyncNotifyTxsSyncMessage error uuid nodeID bytes).packets cfg,
        data ∈ TransactionSync.carried cfg packet
  | .onLedgerResponse _ response => response.error = none ∧ data ∈ response.fetchedTxs
  | .onPeerResponse _ response =>
      ∃ block, Node.answered cfg response = some block ∧ data ∈ block.transactions
  | _ => False

namespace TxPool

variable (cfg : TxPoolConfig)

/-- All contents of a pool have a property. The property is left open; below it
    is that somebody handed the content over. -/
def PoolHolds (Q : TxData → Prop) (s : MemoryStorage) : Prop :=
  ∀ txHash tx, s.txsTable.find? txHash = some tx → Q tx.toTxData

/-- A pool that only loses entries, or changes their flags, keeps the
    property. -/
theorem PoolHolds.shrinks {Q : TxData → Prop} {s s' : MemoryStorage} (h : PoolHolds Q s)
    (hshrinks : MemoryStorage.Shrinks s s') : PoolHolds Q s' := by
  intro txHash tx hfind
  rcases hshrinks.2 txHash tx hfind with ⟨old, hold, hdata⟩
  rw [← hdata]
  exact h txHash old hold

/-- Only what an operation carries comes in, so a property of all that is
    carried holds of the pool over the whole run. -/
theorem run_holds {Q : TxData → Prop} {s : MemoryStorage} {ops : List Op} (h : PoolHolds Q s)
    (hops : ∀ op ∈ ops, ∀ data, op.Carries cfg data → Q data) :
    PoolHolds Q (run (step cfg) s ops) := by
  refine run_invariant_of_calls cfg (fun _ _ => True) (PoolHolds Q) ?_
    (along_of_forall _ (fun _ _ => trivial) _ _) h
  intro t op call hop hcall _ ht
  -- A call leaves the contents alone, brings one in, seals, cleans up or commits.
  rcases MemoryStorage.step_effect cfg MemoryStorage.fixed_toTxData hcall t with
    hsame | ⟨tx, callback, enforceImport, rfl, hcarries, _, hbrings⟩ |
    ⟨order, txsLimit, avoidTxs, rfl⟩ | rfl | ⟨batchId, txsResult, rfl⟩
  · exact ht.shrinks hsame.toSameEntries.shrinks
  · intro txHash entry hfind
    rw [hbrings.find] at hfind
    split at hfind
    · rw [← Option.some.inj hfind, MemoryStorage.entering_toTxData]
      exact hops op hop _ hcarries
    · exact ht txHash entry hfind
  · exact ht.shrinks (t.batchFetchTxs_sameEntries cfg MemoryStorage.fixed_toTxData order txsLimit
      avoidTxs true).shrinks
  · exact ht.shrinks (t.removeInvalidTxs_shrinks cfg)
  · exact ht.shrinks (t.batchRemove_shrinks cfg batchId txsResult)

end TxPool

/-! ### What leaves a node -/

/-- What leaves a node in a step: a packet of the gossip, a request that waits
    from now on under its number, the answer to the first task of the worker, or
    a call of a callback, which is sent to no one. -/
inductive Leaves (cfg : TxPoolConfig) (codec : Codec) (forwardPercent : Nat) (n : Node)
    (input : Input) : Output → Prop where
  | gossip {existsInGroup : Bool} {order : HashList} {connectedNodeList : Finset NodeID}
      {consensusNodeList : List NodeID} {sent : Sent}
      (hsent : sent ∈ (TransactionSync.maintainTransactions cfg forwardPercent
        (TransactionSync.downloaded cfg n.sync existsInGroup) order connectedNodeList
        consensusNodeList).2.2) :
      Leaves cfg codec forwardPercent n input (Node.sendPacket codec sent)
  | request {r : PeerRequest} (huuid : r.uuid = n.nextUuid)
      (hnew : r ∈ (nodeNext cfg codec forwardPercent n input).peerRequests)
      (hmissed : r.missedTxs ≠ []) :
      Leaves cfg codec forwardPercent n input (.asyncSendMessage r.nodeID (some r.uuid)
        (codec.encodeTxsSyncMsg ⟨.txsRequestPacket, r.missedTxs, []⟩))
  | response {task : RequestTask} (hinput : input = .worker)
      (hserved : n.served .worker = [(task, n.storage)]) (htask : task ∈ n.worker) :
      Leaves cfg codec forwardPercent n input (.asyncSendResponse task.nodeID task.uuid
        (TransactionSync.onReceiveTxsRequest codec n.storage task.txsRequest))
  | called {out : Output} (hcalled : ∀ src, out.message src = none) :
      Leaves cfg codec forwardPercent n input out

namespace Node

open TransactionSync

variable (cfg : TxPoolConfig) (codec : Codec) (forwardPercent : Nat)

/-- A call of a callback is a call of the one that was captured. -/
theorem mem_invokeAll {onVerifyFinished : Option OnVerifyFinished} {verdict : VerifyResponse}
    {out : Output} (h : out ∈ OnVerifyFinished.invokeAll onVerifyFinished [verdict]) :
    ∃ f, onVerifyFinished = some f ∧ out ∈ f.invoke verdict := by
  rw [invokeAll_singleton] at h
  cases onVerifyFinished with
  | none => exact absurd h List.not_mem_nil
  | some f => exact ⟨f, rfl, h⟩

/-- A verdict is not sent to anyone. -/
theorem message_of_mem_invoke {f : OnVerifyFinished} {verdict : VerifyResponse} {out : Output}
    (h : out ∈ f.invoke verdict) (src : NodeID) : out.message src = none := by
  cases f with
  | verifyBlock callback block missedTxs =>
      rw [List.mem_singleton.mp h]
      rfl
  | fillBlock callback txsHash =>
      rcases List.mem_map.mp h with ⟨filled, _, rfl⟩
      rfl

/-- What leaves a node in a step is one of the four. The inversion is that of
    `nodeStep`, read for the outputs alone. -/
theorem nodeOutput_leaves {n : Node} (h : n.Consistent) (input : Input) {out : Output}
    (hout : out ∈ nodeOutput cfg codec forwardPercent n input) :
    Leaves cfg codec forwardPercent n input out := by
  unfold nodeOutput at hout
  have hstep := nodeStep_cases cfg codec forwardPercent h.missed input
  generalize hafter : nodeStep cfg codec forwardPercent n input = after at hstep hout
  have hnext : nodeNext cfg codec forwardPercent n input = after.1 := congrArg Prod.fst hafter
  have hinvoked : ∀ {onVerifyFinished : Option OnVerifyFinished} {verdict : VerifyResponse},
      out ∈ OnVerifyFinished.invokeAll onVerifyFinished [verdict] →
      Leaves cfg codec forwardPercent n input out := by
    intro onVerifyFinished verdict hmem
    rcases mem_invokeAll hmem with ⟨f, _, hf⟩
    exact Leaves.called (message_of_mem_invoke hf)
  cases hstep with
  | gossiped hgossips =>
      rcases List.mem_map.mp hout with ⟨sent, hsent, rfl⟩
      exact Leaves.gossip hsent
  -- The task at the head of the queue is answered from the pool as it is now.
  | @served task worker hworker =>
      rw [List.mem_singleton.mp hout]
      refine Leaves.response rfl ?_ ?_
      · rw [served, hworker]
        rfl
      · rw [hworker]
        exact List.mem_cons_self
  | @verified callback generatedNodeID data block hblock hmissed =>
      exact Leaves.called (message_of_mem_invoke (f := .verifyBlock callback block []) hout)
  | filled hmissed =>
      rw [List.mem_singleton.mp hout]
      exact Leaves.called (fun _ => rfl)
  | ledgerVerdict hrequest hbrings hverdict => exact hinvoked hout
  -- The request is sent as it begins to wait for the peer.
  | @ledgerPassedOn index response r s left generatedNodeID hrequest hbrings hleft hpeer =>
      rw [List.mem_singleton.mp hout]
      refine Leaves.request
        (r := ⟨n.nextUuid, generatedNodeID, left, r.onVerifyFinished⟩) rfl ?_ hleft
      rw [hnext]
      exact List.mem_append_right _ (List.mem_singleton.mpr rfl)
  | peerVerdict hrequest hverify => exact hinvoked hout
  -- Nothing leaves the node.
  | _ => exact absurd hout List.not_mem_nil

/-- A block that a callback is called with has the hashes that were asked for,
    taken from the pool that the callback sees. -/
theorem filled_of_mem_invoke {f : OnVerifyFinished} {verdict : VerifyResponse} {callback : Nat}
    {txs : List Transaction} (h : .onBlockFilled callback ⟨none, some txs⟩ ∈ f.invoke verdict) :
    ∃ txsHash, f = .fillBlock callback txsHash ∧ (verdict.pool.fetchTxs txsHash).2 = [] ∧
      txs = (verdict.pool.fetchTxs txsHash).1 := by
  cases f with
  | verifyBlock callback' block missedTxs =>
      have heq := List.mem_singleton.mp h
      cases heq
  | fillBlock callback' txsHash =>
      rcases List.mem_map.mp h with ⟨fill, hfill, heq⟩
      injection heq with hcallback heq
      rw [heq, TxPool.onRequested] at hfill
      split at hfill
      · exact absurd (congrArg FillResponse.txs (List.mem_singleton.mp hfill))
          (Option.some_ne_none txs)
      · rw [TxPool.fillBlock_none] at hfill
        -- A lookup that misses a hash answers with an error.
        split at hfill
        · rename_i hmissed
          have htxs := congrArg FillResponse.txs (List.mem_singleton.mp hfill)
          exact ⟨txsHash, by rw [hcallback], hmissed, Option.some.inj htxs⟩
        · exact absurd (congrArg FillResponse.txs (List.mem_singleton.mp hfill))
            (Option.some_ne_none txs)

/-- A block that a node fills has been asked for just now or by a request under
    way. It is taken from the pool before the step or after it, which had every
    hash. -/
theorem filled_of_mem_output {n : Node} (h : n.Consistent) {input : Input} {callback : Nat}
    {txs : List Transaction} (hout : .onBlockFilled callback ⟨none, some txs⟩
      ∈ nodeOutput cfg codec forwardPercent n input) :
    ∃ txsHash s, (input = .asyncFillBlock callback txsHash ∨
        .fillBlock callback txsHash ∈ n.waiting) ∧
      (s = n.storage ∨ s = (nodeNext cfg codec forwardPercent n input).storage) ∧
      (s.fetchTxs txsHash).2 = [] ∧ txs = (s.fetchTxs txsHash).1 := by
  unfold nodeOutput at hout
  unfold nodeNext
  have hstep := nodeStep_cases cfg codec forwardPercent h.missed input
  generalize nodeStep cfg codec forwardPercent n input = after at hstep hout ⊢
  cases hstep with
  | gossiped hgossips =>
      rcases List.mem_map.mp hout with ⟨sent, _, heq⟩
      cases heq
  | served hworker =>
      have heq := List.mem_singleton.mp hout
      cases heq
  | verified hblock hmissed =>
      have heq := List.mem_singleton.mp hout
      cases heq
  | @filled callback' txsHash hmissed =>
      have heq := List.mem_singleton.mp hout
      injection heq with hcallback hfill
      have htxs := congrArg FillResponse.txs hfill
      exact ⟨txsHash, n.storage, Or.inl (by rw [hcallback]), Or.inl rfl, hmissed,
        Option.some.inj htxs⟩
  -- The callback sees the pool after the import of what the ledger has found.
  | @ledgerVerdict index response r s left verdict hrequest hbrings hverdict =>
      rcases mem_invokeAll hout with ⟨f, hf, hinvoked⟩
      rcases filled_of_mem_invoke hinvoked with ⟨txsHash, rfl, hmissed, htxs⟩
      have hpool : verdict.pool = s := by
        rcases hverdict with ⟨_, rfl⟩ | ⟨_, _, rfl⟩
        · rfl
        · rfl
      refine ⟨txsHash, verdict.pool, Or.inr ?_, Or.inr hpool, hmissed, htxs⟩
      exact List.mem_append_left _ (List.mem_filterMap.mpr ⟨r, List.mem_of_getElem? hrequest, hf⟩)
  | ledgerPassedOn hrequest hbrings hleft hpeer =>
      have heq := List.mem_singleton.mp hout
      cases heq
  -- It sees the pool before the import or after it, depending on how the answer was
  -- read.
  | @peerVerdict uuid response r s verdict hrequest hverify =>
      rcases mem_invokeAll hout with ⟨f, hf, hinvoked⟩
      rcases filled_of_mem_invoke hinvoked with ⟨txsHash, rfl, hmissed, htxs⟩
      refine ⟨txsHash, verdict.pool, Or.inr ?_, (verifyFetchedTxs_verdict cfg hverify).1, hmissed,
        htxs⟩
      exact List.mem_append_right _ (List.mem_filterMap.mpr
        ⟨r, List.mem_of_find?_eq_some hrequest, hf⟩)
  | _ => exact absurd hout List.not_mem_nil

/-- A block that a node fills has exactly the hashes that the executor asked for
    under this callback, in their order. -/
theorem filled_as_asked (s : MemoryStorage) (inputs : List Input) (input : Input) {callback : Nat}
    {txs : List Transaction} (hout : .onBlockFilled callback ⟨none, some txs⟩
      ∈ nodeOutput cfg codec forwardPercent
        (run (nodeNext cfg codec forwardPercent) { storage := s } inputs) input) :
    .asyncFillBlock callback (txs.map (fun tx => tx.hash)) ∈ inputs ++ [input] := by
  rcases filled_of_mem_output cfg codec forwardPercent
    (run_consistent cfg codec forwardPercent s inputs) hout with
    ⟨txsHash, t, hasked, _, hmissed, rfl⟩
  rw [t.fetchTxs_hashes txsHash ((t.fetchTxs_missed_eq_nil_iff txsHash).mp hmissed)]
  -- It was asked for in this step, or in the step that began the request.
  rcases hasked with rfl | hwaits
  · exact List.mem_append_right inputs (List.mem_singleton.mpr rfl)
  · exact List.mem_append_left _ (waiting_fills cfg codec forwardPercent s inputs hwaits)

/-! ### What a node holds -/

/-- All contents that a node holds have a property: those of its pool, and those
    in the packets downloaded, which wait in the buffer for the next turn of the
    main loop. -/
structure Holds (Q : TxData → Prop) (n : Node) : Prop where
  pool : TxPool.PoolHolds Q n.storage
  downloads : ∀ packet ∈ n.downloadTxsBuffer, ∀ data ∈ carried cfg packet, Q data

variable {cfg} {Q : TxData → Prop}

/-- A packet carries the transactions of the block that it decodes to. -/
theorem carried_of_block (fromNode : NodeID) {bytes : Bytes} {block : Block}
    (h : cfg.framework.createBlock bytes = some block) :
    carried cfg (fromNode, bytes) = block.transactions := by
  simp only [carried, h]

/-- What an import may import was held, or the input brings it. -/
theorem Holds.imports {n : Node} (h : Holds cfg Q n) {input : Input}
    (hinput : ∀ data, input.Brings cfg data → Q data) {fromNode : NodeID} {txs : List TxData}
    {proposal : Option Block} (himports : Imports cfg n input fromNode txs proposal) :
    ∀ data ∈ txs, Q data := by
  intro data hdata
  -- What is imported was downloaded, found by the ledger, or sent by a peer in
  -- answer.
  cases himports with
  | downloaded hpacket hblock =>
      exact h.downloads _ hpacket data ((carried_of_block _ hblock).symm ▸ hdata)
  | fetched hrequest herror => exact hinput data ⟨herror, hdata⟩
  | answered hrequest huuid hblock hproposal => exact hinput data ⟨_, hblock, hdata⟩

/-- What the operations of a step carry was held, or the input brings it. -/
theorem Holds.carries {n : Node} (h : Holds cfg Q n) {input : Input}
    (hinput : ∀ data, input.Brings cfg data → Q data) {s : MemoryStorage} {ops : List TxPool.Op}
    (hrefines : Refines cfg n input s ops) :
    ∀ op ∈ ops, ∀ data, op.Carries cfg data → Q data := by
  intro op hop data hcarries
  -- Only a submission and an import carry contents.
  cases op with
  | asyncSubmit existsInGroup txData txSubmitCallback =>
      have hcall : .asyncSubmit existsInGroup txData txSubmitCallback
          ∈ ops.filter TxPool.Op.isCall := List.mem_filter.mpr ⟨hop, rfl⟩
      rw [hrefines.calls] at hcall
      cases input with
      | call call =>
          refine hinput data ?_
          rw [Input.Brings, ← List.mem_singleton.mp hcall]
          exact hcarries
      | _ => exact absurd hcall List.not_mem_nil
  | importDownloadedTxs fromNode txs proposal =>
      exact h.imports hinput (hrefines.imports fromNode txs proposal hop) data hcarries
  | _ => exact hcarries.elim

/-- The wake-up flag is no content. -/
theorem Holds.samePool {s s' : MemoryStorage} (h : TxPool.PoolHolds Q s)
    (hsame : TxPool.SamePool s s') : TxPool.PoolHolds Q s' := by
  rcases hsame with ⟨flag, rfl⟩
  exact h

/-- A step of a node keeps the property, where the input brings nothing without
    it. -/
theorem nodeNext_holds {n : Node} (hn : n.Consistent) (h : Holds cfg Q n) (input : Input)
    (hinput : ∀ data, input.Brings cfg data → Q data) :
    Holds cfg Q (nodeNext cfg codec forwardPercent n input) := by
  constructor
  · -- The pool runs through operations, and each carries what was held or has just
    -- been brought.
    rcases nodeStep_refines cfg codec forwardPercent hn input with ⟨ops, hrefines⟩
    exact Holds.samePool (TxPool.run_holds cfg h.pool (h.carries hinput hrefines)) hrefines.pool
  · intro packet hpacket data hdata
    -- The packet was in the buffer, or it has just arrived.
    have hqueue := (nodeStep_queues cfg codec forwardPercent hn input).downloadTxsBuffer
    have hmem : packet ∈ n.downloadTxsBuffer ++ input.packets cfg := by
      rw [hqueue]
      exact List.mem_append_right _ hpacket
    rcases List.mem_append.mp hmem with hbefore | harrived
    · exact h.downloads packet hbefore data hdata
    · cases input with
      | asyncNotifyTxsSyncMessage error uuid nodeID bytes =>
          exact hinput data ⟨packet, harrived, hdata⟩
      | _ => exact absurd harrived List.not_mem_nil

/-- The pool once the packets downloaded are imported. Gossip is spread from
    that pool, not from the one before the turn of the loop. -/
theorem Holds.downloaded {n : Node} (h : Holds cfg Q n) (existsInGroup : Bool) :
    TxPool.PoolHolds Q (downloaded cfg n.sync existsInGroup) := by
  rcases importBuffer_eq_run cfg n.downloadTxsBuffer n.storage with ⟨ops, hops, hfrom⟩
  unfold TransactionSync.downloaded
  split
  · refine hops.symm ▸ TxPool.run_holds cfg h.pool (fun op hop data hcarries => ?_)
    rcases hfrom op hop with ⟨fromNode, bytes, block, hpacket, hblock, rfl⟩
    exact h.downloads _ hpacket data ((carried_of_block _ hblock).symm ▸ hcarries)
  · exact h.pool

/-- What gossip sends in full is in the pool. -/
theorem gossip_holds {s : MemoryStorage} (h : TxPool.PoolHolds Q s) {order : HashList}
    {connectedNodeList : Finset NodeID} {consensusNodeList : List NodeID} {sent : Sent}
    (hsent : sent ∈ (maintainTransactions cfg forwardPercent s order connectedNodeList
      consensusNodeList).2.2) : ∀ data ∈ sent.packet.contents, Q data := by
  intro data hdata
  have hspreads := maintainTransactions_spreads cfg connectedNodeList consensusNodeList
    forwardPercent s order
  have hfull : data ∈ fullTxs sent.nodeID (maintainTransactions cfg forwardPercent s order
      connectedNodeList consensusNodeList).2.2 := by
    refine List.mem_flatMap.mpr ⟨sent.packet, ?_, hdata⟩
    exact (mem_packetsTo _ _ _).mpr hsent
  rw [maintainTransactions_snd] at hfull hspreads
  -- What is sent in full was fetched from the table, with the content that it has
  -- there.
  rcases (mem_fullTxs_packetsFor cfg connectedNodeList consensusNodeList forwardPercent _ _
    data).mp hfull with ⟨_, tx, htx, _, rfl⟩
  rcases hspreads.fetched tx htx with ⟨entry, hentry, _, heq⟩
  have hQ := h tx.hash entry hentry
  rw [heq]
  exact hQ

/-- A peer's request is answered from the pool. Hashes that the pool lacks are
    left out. -/
theorem responseBlock_holds {s : MemoryStorage} (h : TxPool.PoolHolds Q s) (txsHash : HashList) :
    ∀ data ∈ (responseBlock s txsHash).transactions, Q data := by
  intro data hdata
  rcases List.mem_map.mp hdata with ⟨tx, htx, rfl⟩
  rcases List.mem_filterMap.mp htx with ⟨txHash, _, hfind⟩
  exact h txHash tx hfind

/-- The messages that a node sends bring contents that it holds. The receiver
    decodes them with its own framework, which has to be lawful for the encoders
    of the sender. -/
theorem nodeOutput_holds {n : Node} (hn : n.Consistent) (h : Holds cfg Q n) {input : Input}
    {cfg' : TxPoolConfig} (hlawful : Lawful cfg'.framework codec) {out : Output}
    (hout : out ∈ nodeOutput cfg codec forwardPercent n input) {src : NodeID} {message : Message}
    (hmessage : out.message src = some message) :
    ∀ data, message.input.Brings cfg' data → Q data := by
  intro data hdata
  cases nodeOutput_leaves cfg codec forwardPercent hn input hout with
  | @gossip existsInGroup order connectedNodeList consensusNodeList sent hsent =>
      rcases sent with ⟨dst, packet⟩
      have hcontents := gossip_holds forwardPercent (h.downloaded existsInGroup) hsent
      rw [sendPacket, Output.message, Option.some.injEq] at hmessage
      rw [← hmessage] at hdata
      rcases hdata with ⟨arrived, harrived, hdata⟩
      simp only [Input.packets, Input.message, hlawful.txsSyncMsg, Option.map_some] at harrived
      cases packet with
      -- Only a packet with full transactions is kept by the receiver; a status
      -- packet brings hashes.
      | txsPacket transactions =>
          rw [List.mem_singleton.mp harrived, carried_of_block _ (hlawful.block _)] at hdata
          exact hcontents data hdata
      | txsStatusPacket txsHash => exact absurd harrived List.not_mem_nil
  | request huuid hnew hmissed =>
      -- A request brings no transactions.
      rw [Output.message, Option.some.injEq] at hmessage
      rw [← hmessage] at hdata
      rcases hdata with ⟨arrived, harrived, _⟩
      simp only [Input.packets, Input.message, hlawful.txsSyncMsg, Option.map_some] at harrived
      exact absurd harrived List.not_mem_nil
  -- An answer without a number reaches no request.
  | @response task hinput hserved htask =>
      cases huuid : task.uuid with
      | none =>
          rw [huuid] at hmessage
          exact absurd hmessage (Option.some_ne_none message).symm
      | some uuid =>
          rw [huuid, Output.message, Option.some.injEq] at hmessage
          rw [← hmessage] at hdata
          rcases hdata with ⟨block, hblock, hdata⟩
          simp only [answered, onReceiveTxsRequest, hlawful.txsSyncMsg, txsResponse, hlawful.block,
            Option.isSome_none, Bool.false_eq_true, if_false, ne_eq, not_true_eq_false,
            Option.some.injEq] at hblock
          rw [← hblock] at hdata
          exact responseBlock_holds h.pool _ data hdata
  | called hcalled =>
      rw [hcalled src] at hmessage
      exact absurd hmessage (Option.some_ne_none message).symm

/-- A block that a node fills is made of contents that it holds or that have
    just been brought. -/
theorem fill_holds {n : Node} (hn : n.Consistent) (h : Holds cfg Q n) {input : Input}
    (hinput : ∀ data, input.Brings cfg data → Q data) {callback : Nat} {txs : List Transaction}
    (hout : .onBlockFilled callback ⟨none, some txs⟩
      ∈ nodeOutput cfg codec forwardPercent n input) : ∀ tx ∈ txs, Q tx.toTxData := by
  rcases filled_of_mem_output cfg codec forwardPercent hn hout with ⟨txsHash, s, _, hs, _, rfl⟩
  have hholds : TxPool.PoolHolds Q s := by
    rcases hs with rfl | rfl
    · exact h.pool
    · exact (nodeNext_holds codec forwardPercent hn h input hinput).pool
  intro tx htx
  rcases List.mem_filterMap.mp htx with ⟨txHash, _, hfind⟩
  exact hholds txHash tx hfind

end Node

/-! ### Steps of a network -/

namespace Network

/-- A network in which nothing has happened yet. -/
def start (ledger : NodeID → LedgerNonceChecker) : Network where
  nodes nodeID := { storage := { ledgerNonceChecker := ledger nodeID } }

/-- What a step of the network is to a node: one input, or none where the step
    is elsewhere. -/
def inputsAt (nodeID : NodeID) (w : Network) (op : NetOp) : List Input :=
  match w.input op with
  | none => []
  | some (at', input) => if at' = nodeID then [input] else []

variable (cfg : NodeID → TxPoolConfig) (codec : Codec) (forwardPercent : Nat)

/-- A step of the network is to each node a step of its own, or nothing. -/
theorem netStep_nodes (nodeID : NodeID) (w : Network) (op : NetOp) :
    (netStep cfg codec forwardPercent w op).nodes nodeID
      = run (nodeNext (cfg nodeID) codec forwardPercent) (w.nodes nodeID)
        (inputsAt nodeID w op) := by
  unfold netStep inputsAt
  cases w.input op with
  | none => rfl
  | some event =>
      rcases event with ⟨at', input⟩
      simp only
      -- Only the node that the step is at is updated.
      by_cases hat : at' = nodeID
      · rw [if_pos hat, hat]
        exact Function.update_self _ _ _
      · rw [if_neg hat]
        exact Function.update_of_ne (Ne.symm hat) _ _

/-- A node of a network runs as a node does, through what the network is to it. -/
theorem run_nodes (nodeID : NodeID) (w : Network) (ops : List NetOp) :
    (run (netStep cfg codec forwardPercent) w ops).nodes nodeID
      = run (nodeNext (cfg nodeID) codec forwardPercent) (w.nodes nodeID)
        (gather (netStep cfg codec forwardPercent) (inputsAt nodeID) w ops) :=
  run_part _ _ (fun w : Network => w.nodes nodeID)
    (netStep_nodes cfg codec forwardPercent nodeID) ops w

/-- What is in flight after a step was in flight before, or the node that the
    step is at has sent it. -/
theorem mem_flight {w : Network} {op : NetOp} {message : Message}
    (h : message ∈ (netStep cfg codec forwardPercent w op).flight) :
    message ∈ w.remaining op ∨ ∃ nodeID input, w.input op = some (nodeID, input) ∧
      ∃ out ∈ nodeOutput (cfg nodeID) codec forwardPercent (w.nodes nodeID) input,
        out.message nodeID = some message := by
  unfold netStep at h
  cases hinput : w.input op with
  | none =>
      rw [hinput] at h
      exact Or.inl h
  | some event =>
      rcases event with ⟨nodeID, input⟩
      rw [hinput] at h
      rcases List.mem_append.mp h with h | h
      · exact Or.inl h
      · rcases List.mem_filterMap.mp h with ⟨out, hout, hmessage⟩
        exact Or.inr ⟨nodeID, input, rfl, out, hout, hmessage⟩

/-- A message that remains was in flight. Delivery and loss take one away. -/
theorem mem_of_mem_remaining {w : Network} {op : NetOp} {message : Message}
    (h : message ∈ w.remaining op) : message ∈ w.flight := by
  cases op with
  | deliver index => exact List.mem_of_mem_eraseIdx h
  | lose index => exact List.mem_of_mem_eraseIdx h
  | act nodeID input => exact h
  | giveUp nodeID uuid error => exact h

/-- Every node of the network is consistent. -/
def Consistent (w : Network) : Prop := ∀ nodeID, (w.nodes nodeID).Consistent

/-- Every step keeps all nodes consistent. -/
theorem netStep_consistent {w : Network} (h : w.Consistent) (op : NetOp) :
    (netStep cfg codec forwardPercent w op).Consistent := by
  intro nodeID
  rw [netStep_nodes]
  exact run_invariant _ Node.Consistent (fun _ => True)
    (fun _ input _ hn => Node.nodeNext_consistent (cfg nodeID) codec forwardPercent hn input)
    _ _ (fun _ _ => trivial) (h nodeID)

/-- At the start no request is under way, so all nodes are consistent in every
    run. -/
theorem run_consistent (ledger : NodeID → LedgerNonceChecker) (ops : List NetOp) :
    (run (netStep cfg codec forwardPercent) (start ledger) ops).Consistent :=
  run_invariant _ Consistent (fun _ => True)
    (fun _ op _ h => netStep_consistent cfg codec forwardPercent h op) ops _
    (fun _ _ => trivial) (fun _ => Node.consistent_of_idle rfl rfl)

/-! ### What a network holds -/

/-- All contents in the network have a property: those that the nodes hold, and
    those in flight, as their receivers will read them. -/
structure Holds (Q : TxData → Prop) (w : Network) : Prop where
  nodes : ∀ nodeID, Node.Holds (cfg nodeID) Q (w.nodes nodeID)
  flight : ∀ message ∈ w.flight, ∀ data, message.input.Brings (cfg message.dst) data → Q data

end Network

/-- A client or the ledger of a node hands over a content. It does not come over
    the network. -/
def NetOp.Sources (cfg : NodeID → TxPoolConfig) (data : TxData) : NetOp → Prop
  | .act nodeID input => input.1.Brings (cfg nodeID) data
  | _ => False

namespace Network

variable (cfg : NodeID → TxPoolConfig) (codec : Codec) (forwardPercent : Nat)
variable {cfg} {Q : TxData → Prop}

/-- What a step brings to a node was in flight, or the step is a source of it. -/
theorem Holds.brings {w : Network} (h : w.Holds cfg Q) {op : NetOp}
    (hop : ∀ data, op.Sources cfg data → Q data) {nodeID : NodeID} {input : Input}
    (hinput : w.input op = some (nodeID, input)) :
    ∀ data, input.Brings (cfg nodeID) data → Q data := by
  intro data hdata
  cases op with
  | act at' given =>
      rcases Option.some.inj hinput with ⟨rfl, rfl⟩
      exact hop data hdata
  | deliver index =>
      rcases Option.map_eq_some_iff.mp hinput with ⟨message, hmessage, heq⟩
      injection heq with hnode hinput
      rw [← hnode, ← hinput] at hdata
      exact h.flight message (List.mem_of_getElem? hmessage) data hdata
  | lose index => exact absurd hinput (Option.some_ne_none _).symm
  -- An error of the front service carries no block.
  | giveUp at' uuid error =>
      rcases Option.some.inj hinput with ⟨rfl, rfl⟩
      rcases hdata with ⟨block, hblock, _⟩
      exact absurd hblock (Option.some_ne_none block).symm

/-- A step keeps the property, where it is no source of a content without it. -/
theorem netStep_holds (hlawful : ∀ nodeID, Lawful (cfg nodeID).framework codec) {w : Network}
    (hw : w.Consistent) (h : w.Holds cfg Q) {op : NetOp}
    (hop : ∀ data, op.Sources cfg data → Q data) :
    (netStep cfg codec forwardPercent w op).Holds cfg Q := by
  constructor
  · intro nodeID
    rw [netStep_nodes, inputsAt]
    cases hinput : w.input op with
    | none => exact h.nodes nodeID
    | some event =>
        rcases event with ⟨at', input⟩
        simp only
        split
        · rename_i hat
          subst hat
          exact Node.nodeNext_holds codec forwardPercent (hw at') (h.nodes at') input
            (h.brings hop hinput)
        · exact h.nodes nodeID
  · intro message hmessage
    -- A message was in flight before, or a node has sent it from what it holds.
    rcases mem_flight cfg codec forwardPercent hmessage with
      hbefore | ⟨nodeID, input, hinput, out, hout, hsent⟩
    · exact h.flight message (mem_of_mem_remaining hbefore)
    · exact Node.nodeOutput_holds codec forwardPercent (hw nodeID) (h.nodes nodeID)
        (hlawful message.dst) hout hsent

/-- What all sources of a run have in common, all contents in the network have.
    At the start there are none. -/
theorem run_holds (hlawful : ∀ nodeID, Lawful (cfg nodeID).framework codec)
    (ledger : NodeID → LedgerNonceChecker) (ops : List NetOp)
    (hops : ∀ op ∈ ops, ∀ data, op.Sources cfg data → Q data) :
    (run (netStep cfg codec forwardPercent) (start ledger) ops).Holds cfg Q := by
  -- The induction is on the run from its end, one step of the network at a time.
  induction ops using List.reverseRecOn with
  | nil =>
      refine ⟨fun nodeID => ⟨fun txHash tx hfind => ?_, fun packet h => ?_⟩, fun message h => ?_⟩
      · exact absurd hfind (Option.some_ne_none tx).symm
      · exact absurd h List.not_mem_nil
      · exact absurd h List.not_mem_nil
  | append_singleton ops op ih =>
      rw [run_concat]
      exact netStep_holds codec forwardPercent hlawful
        (run_consistent cfg codec forwardPercent ledger ops)
        (ih (fun op' hop' => hops op' (List.mem_append_left _ hop')))
        (hops op (List.mem_append_right _ List.mem_cons_self))

end Network

/-- The calls that a step of the network is to a node. A message is none. -/
def NetOp.callsAt (nodeID : NodeID) : NetOp → List TxPool.Op
  | .act at' input => if at' = nodeID then input.1.calls else []
  | _ => []

/-- The node is asked to verify the proposal. -/
def NetOp.VerifiesAt (cfg : NodeID → TxPoolConfig) (nodeID : NodeID) (block : Block) :
    NetOp → Prop
  | .act at' input => at' = nodeID ∧ input.1.Verifies (cfg nodeID) block
  | _ => False

namespace Network

/-- Nothing that comes over the network is a call. -/
theorem inputsAt_calls (nodeID : NodeID) (w : Network) (op : NetOp) :
    (inputsAt nodeID w op).flatMap Input.calls = op.callsAt nodeID := by
  unfold inputsAt
  cases op with
  | act at' input =>
      simp only [Network.input, NetOp.callsAt]
      split
      · exact List.append_nil _
      · rfl
  -- What is delivered is a packet or a response.
  | deliver index =>
      cases hmessage : w.flight[index]? with
      | none => simp only [input, hmessage, Option.map_none, List.flatMap_nil, NetOp.callsAt]
      | some message =>
          simp only [input, hmessage, Option.map_some, NetOp.callsAt]
          split
          · cases message with
            | _ => rfl
          · rfl
  | lose index => rfl
  | giveUp at' uuid error =>
      simp only [input, NetOp.callsAt]
      split
      · rfl
      · rfl

/-- What does not come over the network is the work of the node's own clients,
    its consensus or its threads. -/
theorem act_of_mem_inputsAt {nodeID : NodeID} {w : Network} {op : NetOp} {i : Input}
    (hi : i ∈ inputsAt nodeID w op) (hlocal : i.isLocal = true) : op = .act nodeID ⟨i, hlocal⟩ := by
  unfold inputsAt at hi
  cases op with
  | act at' input =>
      simp only [Network.input] at hi
      split at hi
      · rename_i hat
        subst hat
        have heq : i = input.1 := List.mem_singleton.mp hi
        subst heq
        rfl
      · exact absurd hi List.not_mem_nil
  | deliver index =>
      -- A message is a packet or a response, and neither is local.
      cases hmessage : w.flight[index]? with
      | none =>
          rw [input, hmessage] at hi
          exact absurd hi List.not_mem_nil
      | some message =>
          simp only [input, hmessage, Option.map_some] at hi
          split at hi
          · rw [List.mem_singleton.mp hi] at hlocal
            cases message with
            | _ => exact absurd hlocal Bool.false_ne_true
          · exact absurd hi List.not_mem_nil
  | lose index => exact absurd hi List.not_mem_nil
  | giveUp at' uuid error =>
      simp only [input] at hi
      split at hi
      · rw [List.mem_singleton.mp hi] at hlocal
        exact absurd hlocal Bool.false_ne_true
      · exact absurd hi List.not_mem_nil

/-- Nor does it ask for a proposal to be verified. -/
theorem verifiesAt_of_mem_inputsAt {cfg : NodeID → TxPoolConfig} {nodeID : NodeID} {w : Network}
    {op : NetOp} {i : Input} {block : Block} (hi : i ∈ inputsAt nodeID w op)
    (hverifies : i.Verifies (cfg nodeID) block) : op.VerifiesAt cfg nodeID block := by
  have hlocal : i.isLocal = true := by
    cases i with
    | asyncVerifyBlock callback generatedNodeID data => rfl
    | _ => exact hverifies.elim
  rw [act_of_mem_inputsAt hi hlocal]
  exact ⟨rfl, hverifies⟩

end Network

/-- In every run of a network each pool is the pool after a run of operations,
    apart from the wake-up flag. The calls in it are those that the node's own
    clients and consensus made, in their order, and an import in it is for a
    proposal only if they asked for that proposal to be verified. No message
    makes a node do either. -/
theorem nodes_refine_pools (cfg : NodeID → TxPoolConfig) (codec : Codec) (forwardPercent : Nat)
    (ledger : NodeID → LedgerNonceChecker) (ops : List NetOp) (nodeID : NodeID) :
    ∃ poolOps, TxPool.SamePool
        (run (TxPool.step (cfg nodeID)) { ledgerNonceChecker := ledger nodeID } poolOps)
        ((run (netStep cfg codec forwardPercent) (Network.start ledger) ops).nodes
          nodeID).storage ∧
      poolOps.filter TxPool.Op.isCall = ops.flatMap (NetOp.callsAt nodeID) ∧
      ∀ fromNode txs block, .importDownloadedTxs fromNode txs (some block) ∈ poolOps →
        ∃ op ∈ ops, op.VerifiesAt cfg nodeID block := by
  rcases nodeRun_refines (cfg nodeID) codec forwardPercent
    { ledgerNonceChecker := ledger nodeID } (gather (netStep cfg codec forwardPercent)
      (Network.inputsAt nodeID) (Network.start ledger) ops) with ⟨poolOps, hops⟩
  refine ⟨poolOps, ?_, ?_, fun fromNode txs block hop => ?_⟩
  · -- The node runs as a node does, and its pool is refined there.
    rw [Network.run_nodes]
    exact hops.pool
  · rw [hops.calls, flatMap_gather]
    simp only [Network.inputsAt_calls]
    exact gather_const _ _ _ _
  · rcases hops.verifies fromNode txs block hop with ⟨pre, i, post, hinputs, hverifies⟩
    have hi : i ∈ gather (netStep cfg codec forwardPercent) (Network.inputsAt nodeID)
        (Network.start ledger) ops := by
      rw [hinputs]
      exact List.mem_append_right pre List.mem_cons_self
    rcases (mem_gather _ _ _ _ _).mp hi with ⟨before, op, after, hsplit, hat⟩
    refine ⟨op, ?_, Network.verifiesAt_of_mem_inputsAt hat hverifies⟩
    rw [hsplit]
    exact List.mem_append_right before List.mem_cons_self

/-- In a network of nodes that run this code, what is in a pool was handed to
    some node by a client, or by the ledger of some node. -/
theorem network_origin (cfg : NodeID → TxPoolConfig) (codec : Codec) (forwardPercent : Nat)
    (hlawful : ∀ nodeID, Lawful (cfg nodeID).framework codec)
    (ledger : NodeID → LedgerNonceChecker) (ops : List NetOp) (nodeID : NodeID)
    (txHash : HashType) (tx : Transaction)
    (hfind : ((run (netStep cfg codec forwardPercent) (Network.start ledger) ops).nodes
      nodeID).storage.txsTable.find? txHash = some tx) :
    ∃ op ∈ ops, op.Sources cfg tx.toTxData := by
  -- The property is that some step of the run is a source of the content.
  have hsources : ∀ op ∈ ops, ∀ data, op.Sources cfg data → ∃ op ∈ ops, op.Sources cfg data :=
    fun op hop _ hsource => ⟨op, hop, hsource⟩
  have hholds := Network.run_holds codec forwardPercent hlawful ledger ops hsources
  exact (hholds.nodes nodeID).pool txHash tx hfind

/-- In this step some node fills a block with the transactions, and its callback
    is called with them. -/
def FilledAt (cfg : NodeID → TxPoolConfig) (codec : Codec) (forwardPercent : Nat)
    (txs : List Transaction) (w : Network) (op : NetOp) : Prop :=
  ∃ nodeID input callback, w.input op = some (nodeID, input) ∧
    .onBlockFilled callback ⟨none, some txs⟩
      ∈ nodeOutput (cfg nodeID) codec forwardPercent (w.nodes nodeID) input

/-- A block filled in a run carries exactly the hashes that the executor of some
    node asked for in the run, in their order. -/
theorem filled_asked (cfg : NodeID → TxPoolConfig) (codec : Codec) (forwardPercent : Nat)
    (ledger : NodeID → LedgerNonceChecker) {ops : List NetOp} {txs : List Transaction}
    (h : Once (netStep cfg codec forwardPercent) (FilledAt cfg codec forwardPercent txs)
      (Network.start ledger) ops) :
    ∃ nodeID callback,
      .act nodeID ⟨.asyncFillBlock callback (txs.map (fun tx => tx.hash)), rfl⟩ ∈ ops := by
  rcases h with ⟨pre, op, post, rfl, nodeID, input, callback, hinput, hout⟩
  rw [Network.run_nodes] at hout
  refine ⟨nodeID, callback, ?_⟩
  rcases List.mem_append.mp (Node.filled_as_asked (cfg nodeID) codec forwardPercent _ _ input hout)
    with hbefore | hnow
  · -- The request was an input of the node, and so an operation of the network.
    rcases (mem_gather _ _ _ _ _).mp hbefore with ⟨before, op', after, rfl, hat⟩
    rw [← Network.act_of_mem_inputsAt hat rfl]
    exact List.mem_append_left _ (List.mem_append_right before List.mem_cons_self)
  · have hat : input ∈ Network.inputsAt nodeID
        (run (netStep cfg codec forwardPercent) (Network.start ledger) pre) op := by
      rw [Network.inputsAt, hinput]
      simp only [if_true]
      exact List.mem_singleton.mpr rfl
    rw [← List.mem_singleton.mp hnow] at hat
    rw [← Network.act_of_mem_inputsAt hat rfl]
    exact List.mem_append_right pre List.mem_cons_self

/-- Where the contents that clients and ledgers hand over differ in their
    hashes, two blocks filled for the same hashes, at any nodes and at any
    moments of a run, carry the same transactions. By `filled_asked` these are
    the hashes that the executors asked for. -/
theorem filled_agree (cfg : NodeID → TxPoolConfig) (codec : Codec) (forwardPercent : Nat)
    (hlawful : ∀ nodeID, Lawful (cfg nodeID).framework codec)
    (ledger : NodeID → LedgerNonceChecker) (ops : List NetOp)
    (hhash : ∀ op ∈ ops, ∀ op' ∈ ops, ∀ data data', op.Sources cfg data →
      op'.Sources cfg data' → data.hash = data'.hash → data = data')
    (txs txs' : List Transaction)
    (hfilled : Once (netStep cfg codec forwardPercent) (FilledAt cfg codec forwardPercent txs)
      (Network.start ledger) ops)
    (hfilled' : Once (netStep cfg codec forwardPercent) (FilledAt cfg codec forwardPercent txs')
      (Network.start ledger) ops)
    (hsame : txs.map (fun tx => tx.hash) = txs'.map (fun tx => tx.hash)) :
    txs.map (fun tx => tx.toTxData) = txs'.map (fun tx => tx.toTxData) := by
  -- What is filled at any moment comes from a source of the run.
  have hsources : ∀ txs, Once (netStep cfg codec forwardPercent)
      (FilledAt cfg codec forwardPercent txs) (Network.start ledger) ops →
      ∀ tx ∈ txs, ∃ op ∈ ops, op.Sources cfg tx.toTxData := by
    rintro txs ⟨pre, op, post, hops, nodeID, input, callback, hinput, hout⟩
    have hpre : ∀ op' ∈ pre, ∀ data, op'.Sources cfg data → ∃ op ∈ ops, op.Sources cfg data :=
      fun op' hop' _ hsource => ⟨op', hops ▸ List.mem_append_left _ hop', hsource⟩
    have hop : ∀ data, op.Sources cfg data → ∃ op ∈ ops, op.Sources cfg data :=
      fun _ hsource => ⟨op, hops ▸ List.mem_append_right _ List.mem_cons_self, hsource⟩
    have hholds := Network.run_holds codec forwardPercent hlawful ledger pre hpre
    exact Node.fill_holds codec forwardPercent
      (Network.run_consistent cfg codec forwardPercent ledger pre nodeID) (hholds.nodes nodeID)
      (hholds.brings hop hinput) hout
  -- The two lists are compared place by place.
  have hlength := congrArg List.length hsame
  rw [List.length_map, List.length_map] at hlength
  refine List.ext_getElem (by rw [List.length_map, List.length_map, hlength]) ?_
  intro k hk hk'
  rw [List.length_map] at hk hk'
  rw [List.getElem_map, List.getElem_map]
  rcases hsources txs hfilled txs[k] (List.getElem_mem hk) with ⟨op, hop, hsource⟩
  rcases hsources txs' hfilled' txs'[k] (List.getElem_mem hk') with ⟨op', hop', hsource'⟩
  -- Both contents come from sources, and at the same place they have the same hash.
  refine hhash op hop op' hop' _ _ hsource hsource' ?_
  have hget := congrArg (fun hashes => hashes[k]?) hsame
  simp only [List.getElem?_map, List.getElem?_eq_getElem hk, List.getElem?_eq_getElem hk',
    Option.map_some, Option.some.injEq] at hget
  exact hget

/-! ### A network to run -/

section Unary

instance encodableUInt8 : Encodable UInt8 :=
  Encodable.ofLeftInverse UInt8.toNat UInt8.ofNat (fun _ => UInt8.ofNat_toNat)

instance encodableUInt32 : Encodable UInt32 :=
  Encodable.ofLeftInverse UInt32.toNat UInt32.ofNat (fun _ => UInt32.ofNat_toNat)

instance encodableString : Encodable String :=
  Encodable.ofLeftInverse (fun s => s.toList.map Char.toNat)
    (fun l => String.ofList (l.map Char.ofNat)) (fun s => by
      rw [List.map_map, show Char.ofNat ∘ Char.toNat = id from funext Char.ofNat_toNat,
        List.map_id, String.ofList_toList])

instance encodableTxData : Encodable TxData :=
  Encodable.ofLeftInverse
    (fun data => (data.hash, data.nonce, data.blockLimit, data.groupId, data.chainId,
      data.toAddress, data.txAttribute, data.signatureData))
    (fun p => ⟨p.1, p.2.1, p.2.2.1, p.2.2.2.1, p.2.2.2.2.1, p.2.2.2.2.2.1, p.2.2.2.2.2.2.1,
      p.2.2.2.2.2.2.2⟩) (fun _ => rfl)

instance encodableBlockHeader : Encodable BlockHeader :=
  Encodable.ofLeftInverse (fun header => (header.number, header.hash)) (fun p => ⟨p.1, p.2⟩)
    (fun _ => rfl)

instance encodableBlock : Encodable Block :=
  Encodable.ofLeftInverse
    (fun block => (block.blockHeader, block.transactionsHash, block.transactions))
    (fun p => ⟨p.1, p.2.1, p.2.2⟩) (fun _ => rfl)

/-- The type of a packet as its tag. An unknown type is kept, so that the code
    is lossless. -/
def packetTag : TxsSyncPacketType → Nat × Int
  | .txsPacket => (0, 0)
  | .txsStatusPacket => (1, 0)
  | .txsRequestPacket => (2, 0)
  | .txsResponsePacket => (3, 0)
  | .unknown type => (4, type)

/-- The type with a tag. -/
def packetOfTag : Nat × Int → TxsSyncPacketType
  | (0, _) => .txsPacket
  | (1, _) => .txsStatusPacket
  | (2, _) => .txsRequestPacket
  | (3, _) => .txsResponsePacket
  | (_, type) => .unknown type

instance encodableTxsSyncMsg : Encodable TxsSyncMsg :=
  Encodable.ofLeftInverse (fun msg => (packetTag msg.type, msg.txsHash, msg.txsData))
    (fun p => ⟨packetOfTag p.1, p.2.1, p.2.2⟩) (fun msg => by
      rcases msg with ⟨type, txsHash, txsData⟩
      cases type with
      | _ => rfl)

/-- A value as so many bytes as its code. It is lawful and nothing else. -/
def unary {α : Type} [Encodable α] (a : α) : Bytes := List.replicate (Encodable.encode a) 0

/-- The value with a code. -/
def ofUnary {α : Type} [Encodable α] (bytes : Bytes) : Option α := Encodable.decode bytes.length

/-- The code of a value decodes to it. -/
theorem ofUnary_unary {α : Type} [Encodable α] (a : α) : ofUnary (unary a) = some a := by
  rw [ofUnary, unary, List.length_replicate, Encodable.encodek]

/-- A value by its place in a book, or as its code behind a zero. -/
def booked {α : Type} [Encodable α] [DecidableEq α] (book : List α) (a : α) : Bytes :=
  match book.findIdx? (fun b => b = a) with
  | some i => List.replicate (i + 1) 1
  | none => 0 :: unary a

/-- The value at a place of the book, or with a code. -/
def ofBooked {α : Type} [Encodable α] (book : List α) : Bytes → Option α
  | [] => none
  | mark :: bytes => if mark = 0 then ofUnary bytes else book[bytes.length]?

/-- Whatever is in the book, what is written is read back. -/
theorem ofBooked_booked {α : Type} [Encodable α] [DecidableEq α] (book : List α) (a : α) :
    ofBooked book (booked book a) = some a := by
  unfold booked
  cases hfind : book.findIdx? (fun b => b = a) with
  | none => exact ofUnary_unary a
  | some i =>
      rcases List.findIdx?_eq_some_iff_getElem.mp hfind with ⟨hi, heq, _⟩
      -- A value of the book begins with a one, and any other with a zero.
      have hmark : (1 : UInt8) ≠ 0 := by decide
      simp only [List.replicate_succ, ofBooked, if_neg hmark, List.length_replicate]
      rw [List.getElem?_eq_getElem hi, of_decide_eq_true heq]

/-- A proposal with one transaction. -/
def oneTxBlock : Block := ⟨none, [1], []⟩

/-- The blocks of a request for it that finds nothing, and of its gossip. -/
def blockBook : List Block :=
  [oneTxBlock, ⟨none, [], []⟩, ⟨none, [], [TxPool.exampleTx 1 7 1]⟩]

/-- The messages that carry them. What is not in the book is written as its
    code, which is far too long to run with. -/
def messageBook : List TxsSyncMsg :=
  [⟨.txsRequestPacket, [1], []⟩, ⟨.txsResponsePacket, [], [1, 1]⟩, ⟨.txsPacket, [], [1, 1, 1]⟩]

/-- The encoders of a framework that writes in this way. They let a run be
    evaluated, and they are lawful for all messages, also those that no run
    sends. -/
def bookCodec : Codec := ⟨booked blockBook, booked messageBook⟩

/-- The framework, for which any bytes of a client are one transaction. -/
def bookConfig : TxPoolConfig :=
  { TxPool.exampleConfig with
    framework :=
      { TxPool.exampleConfig.framework with
        decodeTransaction := fun _ => some (TxPool.exampleTx 1 7 1)
        createBlock := ofBooked blockBook
        createTxsSyncMsg := ofBooked messageBook } }

/-- The book decodes what it encodes. -/
theorem book_lawful : Lawful bookConfig.framework bookCodec where
  txsSyncMsg := ofBooked_booked messageBook
  block := ofBooked_booked blockBook

end Unary

/-- A network of nodes without a history. -/
def emptyLedgers (_ : NodeID) : LedgerNonceChecker :=
  LedgerNonceChecker.create none 0 bookConfig.blockLimit

/-- A client submits a transaction to a node. -/
def submitAt (nodeID : NodeID) : NetOp :=
  .act nodeID ⟨.call ⟨.asyncSubmit true [] none, rfl⟩, rfl⟩

/-- The executor asks a node to fill a block. -/
def fillAt (nodeID : NodeID) : NetOp := .act nodeID ⟨.asyncFillBlock 3 [1], rfl⟩

/-- A client sends a transaction to a node and waits for the result, so the node
    sends it on to its peer in full. The peer imports what has arrived. -/
def travels : List NetOp :=
  [.act 0 ⟨.call ⟨.asyncSubmit true [] (some 9), rfl⟩, rfl⟩,
    .act 0 ⟨.executeWorker true [1] {1} [1], rfl⟩, .deliver 0,
    .act 1 ⟨.executeWorker true [] {0} [0], rfl⟩]

/-- The peer, which has no clients of its own, holds what came from the client
    of the other node. -/
theorem network_origin_submitted :
    travels.flatMap (NetOp.callsAt 1) = [] ∧
      ∃ op ∈ travels, op.Sources (fun _ => bookConfig) (TxPool.exampleTx 1 7 1) :=
  ⟨rfl, network_origin (fun _ => bookConfig) bookCodec 25 (fun _ => book_lawful) emptyLedgers
    travels 1 1 { toTxData := TxPool.exampleTx 1 7 1, knownNodes := {0} } (by decide)⟩

/-- Two nodes that were handed the same transaction, and then fill a block with
    it. No message is delivered between them. -/
def twoFills : List NetOp := [submitAt 0, submitAt 1, fillAt 0, fillAt 1]

/-- The transaction as a pool holds it. -/
def pooledTx : Transaction := { toTxData := TxPool.exampleTx 1 7 1 }

/-- Both fill the same block, since one content stands behind the hash. -/
theorem filled_agree_twoFills :
    Once (netStep (fun _ => bookConfig) bookCodec 25)
        (FilledAt (fun _ => bookConfig) bookCodec 25 [pooledTx]) (Network.start emptyLedgers)
        twoFills ∧
      [pooledTx].map (fun tx => tx.toTxData) = [pooledTx].map (fun tx => tx.toTxData) := by
  have hsource : ∀ op ∈ twoFills, ∀ data, op.Sources (fun _ => bookConfig) data →
      TxPool.exampleTx 1 7 1 = data := by
    intro op hop data hdata
    simp only [twoFills, List.mem_cons, List.not_mem_nil, or_false] at hop
    rcases hop with rfl | rfl | rfl | rfl
    · exact Option.some.inj hdata
    · exact Option.some.inj hdata
    · exact hdata.elim
    · exact hdata.elim
  have hfirst : Once (netStep (fun _ => bookConfig) bookCodec 25)
      (FilledAt (fun _ => bookConfig) bookCodec 25 [pooledTx]) (Network.start emptyLedgers)
      twoFills :=
    ⟨[submitAt 0, submitAt 1], fillAt 0, [fillAt 1], rfl, 0, .asyncFillBlock 3 [1], 3, rfl,
      List.mem_singleton.mpr rfl⟩
  have hsecond : Once (netStep (fun _ => bookConfig) bookCodec 25)
      (FilledAt (fun _ => bookConfig) bookCodec 25 [pooledTx]) (Network.start emptyLedgers)
      twoFills :=
    ⟨[submitAt 0, submitAt 1, fillAt 0], fillAt 1, [], rfl, 1, .asyncFillBlock 3 [1], 3, rfl,
      List.mem_singleton.mpr rfl⟩
  exact ⟨hfirst, filled_agree (fun _ => bookConfig) bookCodec 25 (fun _ => book_lawful)
    emptyLedgers twoFills (fun op hop op' hop' data data' h h' _ =>
      (hsource op hop data h).symm.trans (hsource op' hop' data' h')) [pooledTx] [pooledTx] hfirst
    hsecond rfl⟩

end BcosTxPool
