import BcosTxPool.Core.Operations
import BcosTxPool.Theory.Admission
import BcosTxPool.Theory.BadPacket
import BcosTxPool.Theory.Callbacks
import BcosTxPool.Theory.WakeFlag

/-!
# A Node Refines Its Pool

`TxPool.Op` lists what a node does to its pool, and the results about runs of a
pool are about runs of those operations. Here they are connected to the node:
whatever packets and answers come in and in whatever order the threads take their
turns, the pool of the node is the pool after a run of operations, apart from the
wake-up flag.

The run is not arbitrary. The calls in it are those that the node was given, in
their order. Every import in it is of a packet that had been downloaded, of an
answer of the ledger, or of the answer to a request that was sent. Where an import
is for a proposal, consensus has had the node verify that very proposal. Peers
choose the bytes that a node imports; they do not get to choose what it takes for
a proposal.

Admission follows for nodes whose peers and ledger send what they like. What is
in the pool has a signature that verifies, and it is of the group and the chain
unless a proposal to be verified was the reason to import it.

## Main definitions

* `Op.isNote`: The operations that only note something on entries.
* `Imports`: What an input may lead a node to import.
* `Verifies`: The input asks for a proposal to be verified.
* `Refines`, `RunRefines`: Operations that stand for an input, and for a run of inputs.

## Theorems

* `maintainTransactions_eq_run`: Gossip is a run of notes, apart from the flag.
* `nodeStep_refines`, `nodeRun_refines`, `node_refines_pool`: One step, and every run.
* `waiting_verifies`: A proposal that a request has captured was to be verified.
* `node_admission`: Admission over every run of a node.
-/

namespace BcosTxPool

open Library

/-- The operations that only note something: that an entry was fetched for
    gossip, that hashes are missed, that a node knows an entry. -/
def TxPool.Op.isNote : TxPool.Op → Bool
  | .filterUnknownTxs _ _ => true
  | .fetchNewTxs _ _ => true
  | .appendKnownNode _ _ => true
  | _ => false

namespace MemoryStorage

/-! ### Notes on entries -/

/-- Nodes noted on an entry one by one are noted together. -/
theorem foldl_appendKnownNode_nodes (txHash : HashType) (nodes : List NodeID) :
    ∀ s : MemoryStorage, nodes.foldl (fun s node => s.appendKnownNode txHash node) s = { s with
      txsTable := s.txsTable.modify txHash
        (fun tx => { tx with knownNodes := tx.knownNodes ∪ nodes.toFinset }) } := by
  -- The induction is on the nodes; each goes into the set that those before have
  -- made.
  induction nodes with
  | nil =>
      intro s
      have hsame : s.txsTable.modify txHash
          (fun tx => { tx with knownNodes := tx.knownNodes ∪ List.toFinset [] }) = s.txsTable := by
        cases hfind : s.txsTable.find? txHash with
        | none => exact s.txsTable.modify_of_find?_none _ _ hfind
        | some tx =>
            refine KeyedTable.modify_eq_self hfind _ _ ?_
            rw [List.toFinset_nil, Finset.union_empty]
      rw [hsame]
      rfl
  | cons node nodes ih =>
      intro s
      rw [List.foldl_cons, ih]
      simp only [appendKnownNode, KeyedTable.modify_modify]
      congr 1
      refine KeyedTable.modify_congr _ _ _ (fun tx _ => ?_)
      rw [List.toFinset_cons, Finset.insert_union, Finset.union_insert]

end MemoryStorage

namespace TransactionSync

open MemoryStorage

variable (cfg : TxPoolConfig)

/-- What is written back is what was noted, where that is more than before. The
    source writes the whole set of nodes, and a run of notes gives the same
    set. -/
theorem storeKnownNodes_eq_run (txs : List Transaction)
    (hnodup : (txs.map (fun tx => tx.hash)).Nodup) :
    ∀ s : MemoryStorage,
      (∀ tx ∈ txs, ∀ entry, s.txsTable.find? tx.hash = some entry →
        entry.knownNodes ⊆ tx.knownNodes) →
      ∃ ops, storeKnownNodes s txs = run (TxPool.step cfg) s ops ∧
        ∀ op ∈ ops, op.isNote = true := by
  -- The induction is on the transactions fetched, whose hashes are distinct.
  induction txs with
  | nil => exact fun s _ => ⟨[], rfl, fun _ h => absurd h List.not_mem_nil⟩
  | cons tx txs ih =>
      intro s hmore
      rw [List.map_cons, List.nodup_cons] at hnodup
      -- One entry: its nodes are noted one by one, and those it had are among them.
      have hfirst : ({ s with
          txsTable := s.txsTable.modify tx.hash
            (fun entry => { entry with knownNodes := tx.knownNodes }) } : MemoryStorage)
          = run (TxPool.step cfg) s
            (tx.knownNodes.toList.map (fun node => TxPool.Op.appendKnownNode tx.hash node)) := by
        have hnodes := foldl_appendKnownNode_nodes tx.hash tx.knownNodes.toList s
        rw [run, List.foldl_map]
        refine Eq.trans ?_ hnodes.symm
        congr 1
        refine KeyedTable.modify_congr _ _ _ (fun entry hentry => ?_)
        rw [Finset.toList_toFinset,
          Finset.union_eq_right.mpr (hmore tx List.mem_cons_self entry hentry)]
      -- The other entries have other hashes.
      have hothers : ∀ tx' ∈ txs, ∀ entry, (s.txsTable.modify tx.hash
          (fun entry => { entry with knownNodes := tx.knownNodes })).find? tx'.hash = some entry →
          entry.knownNodes ⊆ tx'.knownNodes := by
        intro tx' htx' entry hentry
        have hne : ¬ tx.hash = tx'.hash := fun heq =>
          hnodup.1 (List.mem_map.mpr ⟨tx', htx', heq.symm⟩)
        rw [KeyedTable.find?_modify, if_neg hne] at hentry
        exact hmore tx' (List.mem_cons_of_mem tx htx') entry hentry
      rcases ih hnodup.2 { s with
        txsTable := s.txsTable.modify tx.hash
          (fun entry => { entry with knownNodes := tx.knownNodes }) } hothers with
        ⟨ops, hops, hnotes⟩
      refine ⟨tx.knownNodes.toList.map (fun node => TxPool.Op.appendKnownNode tx.hash node) ++ ops,
        ?_, ?_⟩
      · rw [run_append, ← hfirst, ← hops]
        rfl
      · intro op hop
        rcases List.mem_append.mp hop with hop | hop
        · rcases List.mem_map.mp hop with ⟨node, _, rfl⟩
          rfl
        · exact hnotes op hop

/-- The two phases of gossip pass the transactions on with more nodes noted. -/
theorem noted_more (connectedPeers : Finset NodeID) (consensusNodeList : List NodeID)
    (expectedPeers : Nat) (tx : Transaction) :
    let noted := (selectPeers cfg connectedPeers expectedPeers consensusNodeList
      (noteConsensusNodes connectedPeers consensusNodeList tx) []).1
    noted.hash = tx.hash ∧ tx.knownNodes ⊆ noted.knownNodes := by
  intro noted
  have hselects := peersOf_selects cfg connectedPeers consensusNodeList expectedPeers
    (noteConsensusNodes connectedPeers consensusNodeList tx)
  constructor
  · have hhash : (noteConsensusNodes connectedPeers consensusNodeList tx).hash = tx.hash := by
      rw [noteConsensusNodes_eq]
    exact (congrArg TxData.hash (selectPeers_toTxData cfg connectedPeers consensusNodeList
      expectedPeers _)).trans hhash
  · intro node hnode
    exact (hselects.knownNodes node).mpr
      (Or.inl ((mem_noteConsensusNodes consensusNodeList tx node).mpr (Or.inl hnode)))

/-- Gossip notes on the pool what it fetches and whom it sends it to, and clears
    the flag where there is nothing to fetch. No operation stands for that last
    part, so the pools agree apart from the flag. -/
theorem maintainTransactions_eq_run (forwardPercent : Nat) (s : MemoryStorage) (order : HashList)
    (connectedNodeList : Finset NodeID) (consensusNodeList : List NodeID) :
    ∃ ops, TxPool.SamePool (run (TxPool.step cfg) s ops)
        (maintainTransactions cfg forwardPercent s order connectedNodeList consensusNodeList).1 ∧
      ∀ op ∈ ops, op.isNote = true := by
  have hfetch : (s.fetchNewTxs maxSendTransactions order []).1
      = run (TxPool.step cfg) s [.fetchNewTxs order maxSendTransactions] := rfl
  rw [maintainTransactions]
  -- An empty fetch has noted nothing, and only clears the flag.
  by_cases hempty : (s.fetchNewTxs maxSendTransactions order []).2.length = 0
  · refine ⟨[.fetchNewTxs order maxSendTransactions], ?_, ?_⟩
    · simp only [if_pos hempty]
      exact ⟨false, rfl⟩
    · intro op hop
      rw [List.mem_singleton.mp hop]
      rfl
  · simp only [if_neg hempty]
    rcases s.fetchNewTxs_takesNew maxSendTransactions order [] with ⟨txs, heq, htakes⟩
    -- What is written back has been noted on what was fetched.
    have hnoted : (forwardTxsFromP2P cfg forwardPercent connectedNodeList consensusNodeList
        (broadcastTxsFromRpc cfg connectedNodeList consensusNodeList txs).1).1
        = txs.map (fun tx => (selectPeers cfg connectedNodeList
          ((connectedNodeList.card * forwardPercent + 99) / 100) consensusNodeList
          (noteConsensusNodes connectedNodeList consensusNodeList tx) []).1) := by
      rw [forwardTxsFromP2P, broadcastTxsFromRpc_fst]
      refine ((foldl_forwardTx cfg connectedNodeList consensusNodeList _ 0 _ ([], [])).1).trans ?_
      rw [List.nil_append, List.map_map]
      rfl
    have hmore := noted_more cfg connectedNodeList consensusNodeList
      ((connectedNodeList.card * forwardPercent + 99) / 100)
    have hhashes : ((txs.map (fun tx => (selectPeers cfg connectedNodeList
        ((connectedNodeList.card * forwardPercent + 99) / 100) consensusNodeList
        (noteConsensusNodes connectedNodeList consensusNodeList tx) []).1)).map
          (fun tx => tx.hash)).Nodup := by
      rw [List.map_map]
      exact (List.map_congr_left (l := txs) (fun tx _ => (hmore tx).1)) ▸ htakes.hashes
    have hentries : ∀ noted ∈ txs.map (fun tx => (selectPeers cfg connectedNodeList
        ((connectedNodeList.card * forwardPercent + 99) / 100) consensusNodeList
        (noteConsensusNodes connectedNodeList consensusNodeList tx) []).1),
        ∀ entry, (s.fetchNewTxs maxSendTransactions order []).1.txsTable.find? noted.hash
          = some entry → entry.knownNodes ⊆ noted.knownNodes := by
      intro noted hmem entry hentry
      rcases List.mem_map.mp hmem with ⟨tx, htx, rfl⟩
      -- The entry is the one fetched, with the synced mark.
      rcases (htakes.entries tx htx).2 with ⟨old, hold, _, htxeq⟩
      rw [(hmore tx).1, htakes.find, if_pos (List.mem_map_of_mem htx), hold] at hentry
      rw [← Option.some.inj hentry]
      refine Finset.Subset.trans ?_ (hmore tx).2
      rw [htxeq]
    rcases storeKnownNodes_eq_run cfg _ hhashes _ hentries with ⟨ops, hops, hnotes⟩
    rw [List.nil_append] at heq
    refine ⟨.fetchNewTxs order maxSendTransactions :: ops, ?_,
      List.forall_mem_cons.mpr ⟨rfl, hnotes⟩⟩
    rw [heq, hnoted, hops, run_cons]
    exact TxPool.SamePool.refl _

/-- Packets that were downloaded are imported one by one, up to the first that
    does not decode. -/
theorem importBuffer_eq_run (buffer : List (NodeID × Bytes)) :
    ∀ s, ∃ ops, (importBuffer cfg buffer s).1 = run (TxPool.step cfg) s ops ∧
      ∀ op ∈ ops, ∃ fromNode data block, (fromNode, data) ∈ buffer ∧
        cfg.framework.createBlock data = some block ∧
        op = .importDownloadedTxs fromNode block.transactions none := by
  induction buffer with
  | nil => exact fun s => ⟨[], rfl, fun _ h => absurd h List.not_mem_nil⟩
  | cons packet buffer ih =>
      intro s
      unfold importBuffer
      cases hblock : cfg.framework.createBlock packet.2 with
      -- The exception ends the import, and with it the operations.
      | none => exact ⟨[], rfl, fun _ h => absurd h List.not_mem_nil⟩
      | some block =>
          rcases ih (importDownloadedTxs cfg s packet.1 block.transactions none).1 with
            ⟨ops, hops, hfrom⟩
          refine ⟨.importDownloadedTxs packet.1 block.transactions none :: ops, hops, ?_⟩
          refine List.forall_mem_cons.mpr
            ⟨⟨packet.1, packet.2, block, List.mem_cons_self, hblock, rfl⟩, ?_⟩
          intro op hop
          rcases hfrom op hop with ⟨fromNode, data, block, hmem, hdec, rfl⟩
          exact ⟨fromNode, data, block, List.mem_cons_of_mem packet hmem, hdec, rfl⟩

end TransactionSync

/-! ### Steps -/

/-- The operation that an input hands over. Packets, answers and turns of
    threads are none. -/
def Input.calls : Input → List TxPool.Op
  | .call op => [op.1]
  | _ => []

/-- The input asks for the proposal to be verified. Consensus does that, no peer
    can. -/
def Input.Verifies (cfg : TxPoolConfig) (block : Block) : Input → Prop
  | .asyncVerifyBlock _ _ data => cfg.framework.createBlock data = some block
  | _ => False

/-- What an input may lead a node to import: a packet that was downloaded, the
    answer of the ledger, or the answer to a request, for the proposal or
    without it. -/
inductive Imports (cfg : TxPoolConfig) (n : Node) :
    Input → NodeID → List TxData → Option Block → Prop where
  | downloaded {input : Input} {fromNode : NodeID} {data : Bytes} {block : Block}
      (hpacket : (fromNode, data) ∈ n.downloadTxsBuffer)
      (hblock : cfg.framework.createBlock data = some block) :
      Imports cfg n input fromNode block.transactions none
  | fetched {index : Nat} {response : LedgerResponse} {r : LedgerRequest}
      (hrequest : n.ledgerRequests[index]? = some r) (herror : response.error = none) :
      Imports cfg n (.onLedgerResponse index response) cfg.nodeID response.fetchedTxs
        (OnVerifyFinished.verifiedProposal r.onVerifyFinished)
  | answered {uuid : Uuid} {response : FrontResponse} {r : PeerRequest} {block : Block}
      {proposal : Option Block} (hrequest : r ∈ n.peerRequests) (huuid : r.uuid = uuid)
      (hblock : Node.answered cfg response = some block)
      (hproposal : proposal = none ∨
        proposal = OnVerifyFinished.verifiedProposal r.onVerifyFinished) :
      Imports cfg n (.onPeerResponse uuid response) response.nodeID block.transactions proposal

/-- The operations stand for what an input does to the pool of a node. The
    wake-up flag is left out of the comparison, as no operation clears it. -/
structure Refines (cfg : TxPoolConfig) (n : Node) (input : Input) (s : MemoryStorage)
    (ops : List TxPool.Op) : Prop where
  pool : TxPool.SamePool (run (TxPool.step cfg) n.storage ops) s
  calls : ops.filter TxPool.Op.isCall = input.calls
  imports : ∀ fromNode txs proposal, .importDownloadedTxs fromNode txs proposal ∈ ops →
    Imports cfg n input fromNode txs proposal

namespace Node

open TransactionSync

variable (cfg : TxPoolConfig) (codec : Codec) (forwardPercent : Nat)

/-- A note is no call. -/
theorem isCall_of_isNote {op : TxPool.Op} (h : op.isNote = true) : op.isCall = false := by
  cases op <;> first | rfl | cases h

/-- A step that leaves the pool alone is no operation. -/
theorem refines_nil (n : Node) {input : Input} (hcalls : input.calls = []) :
    Refines cfg n input n.storage [] where
  pool := TxPool.SamePool.refl _
  calls := hcalls.symm
  imports := fun _ _ _ h => absurd h List.not_mem_nil

/-- A step that imports once, or not at all. -/
theorem refines_import {n : Node} {input : Input} {s : MemoryStorage} {fromNode : NodeID}
    {txs : List TxData} {proposal : Option Block} (hcalls : input.calls = [])
    (himports : Imports cfg n input fromNode txs proposal)
    (hs : s = (importDownloadedTxs cfg n.storage fromNode txs proposal).1) :
    Refines cfg n input s [.importDownloadedTxs fromNode txs proposal] where
  pool := by
    rw [hs]
    exact TxPool.SamePool.refl _
  calls := hcalls.symm
  imports := by
    intro fromNode' txs' proposal' hop
    rw [List.mem_singleton] at hop
    injection hop with hnode htxs hproposal
    rw [hnode, htxs, hproposal]
    exact himports

/-- The import of what was downloaded, and then notes. -/
theorem refines_downloaded (n : Node) {input : Input} (existsInGroup : Bool) {s : MemoryStorage}
    (notes : List TxPool.Op) (hcalls : input.calls = [])
    (hs : TxPool.SamePool
      (run (TxPool.step cfg) (downloaded cfg n.sync existsInGroup) notes) s)
    (hnotes : ∀ op ∈ notes, op.isNote = true) : ∃ ops, Refines cfg n input s ops := by
  -- Outside the group nothing is imported, and the packets are swapped out all the
  -- same.
  rcases importBuffer_eq_run cfg (if existsInGroup then n.downloadTxsBuffer else []) n.storage with
    ⟨ops, hops, hfrom⟩
  have hdownloaded : downloaded cfg n.sync existsInGroup = run (TxPool.step cfg) n.storage ops := by
    rw [← hops, downloaded]
    cases existsInGroup with
    | false => rfl
    | true => rfl
  refine ⟨ops ++ notes, ?_, ?_, ?_⟩
  · rw [run_append, ← hdownloaded]
    exact hs
  · -- Neither the imports nor the notes are calls.
    have himports : ops.filter TxPool.Op.isCall = [] := by
      rw [List.filter_eq_nil_iff]
      intro op hop
      rcases hfrom op hop with ⟨_, _, _, _, _, rfl⟩
      exact Bool.false_ne_true
    have hquiet : notes.filter TxPool.Op.isCall = [] := by
      rw [List.filter_eq_nil_iff]
      intro op hop
      rw [isCall_of_isNote (hnotes op hop)]
      exact Bool.false_ne_true
    rw [List.filter_append, himports, hquiet, hcalls]
    rfl
  · intro fromNode txs proposal hop
    rcases List.mem_append.mp hop with hop | hop
    · rcases hfrom _ hop with ⟨fromNode', data, block, hmem, hblock, heq⟩
      injection heq with hnode htxs hproposal
      rw [hnode, htxs, hproposal]
      cases existsInGroup with
      | false => exact absurd hmem List.not_mem_nil
      | true => exact Imports.downloaded hmem hblock
    · exact absurd (hnotes _ hop) Bool.false_ne_true

/-- The ledger's answer leads to one import, or to none where it is an error. -/
theorem refines_ledgerBrings {n : Node} {index : Nat} {response : LedgerResponse}
    {r : LedgerRequest} {s : MemoryStorage} {left : HashList}
    (hrequest : n.ledgerRequests[index]? = some r)
    (hbrings : LedgerBrings cfg n.storage r.missedTxs response
      (OnVerifyFinished.verifiedProposal r.onVerifyFinished) s left) :
    ∃ ops, Refines cfg n (.onLedgerResponse index response) s ops := by
  have hpool := hbrings.pool
  cases herror : response.error with
  | some error =>
      simp only [herror, Option.isSome_some, if_true] at hpool
      rw [hpool]
      exact ⟨[], refines_nil cfg n rfl⟩
  | none =>
      simp only [herror, Option.isSome_none, Bool.false_eq_true, if_false] at hpool
      exact ⟨_, refines_import cfg rfl (Imports.fetched hrequest herror) hpool⟩

/-- One step. What it does to the pool is a call, or the import of one answer,
    or the import of all that was downloaded and then notes. -/
theorem nodeStep_refines {n : Node} (h : n.Consistent) (input : Input) :
    ∃ ops, Refines cfg n input (nodeNext cfg codec forwardPercent n input).storage ops := by
  unfold nodeNext
  have hstep := nodeStep_cases cfg codec forwardPercent h.missed input
  generalize nodeStep cfg codec forwardPercent n input = after at hstep ⊢
  -- The cases are those of the inversion of `nodeStep`.
  cases hstep with
  | call op =>
      refine ⟨[op.1], TxPool.SamePool.refl _, ?_, ?_⟩
      · rw [List.filter_cons_of_pos op.2]
        rfl
      · intro fromNode txs proposal hop
        have hcall := op.2
        rw [← List.mem_singleton.mp hop] at hcall
        exact absurd hcall Bool.false_ne_true
  | received error uuid nodeID data => exact ⟨[], refines_nil cfg n rfl⟩
  | ignored hignores =>
      refine ⟨[], refines_nil cfg n ?_⟩
      cases hignores with
      | _ => rfl
  | imported hquiet =>
      exact refines_downloaded cfg n _ [] rfl (TxPool.SamePool.refl _)
        (fun _ h => absurd h List.not_mem_nil)
  | @gossiped existsInGroup order connectedNodeList consensusNodeList hgossips =>
      rcases maintainTransactions_eq_run cfg forwardPercent (downloaded cfg n.sync existsInGroup)
        order connectedNodeList consensusNodeList with ⟨notes, hsame, hnotes⟩
      exact refines_downloaded cfg n existsInGroup notes rfl hsame hnotes
  | served hworker => exact ⟨[], refines_nil cfg n rfl⟩
  | @announced existsInGroup task txsRequester filtered hrequester hfiltered =>
      rcases hfiltered with rfl | rfl
      · -- The handler ended before the filter, by an exception or for lack of news.
        exact refines_downloaded cfg n existsInGroup [] rfl (TxPool.SamePool.refl _)
          (fun _ h => absurd h List.not_mem_nil)
      · refine refines_downloaded cfg n existsInGroup [.filterUnknownTxs task.2 task.1] rfl
          (TxPool.SamePool.refl _) (fun op hop => ?_)
        rw [List.mem_singleton.mp hop]
        rfl
  | verified hblock hmissed => exact ⟨[], refines_nil cfg n rfl⟩
  | verifying hblock hmissed => exact ⟨[], refines_nil cfg n rfl⟩
  | filled hmissed => exact ⟨[], refines_nil cfg n rfl⟩
  | filling hmissed => exact ⟨[], refines_nil cfg n rfl⟩
  | ledgerVerdict hrequest hbrings hverdict =>
      exact refines_ledgerBrings cfg hrequest hbrings
  | ledgerPassedOn hrequest hbrings hleft hpeer =>
      exact refines_ledgerBrings cfg hrequest hbrings
  | peerThrew hrequest hthrew => exact ⟨[], refines_nil cfg n rfl⟩
  | peerVerdict hrequest hverify =>
      have hkey := List.find?_some hrequest
      rcases (verifyFetchedTxs_verdict cfg hverify).2 with
        rfl | ⟨block, proposal, hblock, hproposal, hs⟩
      · exact ⟨[], refines_nil cfg n rfl⟩
      · exact ⟨_, refines_import cfg rfl (Imports.answered (List.mem_of_find?_eq_some hrequest)
          (of_decide_eq_true hkey) hblock hproposal) hs⟩

end Node

/-! ### Runs -/

section Runs

open Node

variable (cfg : TxPoolConfig) (codec : Codec) (forwardPercent : Nat)

/-- A node starts with nothing to do, and stays consistent. -/
theorem run_consistent (s : MemoryStorage) (inputs : List Input) :
    (run (nodeNext cfg codec forwardPercent) { storage := s } inputs).Consistent :=
  run_invariant _ Consistent (fun _ => True)
    (fun _ input _ h => nodeNext_consistent cfg codec forwardPercent h input) inputs _
    (fun _ _ => trivial) (consistent_of_idle rfl rfl)

/-- What waits after a step waited before or is begun by it. -/
theorem mem_waiting {n : Node} (h : n.Consistent) (input : Input) {f : OnVerifyFinished}
    (hf : f ∈ (nodeNext cfg codec forwardPercent n input).waiting) :
    f ∈ n.waiting ∨ f ∈ n.begins cfg input := by
  rcases nodeStep_accounts cfg codec forwardPercent h input with ⟨ended, hwaiting, _⟩
  exact List.mem_append.mp (hwaiting.mem_iff.mpr (List.mem_append_right ended hf))

/-- What a request under way has captured was captured by an input of the run. -/
theorem waiting_begun (s : MemoryStorage) (inputs : List Input) (f : OnVerifyFinished)
    (hf : f ∈ (run (nodeNext cfg codec forwardPercent) { storage := s } inputs).waiting) :
    Once (nodeNext cfg codec forwardPercent) (fun n input => f ∈ n.begins cfg input)
      { storage := s } inputs := by
  -- The induction is on the run from its end: what waits now waited before or has
  -- just begun.
  induction inputs using List.reverseRecOn with
  | nil => exact absurd hf List.not_mem_nil
  | append_singleton inputs input ih =>
      rw [once_concat]
      rw [run_concat] at hf
      -- It has waited all along since, through the ledger's answer to the peer's.
      exact (mem_waiting cfg codec forwardPercent (run_consistent cfg codec forwardPercent s inputs)
        input hf).imp ih id

/-- A proposal that a request under way has captured was to be verified. -/
theorem waiting_verifies (s : MemoryStorage) (inputs : List Input) (f : OnVerifyFinished)
    (block : Block)
    (hf : f ∈ (run (nodeNext cfg codec forwardPercent) { storage := s } inputs).waiting)
    (hblock : OnVerifyFinished.verifiedProposal (some f) = some block) :
    Once (nodeNext cfg codec forwardPercent) (fun _ input => input.Verifies cfg block)
      { storage := s } inputs := by
  refine (waiting_begun cfg codec forwardPercent s inputs f hf).mono _ (fun n input hbegun => ?_)
  -- Only the verification of a proposal captures one.
  cases input with
  | asyncVerifyBlock callback generatedNodeID data =>
      simp only [begins] at hbegun
      split at hbegun
      · exact absurd hbegun List.not_mem_nil
      · rename_i block' hdecoded
        split at hbegun
        · exact absurd hbegun List.not_mem_nil
        · rw [List.mem_singleton.mp hbegun] at hblock
          exact hdecoded.trans hblock
  | asyncFillBlock callback txsHash =>
      simp only [begins] at hbegun
      split at hbegun
      · exact absurd hbegun List.not_mem_nil
      · rw [List.mem_singleton.mp hbegun] at hblock
        exact absurd hblock (Option.some_ne_none block).symm
  | _ => exact absurd hbegun List.not_mem_nil

/-- A block that a request under way is to fill was asked for. -/
theorem waiting_fills (s : MemoryStorage) (inputs : List Input) {callback : Nat}
    {txsHash : HashList} (hf : .fillBlock callback txsHash
      ∈ (run (nodeNext cfg codec forwardPercent) { storage := s } inputs).waiting) :
    .asyncFillBlock callback txsHash ∈ inputs := by
  rcases waiting_begun cfg codec forwardPercent s inputs _ hf with
    ⟨pre, input, post, rfl, hbegun⟩
  refine List.mem_append_right pre (List.mem_cons.mpr (Or.inl ?_))
  cases input with
  | asyncVerifyBlock callback' generatedNodeID data =>
      simp only [begins] at hbegun
      split at hbegun
      · exact absurd hbegun List.not_mem_nil
      · split at hbegun
        · exact absurd hbegun List.not_mem_nil
        · have heq := List.mem_singleton.mp hbegun
          cases heq
  | asyncFillBlock callback' txsHash' =>
      simp only [begins] at hbegun
      split at hbegun
      · exact absurd hbegun List.not_mem_nil
      · have heq := List.mem_singleton.mp hbegun
        injection heq with hcallback hhashes
        rw [hcallback, hhashes]
  | _ => exact absurd hbegun List.not_mem_nil

/-- An import for a proposal is for one that a request under way has captured. -/
theorem Imports.captured {cfg : TxPoolConfig} {n : Node} {input : Input} {fromNode : NodeID}
    {txs : List TxData} {proposal : Option Block} {block : Block}
    (h : Imports cfg n input fromNode txs proposal) (hproposal : proposal = some block) :
    ∃ f ∈ n.waiting, OnVerifyFinished.verifiedProposal (some f) = some block := by
  have hcaptured : ∀ onVerifyFinished : Option OnVerifyFinished,
      OnVerifyFinished.verifiedProposal onVerifyFinished = some block →
      ∃ f, onVerifyFinished = some f ∧
        OnVerifyFinished.verifiedProposal (some f) = some block := by
    intro onVerifyFinished hblock
    cases onVerifyFinished with
    | none => exact absurd hblock (Option.some_ne_none block).symm
    | some f => exact ⟨f, rfl, hblock⟩
  cases h with
  | downloaded hpacket hblock => exact absurd hproposal (Option.some_ne_none block).symm
  -- The ledger answers a request that is still in the list.
  | fetched hrequest herror =>
      rcases hcaptured _ hproposal with ⟨f, hf, hblock⟩
      exact ⟨f, List.mem_append_left _ (List.mem_filterMap.mpr
        ⟨_, List.mem_of_getElem? hrequest, hf⟩), hblock⟩
  | answered hrequest huuid hblock hcases =>
      rcases hcases with hnone | hsome
      · exact absurd (hnone.symm.trans hproposal) (Option.some_ne_none block).symm
      · rcases hcaptured _ (hsome.symm.trans hproposal) with ⟨f, hf, hblock⟩
        exact ⟨f, List.mem_append_right _ (List.mem_filterMap.mpr ⟨_, hrequest, hf⟩), hblock⟩

/-- The operations stand for what a run of inputs does to the pool of a node. -/
structure RunRefines (s : MemoryStorage) (inputs : List Input) (ops : List TxPool.Op) : Prop where
  pool : TxPool.SamePool (run (TxPool.step cfg) s ops)
    (run (nodeNext cfg codec forwardPercent) { storage := s } inputs).storage
  calls : ops.filter TxPool.Op.isCall = inputs.flatMap Input.calls
  imports : ∀ fromNode txs proposal, .importDownloadedTxs fromNode txs proposal ∈ ops →
    Once (nodeNext cfg codec forwardPercent)
      (fun n input => Imports cfg n input fromNode txs proposal) { storage := s } inputs
  verifies : ∀ fromNode txs block, .importDownloadedTxs fromNode txs (some block) ∈ ops →
    Once (nodeNext cfg codec forwardPercent) (fun _ input => input.Verifies cfg block)
      { storage := s } inputs

/-- Every run of inputs has operations that stand for it. -/
theorem nodeRun_refines (s : MemoryStorage) (inputs : List Input) :
    ∃ ops, RunRefines cfg codec forwardPercent s inputs ops := by
  -- The induction is on the run from its end, one input at a time.
  induction inputs using List.reverseRecOn with
  | nil =>
      exact ⟨[], TxPool.SamePool.refl s, rfl, fun _ _ _ h => absurd h List.not_mem_nil,
        fun _ _ _ h => absurd h List.not_mem_nil⟩
  | append_singleton inputs input ih =>
      rcases ih with ⟨ops, hops⟩
      rcases nodeStep_refines cfg codec forwardPercent
        (run_consistent cfg codec forwardPercent s inputs) input with ⟨more, hmore⟩
      refine ⟨ops ++ more, ?_, ?_, ?_, ?_⟩
      · rw [run_append, run_concat]
        exact (TxPool.run_samePool cfg more _ _ hops.pool).trans hmore.pool
      · rw [List.filter_append, hops.calls, hmore.calls, List.flatMap_append, List.flatMap_cons,
          List.flatMap_nil, List.append_nil]
      · intro fromNode txs proposal hop
        rw [once_concat]
        exact (List.mem_append.mp hop).imp (hops.imports fromNode txs proposal)
          (hmore.imports fromNode txs proposal)
      · intro fromNode txs block hop
        rw [once_concat]
        refine Or.inl ?_
        rcases List.mem_append.mp hop with hop | hop
        · exact hops.verifies fromNode txs block hop
        · -- The proposal was captured by a request that is still under way.
          rcases (hmore.imports fromNode txs _ hop).captured rfl with ⟨f, hf, hcaptured⟩
          exact waiting_verifies cfg codec forwardPercent s inputs f block hf hcaptured

/-- Whatever reaches a node and in whatever order, its pool is the pool after a
    run of operations, apart from the wake-up flag. The calls in it are those
    that the node was given. An import in it is of a packet downloaded, of the
    ledger's answer or of the answer to a request, and if it is for a proposal,
    the node was asked to verify that proposal. -/
theorem node_refines_pool (s : MemoryStorage) (inputs : List Input) :
    ∃ ops, TxPool.SamePool (run (TxPool.step cfg) s ops)
        (run (nodeNext cfg codec forwardPercent) { storage := s } inputs).storage ∧
      ops.filter TxPool.Op.isCall = inputs.flatMap Input.calls ∧
      ∀ fromNode txs proposal, .importDownloadedTxs fromNode txs proposal ∈ ops →
        Once (nodeNext cfg codec forwardPercent)
          (fun n input => Imports cfg n input fromNode txs proposal) { storage := s } inputs ∧
        ∀ block, proposal = some block → Once (nodeNext cfg codec forwardPercent)
          (fun _ input => input.Verifies cfg block) { storage := s } inputs := by
  rcases nodeRun_refines cfg codec forwardPercent s inputs with ⟨ops, hops⟩
  refine ⟨ops, hops.pool, hops.calls, fun fromNode txs proposal hop => ?_⟩
  refine ⟨hops.imports fromNode txs proposal hop, ?_⟩
  rintro block rfl
  exact hops.verifies fromNode txs block hop

/-- A content that an import of some run of operations brought in for a
    proposal. -/
def ImportedFor (ops : List TxPool.Op) (data : TxData) : Prop :=
  ∃ op ∈ ops, ∃ header, TxPool.ImportsFor op header data

/-- An entry after a run of operations has a signature that verifies, and the
    group and chain of the pool or an import for a proposal to thank. -/
theorem run_admission (ledger : LedgerNonceChecker) (ops : List TxPool.Op) (txHash : HashType)
    (tx : Transaction)
    (hfind : (run (TxPool.step cfg) { ledgerNonceChecker := ledger } ops).txsTable.find? txHash
      = some tx) :
    cfg.framework.verify tx.toTxData = true ∧
      ((tx.groupId = cfg.groupId ∧ tx.chainId = cfg.chainId) ∨ ImportedFor ops tx.toTxData) := by
  -- The induction is on the run from its end. The entry was there before, or the
  -- last operation has brought it in.
  induction ops using List.reverseRecOn generalizing tx with
  | nil => exact absurd hfind (Option.some_ne_none tx).symm
  | append_singleton ops op ih =>
      have hearlier : ∀ data, ImportedFor ops data → ImportedFor (ops ++ [op]) data := by
        rintro data ⟨op', hop', himports⟩
        exact ⟨op', List.mem_append_left _ hop', himports⟩
      rw [run_concat] at hfind
      rcases TxPool.step_origin cfg _ op hfind with
        ⟨old, hold, hsame⟩ | ⟨_, hadmitted | ⟨hverify, header, himports⟩⟩
      · have hih := ih old hold
        rw [hsame] at hih
        exact ⟨hih.1, hih.2.imp_right (hearlier _)⟩
      · exact ⟨hadmitted.signature, Or.inl ⟨hadmitted.group, hadmitted.chain⟩⟩
      · exact ⟨hverify, Or.inr ⟨op, List.mem_append_right ops List.mem_cons_self, header,
          himports⟩⟩

/-- What is in the pool of a node, whatever its peers and its ledger have sent,
    has a signature that verifies. It is of the group and the chain unless it
    was imported for a proposal with a header, and the node had been asked to
    verify that proposal. -/
theorem node_admission (ledger : LedgerNonceChecker) (inputs : List Input) (txHash : HashType)
    (tx : Transaction)
    (hfind : (run (nodeNext cfg codec forwardPercent)
      { storage := { ledgerNonceChecker := ledger } } inputs).storage.txsTable.find? txHash
      = some tx) :
    cfg.framework.verify tx.toTxData = true ∧
      ((tx.groupId = cfg.groupId ∧ tx.chainId = cfg.chainId) ∨
        ∃ block fromNode txs, block.blockHeader.isSome = true ∧ tx.toTxData ∈ txs ∧
          Once (nodeNext cfg codec forwardPercent)
            (fun n input => Imports cfg n input fromNode txs (some block))
            { storage := { ledgerNonceChecker := ledger } } inputs ∧
          Once (nodeNext cfg codec forwardPercent) (fun _ input => input.Verifies cfg block)
            { storage := { ledgerNonceChecker := ledger } } inputs) := by
  rcases nodeRun_refines cfg codec forwardPercent { ledgerNonceChecker := ledger } inputs with
    ⟨ops, hops⟩
  rcases hops.pool with ⟨flag, hpool⟩
  -- The table of the node is that of the pool.
  rw [hpool] at hfind
  rcases run_admission cfg ledger ops txHash tx hfind with ⟨hverify, hright | himported⟩
  · exact ⟨hverify, Or.inl hright⟩
  · rcases himported with ⟨op, hop, header, fromNode, txs, block, rfl, hheader, hdata⟩
    exact ⟨hverify, Or.inr ⟨block, fromNode, txs, Option.isSome_of_eq_some hheader, hdata,
      hops.imports fromNode txs (some block) hop, hops.verifies fromNode txs block hop⟩⟩

end Runs

/-- A transaction of another group, with a header of a proposal around it. The
    ledger hands it over, and the import is an enforced one. -/
def otherGroupInputs : List Input :=
  [.asyncVerifyBlock 7 (some 2) [1, 0],
    .onLedgerResponse 0 ⟨none, [{ TxPool.exampleTx 1 7 1 with groupId := "other" }]⟩]

/-- The proposal that a node was asked to verify is why it holds a transaction of
    another group. -/
theorem node_admission_otherGroup :
    "other" ≠ TxPool.clearConfig.groupId ∧ TxPool.clearConfig.framework.verify
        { TxPool.exampleTx 1 7 1 with groupId := "other" } = true ∧
      (("other" = TxPool.clearConfig.groupId ∧ "chain" = TxPool.clearConfig.chainId) ∨
        ∃ block fromNode txs, block.blockHeader.isSome = true ∧
          { TxPool.exampleTx 1 7 1 with groupId := "other" } ∈ txs ∧
          Once (nodeNext TxPool.clearConfig emptyCodec 25)
            (fun n input => Imports TxPool.clearConfig n input fromNode txs (some block))
            idleNode otherGroupInputs ∧
          Once (nodeNext TxPool.clearConfig emptyCodec 25)
            (fun _ input => input.Verifies TxPool.clearConfig block) idleNode otherGroupInputs) :=
  ⟨by decide, node_admission TxPool.clearConfig emptyCodec 25
    (LedgerNonceChecker.create none 0 TxPool.exampleConfig.blockLimit) otherGroupInputs 1
    { toTxData := { TxPool.exampleTx 1 7 1 with groupId := "other" }
      sealed := true
      batchId := 1
      batchHash := 9
      knownNodes := {0} } (by decide)⟩

end BcosTxPool
