import BcosTxPool.Core.Gossip
import BcosTxPool.Theory.Seal

/-!
# Gossip Is Not Repeated

The pool and the sync module suppress duplicates in three places. The synced
mark takes an entry out of every later fetch. The known nodes of a transaction
keep a hash from a node that has been sent the transaction in full in the same
call, since the first phase notes the nodes that the second one then passes
over. The map of the second phase puts all hashes for one node into one packet.

What a peer is told is read off from the packets: `statuses` are the hashes
announced to it, `fullTxs` the transactions sent to it. Each function has one
description. `Selects` is what a selection returns and notes, `Spreads` is what
one call of `maintainTransactions` sends, for any pool and any two lists of
nodes.

Over a run, `GossipInv` ties the two together. A hash that was announced has
been fetched, and an entry that was fetched is pooled and synced. Nothing that
comes in later changes that, so no fetch takes it again and no peer is told its
hash again.

## Main definitions

* `statuses`, `fullTxs`: What packets tell a peer.
* `forwarded`: What the map of the second phase holds for a peer.
* `Selects`: What a selection of peers returns and notes.
* `packetsFor`: The packets of one call.
* `Spreads`: What one call sends.
* `GossipInv`: What holds of a node that gossips.

## Theorems

* `selectPeers_selects`: What `selectPeers` does.
* `statuses_forwardTxsFromP2P`: The hashes announced to a peer.
* `maintainTransactions_spreads`: What one call sends.
* `gossip_not_repeated`: Over a run nothing is fetched or announced twice.
-/

namespace BcosTxPool

open Library

/-! ### What a peer is told -/

/-- The hashes that a packet announces. A packet with transactions in full
    announces none. -/
def Packet.hashes : Packet → HashList
  | .txsPacket _ => []
  | .txsStatusPacket txsHash => txsHash

/-- The transactions that a packet holds. -/
def Packet.contents : Packet → List TxData
  | .txsPacket transactions => transactions
  | .txsStatusPacket _ => []

/-- The packets to a peer, in the order in which they were sent. -/
def packetsTo (peer : NodeID) (sent : List Sent) : List Packet :=
  (sent.filter (fun s => s.nodeID = peer)).map (fun s => s.packet)

/-- The hashes announced to a peer, one after the other over all packets. -/
def statuses (peer : NodeID) (sent : List Sent) : HashList :=
  (packetsTo peer sent).flatMap Packet.hashes

/-- The transactions sent to a peer in full. -/
def fullTxs (peer : NodeID) (sent : List Sent) : List TxData :=
  (packetsTo peer sent).flatMap Packet.contents

/-- What is sent later stands behind what was sent before. -/
theorem packetsTo_append (peer : NodeID) (sent sent' : List Sent) :
    packetsTo peer (sent ++ sent') = packetsTo peer sent ++ packetsTo peer sent' := by
  rw [packetsTo, List.filter_append, List.map_append]
  rfl

@[simp] theorem statuses_append (peer : NodeID) (sent sent' : List Sent) :
    statuses peer (sent ++ sent') = statuses peer sent ++ statuses peer sent' := by
  rw [statuses, packetsTo_append, List.flatMap_append]
  rfl

@[simp] theorem fullTxs_append (peer : NodeID) (sent sent' : List Sent) :
    fullTxs peer (sent ++ sent') = fullTxs peer sent ++ fullTxs peer sent' := by
  rw [fullTxs, packetsTo_append, List.flatMap_append]
  rfl

/-- A packet to a peer is one that was sent with this peer as its address. -/
theorem mem_packetsTo (peer : NodeID) (sent : List Sent) (packet : Packet) :
    packet ∈ packetsTo peer sent ↔ ⟨peer, packet⟩ ∈ sent := by
  rw [packetsTo, List.mem_map]
  constructor
  · intro h
    rcases h with ⟨s, hs, rfl⟩
    rw [List.mem_filter, decide_eq_true_eq] at hs
    exact hs.2 ▸ hs.1
  · intro h
    exact ⟨⟨peer, packet⟩, List.mem_filter.mpr ⟨h, decide_eq_true rfl⟩, rfl⟩

namespace TransactionSync

variable (cfg : TxPoolConfig) (connectedPeers : Finset NodeID) (consensusNodeList : List NodeID)

/-! ### Selections -/

/-- What a selection of peers for a transaction returns and notes: connected
    consensus nodes other than this one, each of them once and none known to have
    the transaction before. They and no others are known to have it after. -/
structure Selects (tx tx' : Transaction) (peers : List NodeID) : Prop where
  fresh : ∀ peer ∈ peers, peer ∈ connectedPeers ∧ peer ∈ consensusNodeList ∧
    peer ≠ cfg.nodeID ∧ ¬ peer ∈ tx.knownNodes
  nodup : peers.Nodup
  knownNodes : ∀ node, node ∈ tx'.knownNodes ↔ node ∈ tx.knownNodes ∨ node ∈ peers
  rest : tx' = { tx with knownNodes := tx'.knownNodes }

/-- Where nobody is selected, nobody is noted. -/
theorem selects_nil (tx : Transaction) : Selects cfg connectedPeers consensusNodeList tx tx [] where
  fresh := fun _ h => absurd h List.not_mem_nil
  nodup := List.nodup_nil
  knownNodes := fun _ => (or_iff_left List.not_mem_nil).symm
  rest := rfl

variable {cfg connectedPeers consensusNodeList}

/-- A node that is passed over changes nothing in what a selection returns and
    notes. -/
theorem Selects.mono {tx tx' : Transaction} {peers : List NodeID} (nodeId : NodeID)
    (h : Selects cfg connectedPeers consensusNodeList tx tx' peers) :
    Selects cfg connectedPeers (nodeId :: consensusNodeList) tx tx' peers where
  fresh := fun peer hpeer => ⟨(h.fresh peer hpeer).1,
    List.mem_cons_of_mem nodeId (h.fresh peer hpeer).2.1, (h.fresh peer hpeer).2.2⟩
  nodup := h.nodup
  knownNodes := h.knownNodes
  rest := h.rest

/-- A peer that may be selected, and then the others. The node is noted first,
    so none of those after it is the same node again, even if the list names it
    twice. -/
theorem Selects.cons {tx tx' : Transaction} {peers : List NodeID} {nodeId : NodeID}
    (hconnected : nodeId ∈ connectedPeers) (hself : nodeId ≠ cfg.nodeID)
    (hknown : ¬ nodeId ∈ tx.knownNodes)
    (h : Selects cfg connectedPeers consensusNodeList
      { tx with knownNodes := Insert.insert nodeId tx.knownNodes } tx' peers) :
    Selects cfg connectedPeers (nodeId :: consensusNodeList) tx tx' (nodeId :: peers) := by
  -- The others were selected when the node was noted already.
  have hlater : ∀ peer ∈ peers, peer ≠ nodeId ∧ ¬ peer ∈ tx.knownNodes := by
    intro peer hpeer
    have hnew := (h.fresh peer hpeer).2.2.2
    rw [Finset.mem_insert, not_or] at hnew
    exact hnew
  constructor
  · intro peer hpeer
    rcases List.mem_cons.mp hpeer with rfl | hpeer
    · exact ⟨hconnected, List.mem_cons_self, hself, hknown⟩
    · rcases h.fresh peer hpeer with ⟨hconn, hcons, hne, _⟩
      exact ⟨hconn, List.mem_cons_of_mem nodeId hcons, hne, (hlater peer hpeer).2⟩
  · -- Noted as knowing the transaction, the node is not selected again.
    exact List.nodup_cons.mpr ⟨fun hmem => (hlater nodeId hmem).1 rfl, h.nodup⟩
  · intro node
    rw [h.knownNodes, Finset.mem_insert, List.mem_cons, or_comm (a := node = nodeId), or_assoc]
  · rw [h.rest]

variable (cfg connectedPeers)

/-- What `selectPeers` does, for any expected size and any list of consensus
    nodes. -/
theorem selectPeers_selects (expectedSize : Nat) (consensusNodeList : List NodeID) :
    ∀ (tx : Transaction) (selectedPeers : List NodeID), ∃ peers,
      (selectPeers cfg connectedPeers expectedSize consensusNodeList tx selectedPeers).2
        = selectedPeers ++ peers ∧
      Selects cfg connectedPeers consensusNodeList tx
        (selectPeers cfg connectedPeers expectedSize consensusNodeList tx selectedPeers).1
        peers := by
  induction consensusNodeList with
  | nil =>
      intro tx selectedPeers
      exact ⟨[], (List.append_nil selectedPeers).symm, selects_nil cfg connectedPeers [] tx⟩
  | cons nodeId consensusNodeList ih =>
      intro tx selectedPeers
      -- A node that is not connected, is this one, or knows the transaction is
      -- passed over.
      have hskip : ∃ peers,
          (selectPeers cfg connectedPeers expectedSize consensusNodeList tx selectedPeers).2
            = selectedPeers ++ peers ∧
          Selects cfg connectedPeers (nodeId :: consensusNodeList) tx
            (selectPeers cfg connectedPeers expectedSize consensusNodeList tx selectedPeers).1
            peers := by
        rcases ih tx selectedPeers with ⟨peers, heq, hselects⟩
        exact ⟨peers, heq, hselects.mono nodeId⟩
      unfold selectPeers
      split
      · exact hskip
      · rename_i hconnected
        rw [not_not] at hconnected
        split
        · exact hskip
        · rename_i hself
          split
          · exact hskip
          · rename_i hknown
            simp only
            -- The node is selected, and the search stops there or goes on.
            split
            · exact ⟨[nodeId], rfl, Selects.cons hconnected hself hknown (selects_nil _ _ _ _)⟩
            · rcases ih { tx with knownNodes := Insert.insert nodeId tx.knownNodes }
                (selectedPeers ++ [nodeId]) with ⟨peers, heq, hselects⟩
              refine ⟨nodeId :: peers, ?_, Selects.cons hconnected hself hknown hselects⟩
              rw [heq, List.append_assoc]
              rfl

/-! ### The map of the second phase -/

/-- The hashes that the map holds for a peer. The order of the map is not
    specified, so two maps are compared up to a permutation of these. -/
def forwarded (peer : NodeID) (peerToForwardedTxs : List (NodeID × HashList)) : HashList :=
  peerToForwardedTxs.flatMap (fun it => if it.1 = peer then it.2 else [])

/-- A hash is added for its peer and for no other. -/
theorem forwarded_forwardTo (p peer : NodeID) (txHash : HashType) (m : List (NodeID × HashList)) :
    (forwarded p (forwardTo peer txHash m)).Perm
      (forwarded p m ++ if peer = p then [txHash] else []) := by
  unfold forwarded
  -- The induction follows the search for the place of the peer in the map.
  induction m with
  | nil =>
      rw [forwardTo, List.flatMap_cons, List.flatMap_nil, List.append_nil]
      rfl
  | cons it m ih =>
      unfold forwardTo
      split
      · -- A list of its own is made for the peer before the rest of the map.
        rw [List.flatMap_cons]
        exact List.perm_append_comm
      · split
        · rename_i heq
          simp only [List.flatMap_cons, heq]
          by_cases hpeer : it.1 = p
          · -- The new hash stands before the rest of the map, not after it.
            simp only [if_pos hpeer, List.append_assoc]
            exact List.Perm.append_left it.2 List.perm_append_comm
          · simp only [if_neg hpeer, List.append_nil, List.Perm.refl]
        · rw [List.flatMap_cons, List.flatMap_cons, List.append_assoc]
          exact List.Perm.append_left _ ih

/-- The hash of one transaction is added for all peers that it was selected for.
    As they are all different, each is given it once. -/
theorem forwarded_foldl_forwardTo (p : NodeID) (txHash : HashType) (peers : List NodeID) :
    ∀ m : List (NodeID × HashList), peers.Nodup →
      (forwarded p (peers.foldl (fun m peer => forwardTo peer txHash m) m)).Perm
        (forwarded p m ++ if p ∈ peers then [txHash] else []) := by
  induction peers with
  | nil =>
      intro m _
      rw [List.foldl_nil, if_neg List.not_mem_nil, List.append_nil]
  | cons peer peers ih =>
      intro m hnodup
      rcases List.nodup_cons.mp hnodup with ⟨hfresh, hnodup⟩
      refine (ih (forwardTo peer txHash m) hnodup).trans ?_
      have hfirst := forwarded_forwardTo p peer txHash m
      -- The peer is the first, or it is among the others, or it is not selected.
      by_cases hpeer : peer = p
      · subst hpeer
        rw [if_neg hfresh, List.append_nil, if_pos List.mem_cons_self]
        rw [if_pos rfl] at hfirst
        exact hfirst
      · rw [if_neg hpeer, List.append_nil] at hfirst
        simp only [List.mem_cons, Ne.symm hpeer, false_or]
        exact hfirst.append_right _

variable (consensusNodeList)

/-- The peers that the hash of a transaction is forwarded to. What the selection
    notes on the transaction is not part of it. -/
def peersOf (expectedPeers : Nat) (tx : Transaction) : List NodeID :=
  (selectPeers cfg connectedPeers expectedPeers consensusNodeList tx []).2

/-- They are a selection from nothing. -/
theorem peersOf_selects (expectedPeers : Nat) (tx : Transaction) :
    Selects cfg connectedPeers consensusNodeList tx
      (selectPeers cfg connectedPeers expectedPeers consensusNodeList tx []).1
      (peersOf cfg connectedPeers consensusNodeList expectedPeers tx) := by
  rcases selectPeers_selects cfg connectedPeers expectedPeers consensusNodeList tx [] with
    ⟨peers, heq, hselects⟩
  rw [peersOf, heq]
  exact hselects

/-- A selection leaves the content of the transaction alone. -/
theorem selectPeers_toTxData (expectedPeers : Nat) (tx : Transaction) :
    (selectPeers cfg connectedPeers expectedPeers consensusNodeList tx []).1.toTxData
      = tx.toTxData := by
  rw [(peersOf_selects cfg connectedPeers consensusNodeList expectedPeers tx).rest]

/-- The first loop goes over the transactions, and the map holds for a peer the
    hashes of those that it was selected for. -/
theorem foldl_forwardTx (expectedPeers : Nat) (p : NodeID) (txs : List Transaction) :
    ∀ acc : List Transaction × List (NodeID × HashList),
      (txs.foldl (forwardTx cfg connectedPeers consensusNodeList expectedPeers) acc).1
        = acc.1 ++ txs.map (fun tx =>
          (selectPeers cfg connectedPeers expectedPeers consensusNodeList tx []).1) ∧
      (forwarded p
        (txs.foldl (forwardTx cfg connectedPeers consensusNodeList expectedPeers) acc).2).Perm
        (forwarded p acc.2 ++ (txs.filter (fun tx =>
          p ∈ peersOf cfg connectedPeers consensusNodeList expectedPeers tx)).map
            (fun tx => tx.hash)) := by
  -- The induction is on the transactions that are left, for all maps made so far.
  induction txs with
  | nil =>
      intro acc
      simp only [List.foldl_nil, List.map_nil, List.filter_nil, List.append_nil, List.Perm.refl,
        and_self]
  | cons tx txs ih =>
      intro acc
      have hselects := peersOf_selects cfg connectedPeers consensusNodeList expectedPeers tx
      have hhash := congrArg TxData.hash
        (selectPeers_toTxData cfg connectedPeers consensusNodeList expectedPeers tx)
      have hturn := forwarded_foldl_forwardTo p tx.hash
        (peersOf cfg connectedPeers consensusNodeList expectedPeers tx) acc.2 hselects.nodup
      rcases ih (forwardTx cfg connectedPeers consensusNodeList expectedPeers acc tx) with
        ⟨htxs, hmap⟩
      rw [List.foldl_cons]
      constructor
      · rw [htxs, List.map_cons]
        exact List.append_assoc _ _ _
      · refine hmap.trans ?_
        simp only [forwardTx, hhash]
        refine (hturn.append_right _).trans ?_
        rw [List.append_assoc, List.filter_cons]
        -- Its own hash comes first among those of the transactions.
        by_cases hmem : p ∈ peersOf cfg connectedPeers consensusNodeList expectedPeers tx
        · simp only [hmem, decide_true, if_true, List.map_cons, List.singleton_append,
            List.Perm.refl]
        · simp only [hmem, decide_false, Bool.false_eq_true, if_false, List.nil_append,
            List.Perm.refl]

/-! ### The two phases -/

/-- The map is sent out as it is, one packet for each of its entries. -/
theorem statuses_map_forwarded (peer : NodeID) (m : List (NodeID × HashList)) :
    statuses peer (m.map (fun it => ⟨it.1, .txsStatusPacket it.2⟩)) = forwarded peer m := by
  unfold statuses packetsTo forwarded
  induction m with
  | nil => rfl
  | cons it m ih =>
      rw [List.flatMap_cons, ← ih, List.map_cons, List.filter_cons]
      -- An entry of the map goes to its own peer.
      by_cases hpeer : it.1 = peer
      · simp only [hpeer, decide_true, if_true, List.map_cons, List.flatMap_cons, Packet.hashes]
      · simp only [hpeer, decide_false, Bool.false_eq_true, if_false, List.nil_append]

/-- The hashes announced to a peer are those of the transactions that it was
    selected for. The expected number of peers is the percentage of the
    connected ones, rounded up. -/
theorem statuses_forwardTxsFromP2P (forwardPercent : Nat) (peer : NodeID)
    (txs : List Transaction) :
    (statuses peer
      (forwardTxsFromP2P cfg forwardPercent connectedPeers consensusNodeList txs).2).Perm
      ((txs.filter (fun tx => peer ∈ peersOf cfg connectedPeers consensusNodeList
        ((connectedPeers.card * forwardPercent + 99) / 100) tx)).map (fun tx => tx.hash)) := by
  rw [forwardTxsFromP2P]
  simp only [statuses_map_forwarded]
  exact (foldl_forwardTx cfg connectedPeers consensusNodeList _ peer txs ([], [])).2

/-- The second phase sends no transaction in full. -/
theorem fullTxs_forwardTxsFromP2P (forwardPercent : Nat) (peer : NodeID)
    (txs : List Transaction) :
    fullTxs peer (forwardTxsFromP2P cfg forwardPercent connectedPeers consensusNodeList txs).2
      = [] := by
  rw [List.eq_nil_iff_forall_not_mem]
  intro data hdata
  rcases List.mem_flatMap.mp hdata with ⟨packet, hpacket, hcontents⟩
  rw [mem_packetsTo, forwardTxsFromP2P] at hpacket
  rcases List.mem_map.mp hpacket with ⟨it, _, heq⟩
  cases heq
  cases hcontents

variable {cfg connectedPeers} in
/-- A node is noted by the first phase if a client waits for the transaction and
    the node is a connected consensus node. -/
theorem mem_noteConsensusNodes (tx : Transaction) (node : NodeID) :
    node ∈ (noteConsensusNodes connectedPeers consensusNodeList tx).knownNodes ↔
      node ∈ tx.knownNodes ∨
        (tx.submitCallback.isSome = true ∧ node ∈ consensusNodeList ∧ node ∈ connectedPeers) := by
  -- The induction is on the consensus list, with any set of known nodes to begin with.
  have hloop : ∀ knownNodes : Finset NodeID,
      node ∈ consensusNodeList.foldl (fun knownNodes node =>
        if node ∈ connectedPeers then Insert.insert node knownNodes else knownNodes) knownNodes ↔
      node ∈ knownNodes ∨ (node ∈ consensusNodeList ∧ node ∈ connectedPeers) := by
    induction consensusNodeList with
    | nil => exact fun _ => (or_iff_left (fun h => List.not_mem_nil h.1)).symm
    | cons peer consensusNodeList ih =>
        intro knownNodes
        rw [List.foldl_cons, ih, List.mem_cons]
        -- A consensus node that is not connected is not noted.
        by_cases hpeer : peer ∈ connectedPeers
        · rw [if_pos hpeer, Finset.mem_insert]
          by_cases heq : node = peer
          · simp only [heq, hpeer, true_or, and_self, or_true]
          · simp only [heq, false_or]
        · rw [if_neg hpeer]
          by_cases heq : node = peer
          · simp only [heq, hpeer, and_false, or_false]
          · simp only [heq, false_or]
  unfold noteConsensusNodes
  cases hcallback : tx.submitCallback with
  | none => exact (or_iff_left (fun h => absurd h.1 Bool.false_ne_true)).symm
  | some txSubmitCallback =>
      exact (hloop tx.knownNodes).trans (or_congr_right (and_iff_right rfl).symm)

/-- The first phase notes nodes on a transaction and changes nothing else of
    it. -/
theorem noteConsensusNodes_eq (tx : Transaction) :
    noteConsensusNodes connectedPeers consensusNodeList tx = { tx with
      knownNodes := (noteConsensusNodes connectedPeers consensusNodeList tx).knownNodes } := by
  unfold noteConsensusNodes
  split
  · rfl
  · rfl

/-- It does so for every transaction, also where it sends nothing. -/
theorem broadcastTxsFromRpc_fst (txs : List Transaction) :
    (broadcastTxsFromRpc cfg connectedPeers consensusNodeList txs).1
      = txs.map (noteConsensusNodes connectedPeers consensusNodeList) := by
  rw [broadcastTxsFromRpc]
  split
  · rfl
  · rfl

/-- The first phase announces no hash. -/
theorem statuses_broadcastTxsFromRpc (peer : NodeID) (txs : List Transaction) :
    statuses peer (broadcastTxsFromRpc cfg connectedPeers consensusNodeList txs).2 = [] := by
  rw [List.eq_nil_iff_forall_not_mem]
  intro txHash htxHash
  rcases List.mem_flatMap.mp htxHash with ⟨packet, hpacket, hhashes⟩
  rw [mem_packetsTo, broadcastTxsFromRpc] at hpacket
  split at hpacket
  · cases hpacket
  · rcases List.mem_map.mp hpacket with ⟨node, _, heq⟩
    cases heq
    cases hhashes

/-- The first phase sends to every consensus node but this one what a client
    waits for, and nothing else. It does not ask whether the node is
    connected. -/
theorem mem_fullTxs_broadcastTxsFromRpc (peer : NodeID) (txs : List Transaction)
    (data : TxData) :
    data ∈ fullTxs peer (broadcastTxsFromRpc cfg connectedPeers consensusNodeList txs).2 ↔
      (peer ∈ consensusNodeList ∧ peer ≠ cfg.nodeID) ∧
        ∃ tx ∈ txs, tx.submitCallback.isSome = true ∧ tx.toTxData = data := by
  have hblock : data ∈ (txs.filter (fun tx => tx.submitCallback.isSome)).map
      (fun tx => tx.toTxData) ↔
      ∃ tx ∈ txs, tx.submitCallback.isSome = true ∧ tx.toTxData = data := by
    simp only [List.mem_map, List.mem_filter, and_assoc]
  rw [← hblock, broadcastTxsFromRpc]
  generalize (txs.filter (fun tx => tx.submitCallback.isSome)).map (fun tx => tx.toTxData) = block
  simp only [fullTxs, List.mem_flatMap, mem_packetsTo]
  split
  · -- With no such transaction there is no packet, and no content to look for.
    rename_i hempty
    rw [List.length_eq_zero_iff.mp hempty]
    simp only [List.not_mem_nil, false_and, exists_false, and_false]
  · simp only [List.mem_map, List.mem_filter, decide_eq_true_eq, ne_eq]
    constructor
    · intro h
      rcases h with ⟨packet, ⟨node, hnode, heq⟩, hdata⟩
      cases heq
      exact ⟨hnode, hdata⟩
    · intro h
      exact ⟨.txsPacket block, ⟨peer, h.1, rfl⟩, h.2⟩

/-! ### One call -/

/-- What one call sends, where `txs` are the transactions fetched on a walk in
    the given order. They are unsynced entries, and the walk passes over no
    unsynced entry: it leaves one only where it has ended before it, with as
    many transactions as it may take. A status goes to a connected consensus
    node other than this one that was not known to have the transaction; who is
    sent a transaction in full is not sent its status; and what a client waits
    for is sent in full to every other consensus node. -/
structure Spreads (s : MemoryStorage) (order : HashList) (txs : List Transaction)
    (packets : List Sent) : Prop where
  fetched : ∀ tx ∈ txs, ∃ entry, s.txsTable.find? tx.hash = some entry ∧
    entry.synced = false ∧ tx = { entry with synced := true }
  complete : ∀ pre txHash post entry, order = pre ++ txHash :: post →
    s.txsTable.find? txHash = some entry → entry.synced = false →
    (∃ tx ∈ txs, tx.hash = txHash) ∨
      (maxSendTransactions ≤ txs.length ∧ ∀ tx ∈ txs, tx.hash ∈ pre)
  status : ∀ peer, ∀ txHash ∈ statuses peer packets,
    peer ∈ connectedPeers ∧ peer ∈ consensusNodeList ∧ peer ≠ cfg.nodeID ∧
      ∃ tx ∈ txs, tx.hash = txHash ∧ ¬ peer ∈ tx.knownNodes
  once : ∀ peer, (statuses peer packets).Nodup
  apart : ∀ peer, ∀ data ∈ fullTxs peer packets, ¬ data.hash ∈ statuses peer packets
  full : ∀ tx ∈ txs, tx.submitCallback.isSome = true →
    ∀ node ∈ consensusNodeList, node ≠ cfg.nodeID → tx.toTxData ∈ fullTxs node packets

/-- Noting the known nodes in the table leaves the synced marks as they are. -/
theorem storeKnownNodes_synced (txHash : HashType) (txs : List Transaction) (s : MemoryStorage) :
    ((storeKnownNodes s txs).txsTable.find? txHash).map (fun tx => tx.synced)
      = (s.txsTable.find? txHash).map (fun tx => tx.synced) := by
  refine run_invariant _ (fun t : MemoryStorage =>
    (t.txsTable.find? txHash).map (fun tx => tx.synced)
      = (s.txsTable.find? txHash).map (fun tx => tx.synced)) (fun _ => True) ?_ txs s
    (fun _ _ => trivial) rfl
  intro t tx _ ht
  simp only [KeyedTable.find?_modify]
  split
  · -- The entry written to keeps its mark, and the others are not written to.
    rw [Option.map_map]
    exact ht
  · exact ht

/-- The packets of the two phases for what has been fetched. The second phase
    goes over the transactions as the first one has noted them. -/
def packetsFor (forwardPercent : Nat) (txs : List Transaction) : List Sent :=
  (broadcastTxsFromRpc cfg connectedPeers consensusNodeList txs).2 ++
    (forwardTxsFromP2P cfg forwardPercent connectedPeers consensusNodeList
      (txs.map (noteConsensusNodes connectedPeers consensusNodeList))).2

/-- A call sends the packets of the two phases. Where nothing is fetched there are
    none. -/
theorem maintainTransactions_snd (forwardPercent : Nat) (s : MemoryStorage) (order : HashList) :
    (maintainTransactions cfg forwardPercent s order connectedPeers consensusNodeList).2
      = ((s.fetchNewTxs maxSendTransactions order []).2,
        packetsFor cfg connectedPeers consensusNodeList forwardPercent
          (s.fetchNewTxs maxSendTransactions order []).2) := by
  rw [maintainTransactions, packetsFor]
  by_cases hempty : (s.fetchNewTxs maxSendTransactions order []).2.length = 0
  · -- The call returns early, and two phases over nothing would have sent nothing.
    simp only [if_pos hempty]
    rw [List.length_eq_zero_iff.mp hempty]
    rfl
  · simp only [if_neg hempty, broadcastTxsFromRpc_fst]

/-- A call marks as synced what it fetches, and its phases change no mark. -/
theorem maintainTransactions_synced (forwardPercent : Nat) (s : MemoryStorage) (order : HashList)
    (txHash : HashType) :
    ((maintainTransactions cfg forwardPercent s order connectedPeers
      consensusNodeList).1.txsTable.find? txHash).map (fun tx => tx.synced)
      = ((s.fetchNewTxs maxSendTransactions order []).1.txsTable.find? txHash).map
        (fun tx => tx.synced) := by
  rw [maintainTransactions]
  by_cases hempty : (s.fetchNewTxs maxSendTransactions order []).2.length = 0
  · simp only [if_pos hempty]
  · simp only [if_neg hempty]
    exact storeKnownNodes_synced txHash _ _

/-- The hashes announced to a peer in one call are those of the transactions
    fetched that it was selected for. -/
theorem statuses_packetsFor (forwardPercent : Nat) (peer : NodeID) (txs : List Transaction) :
    (statuses peer (packetsFor cfg connectedPeers consensusNodeList forwardPercent txs)).Perm
      ((txs.filter (fun tx => peer ∈ peersOf cfg connectedPeers consensusNodeList
        ((connectedPeers.card * forwardPercent + 99) / 100)
        (noteConsensusNodes connectedPeers consensusNodeList tx))).map (fun tx => tx.hash)) := by
  have hforward := statuses_forwardTxsFromP2P cfg connectedPeers consensusNodeList forwardPercent
    peer (txs.map (noteConsensusNodes connectedPeers consensusNodeList))
  have hhash : (fun tx : Transaction => tx.hash) ∘
      noteConsensusNodes connectedPeers consensusNodeList = fun tx => tx.hash := by
    funext tx
    rw [Function.comp_apply, noteConsensusNodes_eq]
  rw [List.filter_map, List.map_map, hhash] at hforward
  rw [packetsFor, statuses_append, statuses_broadcastTxsFromRpc, List.nil_append]
  exact hforward

/-- The transactions sent in full in one call are those of the first phase. -/
theorem mem_fullTxs_packetsFor (forwardPercent : Nat) (peer : NodeID) (txs : List Transaction)
    (data : TxData) :
    data ∈ fullTxs peer (packetsFor cfg connectedPeers consensusNodeList forwardPercent txs) ↔
      (peer ∈ consensusNodeList ∧ peer ≠ cfg.nodeID) ∧
        ∃ tx ∈ txs, tx.submitCallback.isSome = true ∧ tx.toTxData = data := by
  rw [packetsFor, fullTxs_append, fullTxs_forwardTxsFromP2P, List.append_nil]
  exact mem_fullTxs_broadcastTxsFromRpc cfg connectedPeers consensusNodeList peer txs data

variable {cfg connectedPeers consensusNodeList} in
/-- What the two phases do with what has been fetched, provided that the fetch
    passed over nothing new. -/
theorem spreads_of_takesNew (forwardPercent : Nat) {s s' : MemoryStorage} {order : HashList}
    {txs : List Transaction} (h : s.TakesNew order s' txs)
    (hcomplete : ∀ pre txHash post entry, order = pre ++ txHash :: post →
      s.txsTable.find? txHash = some entry → entry.synced = false →
      (∃ tx ∈ txs, tx.hash = txHash) ∨
        (maxSendTransactions ≤ txs.length ∧ ∀ tx ∈ txs, tx.hash ∈ pre)) :
    Spreads cfg connectedPeers consensusNodeList s order txs
      (packetsFor cfg connectedPeers consensusNodeList forwardPercent txs) := by
  have hstatuses := fun peer =>
    statuses_packetsFor cfg connectedPeers consensusNodeList forwardPercent peer txs
  have hfull := fun peer =>
    mem_fullTxs_packetsFor cfg connectedPeers consensusNodeList forwardPercent peer txs
  -- A status goes out where the peer was selected, after the first phase has noted it.
  have hstatus : ∀ peer, ∀ txHash ∈
      statuses peer (packetsFor cfg connectedPeers consensusNodeList forwardPercent txs),
      peer ∈ connectedPeers ∧ peer ∈ consensusNodeList ∧ peer ≠ cfg.nodeID ∧
        ∃ tx ∈ txs, tx.hash = txHash ∧
          ¬ peer ∈ (noteConsensusNodes connectedPeers consensusNodeList tx).knownNodes := by
    intro peer txHash htxHash
    rcases List.mem_map.mp ((hstatuses peer).mem_iff.mp htxHash) with ⟨tx, htx, heq⟩
    rw [List.mem_filter, decide_eq_true_eq] at htx
    have hselects := (peersOf_selects cfg connectedPeers consensusNodeList _ _).fresh peer htx.2
    exact ⟨hselects.1, hselects.2.1, hselects.2.2.1, tx, htx.1, heq, hselects.2.2.2⟩
  constructor
  · exact fun tx htx => (h.entries tx htx).2
  · exact hcomplete
  · intro peer txHash htxHash
    rcases hstatus peer txHash htxHash with ⟨hconn, hcons, hself, tx, htx, heq, hnew⟩
    refine ⟨hconn, hcons, hself, tx, htx, heq, fun hknown => hnew ?_⟩
    exact (mem_noteConsensusNodes consensusNodeList tx peer).mpr (Or.inl hknown)
  · -- What is announced to one peer is part of what was fetched, where hashes differ.
    intro peer
    exact (hstatuses peer).nodup_iff.mpr (h.hashes.sublist (List.filter_sublist.map _))
  · intro peer data hdata htxHash
    rcases (hfull peer data).mp hdata with ⟨_, tx, htx, hcallback, rfl⟩
    rcases hstatus peer _ htxHash with ⟨hconn, hcons, _, tx', htx', heq, hnew⟩
    -- It is the same transaction, and the first phase has noted the peer on it.
    have hsame : tx' = tx := List.inj_on_of_nodup_map h.hashes htx' htx heq
    rw [hsame, mem_noteConsensusNodes] at hnew
    exact hnew (Or.inr ⟨hcallback, hcons, hconn⟩)
  · intro tx htx hcallback node hnode hself
    exact (hfull node tx.toTxData).mpr ⟨⟨hnode, hself⟩, tx, htx, hcallback, rfl⟩

/-- A call fetches new transactions from the pool and spreads them. -/
theorem maintainTransactions_spreads (forwardPercent : Nat) (s : MemoryStorage)
    (order : HashList) :
    Spreads cfg connectedPeers consensusNodeList s order
      (maintainTransactions cfg forwardPercent s order connectedPeers consensusNodeList).2.1
      (maintainTransactions cfg forwardPercent s order connectedPeers
        consensusNodeList).2.2 := by
  have hcomplete := MemoryStorage.fetchNewTxs_complete maxSendTransactions order s []
  rcases s.fetchNewTxs_takesNew maxSendTransactions order [] with ⟨txs, heq, htakes⟩
  rw [heq] at hcomplete
  rw [maintainTransactions_snd, heq]
  refine spreads_of_takesNew forwardPercent htakes
    (fun pre txHash post entry horder hfind hsynced => ?_)
  -- Nothing was fetched before the walk began, so what was fetched stands in the order.
  exact (hcomplete pre txHash post entry horder hfind hsynced).imp_right (fun hfull =>
    ⟨hfull.1, fun tx htx => (hfull.2 tx htx).resolve_left List.not_mem_nil⟩)

/-- What is announced has been fetched. So a hash that was fetched once is
    announced in that call or never. -/
theorem Spreads.announced {cfg : TxPoolConfig} {connectedPeers : Finset NodeID}
    {consensusNodeList : List NodeID} {s : MemoryStorage} {order : HashList}
    {txs : List Transaction} {packets : List Sent}
    (h : Spreads cfg connectedPeers consensusNodeList s order txs packets)
    (peer : NodeID) : statuses peer packets ⊆ txs.map (fun tx => tx.hash) := by
  intro txHash htxHash
  rcases h.status peer txHash htxHash with ⟨_, _, _, tx, htx, rfl, _⟩
  exact List.mem_map_of_mem htx

/-! ### Runs -/

/-- What holds of a node that gossips. What was fetched is pooled and synced,
    and what was announced has been fetched. The first keeps a fetch from
    repeating itself, and the second an announcement. -/
structure GossipInv (n : GossipNode) : Prop where
  fetched : n.fetchedTxs.Nodup
  synced : ∀ txHash ∈ n.fetchedTxs,
    (n.storage.txsTable.find? txHash).map (fun tx => tx.synced) = some true
  announced : ∀ peer, (statuses peer n.sent).Nodup
  known : ∀ peer, statuses peer n.sent ⊆ n.fetchedTxs

/-- What has been fetched is synced, so a fetch does not take it again. -/
theorem GossipInv.not_taken {n : GossipNode} (h : GossipInv n) {order : HashList}
    {s' : MemoryStorage} {txs : List Transaction} (htakes : n.storage.TakesNew order s' txs) :
    ∀ txHash ∈ n.fetchedTxs, ¬ txHash ∈ txs.map (fun tx => tx.hash) := by
  intro txHash hold hmem
  rcases List.mem_map.mp hmem with ⟨tx, htx, rfl⟩
  rcases htakes.entries tx htx with ⟨_, entry, hfind, hunsynced, _⟩
  have hold := h.synced _ hold
  rw [hfind, Option.map_some, hunsynced] at hold
  cases hold

/-- An operation that only brings transactions in leaves a synced entry pooled and
    synced. -/
theorem step_synced {op : TxPool.Op} (henters : op.Enters) {s : MemoryStorage}
    {txHash : HashType}
    (h : (s.txsTable.find? txHash).map (fun tx => tx.synced) = some true) :
    ((TxPool.step cfg s op).txsTable.find? txHash).map (fun tx => tx.synced) = some true := by
  rcases Option.map_eq_some_iff.mp h with ⟨tx, hfind, hsynced⟩
  have hreset : op ≠ .asyncResetTxPool := by
    rintro rfl
    exact henters
  -- No change of a flag takes the mark back, and nothing leaves in such an operation.
  rcases TxPool.step_keeps_or_leaves cfg (fun tx => tx.synced = true) hreset
    (fun _ tx c _ hsynced _ => by cases c with
      | sync => rfl
      | _ => exact hsynced) hfind hsynced with ⟨_, hleaves⟩ | ⟨tx', hfind', hsynced'⟩
  · exact absurd henters hleaves
  · rw [hfind', Option.map_some, hsynced']

variable {cfg} in
/-- A call of the worker fetches what was not fetched and announces nothing
    else. -/
theorem GossipInv.afterFetch {n : GossipNode} (h : GossipInv n) (forwardPercent : Nat)
    (order : HashList) (connectedNodeList : Finset NodeID) (consensusNodeList : List NodeID) :
    GossipInv (gossipStep cfg forwardPercent n
      (.maintainTransactions order connectedNodeList consensusNodeList)) := by
  have hspreads := maintainTransactions_spreads cfg connectedNodeList consensusNodeList
    forwardPercent n.storage order
  have hsynced := maintainTransactions_synced cfg connectedNodeList consensusNodeList
    forwardPercent n.storage order
  have hsnd := maintainTransactions_snd cfg connectedNodeList consensusNodeList forwardPercent
    n.storage order
  rcases n.storage.fetchNewTxs_takesNew maxSendTransactions order [] with ⟨txs, heq, htakes⟩
  rw [List.nil_append] at heq
  simp only [gossipStep]
  generalize maintainTransactions cfg forwardPercent n.storage order connectedNodeList
    consensusNodeList = call at hspreads hsynced hsnd
  have htxs : call.2.1 = txs := by rw [hsnd, heq]
  rw [htxs] at hspreads
  -- All four parts come down to this: the old hashes and the new ones are apart.
  have hnew := h.not_taken htakes
  rw [htxs]
  constructor
  · exact List.nodup_append.mpr ⟨h.fetched, htakes.hashes,
      fun k hk k' hk' hsame => hnew k hk (hsame ▸ hk')⟩
  · intro txHash hmem
    rw [hsynced, htakes.find]
    by_cases hfresh : txHash ∈ txs.map (fun tx => tx.hash)
    · -- Fetched just now, it has just been marked.
      rcases List.mem_map.mp hfresh with ⟨tx, htx, rfl⟩
      rcases htakes.entries tx htx with ⟨_, entry, hfind, _⟩
      rw [if_pos hfresh, hfind]
      rfl
    · rw [if_neg hfresh]
      exact h.synced txHash ((List.mem_append.mp hmem).resolve_right hfresh)
  · intro peer
    rw [statuses_append]
    exact List.nodup_append.mpr ⟨h.announced peer, hspreads.once peer,
      fun k hk k' hk' hsame => hnew k (h.known peer hk) (hsame ▸ hspreads.announced peer hk')⟩
  · intro peer txHash hmem
    rw [statuses_append] at hmem
    exact List.mem_append.mpr ((List.mem_append.mp hmem).imp (fun hk => h.known peer hk)
      (fun hk => hspreads.announced peer hk))

/-- Each operation of the node keeps this: two bring transactions in, and one
    fetches. -/
theorem gossipStep_inv (forwardPercent : Nat) (n : GossipNode) (op : GossipOp)
    (h : GossipInv n) : GossipInv (gossipStep cfg forwardPercent n op) := by
  cases op with
  | asyncSubmit existsInGroup txData txSubmitCallback =>
      refine ⟨h.fetched, fun txHash hmem => ?_, h.announced, h.known⟩
      exact step_synced cfg (show TxPool.Op.Enters (.asyncSubmit existsInGroup txData
        txSubmitCallback) from trivial) (h.synced txHash hmem)
  | importDownloadedTxs fromNode txs verifiedProposal =>
      refine ⟨h.fetched, fun txHash hmem => ?_, h.announced, h.known⟩
      exact step_synced cfg (show TxPool.Op.Enters (.importDownloadedTxs fromNode txs
        verifiedProposal) from trivial) (h.synced txHash hmem)
  -- The worker's call is the one that fetches and announces.
  | maintainTransactions order connectedNodeList consensusNodeList =>
      exact h.afterFetch forwardPercent order connectedNodeList consensusNodeList

/-- What each operation of a run sends, in the state where it happens. -/
def StepSpreads (forwardPercent : Nat) (n : GossipNode) : GossipOp → Prop
  | .maintainTransactions order connectedNodeList consensusNodeList =>
      let call := maintainTransactions cfg forwardPercent n.storage order connectedNodeList
        consensusNodeList
      Spreads cfg connectedNodeList consensusNodeList n.storage order call.2.1 call.2.2
  | _ => True

/-- Over any run of imports and calls of the worker, whatever nodes are
    connected and take part in the consensus at each of them, no entry is
    fetched twice and no hash is announced twice to a peer. Each call sends what
    `Spreads` says. -/
theorem gossip_not_repeated (forwardPercent : Nat) (s : MemoryStorage) (ops : List GossipOp) :
    (run (gossipStep cfg forwardPercent) { storage := s } ops).fetchedTxs.Nodup ∧
    (∀ peer, (statuses peer
      (run (gossipStep cfg forwardPercent) { storage := s } ops).sent).Nodup) ∧
    Along (gossipStep cfg forwardPercent) (StepSpreads cfg forwardPercent) { storage := s }
      ops := by
  have hinv := run_invariant (gossipStep cfg forwardPercent) GossipInv (fun _ => True)
    (fun n op _ hn => gossipStep_inv cfg forwardPercent n op hn) ops { storage := s }
    (fun _ _ => trivial)
    ⟨List.nodup_nil, fun _ h => absurd h List.not_mem_nil, fun _ => List.nodup_nil,
      fun _ => List.nil_subset _⟩
  -- The first two are the invariant at the end, and the last holds in every state.
  refine ⟨hinv.fetched, hinv.announced, along_of_forall _ (fun n op => ?_) ops _⟩
  cases op with
  | maintainTransactions order connectedNodeList consensusNodeList =>
      exact maintainTransactions_spreads cfg connectedNodeList consensusNodeList forwardPercent
        n.storage order
  | _ => trivial

/-- The worker is woken twice, and the consensus list names peer two twice. -/
example : (run (gossipStep TxPool.exampleConfig defaultForwardPercent)
    { storage := TxPool.examplePool }
    [.importDownloadedTxs 1 [TxPool.exampleTx 5 7 1] none,
      .maintainTransactions [5] {1, 2} [0, 2, 2], .maintainTransactions [5] {2, 3} [2, 3]]).sent
    = [⟨2, .txsStatusPacket [5]⟩] := by decide

end TransactionSync

end BcosTxPool
