import BcosTxPool.Core.Requests
import BcosTxPool.Theory.Downloads
import BcosTxPool.Theory.Proposal

/-!
# Announcements

When an announced transaction is requested. The sync module keeps the hashes it
has asked for in `m_missedTxs` and does not ask for them again. A hash enters
the set with its announcement, before any request is made, and it leaves the
set when a submission brings its transaction in or when the set is so large
that it is emptied. What becomes of the request has no part in this: an error,
a timeout or an answer without the transaction leaves the hash where it is.
From then on no announcement of it leads to a request, whoever makes it, and a
peer that announces a hash and does not deliver it has silenced all others.

An announcement can also be lost. The packets downloaded before it are
imported first, in the same call, and if one of them does not decode the
exception ends the call.

`Askable` collects what the announcement of a hash should lead to a request
for: the pool and the ledger do not have it, and every earlier request for it
has ended without it. The theorem says when it does.

## Main definitions

* `Undelivered`: A request has ended without a transaction.
* `Askable`: An announced hash that is needed and on no one's way.
* `Requested`: An event sends a request for a hash.
* `Decodes`: The packets downloaded will decode.
* `downloaded`: The pool once these packets are imported.

## Theorems

* `importBuffer_exist`, `importBuffer_finished_iff`: The import of the packets.
* `filterUnknownTxs_iff`: Which announced hashes are new.
* `requestAnnounced_requested`, `onPeerTxsStatus_requested`: What is requested of them.
* `requested_iff`: When an announcement leads to a request.
* `requested_counterexample`: A peer that silences another.
-/

namespace BcosTxPool

open Library

namespace MemoryStorage

/-! ### The hashes that are new -/

/-- The known-node marks leave keys and missed hashes alone. This is the first
    loop of `filterUnknownTxs`, which goes over all announced hashes. -/
theorem foldl_appendKnownNode (peer : NodeID) (txs : HashList) (s : MemoryStorage) :
    (∀ txHash, (txs.foldl (fun s k => s.appendKnownNode k peer) s).exist txHash
        = s.exist txHash) ∧
      (txs.foldl (fun s k => s.appendKnownNode k peer) s).missedTxs = s.missedTxs := by
  refine run_invariant (fun (s : MemoryStorage) k => s.appendKnownNode k peer)
    (fun s' => (∀ txHash, s'.exist txHash = s.exist txHash) ∧ s'.missedTxs = s.missedTxs)
    (fun _ => True) (fun t k _ ht => ⟨fun txHash => ?_, ht.2⟩) txs s (fun _ _ => trivial)
    ⟨fun _ => rfl, rfl⟩
  rw [← ht.1 txHash]
  -- A mark rewrites one entry, and only its known nodes.
  simp only [exist, appendKnownNode, KeyedTable.contains, KeyedTable.find?_modify]
  split
  · rw [Option.isSome_map]
  · rfl

/-- The second loop of `filterUnknownTxs` picks the hashes that are neither
    pooled nor missed already, and they are missed from then on. -/
theorem foldl_filterUnknownTx (txs : HashList) :
    ∀ acc : MemoryStorage × HashList,
      (∀ k, (txs.foldl filterUnknownTx acc).1.exist k = acc.1.exist k) ∧
      ∀ k, k ∈ (txs.foldl filterUnknownTx acc).2 ↔
        k ∈ acc.2 ∨ (k ∈ txs ∧ acc.1.exist k = false ∧ ¬ k ∈ acc.1.missedTxs) := by
  -- The induction is on the hashes that are left, for all that has been picked
  -- before.
  induction txs with
  | nil =>
      refine fun acc => ⟨fun _ => rfl, fun k => ?_⟩
      exact ⟨Or.inl, fun h => h.resolve_right (fun hn => List.not_mem_nil hn.1)⟩
  | cons txHash txs ih =>
      intro acc
      rw [List.foldl_cons]
      rcases ih (filterUnknownTx acc txHash) with ⟨hexist, hmem⟩
      simp only [hmem, List.mem_cons]
      -- Another hash is treated as before; this one is picked, or passed over for good.
      by_cases hpooled : acc.1.txsTable.contains txHash = true
      · have hskip : filterUnknownTx acc txHash = acc := by
          rw [filterUnknownTx, if_pos hpooled]
        rw [hskip] at hexist ⊢
        refine ⟨hexist, fun k => or_congr_right (and_congr_left (fun hk => ?_))⟩
        refine ⟨Or.inr, fun h => h.resolve_left ?_⟩
        rintro rfl
        exact Bool.false_ne_true (hk.1.symm.trans hpooled)
      by_cases hmissed : txHash ∈ acc.1.missedTxs
      · have hskip : filterUnknownTx acc txHash = acc := by
          rw [filterUnknownTx, if_neg hpooled, if_pos hmissed]
        rw [hskip] at hexist ⊢
        refine ⟨hexist, fun k => or_congr_right (and_congr_left (fun hk => ?_))⟩
        refine ⟨Or.inr, fun h => h.resolve_left ?_⟩
        rintro rfl
        exact hk.2 hmissed
      · -- It is picked, and missed from here on, so a repetition in the list is
        -- passed over.
        have hpick : filterUnknownTx acc txHash = ({ acc.1 with
            missedTxs := acc.1.missedTxs.insert txHash }, acc.2 ++ [txHash]) := by
          rw [filterUnknownTx, if_neg hpooled, if_neg hmissed]
        rw [hpick] at hexist ⊢
        refine ⟨hexist, fun k => ?_⟩
        have hfree : acc.1.exist txHash = false := Bool.not_eq_true _ |>.mp hpooled
        have hsame : ({ acc.1 with missedTxs := acc.1.missedTxs.insert txHash } :
            MemoryStorage).exist k = acc.1.exist k := rfl
        rw [hsame, List.mem_append, List.mem_singleton, SortedSet.mem_insert]
        by_cases hk : k = txHash
        · subst hk
          simp only [or_true, true_or, hfree, hmissed, not_false_eq_true, and_self]
        · simp only [hk, or_false, false_or]

/-- The new ones of the announced hashes are those that are neither pooled nor
    missed already. -/
theorem filterUnknownTxs_iff (cfg : TxPoolConfig) (s : MemoryStorage) (txs : HashList)
    (peer : NodeID) (txHash : HashType) :
    txHash ∈ (s.filterUnknownTxs cfg txs peer).2 ↔
      txHash ∈ txs ∧ s.exist txHash = false ∧ ¬ txHash ∈ s.missedTxs := by
  have hloop := (foldl_filterUnknownTx txs
    (txs.foldl (fun s k => s.appendKnownNode k peer) s, [])).2 txHash
  -- The second loop starts from the pool that the first has left.
  rw [(foldl_appendKnownNode peer txs s).1, (foldl_appendKnownNode peer txs s).2,
    or_iff_right List.not_mem_nil] at hloop
  exact hloop

end MemoryStorage

namespace TransactionSync

open MemoryStorage

variable (cfg : TxPoolConfig)

/-! ### The packets downloaded -/

/-- The import of the packets runs to its end if all of them decode. A packet
    that does not ends it, and those behind it are dropped with the buffer. -/
theorem importBuffer_finished_iff (buffer : List (NodeID × Bytes)) :
    ∀ s, (importBuffer cfg buffer s).2 = true ↔
      ∀ packet ∈ buffer, (cfg.framework.createBlock packet.2).isSome = true := by
  induction buffer with
  | nil => exact fun _ => iff_of_true rfl (fun _ h => absurd h List.not_mem_nil)
  | cons packet buffer ih =>
      intro s
      rw [List.forall_mem_cons, importBuffer]
      cases cfg.framework.createBlock packet.2 with
      | none => exact iff_of_false Bool.false_ne_true (fun h => Bool.false_ne_true h.1)
      -- A packet that decodes is imported, which has no way to fail here.
      | some transactions =>
          rw [ih]
          exact ⟨fun h => ⟨rfl, h⟩, fun h => h.2⟩

/-- What the packets do not bring in was not there, and it is missed if it was
    before. -/
theorem importBuffer_exist (buffer : List (NodeID × Bytes)) (txHash : HashType) :
    ∀ s, (importBuffer cfg buffer s).1.exist txHash = false →
      s.exist txHash = false ∧
        (txHash ∈ (importBuffer cfg buffer s).1.missedTxs ↔ txHash ∈ s.missedTxs) := by
  induction buffer with
  | nil => exact fun _ h => ⟨h, Iff.rfl⟩
  | cons packet buffer ih =>
      intro s
      rw [importBuffer]
      cases cfg.framework.createBlock packet.2 with
      | none => exact fun h => ⟨h, Iff.rfl⟩
      | some transactions =>
          -- A normal import removes from the missed hashes only what it takes in.
          intro h
          rcases import_taken cfg s packet.1 transactions.transactions with ⟨taken, _, htaken⟩
          rcases ih _ h with ⟨hfree, hmissed⟩
          rw [← Bool.not_eq_true, htaken.exist, not_or, Bool.not_eq_true] at hfree
          exact ⟨hfree.1, hmissed.trans ((htaken.missed txHash).trans (and_iff_left hfree.2))⟩

/-- The packets downloaded decode, or the node is not in the group and they are
    dropped. It is a condition on the buffer alone. -/
def Decodes (n : SyncNode) (existsInGroup : Bool) : Prop :=
  existsInGroup = true → ∀ packet ∈ n.downloadTxsBuffer,
    (cfg.framework.createBlock packet.2).isSome = true

/-- The pool once the packets downloaded are imported, as far as they decode. -/
def downloaded (n : SyncNode) (existsInGroup : Bool) : MemoryStorage :=
  if existsInGroup then (importBuffer cfg n.downloadTxsBuffer n.storage).1 else n.storage

/-- The import of the packets, as one call of the sync module. The buffer is
    empty afterwards in any case, since it is swapped out before the first
    packet is decoded. -/
theorem maintainDownloadingTransactions_eq (n : SyncNode) (existsInGroup : Bool) :
    ∃ finished, maintainDownloadingTransactions cfg n existsInGroup
        = ({ n with storage := downloaded cfg n existsInGroup, downloadTxsBuffer := [] },
          finished) ∧
      (finished = true ↔ Decodes cfg n existsInGroup) := by
  unfold maintainDownloadingTransactions downloaded Decodes
  by_cases hempty : n.downloadTxsBuffer.length = 0
  · -- With an empty buffer nothing is swapped out, and the node is what it was.
    rw [if_pos hempty]
    rw [List.length_eq_zero_iff] at hempty
    have hsame : ({ n with
        storage := if existsInGroup = true then (importBuffer cfg n.downloadTxsBuffer n.storage).1
          else n.storage
        downloadTxsBuffer := [] } : SyncNode) = n := by
      rw [hempty, importBuffer, ite_self]
      cases n
      simp only [SyncNode.mk.injEq, true_and, and_true]
      exact hempty.symm
    refine ⟨true, by rw [hsame], iff_of_true rfl (fun _ packet hp => ?_)⟩
    rw [hempty] at hp
    exact absurd hp List.not_mem_nil
  · rw [if_neg hempty]
    cases existsInGroup with
    -- Outside the group the packets are dropped, and nothing is decoded.
    | false =>
        simp only [Bool.not_false, if_true, Bool.false_eq_true, if_false]
        exact ⟨true, rfl, iff_of_true rfl (fun h => h.elim)⟩
    | true =>
        simp only [Bool.not_true, Bool.false_eq_true, if_false, if_true]
        refine ⟨_, rfl, (importBuffer_finished_iff cfg n.downloadTxsBuffer n.storage).trans ?_⟩
        exact ⟨fun h _ => h, fun h => h trivial⟩

/-- The announced hashes that are new once the packets are imported: the pool does
    not hold them, and they were not missed before. -/
theorem mem_filterUnknownTxs_downloaded (n : SyncNode) (existsInGroup : Bool) (txsHash : HashList)
    (fromNode : NodeID) (txHash : HashType) :
    txHash ∈ ((downloaded cfg n existsInGroup).filterUnknownTxs cfg txsHash fromNode).2 ↔
      txHash ∈ txsHash ∧ (downloaded cfg n existsInGroup).exist txHash = false ∧
        ¬ txHash ∈ n.storage.missedTxs := by
  -- What the packets leave out is missed if it was missed before.
  have hmissed : (downloaded cfg n existsInGroup).exist txHash = false →
      (txHash ∈ (downloaded cfg n existsInGroup).missedTxs ↔ txHash ∈ n.storage.missedTxs) := by
    unfold downloaded
    split
    · exact fun h => (importBuffer_exist cfg n.downloadTxsBuffer txHash n.storage h).2
    · exact fun _ => Iff.rfl
  rw [filterUnknownTxs_iff cfg (downloaded cfg n existsInGroup) txsHash fromNode txHash]
  exact and_congr_right (fun _ => and_congr_right (fun hfree => not_congr (hmissed hfree)))

/-! ### Requests -/

/-- An event sends a request for the hash to the peer. -/
def Requested (n n' : SyncNode) (nodeID : NodeID) (txHash : HashType) : Prop :=
  ∃ request, n'.requests = n.requests ++ [request] ∧ request.nodeID = nodeID ∧
    txHash ∈ request.txsHash

/-- An event that sends nothing sends no request. -/
theorem not_requested_of_same {n n' : SyncNode} (h : n'.requests = n.requests) (nodeID : NodeID)
    (txHash : HashType) : ¬ Requested n n' nodeID txHash := by
  rintro ⟨request, hrequest, _⟩
  have hlength := congrArg List.length (h.symm.trans hrequest)
  rw [List.length_append, List.length_singleton] at hlength
  omega

/-- The ledger does not return the hash, whatever it is asked for. -/
def Lacks (ledger : HashList → LedgerResponse) (txHash : HashType) : Prop :=
  ∀ txsHash, (ledger txsHash).error = none →
    ∀ data ∈ (ledger txsHash).fetchedTxs, data.hash ≠ txHash

/-- What the ledger lacks is requested if it is among the hashes given, and
    nothing else is. -/
theorem requestAnnounced_requested (n : SyncNode) (fromNode : NodeID) (requestTxs : HashList)
    {ledger : HashList → LedgerResponse} {txHash : HashType} (hlacks : Lacks ledger txHash) :
    Requested n (requestAnnounced cfg n fromNode requestTxs ledger) fromNode txHash ↔
      txHash ∈ requestTxs := by
  -- The ledger crosses off what it brings, and it does not bring this one.
  have hleft : txHash ∈ (onGetMissedTxsFromLedger cfg n.storage (SortedSet.ofList requestTxs)
      (ledger requestTxs) none false).2.1 ↔ txHash ∈ requestTxs := by
    unfold onGetMissedTxsFromLedger
    cases herror : (ledger requestTxs).error with
    | some error => exact SortedSet.mem_ofList txHash requestTxs
    | none =>
        have hret := (importDownloadedTxs_normal cfg n.storage cfg.nodeID
          (ledger requestTxs).fetchedTxs proposalHeader_none).1
        simp only [hret, Bool.not_true, Bool.false_eq_true, if_false, Bool.and_false]
        rw [mem_foldl_eraseFetched, SortedSet.mem_ofList]
        exact and_iff_left (hlacks requestTxs herror)
  unfold requestAnnounced
  simp only
  by_cases hsize : (onGetMissedTxsFromLedger cfg n.storage (SortedSet.ofList requestTxs)
      (ledger requestTxs) none false).2.1.size = 0
  · -- Where nothing is left nobody is asked, and this hash would have been left.
    rw [if_pos hsize]
    refine iff_of_false (not_requested_of_same rfl fromNode txHash) (fun hmem => ?_)
    exact (SortedSet.size_eq_zero_iff _).mp hsize txHash (hleft.mpr hmem)
  · rw [if_neg hsize, ← hleft]
    constructor
    · rintro ⟨request, hrequest, _, hmem⟩
      rw [← List.singleton_inj.mp (List.append_cancel_left hrequest)] at hmem
      exact hmem
    · exact fun hmem => ⟨_, rfl, rfl, hmem⟩

/-- A request that has been answered, by an error or otherwise, and the answer
    does not contain the transaction. -/
def Undelivered (txHash : HashType) (request : Request) : Prop :=
  ∃ response, request.response = some response ∧
    ∀ txs, Answers cfg response txs → ∀ data ∈ txs, data.hash ≠ txHash

/-- The announcement of a hash that the ledger lacks leads to a request to the
    peer that made it exactly if the packets downloaded decode, they leave the
    pool without the hash, and it is not recorded as missed. What the pool holds
    and which requests were made before does not matter. -/
theorem onPeerTxsStatus_requested (n : SyncNode) (fromNode : NodeID) {txsHash : HashList}
    (existsInGroup : Bool) {ledger : HashList → LedgerResponse} {txHash : HashType}
    (hannounced : txHash ∈ txsHash) (hlacks : Lacks ledger txHash) :
    Requested n (onPeerTxsStatus cfg n fromNode txsHash existsInGroup ledger) fromNode txHash ↔
      Decodes cfg n existsInGroup ∧ (downloaded cfg n existsInGroup).exist txHash = false ∧
      ¬ txHash ∈ n.storage.missedTxs := by
  unfold onPeerTxsStatus
  rcases maintainDownloadingTransactions_eq cfg n existsInGroup with ⟨finished, heq, hdecodes⟩
  rw [heq, ← hdecodes]
  cases finished with
  | false =>
      -- The exception of a packet leaves the handler before it asks for anything.
      exact iff_of_false (not_requested_of_same rfl fromNode txHash)
        (fun h => Bool.false_ne_true h.1)
  | true =>
      have hnonempty : ¬ txsHash.length = 0 := by
        rw [List.length_eq_zero_iff]
        exact List.ne_nil_of_mem hannounced
      simp only [hnonempty, if_false, true_and]
      have hnew := mem_filterUnknownTxs_downloaded cfg n existsInGroup txsHash fromNode txHash
      rw [and_iff_right hannounced] at hnew
      rw [← hnew]
      -- Without new hashes the handler returns before it asks the ledger.
      by_cases hnone : ((downloaded cfg n existsInGroup).filterUnknownTxs cfg txsHash
          fromNode).2.length = 0
      · rw [if_pos hnone]
        refine iff_of_false (not_requested_of_same rfl fromNode txHash) ?_
        rw [List.length_eq_zero_iff.mp hnone]
        exact List.not_mem_nil
      · rw [if_neg hnone]
        exact requestAnnounced_requested cfg _ fromNode _ hlacks

/-- A hash is announced that neither the pool nor the ledger has, and every
    request for it so far has ended without it. -/
structure Askable (n : SyncNode) (txsHash : HashList) (ledger : HashList → LedgerResponse)
    (txHash : HashType) : Prop where
  announced : txHash ∈ txsHash
  pool : n.storage.exist txHash = false
  ledger : Lacks ledger txHash
  ended : ∀ request ∈ n.requests, txHash ∈ request.txsHash → Undelivered cfg txHash request

/-- In every run of a node, the announcement of an askable hash leads to a
    request to the peer that made it exactly if the packets downloaded by then
    decode, they do not bring the hash in, and it is not recorded as missed. -/
theorem requested_iff (cfg : TxPoolConfig) (s : MemoryStorage) (ops : List SyncOp)
    (fromNode : NodeID) (txsHash : HashList) (existsInGroup : Bool)
    (ledger : HashList → LedgerResponse) (txHash : HashType)
    (hask : Askable cfg (run (syncStep cfg) { storage := s } ops) txsHash ledger txHash) :
    Requested (run (syncStep cfg) { storage := s } ops)
        (run (syncStep cfg) { storage := s }
          (ops ++ [.onPeerTxsStatus fromNode txsHash existsInGroup ledger])) fromNode txHash ↔
      Decodes cfg (run (syncStep cfg) { storage := s } ops) existsInGroup ∧
      (downloaded cfg (run (syncStep cfg) { storage := s } ops) existsInGroup).exist txHash
        = false ∧
      ¬ txHash ∈ (run (syncStep cfg) { storage := s } ops).storage.missedTxs := by
  rw [run_concat]
  exact onPeerTxsStatus_requested cfg _ fromNode existsInGroup hask.announced hask.ledger

/-- A ledger without transactions. -/
def emptyLedger (_ : HashList) : LedgerResponse := ⟨none, []⟩

/-- It lacks every hash. -/
theorem emptyLedger_lacks (txHash : HashType) : Lacks emptyLedger txHash :=
  fun _ _ _ h => absurd h List.not_mem_nil

/-- The first announcement of a hash leads to a request. -/
theorem requested_iff_first :
    Requested (run (syncStep TxPool.exampleConfig) { storage := TxPool.examplePool } [])
      (run (syncStep TxPool.exampleConfig) { storage := TxPool.examplePool }
        [.onPeerTxsStatus 2 [1] true emptyLedger]) 2 1 := by
  refine (requested_iff TxPool.exampleConfig TxPool.examplePool [] 2 [1] true emptyLedger 1
    ⟨List.mem_singleton.mpr rfl, rfl, emptyLedger_lacks 1, ?_⟩).mpr ⟨?_, rfl, ?_⟩
  · exact fun _ h => absurd h List.not_mem_nil
  · exact fun _ _ h => absurd h List.not_mem_nil
  · exact SortedSet.mem_empty 1

/-- A peer announces a hash, and the request to it ends with an error. -/
def silencedRun : List SyncOp :=
  [.onPeerTxsStatus 1 [1] true emptyLedger,
    .onTxsResponse 0 ⟨some ⟨.other (-1), "timeout"⟩, 1, []⟩]

/-- When another peer announces the hash, it is askable, and nobody is asked. -/
theorem requested_counterexample :
    Askable TxPool.exampleConfig
        (run (syncStep TxPool.exampleConfig) { storage := TxPool.examplePool } silencedRun) [1]
        emptyLedger 1 ∧
      ¬ Requested
        (run (syncStep TxPool.exampleConfig) { storage := TxPool.examplePool } silencedRun)
        (run (syncStep TxPool.exampleConfig) { storage := TxPool.examplePool }
          (silencedRun ++ [.onPeerTxsStatus 2 [1] true emptyLedger])) 2 1 := by
  refine ⟨⟨List.mem_singleton.mpr rfl, rfl, emptyLedger_lacks 1, ?_⟩,
    not_requested_of_same rfl 2 1⟩
  intro request hmem _
  -- Its only request was answered by the error.
  have hrequests : (run (syncStep TxPool.exampleConfig) { storage := TxPool.examplePool }
      silencedRun).requests = [⟨1, [1], some ⟨some ⟨.other (-1), "timeout"⟩, 1, []⟩⟩] := rfl
  rw [hrequests, List.mem_singleton] at hmem
  subst hmem
  refine ⟨_, rfl, fun txs hanswers => ?_⟩
  exact absurd hanswers.1 (Option.some_ne_none _)

end TransactionSync

end BcosTxPool
