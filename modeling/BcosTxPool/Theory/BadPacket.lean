import BcosTxPool.Theory.Announcements
import BcosTxPool.Theory.Redelivery

/-!
# Bad Packets

What one packet that does not decode costs. The buffer is swapped out before
its packets are imported, and nothing in the loop catches the exception that
decoding raises. The packets before the bad one are in the pool then, the bad
one is gone, and with it every packet behind it. The caller's lambda catches
the exception and logs it; when the caller was `onPeerTxsStatus`, the
announcement that it was handling is lost as well.

Whether this shows depends on what was lost. A packet costs nothing if the pool
would have refused everything in it, as the pool stood when the exception was
raised. The same goes for the announcement: it costs nothing if handling it
would have noted nothing, which is so if the peer is known to have what is
pooled, the rest is missed already, and the ledger has nothing to add.

## Main definitions

* `decodes`, `carried`: Whether a packet decodes, and what is in it.
* `onlyDecodable`: The node as if only packets that decode had come.
* `LostRefused`: The packets behind the first bad one have nothing for the pool.
* `AnnouncementKnown`: An announcement has nothing for the pool.

## Theorems

* `import_eq_self_iff`, `importBuffer_eq_self_iff`: When packets change nothing.
* `filterUnknownTxs_eq_self_iff`: When the filter notes nothing.
* `badPacket_iff`: When a bad packet costs nothing.
* `badPacket_counterexample`: One that costs a transaction.
-/

namespace BcosTxPool

open Library TxPool

namespace MemoryStorage

/-! ### What the filter notes -/

/-- A known-node mark for each hash changes the entries only. The first loop of
    the filter does nothing else. -/
theorem foldl_appendKnownNode_eq (peer : NodeID) (txs : HashList) (s : MemoryStorage) :
    txs.foldl (fun s k => s.appendKnownNode k peer) s
      = { s with txsTable := (txs.foldl (fun s k => s.appendKnownNode k peer) s).txsTable } := by
  refine run_invariant (fun (s : MemoryStorage) k => s.appendKnownNode k peer)
    (fun s' => s' = { s with txsTable := s'.txsTable }) (fun _ => True) (fun t k _ ht => ?_) txs s
    (fun _ _ => trivial) rfl
  rw [ht]
  rfl

/-- The marks change nothing if the peer is known to have every pooled one. -/
theorem foldl_appendKnownNode_eq_self_iff (peer : NodeID) (txs : HashList) (s : MemoryStorage) :
    (txs.foldl (fun s k => s.appendKnownNode k peer) s).txsTable = s.txsTable ↔
      ∀ txHash ∈ txs, ∀ entry, s.txsTable.find? txHash = some entry →
        peer ∈ entry.knownNodes := by
  have hmark : ∀ (t : MemoryStorage) k txHash,
      (t.appendKnownNode k peer).txsTable.find? txHash
        = if k = txHash then (t.txsTable.find? txHash).map (Change.know peer).apply
          else t.txsTable.find? txHash :=
    fun t k txHash => t.txsTable.find?_modify k (Change.know peer).apply
      (Change.know peer).apply_hash txHash
  constructor
  · intro hsame txHash hmem entry hfind
    rw [← hsame] at hfind
    revert entry
    -- The turn for the hash makes the mark, and the later ones keep it.
    rcases List.append_of_mem hmem with ⟨pre, post, rfl⟩
    rw [List.foldl_append, List.foldl_cons]
    refine run_invariant (fun (s : MemoryStorage) k => s.appendKnownNode k peer)
      (fun t => ∀ entry, t.txsTable.find? txHash = some entry → peer ∈ entry.knownNodes)
      (fun _ => True) (fun t k _ ht entry hfind => ?_) post _ (fun _ _ => trivial)
      (fun entry hfind => ?_)
    · rw [hmark] at hfind
      split at hfind
      · rcases Option.map_eq_some_iff.mp hfind with ⟨tx, _, rfl⟩
        exact Finset.mem_insert_self peer tx.knownNodes
      · exact ht entry hfind
    · rw [hmark, if_pos rfl] at hfind
      rcases Option.map_eq_some_iff.mp hfind with ⟨tx, _, rfl⟩
      exact Finset.mem_insert_self peer tx.knownNodes
  · -- A mark that an entry has already does not change it.
    intro hknown
    have hself : txs.foldl (fun s k => s.appendKnownNode k peer) s = s := by
      refine run_eq_self (fun (s : MemoryStorage) k => s.appendKnownNode k peer)
        (fun k hk => ?_)
      cases hfind : s.txsTable.find? k with
      | none =>
          have htable := s.txsTable.modify_of_find?_none (Change.know peer).apply
            (Change.know peer).apply_hash hfind
          exact congrArg (fun table => ({ s with txsTable := table } : MemoryStorage)) htable
      | some entry =>
          have hentry : (Change.know peer).apply entry = entry := by
            rw [Change.apply, Finset.insert_eq_self.mpr (hknown k hk entry hfind)]
          have htable := KeyedTable.modify_eq_self hfind (Change.know peer).apply
            (Change.know peer).apply_hash hentry
          exact congrArg (fun table => ({ s with txsTable := table } : MemoryStorage)) htable
    rw [hself]

/-- The second loop of the filter puts the hashes that it picks among the missed
    ones, and does nothing else. -/
theorem foldl_filterUnknownTx_eq (txs : HashList) :
    ∀ acc : MemoryStorage × HashList, ∃ missedTxs picked,
      txs.foldl filterUnknownTx acc
        = ({ acc.1 with missedTxs := missedTxs }, acc.2 ++ picked) ∧
      missedTxs.size = acc.1.missedTxs.size + picked.length ∧
      (picked = [] → missedTxs = acc.1.missedTxs) := by
  -- The induction is on the hashes announced. What is picked in one turn is missed
  -- in all later ones.
  induction txs with
  | nil => exact fun acc => ⟨acc.1.missedTxs, [], by rw [List.append_nil]; rfl, rfl, fun _ => rfl⟩
  | cons txHash txs ih =>
      intro acc
      rw [List.foldl_cons]
      -- What is pooled or noted as missed is passed over, and the rest is picked.
      by_cases hskip : acc.1.txsTable.contains txHash = true ∨ txHash ∈ acc.1.missedTxs
      · have hturn : filterUnknownTx acc txHash = acc := by
          unfold filterUnknownTx
          split
          · rfl
          · rename_i hpooled
            rw [if_pos (hskip.resolve_left hpooled)]
        rw [hturn]
        exact ih acc
      · rw [not_or] at hskip
        have hturn : filterUnknownTx acc txHash = ({ acc.1 with
            missedTxs := acc.1.missedTxs.insert txHash }, acc.2 ++ [txHash]) := by
          rw [filterUnknownTx, if_neg hskip.1, if_neg hskip.2]
        rw [hturn]
        rcases ih ({ acc.1 with missedTxs := acc.1.missedTxs.insert txHash }, acc.2 ++ [txHash])
          with ⟨missedTxs, picked, heq, hsize, _⟩
        refine ⟨missedTxs, txHash :: picked, ?_, ?_, fun h => absurd h (List.cons_ne_nil _ _)⟩
        · rw [heq, List.append_assoc, List.singleton_append]
        · rw [hsize, SortedSet.size_insert_of_not_mem _ hskip.2, List.length_cons]
          omega

/-- The filter neither adds entries nor takes any out. -/
theorem filterUnknownTxs_size (cfg : TxPoolConfig) (s : MemoryStorage) (txs : HashList)
    (peer : NodeID) : (s.filterUnknownTxs cfg txs peer).1.size = s.size := by
  refine step_gossip cfg (fun t => t.size = s.size) (fun t k node ht => ?_) (fun t k ht => ?_)
    (fun t missedTxs ht => ht) (show GossipCall (.filterUnknownTxs txs peer) from trivial) rfl
  · exact (t.txsTable.size_modify k (Change.know node).apply
      (Change.know node).apply_hash).trans ht
  · exact (t.txsTable.size_modify k Change.sync.apply Change.sync.apply_hash).trans ht

/-- The filter marks the entries and puts the hashes that it picks among the
    missed ones, which are all forgotten where they reach the limit. -/
theorem filterUnknownTxs_eq (cfg : TxPoolConfig) (s : MemoryStorage) (txs : HashList)
    (peer : NodeID) : ∃ missedTxs : SortedSet HashType,
      (s.filterUnknownTxs cfg txs peer).1 = { s with
        txsTable := (txs.foldl (fun s k => s.appendKnownNode k peer) s).txsTable
        missedTxs := if missedTxs.size ≥ cfg.poolLimit then SortedSet.empty else missedTxs } ∧
      missedTxs.size = s.missedTxs.size + (s.filterUnknownTxs cfg txs peer).2.length ∧
      ((s.filterUnknownTxs cfg txs peer).2 = [] → missedTxs = s.missedTxs) := by
  have hmarked := foldl_appendKnownNode_eq peer txs s
  rcases foldl_filterUnknownTx_eq txs (txs.foldl (fun s k => s.appendKnownNode k peer) s, [])
    with ⟨missedTxs, picked, heq, hsize, hnone⟩
  have hfilter : s.filterUnknownTxs cfg txs peer
      = ({ txs.foldl (fun s k => s.appendKnownNode k peer) s with
            missedTxs := if missedTxs.size ≥ cfg.poolLimit then SortedSet.empty
              else missedTxs }, picked) := by
    unfold filterUnknownTxs
    simp only [heq, List.nil_append]
    -- The set is cleared where it has grown to the pool limit.
    split
    · rfl
    · rfl
  have hmissed : (txs.foldl (fun s k => s.appendKnownNode k peer) s).missedTxs = s.missedTxs := by
    rw [hmarked]
  simp only [hmissed] at hsize hnone
  rw [hfilter]
  refine ⟨missedTxs, ?_, hsize, hnone⟩
  generalize txs.foldl (fun s k => s.appendKnownNode k peer) s = t at hmarked
  rw [hmarked]

/-- A set that has grown by some hashes and is emptied at the limit is what it
    was: it has not grown and is below the limit, or it was empty and is
    emptied. -/
theorem missed_eq_self_iff {missedTxs missedTxs' : SortedSet HashType} {limit : Nat}
    {picked : HashList} (hsize : missedTxs'.size = missedTxs.size + picked.length)
    (hnone : picked = [] → missedTxs' = missedTxs) :
    (if missedTxs'.size ≥ limit then SortedSet.empty else missedTxs') = missedTxs ↔
      (picked = [] ∧ missedTxs.size < limit) ∨ (missedTxs.size = 0 ∧ limit ≤ picked.length) := by
  by_cases hfull : missedTxs'.size ≥ limit
  · -- The set is emptied, so it must have been empty and the new ones must fill it.
    rw [if_pos hfull, eq_comm, SortedSet.eq_empty_iff]
    constructor
    · exact fun hempty => Or.inr ⟨hempty, by omega⟩
    · rintro (⟨hnew, hlimit⟩ | ⟨hempty, _⟩)
      · rw [hnone hnew] at hfull
        exact absurd hfull (Nat.not_le.mpr hlimit)
      · exact hempty
  · rw [if_neg hfull]
    constructor
    · intro hkept
      rw [hkept] at hsize hfull
      exact Or.inl ⟨List.length_eq_zero_iff.mp (by omega), by omega⟩
    · rintro (⟨hnew, _⟩ | ⟨hempty, hlimit⟩)
      · exact hnone hnew
      · exact absurd (by omega) hfull

/-- The filter notes nothing if the peer is known to have every pooled hash and
    the set of missed hashes ends as it was: nothing is new and the set is below
    the limit, or it was empty and is emptied again. -/
theorem filterUnknownTxs_eq_self_iff (cfg : TxPoolConfig) (s : MemoryStorage) (txs : HashList)
    (peer : NodeID) :
    (s.filterUnknownTxs cfg txs peer).1 = s ↔
      (∀ txHash ∈ txs, ∀ entry, s.txsTable.find? txHash = some entry →
        peer ∈ entry.knownNodes) ∧
      (((s.filterUnknownTxs cfg txs peer).2 = [] ∧ s.missedTxs.size < cfg.poolLimit) ∨
        (s.missedTxs.size = 0 ∧
          cfg.poolLimit ≤ (s.filterUnknownTxs cfg txs peer).2.length)) := by
  rcases s.filterUnknownTxs_eq cfg txs peer with ⟨missedTxs, heq, hsize, hnone⟩
  rw [← foldl_appendKnownNode_eq_self_iff, ← missed_eq_self_iff hsize hnone, heq]
  constructor
  · intro h
    have hentries := congrArg MemoryStorage.txsTable h
    have hset := congrArg MemoryStorage.missedTxs h
    exact ⟨hentries, hset⟩
  · rintro ⟨hentries, hset⟩
    rw [hset, hentries]

end MemoryStorage

namespace TransactionSync

open MemoryStorage

variable (cfg : TxPoolConfig)

/-! ### Packets that change nothing -/

/-- An import changes nothing, or the pool has grown. A transaction of gossip
    comes in under a free hash or leaves the pool as it is. -/
theorem import_eq_self_or_size_lt (s : MemoryStorage) (fromNode : NodeID) (txs : List TxData) :
    (importDownloadedTxs cfg s fromNode txs none).1 = s ∨
      s.size < (importDownloadedTxs cfg s fromNode txs none).1.size := by
  rw [importDownloadedTxs_eq_run_importOne cfg s fromNode txs proposalHeader_none]
  refine run_invariant (importOne cfg s fromNode) (fun t => t = s ∨ s.size < t.size)
    (fun _ => True) (fun t data _ ht => ?_) txs s (fun _ _ => trivial) (Or.inl rfl)
  rcases importOne_cases cfg s t fromNode data with ⟨_, hsame⟩ | ⟨_, _, htook⟩
  · rw [hsame]
    exact ht
  · rw [htook.size]
    rcases ht with rfl | hlt
    · exact Or.inr (Nat.lt_succ_self _)
    · exact Or.inr (Nat.lt_succ_of_lt hlt)

/-- An import changes nothing exactly if the pool refuses all it carries. What
    is refused at the start is refused until something has come in. -/
theorem import_eq_self_iff (s : MemoryStorage) (fromNode : NodeID) (txs : List TxData) :
    (importDownloadedTxs cfg s fromNode txs none).1 = s ↔ ∀ data ∈ txs, Refused cfg s data := by
  constructor
  · intro hsame
    have hrefused := (importDownloadedTxs_normal cfg s fromNode txs proposalHeader_none).2.2
    rw [hsame] at hrefused
    exact hrefused
  · intro hrefused
    rw [importDownloadedTxs_refused cfg s fromNode txs proposalHeader_none hrefused]

/-- Whether a packet decodes. The decoder of the framework throws where it does
    not. -/
def decodes (packet : NodeID × Bytes) : Bool := (cfg.framework.createBlock packet.2).isSome

/-- The transactions that a packet carries. One that does not decode carries
    none. -/
def carried (packet : NodeID × Bytes) : List TxData :=
  match cfg.framework.createBlock packet.2 with
  | some transactions => transactions.transactions
  | none => []

/-- A packet that decodes is imported, and the rest of the buffer meets the pool
    after it. -/
theorem importBuffer_cons (packet : NodeID × Bytes) (buffer : List (NodeID × Bytes))
    (s : MemoryStorage) (hpacket : decodes cfg packet = true) :
    importBuffer cfg (packet :: buffer) s = importBuffer cfg buffer
      (importDownloadedTxs cfg s packet.1 (carried cfg packet) none).1 := by
  rcases Option.isSome_iff_exists.mp hpacket with ⟨transactions, hblock⟩
  rw [importBuffer, carried]
  simp only [hblock]

/-- Packets that decode are imported one after the other. -/
theorem importBuffer_append (pre post : List (NodeID × Bytes)) :
    ∀ s, (∀ packet ∈ pre, decodes cfg packet = true) →
      importBuffer cfg (pre ++ post) s = importBuffer cfg post (importBuffer cfg pre s).1 := by
  induction pre with
  | nil => exact fun _ _ => rfl
  | cons packet pre ih =>
      intro s hpre
      have hpacket := hpre packet List.mem_cons_self
      rw [List.cons_append, importBuffer_cons cfg packet _ s hpacket,
        importBuffer_cons cfg packet _ s hpacket]
      exact ih _ (fun p hp => hpre p (List.mem_cons_of_mem packet hp))

/-- The import ends at the first packet that does not decode. -/
theorem importBuffer_takeWhile (buffer : List (NodeID × Bytes)) :
    ∀ s, (importBuffer cfg buffer s).1
      = (importBuffer cfg (buffer.takeWhile (decodes cfg)) s).1 := by
  induction buffer with
  | nil => exact fun _ => rfl
  | cons packet buffer ih =>
      intro s
      rw [List.takeWhile_cons]
      by_cases hpacket : decodes cfg packet = true
      · rw [if_pos hpacket, importBuffer_cons cfg packet _ s hpacket,
          importBuffer_cons cfg packet _ s hpacket]
        exact ih _
      · -- The exception leaves the loop, with the pool as it is.
        rw [if_neg hpacket, importBuffer]
        rw [decodes, Bool.not_eq_true, Option.isSome_eq_false_iff, Option.isNone_iff_eq_none]
          at hpacket
        simp only [hpacket, importBuffer]

/-- Packets change nothing, or the pool has grown. -/
theorem importBuffer_eq_self_or_size_lt (buffer : List (NodeID × Bytes)) :
    ∀ s, (importBuffer cfg buffer s).1 = s ∨ s.size < (importBuffer cfg buffer s).1.size := by
  induction buffer with
  | nil => exact fun _ => Or.inl rfl
  | cons packet buffer ih =>
      intro s
      by_cases hpacket : decodes cfg packet = true
      · rw [importBuffer_cons cfg packet buffer s hpacket]
        -- Growth by one packet is not undone by the next ones.
        rcases import_eq_self_or_size_lt cfg s packet.1 (carried cfg packet) with hsame | hlt
        · rw [hsame]
          exact ih s
        · rcases ih (importDownloadedTxs cfg s packet.1 (carried cfg packet) none).1 with
            hrest | hrest
          · rw [hrest]
            exact Or.inr hlt
          · exact Or.inr (hlt.trans hrest)
      · rw [importBuffer_takeWhile, List.takeWhile_cons, if_neg hpacket]
        exact Or.inl rfl

/-- An import of packets takes nothing out of the pool. -/
theorem size_importBuffer (buffer : List (NodeID × Bytes)) (s : MemoryStorage) :
    s.size ≤ (importBuffer cfg buffer s).1.size := by
  rcases importBuffer_eq_self_or_size_lt cfg buffer s with hsame | hlt
  · exact (congrArg MemoryStorage.size hsame).ge
  · exact hlt.le

/-- Packets that decode change nothing exactly if the pool refuses all they
    carry. The question can be asked of the pool at the start, since nothing
    changes on the way. -/
theorem importBuffer_eq_self_iff (buffer : List (NodeID × Bytes)) (s : MemoryStorage) :
    (∀ packet ∈ buffer, decodes cfg packet = true) →
      ((importBuffer cfg buffer s).1 = s ↔
        ∀ packet ∈ buffer, ∀ data ∈ carried cfg packet, Refused cfg s data) := by
  induction buffer with
  | nil => exact fun _ => iff_of_true rfl (fun _ h => absurd h List.not_mem_nil)
  | cons packet buffer ih =>
      intro hdecodes
      have ih := ih (fun p hp => hdecodes p (List.mem_cons_of_mem packet hp))
      rw [importBuffer_cons cfg packet buffer s (hdecodes packet List.mem_cons_self),
        List.forall_mem_cons, ← import_eq_self_iff cfg s packet.1, ← ih]
      constructor
      · intro hsame
        -- The pool never shrinks, so the first packet has changed nothing.
        have hfirst : (importDownloadedTxs cfg s packet.1 (carried cfg packet) none).1 = s := by
          refine (import_eq_self_or_size_lt cfg s packet.1 _).resolve_right (fun hlt => ?_)
          have hrest := size_importBuffer cfg buffer
            (importDownloadedTxs cfg s packet.1 (carried cfg packet) none).1
          rw [hsame] at hrest
          exact absurd hlt (Nat.not_lt.mpr hrest)
        rw [hfirst] at hsame
        exact ⟨hfirst, hsame⟩
      · rintro ⟨hfirst, hrest⟩
        rw [hfirst]
        exact hrest

/-! ### The node as it should be -/

/-- The node as if only the packets that decode had come. This is what the bad
    packets are measured against. -/
def onlyDecodable (n : SyncNode) : SyncNode :=
  { n with downloadTxsBuffer := n.downloadTxsBuffer.filter (decodes cfg) }

/-- The pool when the first packet that does not decode is met. The exception is
    raised there. -/
def pooledBefore (n : SyncNode) : MemoryStorage :=
  (importBuffer cfg (n.downloadTxsBuffer.takeWhile (decodes cfg)) n.storage).1

/-- The packets behind the first one that does not decode carry nothing that the
    pool would take. -/
def LostRefused (n : SyncNode) : Prop :=
  ∀ packet ∈ n.downloadTxsBuffer.dropWhile (decodes cfg), ∀ data ∈ carried cfg packet,
    Refused cfg (pooledBefore cfg n) data

/-- In the group, the pool after the downloads is the pool at the first bad
    packet. -/
theorem downloaded_eq_pooledBefore (n : SyncNode) : downloaded cfg n true = pooledBefore cfg n := by
  rw [downloaded, if_pos rfl, importBuffer_takeWhile, pooledBefore]

/-- With the bad packets left out, the packets behind the first one are imported
    too. -/
theorem downloaded_onlyDecodable (n : SyncNode) :
    downloaded cfg (onlyDecodable cfg n) true
      = (importBuffer cfg ((n.downloadTxsBuffer.dropWhile (decodes cfg)).filter (decodes cfg))
          (pooledBefore cfg n)).1 := by
  have htaken : ∀ packet ∈ n.downloadTxsBuffer.takeWhile (decodes cfg),
      decodes cfg packet = true := fun packet hp => List.mem_takeWhile_imp hp
  have hsplit : n.downloadTxsBuffer.filter (decodes cfg)
      = n.downloadTxsBuffer.takeWhile (decodes cfg)
        ++ (n.downloadTxsBuffer.dropWhile (decodes cfg)).filter (decodes cfg) := by
    -- The packets before the first bad one all decode and are kept.
    conv_lhs => rw [← List.takeWhile_append_dropWhile (p := decodes cfg) (l := n.downloadTxsBuffer)]
    rw [List.filter_append, List.filter_eq_self.mpr htaken]
  rw [downloaded, if_pos rfl, onlyDecodable]
  simp only
  rw [hsplit, importBuffer_append cfg _ _ n.storage htaken, pooledBefore]

/-- The lost packets would have changed nothing exactly if the pool refuses all
    they carry. -/
theorem downloaded_onlyDecodable_eq_iff (n : SyncNode) :
    downloaded cfg (onlyDecodable cfg n) true = pooledBefore cfg n ↔ LostRefused cfg n := by
  rw [downloaded_onlyDecodable, importBuffer_eq_self_iff cfg _ _
    (fun packet hp => (List.mem_filter.mp hp).2), LostRefused]
  constructor
  · intro h packet hp data hdata
    by_cases hpacket : decodes cfg packet = true
    · exact h packet (List.mem_filter.mpr ⟨hp, hpacket⟩) data hdata
    · -- A packet that does not decode carries nothing.
      rw [decodes, Bool.not_eq_true, Option.isSome_eq_false_iff, Option.isNone_iff_eq_none]
        at hpacket
      simp only [carried, hpacket] at hdata
      exact absurd hdata List.not_mem_nil
  · exact fun h packet hp => h packet (List.mem_filter.mp hp).1

/-! ### The announcement -/

/-- The pool once an announcement has been handled, when the packets have been
    imported. An empty announcement is dropped, and so is one that has nothing
    new. -/
def announced (s : MemoryStorage) (fromNode : NodeID) (txsHash : HashList)
    (ledger : HashList → LedgerResponse) : MemoryStorage :=
  if txsHash.length = 0 then s
  else
    let (s, requestTxs) := s.filterUnknownTxs cfg txsHash fromNode
    if requestTxs.length = 0 then s
    else
      match (ledger requestTxs).error with
      | some _ => s
      | none => (importDownloadedTxs cfg s cfg.nodeID (ledger requestTxs).fetchedTxs none).1

/-- An announcement is handled if the packets decode, and lost if they do not. -/
theorem onPeerTxsStatus_storage (n : SyncNode) (fromNode : NodeID) (txsHash : HashList)
    (existsInGroup : Bool) (ledger : HashList → LedgerResponse) :
    (Decodes cfg n existsInGroup →
      (onPeerTxsStatus cfg n fromNode txsHash existsInGroup ledger).storage
        = announced cfg (downloaded cfg n existsInGroup) fromNode txsHash ledger) ∧
    (¬ Decodes cfg n existsInGroup →
      (onPeerTxsStatus cfg n fromNode txsHash existsInGroup ledger).storage
        = downloaded cfg n existsInGroup) := by
  rcases maintainDownloadingTransactions_eq cfg n existsInGroup with
    ⟨finished, hmaintain, hfinished⟩
  unfold onPeerTxsStatus announced
  rw [hmaintain]
  constructor
  · -- The exception of the import ends the handler before it looks at the
    -- announcement.
    intro hdecodes
    rw [hfinished.mpr hdecodes]
    simp only
    split
    · rfl
    · split
      · rfl
      · -- What the ledger leaves is requested from the peer; the pool has no part in that.
        unfold requestAnnounced onGetMissedTxsFromLedger
        cases (ledger _).error with
        | some error =>
            simp only
            split
            · rfl
            · rfl
        | none =>
            have hret := (importDownloadedTxs_normal cfg
              ((downloaded cfg n existsInGroup).filterUnknownTxs cfg txsHash fromNode).1 cfg.nodeID
              (ledger ((downloaded cfg n existsInGroup).filterUnknownTxs cfg txsHash
                fromNode).2).fetchedTxs
              proposalHeader_none).1
            simp only [hret, Bool.not_true, Bool.false_eq_true, if_false, Bool.and_false]
            split
            · rfl
            · rfl
  · intro hdecodes
    rw [Bool.not_eq_true _ |>.mp (fun h => hdecodes (hfinished.mp h))]

/-- An announcement that has nothing for the pool. The peer is known to have what
    is pooled, the missed hashes stay as they are, and the ledger adds nothing. -/
structure AnnouncementKnown (s : MemoryStorage) (fromNode : NodeID) (txsHash : HashList)
    (ledger : HashList → LedgerResponse) : Prop where
  known : ∀ txHash ∈ txsHash, ∀ entry, s.txsTable.find? txHash = some entry →
    fromNode ∈ entry.knownNodes
  missed : ((s.filterUnknownTxs cfg txsHash fromNode).2 = [] ∧ s.missedTxs.size < cfg.poolLimit) ∨
    (s.missedTxs.size = 0 ∧ cfg.poolLimit ≤ (s.filterUnknownTxs cfg txsHash fromNode).2.length)
  fetched : (s.filterUnknownTxs cfg txsHash fromNode).2 = [] ∨
    (ledger (s.filterUnknownTxs cfg txsHash fromNode).2).error ≠ none ∨
    ∀ data ∈ (ledger (s.filterUnknownTxs cfg txsHash fromNode).2).fetchedTxs, Refused cfg s data

/-- Handling an announcement does not make the pool smaller: the filter keeps
    the size and an import only adds. -/
theorem size_announced (s : MemoryStorage) (fromNode : NodeID) (txsHash : HashList)
    (ledger : HashList → LedgerResponse) :
    s.size ≤ (announced cfg s fromNode txsHash ledger).size := by
  have hfilter := s.filterUnknownTxs_size cfg txsHash fromNode
  unfold announced
  simp only
  split
  · exact le_refl _
  · split
    · exact hfilter.ge
    · split
      · exact hfilter.ge
      · exact hfilter.ge.trans (importDownloadedTxs_normal cfg _ cfg.nodeID _
          proposalHeader_none).2.1.size

/-- Handling an announcement changes nothing exactly if it is empty or has
    nothing for the pool. -/
theorem announced_eq_self_iff (s : MemoryStorage) (fromNode : NodeID) (txsHash : HashList)
    (ledger : HashList → LedgerResponse) :
    announced cfg s fromNode txsHash ledger = s ↔
      txsHash = [] ∨ AnnouncementKnown cfg s fromNode txsHash ledger := by
  have hself := s.filterUnknownTxs_eq_self_iff cfg txsHash fromNode
  have hsize := s.filterUnknownTxs_size cfg txsHash fromNode
  have hknown : AnnouncementKnown cfg s fromNode txsHash ledger ↔
      (s.filterUnknownTxs cfg txsHash fromNode).1 = s ∧
      ((s.filterUnknownTxs cfg txsHash fromNode).2 = [] ∨
        (ledger (s.filterUnknownTxs cfg txsHash fromNode).2).error ≠ none ∨
        ∀ data ∈ (ledger (s.filterUnknownTxs cfg txsHash fromNode).2).fetchedTxs,
          Refused cfg s data) := by
    rw [hself]
    exact ⟨fun h => ⟨⟨h.known, h.missed⟩, h.fetched⟩, fun h => ⟨h.1.1, h.1.2, h.2⟩⟩
  rw [hknown]
  unfold announced
  -- The cases are those of the handler: an empty announcement, nothing picked, an
  -- error of the ledger, and an import.
  generalize s.filterUnknownTxs cfg txsHash fromNode = filtered at hsize ⊢
  rcases filtered with ⟨t, requestTxs⟩
  simp only [List.length_eq_zero_iff] at hsize ⊢
  by_cases hempty : txsHash = []
  · rw [if_pos hempty]
    exact iff_of_true rfl (Or.inl hempty)
  rw [if_neg hempty, or_iff_right hempty]
  by_cases hnone : requestTxs = []
  · rw [if_pos hnone]
    exact ⟨fun h => ⟨h, Or.inl hnone⟩, fun h => h.1⟩
  rw [if_neg hnone, or_iff_right hnone]
  cases herror : (ledger requestTxs).error with
  | some error =>
      simp only
      exact ⟨fun h => ⟨h, Or.inl (Option.some_ne_none error)⟩, fun h => h.1⟩
  | none =>
      simp only [ne_eq, not_true_eq_false, false_or]
      rw [← import_eq_self_iff cfg s cfg.nodeID]
      constructor
      · intro hsame
        -- If the ledger had brought something, the pool would be larger than it was.
        have hfilter : t = s := by
          rcases import_eq_self_or_size_lt cfg t cfg.nodeID (ledger requestTxs).fetchedTxs with
            hstill | hlt
          · exact hstill.symm.trans hsame
          · rw [hsame, hsize] at hlt
            exact absurd hlt (Nat.lt_irrefl _)
        rw [hfilter] at hsame
        exact ⟨hfilter, hsame⟩
      · rintro ⟨hfilter, hsame⟩
        rw [hfilter]
        exact hsame

/-! ### What a bad packet costs -/

/-- With the bad packets left out, all decode. -/
theorem decodes_onlyDecodable (n : SyncNode) : Decodes cfg (onlyDecodable cfg n) true :=
  fun _ _ hp => (List.mem_filter.mp hp).2

/-- When the packets that do not decode cost nothing. In the group, with the
    exception caught, the pool is what it would be without them: after
    `maintainDownloadingTransactions` alone exactly if the pool refuses all that
    is carried behind the first of them, and after `onPeerTxsStatus` exactly if
    there are none or, besides, the announcement has nothing for the pool. -/
theorem badPacket_iff (cfg : TxPoolConfig) (n : SyncNode) (fromNode : NodeID) (txsHash : HashList)
    (ledger : HashList → LedgerResponse) :
    ((maintainDownloadingTransactions cfg n true).1.storage
        = (maintainDownloadingTransactions cfg (onlyDecodable cfg n) true).1.storage ↔
      LostRefused cfg n) ∧
    ((onPeerTxsStatus cfg n fromNode txsHash true ledger).storage
        = (onPeerTxsStatus cfg (onlyDecodable cfg n) fromNode txsHash true ledger).storage ↔
      (∀ packet ∈ n.downloadTxsBuffer, decodes cfg packet = true) ∨
        (LostRefused cfg n ∧
          (txsHash = [] ∨
            AnnouncementKnown cfg (pooledBefore cfg n) fromNode txsHash ledger))) := by
  have hlost := downloaded_onlyDecodable_eq_iff cfg n
  rcases maintainDownloadingTransactions_eq cfg n true with ⟨_, hmaintain, _⟩
  rcases maintainDownloadingTransactions_eq cfg (onlyDecodable cfg n) true with ⟨_, hclean, _⟩
  rw [hmaintain, hclean]
  refine ⟨?_, ?_⟩
  · rw [downloaded_eq_pooledBefore, eq_comm]
    exact hlost
  · -- If all packets decode, the two nodes are the same.
    by_cases hall : ∀ packet ∈ n.downloadTxsBuffer, decodes cfg packet = true
    · have hsame : onlyDecodable cfg n = n := by
        rw [onlyDecodable, List.filter_eq_self.mpr hall]
      rw [hsame]
      exact iff_of_true rfl (Or.inl hall)
    · have hlostHere := (onPeerTxsStatus_storage cfg n fromNode txsHash true ledger).2
        (fun h => hall (h rfl))
      have hhandled := (onPeerTxsStatus_storage cfg (onlyDecodable cfg n) fromNode txsHash true
        ledger).1 (decodes_onlyDecodable cfg n)
      rw [or_iff_right hall, hlostHere, hhandled, downloaded_eq_pooledBefore, eq_comm, ← hlost,
        ← announced_eq_self_iff]
      constructor
      · intro hsame
        -- Neither the lost packets nor the announcement can have made the pool larger.
        have hpackets : downloaded cfg (onlyDecodable cfg n) true = pooledBefore cfg n := by
          have hgrown := size_announced cfg (downloaded cfg (onlyDecodable cfg n) true) fromNode
            txsHash ledger
          rw [hsame] at hgrown
          rw [downloaded_onlyDecodable] at hgrown ⊢
          exact (importBuffer_eq_self_or_size_lt cfg _ _).resolve_right (Nat.not_lt.mpr hgrown)
        rw [hpackets] at hsame
        exact ⟨hpackets, hsame⟩
      · rintro ⟨hpackets, hsame⟩
        rw [hpackets]
        exact hsame

/-- A node whose framework decodes every packet but the empty one, which stands
    for any bad one. -/
def pickyConfig : TxPoolConfig :=
  { clearConfig with
    framework :=
      { clearConfig.framework with
        createBlock := fun data => if data = [] then none else some (exampleBlock data) } }

/-- A packet that does not decode from one peer, and transaction five from
    another. -/
def badPacketFirst : SyncNode where
  storage := examplePool
  downloadTxsBuffer := [(1, []), (2, [5])]

/-- Without the first packet the pool has transaction five, with it the pool is
    empty. -/
theorem badPacket_counterexample :
    ¬ (maintainDownloadingTransactions pickyConfig badPacketFirst true).1.storage
      = (maintainDownloadingTransactions pickyConfig
          (onlyDecodable pickyConfig badPacketFirst) true).1.storage := by
  intro h
  exact absurd (congrArg MemoryStorage.size h) (by decide)

end TransactionSync

end BcosTxPool
