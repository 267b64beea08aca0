import BcosTxPool.Library.Collect
import BcosTxPool.Theory.Gossip
import BcosTxPool.Theory.Walk

/-!
# Limits

Three loops take a limit: the one that hands transactions out for a seal, the one
that fetches transactions for gossip and the one that selects peers. The
interface says of the second that it is the maximum number of transactions that
can be obtained at a time, and the first has the same name. Each loop appends what
it has found and compares then, between several branches that go on with the
next element. They are loops that `collect`, and so they keep to a limit of one or
more and overrun the limit zero by one, if there is anything to take.

`WithinLimits` is what the limits promise, for any pool, any order of its table
and any lists of nodes. `NothingAtZero` is when the promise holds. The percentage
of peers to forward to is a limit too, by way of the third loop, and zero percent
of the peers are one peer.

## Main definitions

* `lookNew`, `lookSeal`, `lookPeer`: What each loop does with an element.
* `NothingTaken`: A walk has handed nothing out.
* `Traverses`: An order meets every pooled hash once.
* `AllKnow`: There is no peer to select.
* `WithinLimits`: What the limits promise.
* `NothingAtZero`: A limit of zero meets nothing to take.

## Theorems

* `fetchNewTxs_eq_collect`, `size_fetchLoop`, `selectPeers_eq_collect`: The three
  loops.
* `fetchNewTxs_within_iff`, `batchFetchTxs_within_iff`, `selectPeers_within_iff`:
  When each keeps within its limit.
* `batchFetchTxs_within_iff_traverses`, `fetchNewTxs_within_iff_traverses`: The bounds may
  be asked of the traversals of the table, or of any walks.
* `forwardTxsFromP2P_eq_nil_iff`: When nothing is forwarded.
* `withinLimits_iff`: When all of them do.
* `withinLimits_counterexample`: A pool of one transaction, and a limit of zero.
-/

namespace BcosTxPool

open Library TxPool

namespace MemoryStorage

/-! ### Fetches for gossip -/

theorem syncMark_hash (tx : Transaction) :
    ({ tx with synced := true } : Transaction).hash = tx.hash := rfl

/-- The turn of the loop that fetches for gossip. An entry that is not synced is
    picked, and synced by that, so that the next call passes it over. -/
def lookNew (s : MemoryStorage) (txHash : HashType) : MemoryStorage × Option Transaction :=
  match s.txsTable.find? txHash with
  | none => (s, none)
  | some tx =>
    if tx.synced then (s, none)
    else
      ({ s with
        txsTable := s.txsTable.modify txHash (fun tx => { tx with synced := true })
          syncMark_hash },
        some { tx with synced := true })

/-- The loop that fetches for gossip is a loop that collects. It appends what it
    has found, and then compares the length with its limit. -/
theorem fetchNewTxs_eq_collect (txsLimit : Nat) (order : HashList) :
    ∀ (s : MemoryStorage) (fetchedTxs : List Transaction),
      fetchNewTxs txsLimit order s fetchedTxs = collect lookNew txsLimit order s fetchedTxs := by
  induction order with
  | nil => exact fun _ _ => rfl
  | cons txHash order ih =>
      intro s fetchedTxs
      rw [fetchNewTxs, collect, lookNew]
      cases s.txsTable.find? txHash with
      | none => exact ih s fetchedTxs
      | some tx =>
          simp only
          cases tx.synced with
          -- A synced entry has been sent before, and the loop goes on without a
          -- comparison.
          | true => exact ih s fetchedTxs
          | false =>
              simp only [Bool.false_eq_true, if_false]
              rw [ih]

/-- A turn picks nothing exactly where the hash is not pooled or its entry is
    synced. -/
theorem lookNew_eq_none_iff (s : MemoryStorage) (txHash : HashType) :
    (s.lookNew txHash).2 = none ↔
      ∀ entry, s.txsTable.find? txHash = some entry → entry.synced = true := by
  unfold lookNew
  cases s.txsTable.find? txHash with
  | none => exact iff_of_true rfl (fun entry h => absurd h (Option.some_ne_none entry).symm)
  | some tx =>
      simp only [Option.some.injEq, forall_eq']
      cases tx.synced with
      | true => exact iff_of_true rfl rfl
      | false => exact iff_of_false (Option.some_ne_none _) Bool.false_ne_true

/-- A turn that picks nothing marks nothing either. -/
theorem lookNew_fst (s : MemoryStorage) (txHash : HashType) (h : (s.lookNew txHash).2 = none) :
    (s.lookNew txHash).1 = s := by
  unfold lookNew at h ⊢
  cases hfind : s.txsTable.find? txHash with
  | none => rfl
  | some tx =>
      simp only [hfind] at h ⊢
      split
      · rfl
      · -- An entry that is not synced is picked, against the assumption.
        rename_i hsynced
        rw [if_neg hsynced] at h
        cases h

/-- A fetch for gossip keeps within its limit, or the limit is zero and the walk
    meets something new. -/
theorem fetchNewTxs_within_iff (s : MemoryStorage) (txsLimit : Nat) (order : HashList) :
    (fetchNewTxs txsLimit order s []).2.length ≤ txsLimit ↔
      (txsLimit = 0 → ∀ txHash ∈ order, ∀ entry,
        s.txsTable.find? txHash = some entry → entry.synced = true) := by
  rw [fetchNewTxs_eq_collect, collect_length_le_iff]
  -- At the limit zero keeping within it means to pick nothing at all.
  refine imp_congr_right (fun _ => ?_)
  rw [collect_eq_nil_iff lookNew_fst]
  simp only [lookNew_eq_none_iff]

/-! ### Seals -/

/-- The turn of the loop that seals. An entry that passes every check is picked.
    The others are passed over or set aside, and the loop goes on to the next
    one without looking at its limit. -/
def lookSeal (avoidTxs : HashList) (avoidDuplicate : Bool) (s : MemoryStorage)
    (txHash : HashType) : MemoryStorage × Option Transaction :=
  match s.txsTable.find? txHash with
  | none => (s, none)
  | some tx =>
    match s.fetchDecision avoidTxs avoidDuplicate tx with
    | .skip => (s, none)
    | .onChain => (s.setAsideOnChain txHash tx, none)
    | .expired => (s.setAsideExpired txHash tx, none)
    | .fetch => (s.handOut txHash tx, some tx)

/-- The loop fills two blocks, one of system transactions and one of the others,
    and its limit is for both together. Counted so, it is a loop that
    collects. -/
theorem size_fetchLoop (txsLimit : Nat) (avoidTxs : HashList) (avoidDuplicate : Bool)
    (order : HashList) :
    ∀ (s : MemoryStorage) (f : FetchedTxs) (picked : List Transaction), f.size = picked.length →
      (fetchLoop txsLimit avoidTxs avoidDuplicate order s f).2.size
        = (collect (lookSeal avoidTxs avoidDuplicate) txsLimit order s picked).2.length := by
  -- Both loops walk over the same order. The states agree, and the sizes do.
  induction order with
  | nil => exact fun _ _ _ h => h
  | cons txHash order ih =>
      intro s f picked hsize
      rw [fetchLoop, collect, lookSeal]
      cases s.txsTable.find? txHash with
      | none => exact ih s f picked hsize
      | some tx =>
          simp only
          cases s.fetchDecision avoidTxs avoidDuplicate tx with
          | skip => exact ih s f picked hsize
          | onChain => exact ih _ f picked hsize
          | expired => exact ih _ f picked hsize
          | fetch =>
              -- One entry goes into one of the two blocks, and both loops compare.
              have hmore : (f.append tx).size = (picked ++ [tx]).length := by
                rw [size_append, hsize, List.length_append, List.length_singleton]
              simp only [hmore]
              split
              · exact hmore
              · exact ih _ (f.append tx) (picked ++ [tx]) hmore

/-- The checks of a seal do not read the callback, and fewer hashes that are set
    aside let no fewer entries pass. -/
theorem fetchDecision_fetch_of_invalidTxs {s s' : MemoryStorage} {avoidTxs : HashList}
    {avoidDuplicate : Bool} {tx : Transaction} (txSubmitCallback : Option TxSubmitCallback)
    (hinvalid : ∀ txHash ∈ s.invalidTxs, txHash ∈ s'.invalidTxs)
    (hledger : s'.ledgerNonceChecker = s.ledgerNonceChecker)
    (h : s'.fetchDecision avoidTxs avoidDuplicate { tx with submitCallback := txSubmitCallback }
      = .fetch) : s.fetchDecision avoidTxs avoidDuplicate tx = .fetch := by
  -- The checks read the content and the flag `sealed`.
  change s'.fetchDecision avoidTxs avoidDuplicate tx = .fetch at h
  unfold fetchDecision at h ⊢
  rw [hledger] at h
  by_cases haside : tx.hash ∈ s'.invalidTxs
  · -- Set aside in the later pool, it would have been skipped there.
    rw [if_pos haside] at h
    cases h
  · rw [if_neg haside] at h
    rw [if_neg (fun hmem => haside (hinvalid tx.hash hmem))]
    exact h

/-- What a walk that hands nothing out may have done by the way: it has set
    hashes aside and taken callbacks. Neither lets an entry pass that did not
    pass before. -/
structure NothingTaken (s : MemoryStorage) (acc : MemoryStorage × FetchedTxs) : Prop where
  size : acc.2.size = 0
  invalidTxs : ∀ txHash ∈ s.invalidTxs, txHash ∈ acc.1.invalidTxs
  ledger : acc.1.ledgerNonceChecker = s.ledgerNonceChecker
  entries : ∀ txHash entry', acc.1.txsTable.find? txHash = some entry' →
    ∃ entry, s.txsTable.find? txHash = some entry ∧
      entry' = { entry with submitCallback := entry'.submitCallback }

/-- A turn that finds a nonce on the ledger takes the callback of its entry and
    adds two hashes to those set aside, and this keeps the account. -/
theorem NothingTaken.setAsideOnChain {s s' : MemoryStorage} {f : FetchedTxs}
    (h : NothingTaken s (s', f)) (txHash : HashType) (tx : Transaction) :
    NothingTaken s (s'.setAsideOnChain txHash tx, f) where
  size := h.size
  invalidTxs := fun k hk => (SortedSet.mem_insert _ _ _).mpr
    (Or.inr ((SortedSet.mem_insert _ _ _).mpr (Or.inr (h.invalidTxs k hk))))
  ledger := h.ledger
  entries := by
    intro k entry' hfind
    simp only [MemoryStorage.setAsideOnChain, KeyedTable.find?_modify] at hfind
    -- The entry that has just lost its callback, and all the others.
    split at hfind
    · rcases Option.map_eq_some_iff.mp hfind with ⟨u, hu, rfl⟩
      rcases h.entries k u hu with ⟨entry, hentry, heq⟩
      exact ⟨entry, hentry, by rw [heq]⟩
    · exact h.entries k entry' hfind

/-- If no entry passes the checks, a walk hands nothing out: those that it sets
    aside do not let another one pass. -/
theorem fetchLoop_nothingTaken {s : MemoryStorage} {avoidTxs : HashList} {avoidDuplicate : Bool}
    (h : ∀ txHash entry, s.txsTable.find? txHash = some entry →
      s.fetchDecision avoidTxs avoidDuplicate entry ≠ .fetch) (txsLimit : Nat)
    (order : HashList) :
    NothingTaken s (fetchLoop txsLimit avoidTxs avoidDuplicate order s {}) := by
  refine fetchLoop_invariant (NothingTaken s) ?_ ?_ ?_ ?_
  · -- A nonce on the ledger, and then a block limit that has passed.
    exact fun s' f txHash tx _ _ hs' => hs'.setAsideOnChain txHash tx
  · exact fun s' f txHash tx _ _ hs' => ⟨hs'.size,
      fun k hk => (SortedSet.mem_insert _ _ _).mpr (Or.inr (hs'.invalidTxs k hk)), hs'.ledger,
      hs'.entries⟩
  · -- An entry that passes where the walk meets it has passed in the beginning.
    intro s' f txHash tx hvisits hfetch hs'
    rcases hs'.entries txHash tx hvisits.find with ⟨entry, hentry, heq⟩
    rw [heq] at hfetch
    exact absurd (fetchDecision_fetch_of_invalidTxs _ hs'.invalidTxs hs'.ledger hfetch)
      (h txHash entry hentry)
  · exact ⟨rfl, fun _ hk => hk, rfl, fun _ entry' hfind => ⟨entry', hfind, rfl⟩⟩

theorem size_batchFetchTxs (cfg : TxPoolConfig) (s : MemoryStorage) (order : HashList)
    (txsLimit : Nat) (avoidTxs : HashList) (avoidDuplicate : Bool) :
    (s.batchFetchTxs cfg order txsLimit avoidTxs avoidDuplicate).2.size
      = (collect (lookSeal avoidTxs avoidDuplicate) txsLimit order s []).2.length :=
  size_fetchLoop txsLimit avoidTxs avoidDuplicate order s {} [] rfl

/-- A walk that keeps within the limit zero begins with no entry that passes the
    checks. It would have handed that entry out before it compared. -/
theorem not_fetch_of_within (cfg : TxPoolConfig) (s : MemoryStorage) (avoidTxs : HashList)
    (avoidDuplicate : Bool) {txHash : HashType} {order : HashList} {entry : Transaction}
    (hfind : s.txsTable.find? txHash = some entry)
    (h : (s.batchFetchTxs cfg (txHash :: order) 0 avoidTxs avoidDuplicate).2.size ≤ 0) :
    s.fetchDecision avoidTxs avoidDuplicate entry ≠ .fetch := by
  intro hfetch
  rw [size_batchFetchTxs, collect_length_le_iff] at h
  -- The first turn of the walk is the one that would have picked it.
  have hlook := ((collect_cons_eq_nil_iff 0 txHash order s).mp (h rfl)).1
  simp only [lookSeal, hfind, hfetch] at hlook
  cases hlook

/-- A seal keeps within its limit in whatever order it walks over the table, or
    the limit is zero and an entry passes the checks. The walk that begins with
    that entry is the one that hands out too much. -/
theorem batchFetchTxs_within_iff (cfg : TxPoolConfig) (s : MemoryStorage) (txsLimit : Nat)
    (avoidTxs : HashList) (avoidDuplicate : Bool) :
    (∀ order, (s.batchFetchTxs cfg order txsLimit avoidTxs avoidDuplicate).2.size ≤ txsLimit) ↔
      (txsLimit = 0 → ∀ txHash entry, s.txsTable.find? txHash = some entry →
        s.fetchDecision avoidTxs avoidDuplicate entry ≠ .fetch) := by
  constructor
  · intro hwithin hzero txHash entry hfind
    subst hzero
    exact not_fetch_of_within cfg s avoidTxs avoidDuplicate hfind (hwithin [txHash])
  · -- With nothing that passes no order can find anything.
    intro hnone order
    rw [size_batchFetchTxs, collect_length_le_iff]
    intro hzero
    have hempty := (fetchLoop_nothingTaken (hnone hzero) txsLimit order).size
    rw [size_fetchLoop txsLimit avoidTxs avoidDuplicate order s {} [] rfl] at hempty
    exact List.length_eq_zero_iff.mp hempty

/-! ### Traversals -/

/-- The order is that of a traversal, which meets every pooled hash once and no
    other. -/
def Traverses (s : MemoryStorage) (order : HashList) : Prop :=
  order.Perm (s.txsTable.entries.map (fun tx => tx.hash))

/-- A traversal may begin with any entry. -/
theorem exists_traverses (s : MemoryStorage) {txHash : HashType} {entry : Transaction}
    (hfind : s.txsTable.find? txHash = some entry) : ∃ order, Traverses s (txHash :: order) := by
  have hentry := (KeyedTable.find?_eq_some_iff s.txsTable txHash entry).mp hfind
  -- The entry is moved to the front, and the rest follows in the order of the
  -- table.
  have hmem : txHash ∈ s.txsTable.entries.map (fun tx => tx.hash) :=
    List.mem_map.mpr ⟨entry, hentry.1, hentry.2⟩
  exact ⟨_, (List.perm_cons_erase hmem).symm⟩

/-- If all traversals keep a seal within its limit, no walk at all overruns it.
    So the bound may be asked of lists that no hash map would produce. -/
theorem batchFetchTxs_within_iff_traverses (cfg : TxPoolConfig) (s : MemoryStorage)
    (txsLimit : Nat) (avoidTxs : HashList) (avoidDuplicate : Bool) :
    (∀ order, Traverses s order →
        (s.batchFetchTxs cfg order txsLimit avoidTxs avoidDuplicate).2.size ≤ txsLimit) ↔
      ∀ order, (s.batchFetchTxs cfg order txsLimit avoidTxs avoidDuplicate).2.size
        ≤ txsLimit := by
  refine ⟨fun hwithin => ?_, fun hwithin order _ => hwithin order⟩
  rw [batchFetchTxs_within_iff]
  intro hzero txHash entry hfind
  subst hzero
  -- The walk that begins with the entry may be taken for a traversal.
  rcases s.exists_traverses hfind with ⟨order, horder⟩
  exact not_fetch_of_within cfg s avoidTxs avoidDuplicate hfind (hwithin _ horder)

/-- The same for a fetch for gossip: the traversals of the table are enough to
    tell whether any walk overruns the limit. -/
theorem fetchNewTxs_within_iff_traverses (s : MemoryStorage) (txsLimit : Nat) :
    (∀ order, Traverses s order → (fetchNewTxs txsLimit order s []).2.length ≤ txsLimit) ↔
      ∀ order, (fetchNewTxs txsLimit order s []).2.length ≤ txsLimit := by
  refine ⟨fun hwithin order => ?_, fun hwithin order _ => hwithin order⟩
  rw [fetchNewTxs_within_iff]
  intro hzero txHash _ entry hfind
  rcases s.exists_traverses hfind with ⟨rest, hrest⟩
  exact (fetchNewTxs_within_iff s txsLimit _).mp (hwithin _ hrest) hzero txHash
    List.mem_cons_self entry hfind

end MemoryStorage

namespace TransactionSync

variable (cfg : TxPoolConfig) (connectedPeers : Finset NodeID) (consensusNodeList : List NodeID)

/-! ### Peers -/

/-- The turn of the loop that selects peers. A connected node other than this
    one that is not known to have the transaction is picked, and known to have
    it by that. -/
def lookPeer (tx : Transaction) (nodeId : NodeID) : Transaction × Option NodeID :=
  if nodeId ∈ connectedPeers ∧ nodeId ≠ cfg.nodeID ∧ ¬ nodeId ∈ tx.knownNodes then
    ({ tx with knownNodes := Insert.insert nodeId tx.knownNodes }, some nodeId)
  else (tx, none)

/-- The loop that selects peers collects as well. Its three tests stand one
    behind the other and each of them goes on with the next node, so the
    comparison is made only after a node has been appended. -/
theorem selectPeers_eq_collect (expectedSize : Nat) :
    ∀ (tx : Transaction) (selectedPeers : List NodeID),
      selectPeers cfg connectedPeers expectedSize consensusNodeList tx selectedPeers
        = collect (lookPeer cfg connectedPeers) expectedSize consensusNodeList tx
          selectedPeers := by
  induction consensusNodeList with
  | nil => exact fun _ _ => rfl
  | cons nodeId consensusNodeList ih =>
      intro tx selectedPeers
      rw [selectPeers, collect, lookPeer]
      by_cases hconnected : nodeId ∈ connectedPeers
      · rw [if_neg (not_not_intro hconnected)]
        by_cases hself : nodeId = cfg.nodeID
        · rw [if_pos hself, if_neg (fun h => h.2.1 hself)]
          exact ih tx selectedPeers
        · rw [if_neg hself]
          by_cases hknown : nodeId ∈ tx.knownNodes
          · rw [if_pos hknown, if_neg (fun h => h.2.2 hknown)]
            exact ih tx selectedPeers
          · -- Past the three tests the node is selected and noted.
            have hpicked : nodeId ∈ connectedPeers ∧ nodeId ≠ cfg.nodeID ∧
                ¬ nodeId ∈ tx.knownNodes := ⟨hconnected, hself, hknown⟩
            rw [if_neg hknown, if_pos hpicked]
            simp only [ih]
      · rw [if_pos hconnected, if_neg (fun h => hconnected h.1)]
        exact ih tx selectedPeers

/-- A turn picks nothing where one of the three tests fails. -/
theorem lookPeer_eq_none_iff (tx : Transaction) (nodeId : NodeID) :
    (lookPeer cfg connectedPeers tx nodeId).2 = none ↔
      (nodeId ∈ connectedPeers → nodeId ≠ cfg.nodeID → nodeId ∈ tx.knownNodes) := by
  unfold lookPeer
  split
  · rename_i h
    exact iff_of_false (Option.some_ne_none nodeId) (fun hno => h.2.2 (hno h.1 h.2.1))
  · rename_i h
    refine iff_of_true rfl (fun hconnected hself => ?_)
    by_contra hknown
    exact h ⟨hconnected, hself, hknown⟩

/-- A turn that picks nothing leaves the known nodes alone. -/
theorem lookPeer_fst (tx : Transaction) (nodeId : NodeID)
    (h : (lookPeer cfg connectedPeers tx nodeId).2 = none) :
    (lookPeer cfg connectedPeers tx nodeId).1 = tx := by
  unfold lookPeer at h ⊢
  split at h
  · cases h
  · rename_i hskip
    rw [if_neg hskip]

/-- There is nobody left to tell: every connected consensus node but this one is
    known to have the transaction. -/
def AllKnow (tx : Transaction) : Prop :=
  ∀ node ∈ consensusNodeList, node ∈ connectedPeers → node ≠ cfg.nodeID → node ∈ tx.knownNodes

/-- No peer is selected exactly if all of them know the transaction, whatever
    the expected size is. -/
theorem selectPeers_eq_nil_iff (expectedSize : Nat) (tx : Transaction) :
    (selectPeers cfg connectedPeers expectedSize consensusNodeList tx []).2 = [] ↔
      AllKnow cfg connectedPeers consensusNodeList tx := by
  rw [selectPeers_eq_collect, collect_eq_nil_iff (lookPeer_fst cfg connectedPeers)]
  simp only [lookPeer_eq_none_iff]
  rfl

/-- A selection keeps within the expected size, or that is zero and there is a
    peer to select. Unlike the walk over the table, this one has its order from
    the list of consensus nodes, and one list is enough to speak of. -/
theorem selectPeers_within_iff (expectedSize : Nat) (tx : Transaction) :
    (selectPeers cfg connectedPeers expectedSize consensusNodeList tx []).2.length
        ≤ expectedSize ↔
      (expectedSize = 0 → AllKnow cfg connectedPeers consensusNodeList tx) := by
  rw [← selectPeers_eq_nil_iff cfg connectedPeers consensusNodeList expectedSize,
    selectPeers_eq_collect]
  -- The bound of the loop is that of every loop that collects.
  exact collect_length_le_iff (lookPeer cfg connectedPeers) expectedSize consensusNodeList tx

/-- Nothing is forwarded, whatever the percentage, if all peers are known to
    have every transaction, and only then. So zero percent is no way to switch
    forwarding off. -/
theorem forwardTxsFromP2P_eq_nil_iff (forwardPercent : Nat) (txs : List Transaction) :
    (forwardTxsFromP2P cfg forwardPercent connectedPeers consensusNodeList txs).2 = [] ↔
      ∀ tx ∈ txs, AllKnow cfg connectedPeers consensusNodeList tx := by
  constructor
  · intro hnone tx htx
    refine (selectPeers_eq_nil_iff cfg connectedPeers consensusNodeList
      ((connectedPeers.card * forwardPercent + 99) / 100) tx).mp ?_
    rw [List.eq_nil_iff_forall_not_mem]
    intro peer hpeer
    -- A peer that is selected is sent the hash.
    have hstatuses := statuses_forwardTxsFromP2P cfg connectedPeers consensusNodeList
      forwardPercent peer txs
    rw [hnone] at hstatuses
    exact absurd (hstatuses.mem_iff.mpr (List.mem_map.mpr
      ⟨tx, List.mem_filter.mpr ⟨htx, decide_eq_true hpeer⟩, rfl⟩)) List.not_mem_nil
  · intro hknow
    -- No turn selects a peer, so the map stays empty.
    have hmap := run_invariant (forwardTx cfg connectedPeers consensusNodeList
      ((connectedPeers.card * forwardPercent + 99) / 100)) (fun acc => acc.2 = [])
      (AllKnow cfg connectedPeers consensusNodeList) (fun acc tx htx hacc => ?_) txs ([], [])
      hknow rfl
    · rw [forwardTxsFromP2P]
      exact List.map_eq_nil_iff.mpr hmap
    · -- A turn that selects nobody adds nothing to the map.
      have hnone := (selectPeers_eq_nil_iff cfg connectedPeers consensusNodeList
        ((connectedPeers.card * forwardPercent + 99) / 100) tx).mpr htx
      simp only [forwardTx, hnone, List.foldl_nil]
      exact hacc

/-! ### All limits -/

/-- What the limits promise: so much is returned and no more, and nothing is
    marked that is not returned. With zero percent of the peers nothing is
    forwarded. The order of a walk is any list of hashes here. Asked of the
    traversals of the table alone, the bounds say the same. -/
structure WithinLimits (s : MemoryStorage) (avoidTxs : HashList) (avoidDuplicate : Bool)
    (tx : Transaction) (txs : List Transaction)
    (sealLimit fetchLimit expectedSize forwardPercent : Nat) : Prop where
  batchFetchTxs : ∀ order,
    (s.batchFetchTxs cfg order sealLimit avoidTxs avoidDuplicate).2.size ≤ sealLimit
  fetchNewTxs : ∀ order, (s.fetchNewTxs fetchLimit order []).2.length ≤ fetchLimit
  synced : ∀ order txHash,
    ¬ txHash ∈ (s.fetchNewTxs fetchLimit order []).2.map (fun tx => tx.hash) →
    (s.fetchNewTxs fetchLimit order []).1.txsTable.find? txHash = s.txsTable.find? txHash
  peers : (selectPeers cfg connectedPeers expectedSize consensusNodeList tx []).2.length
    ≤ expectedSize
  knownNodes : ∀ node,
    ¬ node ∈ (selectPeers cfg connectedPeers expectedSize consensusNodeList tx []).2 →
    (node ∈ (selectPeers cfg connectedPeers expectedSize consensusNodeList tx []).1.knownNodes ↔
      node ∈ tx.knownNodes)
  forwarded : forwardPercent = 0 →
    (forwardTxsFromP2P cfg forwardPercent connectedPeers consensusNodeList txs).2 = []

/-- A limit of zero meets nothing to take: no pooled entry passes the checks
    of a seal, every pooled entry is synced, all peers are known to have the
    transaction, and to have those that zero percent of them are to be told
    of. -/
structure NothingAtZero (s : MemoryStorage) (avoidTxs : HashList) (avoidDuplicate : Bool)
    (tx : Transaction) (txs : List Transaction)
    (sealLimit fetchLimit expectedSize forwardPercent : Nat) : Prop where
  batchFetchTxs : sealLimit = 0 → ∀ txHash entry, s.txsTable.find? txHash = some entry →
    s.fetchDecision avoidTxs avoidDuplicate entry ≠ .fetch
  fetchNewTxs : fetchLimit = 0 → ∀ txHash entry, s.txsTable.find? txHash = some entry →
    entry.synced = true
  peers : expectedSize = 0 → AllKnow cfg connectedPeers consensusNodeList tx
  forwarded : forwardPercent = 0 → ∀ tx ∈ txs, AllKnow cfg connectedPeers consensusNodeList tx

/-- The limits are kept exactly where a limit of zero meets nothing to take. -/
theorem withinLimits_iff (s : MemoryStorage) (avoidTxs : HashList) (avoidDuplicate : Bool)
    (tx : Transaction) (txs : List Transaction)
    (sealLimit fetchLimit expectedSize forwardPercent : Nat) :
    WithinLimits cfg connectedPeers consensusNodeList s avoidTxs avoidDuplicate tx txs sealLimit
        fetchLimit expectedSize forwardPercent ↔
      NothingAtZero cfg connectedPeers consensusNodeList s avoidTxs avoidDuplicate tx txs
        sealLimit fetchLimit expectedSize forwardPercent := by
  have hseal := s.batchFetchTxs_within_iff cfg sealLimit avoidTxs avoidDuplicate
  have hfetch := fun order => s.fetchNewTxs_within_iff fetchLimit order
  have hselect := selectPeers_within_iff cfg connectedPeers consensusNodeList expectedSize tx
  have hforward := forwardTxsFromP2P_eq_nil_iff cfg connectedPeers consensusNodeList
    forwardPercent txs
  constructor
  · intro h
    refine ⟨hseal.mp h.batchFetchTxs, ?_, hselect.mp h.peers,
      fun hzero => hforward.mp (h.forwarded hzero)⟩
    intro hzero txHash entry hfind
    -- The walk that meets this entry first decides about it.
    exact (hfetch [txHash]).mp (h.fetchNewTxs [txHash]) hzero txHash List.mem_cons_self entry hfind
  · intro h
    constructor
    · exact hseal.mpr h.batchFetchTxs
    · exact fun order => (hfetch order).mpr (fun hzero txHash _ => h.fetchNewTxs hzero txHash)
    · -- A fetch writes only to the entries it returns, whatever its limit.
      intro order txHash hnew
      rcases s.fetchNewTxs_takesNew fetchLimit order [] with ⟨taken, heq, htakes⟩
      rw [heq, List.nil_append] at hnew
      rw [htakes.find, if_neg hnew]
    · exact hselect.mpr h.peers
    · -- A selection notes only the nodes it selects.
      intro node hnew
      have hselects := peersOf_selects cfg connectedPeers consensusNodeList expectedSize tx
      exact (hselects.knownNodes node).trans (or_iff_left hnew)
    · exact fun hzero => hforward.mpr (h.forwarded hzero)

/-- A pool that has taken transaction five from peer one. Peer two is not known
    to have it. -/
def zeroLimitPool : MemoryStorage :=
  (importDownloadedTxs exampleConfig examplePool 1 [exampleTx 5 7 1] none).1

/-- With every limit zero the transaction is handed out, fetched, and its hash
    sent to peer two. -/
theorem withinLimits_counterexample :
    (zeroLimitPool.batchFetchTxs exampleConfig [5] 0 [] true).2.size = 1 ∧
    (zeroLimitPool.fetchNewTxs 0 [5] []).2.length = 1 ∧
    (selectPeers exampleConfig {2} 0 [2] (createTransaction (exampleTx 5 7 1)) []).2 = [2] ∧
    (forwardTxsFromP2P exampleConfig 0 {2} [2] [createTransaction (exampleTx 5 7 1)]).2
      = [⟨2, .txsStatusPacket [5]⟩] ∧
    ¬ WithinLimits exampleConfig {2} [2] zeroLimitPool [] true
      (createTransaction (exampleTx 5 7 1)) [createTransaction (exampleTx 5 7 1)] 0 0 0 0 :=
  ⟨by decide, by decide, by decide, by decide,
    fun h => absurd (h.fetchNewTxs [5]) (by decide)⟩

end TransactionSync

end BcosTxPool
