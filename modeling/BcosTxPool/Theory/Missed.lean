import BcosTxPool.Library.Account
import BcosTxPool.Library.Gauge
import BcosTxPool.Theory.BadPacket
import BcosTxPool.Theory.Handlers
import BcosTxPool.Theory.Walk

/-!
# The Hashes Asked For

What is in `m_missedTxs`, and who has put it there. The set is all the sync
module remembers of its requests, and an announcement asks for nothing that is
in it. So the history of the set is the history of what is not asked for.

Two kinds of call write the set. `filterUnknownTxs` puts in what a peer has
announced and the pool does not hold, and it empties the set when that makes it
as large as the pool may be. A submission that brings a transaction in takes
its hash out. A lookup for a proposal or for a block to be filled writes nothing
there, although it asks the same peers, and neither does the answer to a
request: what it does not bring stays in the set.

Hence a hash is in the set exactly as long as a recording of it is outstanding,
which is the debt of a gauge: `Records` makes it and `Forgets` settles it. The
run of a node is a run of calls on its pool, so this is a statement about its
events.

Where only announcements have recorded the hash, each of them has also made a
request for it, because the ledger did not have it. An askable hash is one whose
requests have all ended without it. So what keeps it from being asked for is a
request that has failed.

## Main definitions

* `Records`, `Forgets`: The calls that put a hash into the set and take it out.
* `poolOps`: The operations on the pool that an event of a node amounts to.
* `AnnouncesOnly`: The hash is announced only where the ledger lacks it.

## Theorems

* `mem_missedTxs_step`, `mem_missedTxs_run`: When a hash is in the set.
* `syncStep_storage`: An event is a run of its operations on the pool.
* `missed_iff_owed`: When a hash is in the set after a run of a node.
* `requested_iff_not_missed`: When a hash is asked for that no packet can bring.
* `silenced_by_ended`: What keeps an askable hash from being asked for.
-/

namespace BcosTxPool

open Library

namespace MemoryStorage

variable (cfg : TxPoolConfig)

/-! ### The calls that write the set -/

/-- The call records the hash: a peer announces it, and the pool does not hold
    it. -/
def Records (txHash : HashType) (s : MemoryStorage) (call : Op) : Prop :=
  ∃ txsHash peer, call = .filterUnknownTxs txsHash peer ∧ txHash ∈ txsHash ∧
    s.exist txHash = false

/-- The call removes the hash from the set. It brings the transaction in, or it
    announces so many new hashes that the set would reach the limit of the pool
    and is emptied. What it records itself is then gone as well. -/
def Forgets (txHash : HashType) (s : MemoryStorage) (call : Op) : Prop :=
  (∃ tx txSubmitCallback enforceImport,
    call = .submitTransaction tx txSubmitCallback enforceImport ∧ tx.1.hash = txHash ∧
    Admits cfg s tx.1 enforceImport) ∨
  ∃ txsHash peer, call = .filterUnknownTxs txsHash peer ∧
    cfg.poolLimit ≤ s.missedTxs.size + (s.filterUnknownTxs cfg txsHash peer).2.length

/-- A submission that does not bring its transaction in leaves the set alone,
    also where it seals an entry. -/
theorem missedTxs_of_not_admits (s : MemoryStorage) (tx : Transaction)
    (txSubmitCallback : Option TxSubmitCallback) {enforceImport : Bool}
    (h : ¬ Admits cfg s tx enforceImport) :
    (s.submitTransaction cfg tx txSubmitCallback enforceImport).1.missedTxs = s.missedTxs := by
  -- A rejected normal submission changes nothing at all.
  cases enforceImport with
  | false => rw [(s.submitTransaction_rejected cfg tx txSubmitCallback h).2]
  | true =>
      have hsubmit : s.submitTransaction cfg tx txSubmitCallback true
          = s.enforceSubmitTransaction cfg tx := rfl
      rw [hsubmit]
      rcases s.enforceSubmitTransaction_of_not_admits cfg tx h with he | ⟨_, entry, _, _, he⟩
      · rw [he]
      · rw [he]
        rfl

/-- The second loop of the filter keeps the set in step with the hashes it has
    picked: what it asks for it notes, and it notes nothing else. -/
theorem foldl_filterUnknownTx_missed (s : MemoryStorage) (txs : HashList) (txHash : HashType) :
    txHash ∈ (txs.foldl filterUnknownTx (s, [])).1.missedTxs ↔
      txHash ∈ s.missedTxs ∨ txHash ∈ (txs.foldl filterUnknownTx (s, [])).2 := by
  refine run_invariant filterUnknownTx
    (fun acc => txHash ∈ acc.1.missedTxs ↔ txHash ∈ s.missedTxs ∨ txHash ∈ acc.2)
    (fun _ => True) (fun acc k _ hacc => ?_) txs (s, []) (fun _ _ => trivial)
    (or_iff_left List.not_mem_nil).symm
  unfold filterUnknownTx
  split
  · exact hacc
  · split
    · exact hacc
    · -- What is picked goes into both.
      simp only [SortedSet.mem_insert, List.mem_append, List.mem_singleton, hacc]
      tauto

/-- After the filter the set holds what it held and what is new, unless that
    makes it reach the limit. -/
theorem mem_missedTxs_filterUnknownTxs (s : MemoryStorage) (txsHash : HashList) (peer : NodeID)
    (txHash : HashType) :
    txHash ∈ (s.filterUnknownTxs cfg txsHash peer).1.missedTxs ↔
      ¬ cfg.poolLimit ≤ s.missedTxs.size + (s.filterUnknownTxs cfg txsHash peer).2.length ∧
      (txHash ∈ s.missedTxs ∨ (txHash ∈ txsHash ∧ s.exist txHash = false)) := by
  have hmarked := foldl_appendKnownNode peer txsHash s
  have hpicked := filterUnknownTxs_iff cfg s txsHash peer txHash
  rcases foldl_filterUnknownTx_eq txsHash
    (txsHash.foldl (fun s k => s.appendKnownNode k peer) s, []) with
    ⟨missedTxs, picked, heq, hsize, _⟩
  have hloop := foldl_filterUnknownTx_missed
    (txsHash.foldl (fun s k => s.appendKnownNode k peer) s) txsHash txHash
  -- The hashes picked and the set before it is compared with the limit, both as the
  -- loop has left them.
  have hsecond : (s.filterUnknownTxs cfg txsHash peer).2 = picked := by
    unfold filterUnknownTxs
    simp only [heq, List.nil_append]
  have hfirst : (s.filterUnknownTxs cfg txsHash peer).1.missedTxs
      = if missedTxs.size ≥ cfg.poolLimit then SortedSet.empty else missedTxs := by
    unfold filterUnknownTxs
    simp only [heq]
    split
    · rfl
    · rfl
  rw [heq, hmarked.2] at hloop
  rw [hmarked.2] at hsize
  rw [hsecond] at hpicked ⊢
  simp only [List.nil_append] at hloop
  rw [hfirst, ← hsize]
  by_cases hfull : missedTxs.size ≥ cfg.poolLimit
  · rw [if_pos hfull]
    exact iff_of_false (SortedSet.mem_empty txHash) (fun h => h.1 hfull)
  · -- What was announced and is not pooled is picked, or it was there before.
    rw [if_neg hfull, hloop, hpicked, and_iff_right hfull]
    tauto

/-- What a cleanup, a block result, a mark, a seal or a gossip call does to the
    pool does not concern the set. -/
theorem missedTxs_step_of_other {op : TxPool.Op} {call : Op} (hcall : TxPool.NodeCall cfg op call)
    (s : MemoryStorage)
    (hsubmit : ∀ tx txSubmitCallback enforceImport,
      call ≠ .submitTransaction tx txSubmitCallback enforceImport)
    (hfilter : ∀ txsHash peer, call ≠ .filterUnknownTxs txsHash peer) :
    (step cfg s call).missedTxs = s.missedTxs := by
  -- Call by call: each is known by the fields it writes, and the set is none.
  cases call with
  | submitTransaction tx txSubmitCallback enforceImport => exact absurd rfl (hsubmit _ _ _)
  | filterUnknownTxs txsHash peer => exact absurd rfl (hfilter _ _)
  | notifyInvalidReceipt txHash status txSubmitCallback =>
      cases txSubmitCallback with
      | none => rfl
      | some callback => rfl
  | batchFetchTxs order txsLimit avoidTxs avoidDuplicate =>
      exact batchFetchTxs_invariant cfg (fun t => t.missedTxs = s.missedTxs)
        (fun _ _ _ _ _ h => h) (fun _ _ _ _ _ h => h) (fun _ _ _ _ _ h => h)
        (fun _ _ _ h => h) rfl
  | removeInvalidTxs =>
      have hsame : (s.removeInvalidTxs cfg).missedTxs = s.missedTxs := by
        rcases s.removeInvalidTxs_eq cfg with ⟨_, h⟩ | ⟨n, rs, rs', h⟩
        · rw [h]
        · rw [h]
      exact hsame
  | batchRemove batchId txsResult =>
      have hsame : (s.batchRemove cfg batchId txsResult).missedTxs = s.missedTxs := by
        rcases s.batchRemove_eq cfg batchId txsResult with ⟨n, height, rs, rs', h⟩
        rw [h]
      exact hsame
  | batchMarkTxs txsHashList batchId batchHash sealFlag =>
      refine run_invariant (batchMarkTx batchId batchHash sealFlag)
        (fun t => t.missedTxs = s.missedTxs) (fun _ => True) (fun t k _ ht => ?_) txsHashList s
        (fun _ _ => trivial) rfl
      rcases t.batchMarkTx_cases batchId batchHash sealFlag k with
        ⟨_, h⟩ | ⟨tx, _, _, h⟩ | ⟨tx, _, _, h⟩
      · rw [h]
        exact ht
      · rw [h]
        exact ht
      · rw [h]
        exact ht
  | batchMarkAllTxs sealFlag =>
      have hsame : (s.batchMarkAllTxs cfg sealFlag).missedTxs = s.missedTxs := by
        unfold batchMarkAllTxs
        simp only
        -- The mark writes the table and the counter, and then reports.
        rcases notifyUnsealedTxsSize_eq cfg (if sealFlag = true then _ else _) with ⟨n, rs, h, _⟩
        rw [h]
        split
        · rfl
        · rfl
      exact hsame
  | fetchNewTxs order txsLimit =>
      exact fetchNewTxs_invariant (fun t => t.missedTxs = s.missedTxs) (fun _ _ h => h) txsLimit
        order s [] rfl
  | appendKnownNode txHash node => rfl
  | _ => exact hcall.elim

/-- What one call does to the set: a hash is in it afterwards if it was, or the
    call records it, and the call does not forget it. -/
theorem mem_missedTxs_step {op : TxPool.Op} {call : Op} (hcall : TxPool.NodeCall cfg op call)
    (s : MemoryStorage) (txHash : HashType) :
    txHash ∈ (step cfg s call).missedTxs ↔
      ¬ Forgets cfg txHash s call ∧ (txHash ∈ s.missedTxs ∨ Records txHash s call) := by
  by_cases hsubmit : ∃ tx txSubmitCallback enforceImport,
      call = .submitTransaction tx txSubmitCallback enforceImport
  · rcases hsubmit with ⟨tx, txSubmitCallback, enforceImport, rfl⟩
    -- A submission records nothing, and it forgets the hash it brings in.
    have hrecords : ¬ Records txHash s (.submitTransaction tx txSubmitCallback enforceImport) := by
      rintro ⟨_, _, hfilter, _⟩
      cases hfilter
    have hforgets : Forgets cfg txHash s (.submitTransaction tx txSubmitCallback enforceImport) ↔
        tx.1.hash = txHash ∧ Admits cfg s tx.1 enforceImport := by
      constructor
      · rintro (⟨_, _, _, heq, hhash, hadmits⟩ | ⟨_, _, hfilter, _⟩)
        · cases heq
          exact ⟨hhash, hadmits⟩
        · cases hfilter
      · rintro ⟨hhash, hadmits⟩
        exact Or.inl ⟨tx, txSubmitCallback, enforceImport, rfl, hhash, hadmits⟩
    rw [hforgets, or_iff_left hrecords, step]
    by_cases hadmits : Admits cfg s tx.1 enforceImport
    · rw [(s.submitTransaction_of_admits cfg tx.1 txSubmitCallback hadmits).2.missed,
        and_iff_left hadmits, and_comm]
      exact and_congr_left (fun _ => not_congr eq_comm)
    · rw [s.missedTxs_of_not_admits cfg tx.1 txSubmitCallback hadmits]
      exact (and_iff_right (fun h => hadmits h.2)).symm
  by_cases hfilter : ∃ txsHash peer, call = .filterUnknownTxs txsHash peer
  · rcases hfilter with ⟨txsHash, peer, rfl⟩
    -- A filter does both, and the forgetting comes last.
    have hrecords : Records txHash s (.filterUnknownTxs txsHash peer) ↔
        txHash ∈ txsHash ∧ s.exist txHash = false := by
      constructor
      · rintro ⟨_, _, heq, h⟩
        cases heq
        exact h
      · exact fun h => ⟨txsHash, peer, rfl, h⟩
    have hforgets : Forgets cfg txHash s (.filterUnknownTxs txsHash peer) ↔
        cfg.poolLimit ≤ s.missedTxs.size + (s.filterUnknownTxs cfg txsHash peer).2.length := by
      constructor
      · rintro (⟨_, _, _, heq, _⟩ | ⟨_, _, heq, h⟩)
        · cases heq
        · cases heq
          exact h
      · exact fun h => Or.inr ⟨txsHash, peer, rfl, h⟩
    rw [hrecords, hforgets]
    exact s.mem_missedTxs_filterUnknownTxs cfg txsHash peer txHash
  · -- The other calls neither record nor forget.
    have hsame := missedTxs_step_of_other cfg hcall s
      (fun tx txSubmitCallback enforceImport h =>
        hsubmit ⟨tx, txSubmitCallback, enforceImport, h⟩)
      (fun txsHash peer h => hfilter ⟨txsHash, peer, h⟩)
    have hrecords : ¬ Records txHash s call := by
      rintro ⟨txsHash, peer, h, _⟩
      exact hfilter ⟨txsHash, peer, h⟩
    have hforgets : ¬ Forgets cfg txHash s call := by
      rintro (⟨tx, txSubmitCallback, enforceImport, h, _⟩ | ⟨txsHash, peer, h, _⟩)
      · exact hsubmit ⟨tx, txSubmitCallback, enforceImport, h⟩
      · exact hfilter ⟨txsHash, peer, h⟩
    rw [hsame, or_iff_left hrecords, and_iff_right hforgets]

/-- A hash is in the set after a run of operations exactly if some call has
    recorded it and none has forgotten it from then on, or it was there at first
    and none has forgotten it. -/
theorem mem_missedTxs_run (s : MemoryStorage) (ops : List TxPool.Op) (txHash : HashType) :
    txHash ∈ (run (TxPool.step cfg) s ops).missedTxs ↔
      Owed (step cfg) (Records txHash) (Forgets cfg txHash) s (TxPool.runCalls cfg s ops) ∨
      (txHash ∈ s.missedTxs ∧
        Along (step cfg) (fun t call => ¬ Forgets cfg txHash t call) s
          (TxPool.runCalls cfg s ops)) := by
  rw [TxPool.run_eq_run_runCalls]
  -- The gauge rule of the library: the step lemma is all that it asks for.
  refine holds_iff_owed (step cfg) (F := fun t => txHash ∈ t.missedTxs)
    (P := fun call => ∃ op ∈ ops, TxPool.NodeCall cfg op call) (fun t call hcall => ?_) s _
    (fun call hmem => TxPool.runCalls_nodeCall cfg ops call s hmem)
  rcases hcall with ⟨op, _, hcall⟩
  exact mem_missedTxs_step cfg hcall t txHash

end MemoryStorage

namespace TransactionSync

open MemoryStorage

variable (cfg : TxPoolConfig)

/-! ### The events of a node, on its pool -/

/-- The imports of the packets downloaded: of those before the first that does
    not decode. -/
def downloadOps (n : SyncNode) (existsInGroup : Bool) : List TxPool.Op :=
  if existsInGroup then
    (n.downloadTxsBuffer.takeWhile (decodes cfg)).map
      (fun packet => .importDownloadedTxs packet.1 (carried cfg packet) none)
  else []

/-- What handling an announcement does to the pool: the filter, and the import
    of what the ledger returns for the new hashes. -/
def announceOps (s : MemoryStorage) (fromNode : NodeID) (txsHash : HashList)
    (ledger : HashList → LedgerResponse) : List TxPool.Op :=
  if txsHash.length = 0 then []
  else
    let requestTxs := (s.filterUnknownTxs cfg txsHash fromNode).2
    .filterUnknownTxs txsHash fromNode ::
      if requestTxs.length = 0 then []
      else
        match (ledger requestTxs).error with
        | some _ => []
        | none => [.importDownloadedTxs cfg.nodeID (ledger requestTxs).fetchedTxs none]

/-- The import of a peer's answer, where it has a content. Without a proposal it
    is a normal import, whatever the verdict on the answer is. -/
def responseOps (response : FrontResponse) : List TxPool.Op :=
  match Node.answered cfg response with
  | some block => [.importDownloadedTxs response.nodeID block.transactions none]
  | none => []

/-- The operations on the pool that an event amounts to. A response is imported
    if its request is there and waits for it. -/
def poolOps (n : SyncNode) : SyncOp → List TxPool.Op
  | .pool op => [op]
  | .txsPacket _ _ => []
  | .maintainDownloadingTransactions existsInGroup => downloadOps cfg n existsInGroup
  | .onPeerTxsStatus fromNode txsHash existsInGroup ledger =>
      downloadOps cfg n existsInGroup ++
        if (maintainDownloadingTransactions cfg n existsInGroup).2 then
          announceOps cfg (downloaded cfg n existsInGroup) fromNode txsHash ledger
        else []
  | .onTxsResponse index response =>
    match n.requests[index]? with
    | none => []
    | some request => if request.response.isSome then [] else responseOps cfg response

theorem importBuffer_eq_run_of_decodes (buffer : List (NodeID × Bytes)) :
    ∀ s, (∀ packet ∈ buffer, decodes cfg packet = true) →
      (importBuffer cfg buffer s).1 = run (TxPool.step cfg) s
        (buffer.map (fun packet => .importDownloadedTxs packet.1 (carried cfg packet) none)) := by
  -- Packet by packet; each import meets the pool that the one before has left.
  induction buffer with
  | nil => exact fun _ _ => rfl
  | cons packet buffer ih =>
      intro s hdecodes
      rw [List.forall_mem_cons] at hdecodes
      rw [importBuffer_cons cfg packet buffer s hdecodes.1, ih _ hdecodes.2, List.map_cons,
        run_cons]
      rfl

theorem downloaded_eq_run (n : SyncNode) (existsInGroup : Bool) :
    downloaded cfg n existsInGroup
      = run (TxPool.step cfg) n.storage (downloadOps cfg n existsInGroup) := by
  unfold downloaded downloadOps
  -- Outside the group nothing is imported.
  cases existsInGroup with
  | false => rfl
  | true =>
      rw [if_pos rfl, if_pos rfl, importBuffer_takeWhile]
      exact importBuffer_eq_run_of_decodes cfg _ n.storage
        (fun packet hmem => List.mem_takeWhile_imp hmem)

theorem announced_eq_run (s : MemoryStorage) (fromNode : NodeID) (txsHash : HashList)
    (ledger : HashList → LedgerResponse) :
    announced cfg s fromNode txsHash ledger
      = run (TxPool.step cfg) s (announceOps cfg s fromNode txsHash ledger) := by
  unfold announced announceOps
  simp only
  split
  · rfl
  · split
    · rfl
    · -- An error of the ledger brings nothing in, and any answer is imported.
      cases (ledger (s.filterUnknownTxs cfg txsHash fromNode).2).error with
      | some error => rfl
      | none => rfl

/-- Without a proposal the answer to a request is imported, whatever the verdict
    on it. -/
theorem verifyFetchedTxs_eq_run_responseOps (s : MemoryStorage) (response : FrontResponse)
    (missedTxs : HashList) :
    (match verifyFetchedTxs cfg s response missedTxs none with
      | some (s, _) => s
      | none => s) = run (TxPool.step cfg) s (responseOps cfg response) := by
  unfold verifyFetchedTxs responseOps Node.answered
  -- An error, bytes that do not decode and a packet of another type bring nothing.
  cases response.error with
  | some error => rfl
  | none =>
      cases cfg.framework.createTxsSyncMsg response.data with
      | none => rfl
      | some txsResponse =>
          simp only [Option.isSome_none, Bool.false_eq_true, if_false]
          by_cases htype : txsResponse.type ≠ .txsResponsePacket
          · rw [if_pos htype, if_pos htype]
            rfl
          rw [if_neg htype, if_neg htype]
          cases cfg.framework.createBlock txsResponse.txsData with
          | none => rfl
          | some block =>
              -- The verdicts differ, and the pool is the same in each.
              by_cases hlength : missedTxs.length ≠ block.transactions.length
              · simp only [if_pos hlength]
                rfl
              simp only [if_neg hlength]
              by_cases hret : (!(importDownloadedTxs cfg s response.nodeID block.transactions
                  none).2) = true
              · simp only [if_pos hret]
                rfl
              simp only [if_neg hret]
              by_cases horder : missedTxs ≠ block.transactions.map (fun tx => tx.hash)
              · simp only [if_pos horder]
                rfl
              · simp only [if_neg horder]
                rfl

/-- An event is a run of its operations on the pool. What holds of every run of
    a pool therefore holds of the pool of a node. -/
theorem syncStep_storage (n : SyncNode) (op : SyncOp) :
    (syncStep cfg n op).storage = run (TxPool.step cfg) n.storage (poolOps cfg n op) := by
  cases op with
  | pool op => rfl
  | txsPacket fromNode txsData => rfl
  | maintainDownloadingTransactions existsInGroup =>
      rcases maintainDownloadingTransactions_eq cfg n existsInGroup with ⟨finished, heq, _⟩
      rw [syncStep, heq]
      exact downloaded_eq_run cfg n existsInGroup
  | onPeerTxsStatus fromNode txsHash existsInGroup ledger =>
      -- The import of what was downloaded, and if that came to its end the
      -- announcement.
      have hstorage := onPeerTxsStatus_storage cfg n fromNode txsHash existsInGroup ledger
      rcases maintainDownloadingTransactions_eq cfg n existsInGroup with
        ⟨finished, heq, hdecodes⟩
      rw [syncStep, poolOps, heq, run_append, ← downloaded_eq_run]
      cases finished with
      | true =>
          rw [hstorage.1 (hdecodes.mp rfl), if_pos rfl]
          exact announced_eq_run cfg _ fromNode txsHash ledger
      | false =>
          rw [hstorage.2 (fun h => Bool.false_ne_true (hdecodes.mpr h)),
            if_neg Bool.false_ne_true]
          rfl
  | onTxsResponse index response =>
      simp only [syncStep, onTxsResponse, poolOps]
      cases n.requests[index]? with
      | none => rfl
      | some request =>
          simp only
          split
          · rfl
          · exact verifyFetchedTxs_eq_run_responseOps cfg n.storage response request.txsHash

/-- The operations on the pool of a run of events, gathered in their order. -/
def runOps (n : SyncNode) (ops : List SyncOp) : List TxPool.Op :=
  gather (syncStep cfg) (poolOps cfg) n ops

theorem run_storage (ops : List SyncOp) :
    ∀ n, (run (syncStep cfg) n ops).storage
      = run (TxPool.step cfg) n.storage (runOps cfg n ops) := by
  induction ops with
  | nil => exact fun _ => rfl
  | cons op ops ih =>
      intro n
      rw [run_cons, ih, syncStep_storage, runOps, runOps, gather_cons, run_append]

/-- When a hash is in the set after a run of a node: exactly if some call of the
    run has recorded it and none has forgotten it from then on, or it was there
    at first and none has forgotten it. -/
theorem missed_iff_owed (n : SyncNode) (ops : List SyncOp) (txHash : HashType) :
    txHash ∈ (run (syncStep cfg) n ops).storage.missedTxs ↔
      Owed (MemoryStorage.step cfg) (Records txHash) (Forgets cfg txHash) n.storage
        (TxPool.runCalls cfg n.storage (runOps cfg n ops)) ∨
      (txHash ∈ n.storage.missedTxs ∧
        Along (MemoryStorage.step cfg) (fun t call => ¬ Forgets cfg txHash t call) n.storage
          (TxPool.runCalls cfg n.storage (runOps cfg n ops))) := by
  rw [run_storage]
  exact mem_missedTxs_run cfg n.storage (runOps cfg n ops) txHash

/-! ### What keeps a hash from being asked for -/

/-- Where no packet waits to be imported, an askable hash is asked for exactly
    if it is not in the set. The pool does not hold it, and nothing brings it in
    before the filter. -/
theorem requested_iff_not_missed (n : SyncNode) (fromNode : NodeID) {txsHash : HashList}
    (existsInGroup : Bool) {ledger : HashList → LedgerResponse} {txHash : HashType}
    (hask : Askable cfg n txsHash ledger txHash) (hbuffer : n.downloadTxsBuffer = []) :
    Requested n (onPeerTxsStatus cfg n fromNode txsHash existsInGroup ledger) fromNode txHash ↔
      ¬ txHash ∈ n.storage.missedTxs := by
  -- With an empty buffer there is nothing that could throw, and nothing to import.
  have hdecodes : Decodes cfg n existsInGroup := by
    intro _ packet hmem
    rw [hbuffer] at hmem
    exact absurd hmem List.not_mem_nil
  have hsame : downloaded cfg n existsInGroup = n.storage := by
    unfold downloaded
    rw [hbuffer, importBuffer, ite_self]
  rw [onPeerTxsStatus_requested cfg n fromNode existsInGroup hask.announced hask.ledger, hsame,
    and_iff_right hdecodes, and_iff_right hask.pool]

/-- The hash is recorded by announcements only, and each meets a ledger that
    lacks it. The first half excludes a bare filter, which asks nobody. -/
def AnnouncesOnly (txHash : HashType) : SyncOp → Prop
  | .pool op => ∀ txsHash peer, op = .filterUnknownTxs txsHash peer → ¬ txHash ∈ txsHash
  | .onPeerTxsStatus _ _ _ ledger => Lacks ledger txHash
  | _ => True

/-- Operations that announce nothing do not put a hash into the set: by the
    history of the set, what was not there at first was recorded. -/
theorem missedTxs_of_no_filter (s : MemoryStorage) (ops : List TxPool.Op) {txHash : HashType}
    (hops : ∀ op ∈ ops, ∀ txsHash peer, op = .filterUnknownTxs txsHash peer → ¬ txHash ∈ txsHash)
    (h : txHash ∈ (run (TxPool.step cfg) s ops).missedTxs) : txHash ∈ s.missedTxs := by
  rw [mem_missedTxs_run] at h
  rcases h with ⟨pre, call, post, hcalls, ⟨txsHash, peer, rfl, hmem, _⟩, _⟩ | h
  · -- A call that records is the filter of some operation.
    rcases TxPool.runCalls_nodeCall cfg ops (.filterUnknownTxs txsHash peer) s
      (by rw [hcalls]; exact List.mem_append_right pre List.mem_cons_self) with ⟨op, hop, heq⟩
    exact absurd hmem (hops op hop txsHash peer heq)
  · exact h.1

/-- What handling an announcement leaves in the set was there before, or it is
    announced and not pooled. The ledger's transactions are imported after the
    filter and put nothing in. -/
theorem announced_missed (s : MemoryStorage) (fromNode : NodeID) (txsHash : HashList)
    (ledger : HashList → LedgerResponse) {txHash : HashType}
    (h : txHash ∈ (announced cfg s fromNode txsHash ledger).missedTxs) :
    txHash ∈ s.missedTxs ∨ (txHash ∈ txsHash ∧ s.exist txHash = false) := by
  have hfilter : txHash ∈ (s.filterUnknownTxs cfg txsHash fromNode).1.missedTxs →
      txHash ∈ s.missedTxs ∨ (txHash ∈ txsHash ∧ s.exist txHash = false) :=
    fun hmem => ((s.mem_missedTxs_filterUnknownTxs cfg txsHash fromNode txHash).mp hmem).2
  revert h
  unfold announced
  simp only
  split
  · exact Or.inl
  · split
    · exact hfilter
    · split
      · exact hfilter
      · -- What the import leaves in the set the filter has left there.
        refine fun h => hfilter (missedTxs_of_no_filter cfg _ [.importDownloadedTxs cfg.nodeID
          (ledger (s.filterUnknownTxs cfg txsHash fromNode).2).fetchedTxs none] ?_ h)
        intro op hop peerHashes peer heq
        rw [List.mem_singleton.mp hop] at heq
        cases heq

theorem downloadOps_imports (n : SyncNode) (existsInGroup : Bool) :
    ∀ op ∈ downloadOps cfg n existsInGroup, ∀ txsHash peer,
      op ≠ .filterUnknownTxs txsHash peer := by
  intro op hop txsHash peer heq
  unfold downloadOps at hop
  split at hop
  · rcases List.mem_map.mp hop with ⟨packet, _, rfl⟩
    cases heq
  · exact List.not_mem_nil hop

theorem downloaded_missed (n : SyncNode) (existsInGroup : Bool) {txHash : HashType}
    (h : txHash ∈ (downloaded cfg n existsInGroup).missedTxs) : txHash ∈ n.storage.missedTxs := by
  rw [downloaded_eq_run] at h
  exact missedTxs_of_no_filter cfg n.storage _
    (fun op hop txsHash peer heq => absurd heq (downloadOps_imports cfg n existsInGroup op hop _ _))
    h

/-- Handling an announcement keeps the requests there are. -/
theorem mem_requests_onPeerTxsStatus (n : SyncNode) (fromNode : NodeID) (txsHash : HashList)
    (existsInGroup : Bool) (ledger : HashList → LedgerResponse) {request : Request}
    (h : request ∈ n.requests) :
    request ∈ (onPeerTxsStatus cfg n fromNode txsHash existsInGroup ledger).requests := by
  rcases maintainDownloadingTransactions_eq cfg n existsInGroup with ⟨finished, heq, _⟩
  -- Wherever the handler ends, it has at most appended to the list.
  unfold onPeerTxsStatus requestAnnounced
  rw [heq]
  cases finished with
  | false => exact h
  | true =>
      simp only
      split
      · exact h
      · split
        · exact h
        · split
          · exact h
          · exact List.mem_append_left _ h

/-- A response is noted with its request, which stays for the hashes it was made
    for. -/
theorem exists_request_onTxsResponse (n : SyncNode) (index : Nat) (response : FrontResponse)
    {txHash : HashType} (h : ∃ request ∈ n.requests, txHash ∈ request.txsHash) :
    ∃ request ∈ (onTxsResponse cfg n index response).requests, txHash ∈ request.txsHash := by
  unfold onTxsResponse
  cases hindex : n.requests[index]? with
  | none => exact h
  | some asked =>
      simp only
      split
      · exact h
      · rcases h with ⟨request, hmem, htx⟩
        rcases List.mem_iff_getElem?.mp hmem with ⟨place, hplace⟩
        -- The request is the one that is answered, or it stands where it stood.
        by_cases hthis : index = place
        · rw [← hthis, hindex, Option.some.injEq] at hplace
          refine ⟨{ asked with response := some response }, ?_, hplace ▸ htx⟩
          exact List.mem_set (List.getElem?_eq_some_iff.mp hindex).1 _
        · refine ⟨request, List.mem_iff_getElem?.mpr ⟨place, ?_⟩, htx⟩
          rw [List.getElem?_set_ne hthis]
          exact hplace

/-- A request has been made for every hash in the set, if announcements alone
    have put it there and no ledger had it. The filter asks for what it records,
    and requests are kept. -/
theorem request_of_missed (ops : List SyncOp) {txHash : HashType}
    (hops : ∀ op ∈ ops, AnnouncesOnly txHash op) :
    ∀ n : SyncNode,
      (txHash ∈ n.storage.missedTxs → ∃ request ∈ n.requests, txHash ∈ request.txsHash) →
      txHash ∈ (run (syncStep cfg) n ops).storage.missedTxs →
        ∃ request ∈ (run (syncStep cfg) n ops).requests, txHash ∈ request.txsHash := by
  refine fun n hn => run_invariant (syncStep cfg)
    (fun n => txHash ∈ n.storage.missedTxs → ∃ request ∈ n.requests, txHash ∈ request.txsHash)
    (AnnouncesOnly txHash) (fun n op hop hn hmissed => ?_) ops n hops hn
  -- Event by event: one that records the hash also asks for it.
  cases op with
  | pool op =>
      refine hn (missedTxs_of_no_filter cfg n.storage [op] (fun op' hmem => ?_) hmissed)
      rw [List.mem_singleton.mp hmem]
      exact hop
  | txsPacket fromNode txsData => exact hn hmissed
  | maintainDownloadingTransactions existsInGroup =>
      rcases maintainDownloadingTransactions_eq cfg n existsInGroup with ⟨finished, heq, _⟩
      rw [syncStep, heq] at hmissed ⊢
      exact hn (downloaded_missed cfg n existsInGroup hmissed)
  | onPeerTxsStatus fromNode txsHash existsInGroup ledger =>
      by_cases hbefore : txHash ∈ n.storage.missedTxs
      · rcases hn hbefore with ⟨request, hmem, htx⟩
        exact ⟨request, mem_requests_onPeerTxsStatus cfg n fromNode txsHash existsInGroup ledger
          hmem, htx⟩
      -- It was not in the set, so it is recorded here, and then it is asked for as well.
      have hstorage := onPeerTxsStatus_storage cfg n fromNode txsHash existsInGroup ledger
      rw [syncStep] at hmissed ⊢
      by_cases hdecodes : Decodes cfg n existsInGroup
      · rw [hstorage.1 hdecodes] at hmissed
        rcases announced_missed cfg _ fromNode txsHash ledger hmissed with hold | ⟨hmem, hfree⟩
        · exact absurd (downloaded_missed cfg n existsInGroup hold) hbefore
        rcases (onPeerTxsStatus_requested cfg n fromNode existsInGroup hmem hop).mpr
          ⟨hdecodes, hfree, hbefore⟩ with ⟨request, hrequests, _, htx⟩
        refine ⟨request, ?_, htx⟩
        rw [hrequests]
        exact List.mem_append_right n.requests List.mem_cons_self
      · rw [hstorage.2 hdecodes] at hmissed
        exact absurd (downloaded_missed cfg n existsInGroup hmissed) hbefore
  | onTxsResponse index response =>
      -- An answer notes itself with its request and records nothing.
      refine exists_request_onTxsResponse cfg n index response (hn ?_)
      rw [syncStep_storage] at hmissed
      refine missedTxs_of_no_filter cfg n.storage _ (fun op hmem peerHashes peer heq => ?_) hmissed
      rw [heq] at hmem
      unfold poolOps responseOps at hmem
      simp only at hmem
      split at hmem
      · exact absurd hmem List.not_mem_nil
      · split at hmem
        · exact absurd hmem List.not_mem_nil
        · split at hmem
          · cases List.mem_singleton.mp hmem
          · exact absurd hmem List.not_mem_nil

/-- What keeps an askable hash from being asked for. If only announcements have
    recorded it, and the ledger lacked it each time, it is in the set because of
    a request that has ended without it. Such a request silences every other
    peer. -/
theorem silenced_by_ended (n : SyncNode) (ops : List SyncOp) (fromNode : NodeID)
    {txsHash : HashList} (existsInGroup : Bool) {ledger : HashList → LedgerResponse}
    {txHash : HashType} (hfirst : ¬ txHash ∈ n.storage.missedTxs)
    (hops : ∀ op ∈ ops, AnnouncesOnly txHash op)
    (hask : Askable cfg (run (syncStep cfg) n ops) txsHash ledger txHash)
    (hbuffer : (run (syncStep cfg) n ops).downloadTxsBuffer = [])
    (hsilent : ¬ Requested (run (syncStep cfg) n ops)
      (onPeerTxsStatus cfg (run (syncStep cfg) n ops) fromNode txsHash existsInGroup ledger)
      fromNode txHash) :
    ∃ request ∈ (run (syncStep cfg) n ops).requests, txHash ∈ request.txsHash ∧
      Undelivered cfg txHash request := by
  -- Not asked for, it is in the set, so a request was made, and all of those ended.
  rw [requested_iff_not_missed cfg _ fromNode existsInGroup hask hbuffer, not_not] at hsilent
  rcases request_of_missed cfg ops hops n (fun h => absurd h hfirst) hsilent with
    ⟨request, hmem, htx⟩
  exact ⟨request, hmem, htx, hask.ended request hmem htx⟩

end TransactionSync

end BcosTxPool
