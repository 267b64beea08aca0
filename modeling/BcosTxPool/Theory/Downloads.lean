import BcosTxPool.Theory.Frames
import BcosTxPool.Theory.Import

/-!
# Normal Imports

An import without a proposal, turn by turn. It never stops: a transaction is
taken in or passed over, and the next one meets the pool that this leaves. So
the import is a run, and whether it takes a transaction in is decided in the
state that the ones before it have reached.

Some of it can be said without going through the run. `Imported` compares the
end with the start: what was taken has distinct hashes and distinct nonces,
passed every check as the pool stood at the start, and accounts for all that is
new.
The limit of the pool holds at the end, unless nothing was taken.

## Main definitions

* `TookIn`: One transaction more.
* `importOne`: One turn of a normal import.
* `Takes`: A turn may take a transaction in.
* `Imported`: The end of an import against its start.

## Theorems

* `importDownloadedTxs_eq_run_importOne`: A normal import is a run of turns.
* `exist_import_iff`: When an import brings a hash in.
* `import_taken`: What an import takes in.
-/

namespace BcosTxPool

open Library TxPool

namespace MemoryStorage

/-- One transaction has come into the pool: its hash is there, its nonce is
    reserved, and it is missed no longer. -/
structure TookIn (s s' : MemoryStorage) (data : TxData) : Prop where
  exist : ∀ txHash, s'.exist txHash = true ↔ s.exist txHash = true ∨ txHash = data.hash
  nonces : ∀ nonce, nonce ∈ s'.txPoolNonceChecker.nonceCache ↔
    nonce ∈ s.txPoolNonceChecker.nonceCache ∨ nonce = data.nonce
  size : s'.size = s.size + 1
  missed : ∀ txHash, txHash ∈ s'.missedTxs ↔ txHash ∈ s.missedTxs ∧ txHash ≠ data.hash
  ledger : s'.ledgerNonceChecker = s.ledgerNonceChecker

/-- A hash that is not there is free in the table. -/
theorem exist_eq_false_iff (s : MemoryStorage) (txHash : HashType) :
    s.exist txHash = false ↔ s.txsTable.find? txHash = none :=
  s.txsTable.contains_eq_false_iff txHash

variable (cfg : TxPoolConfig)

/-- A normal submission that has all it needs brings its transaction in. The
    mark and the callback that it sets do not show here. -/
theorem Submittable.tookIn {s : MemoryStorage} {tx : Transaction} (h : Submittable cfg s tx)
    (txSubmitCallback : Option TxSubmitCallback) :
    TookIn s (s.verifyAndSubmitTransaction cfg tx txSubmitCallback).1 tx.toTxData := by
  rcases s.verifyAndSubmitTransaction_cases cfg tx txSubmitCallback with ⟨hno, _⟩ | ⟨_, heq⟩
  · exact absurd h hno
  -- The object that goes in has the hash of the one submitted.
  have hhash : (TxValidator.marked cfg.framework (withCallback tx txSubmitCallback)).hash
      = tx.hash := by
    rw [TxValidator.marked_toTxData, withCallback_toTxData]
  have hfree : s.txsTable.find?
      (TxValidator.marked cfg.framework (withCallback tx txSubmitCallback)).hash = none := by
    rw [hhash]
    exact h.free
  rcases inserted_eq cfg { s with txPoolNonceChecker := s.txPoolNonceChecker.insert tx.nonce }
    (TxValidator.marked cfg.framework (withCallback tx txSubmitCallback)) with ⟨n, reports, hins⟩
  rw [heq, hins]
  refine ⟨fun txHash => ?_, fun nonce => ?_, s.txsTable.size_insert _ hfree, fun txHash => ?_, rfl⟩
  · simp only [exist, eraseMissed, KeyedTable.contains, s.txsTable.find?_insert _ txHash hfree,
      hhash]
    by_cases hthis : tx.hash = txHash
    · rw [if_pos hthis]
      exact iff_of_true rfl (Or.inr hthis.symm)
    · rw [if_neg hthis, or_iff_left (Ne.symm hthis)]
  · simp only [eraseMissed]
    rw [TxPoolNonceChecker.mem_insert, or_comm]
  · simp only [eraseMissed]
    rw [SortedSet.mem_erase]

end MemoryStorage

namespace TransactionSync

open MemoryStorage

variable (cfg : TxPoolConfig)

/-- One turn of a normal import, begun in `s₀`. The signature was checked in
    that state, and the submission meets the state that the turns before have
    reached. -/
def importOne (s₀ : MemoryStorage) (fromNode : NodeID) (s : MemoryStorage) (data : TxData) :
    MemoryStorage :=
  let tx := (verifyDownloaded cfg s₀ fromNode none data).1
  if tx.invalid then s else (s.verifyAndSubmitTransaction cfg tx none).1

/-- The submission loop of a normal import is a run of turns. The status of a
    normal submission is not looked at, so the loop goes on. -/
theorem importLoop_eq_run_importOne (s₀ : MemoryStorage) (fromNode : NodeID) (txs : List TxData) :
    ∀ s, importLoop cfg false (txs.map (fun data => (verifyDownloaded cfg s₀ fromNode none data).1))
      s = (run (importOne cfg s₀ fromNode) s txs, true) := by
  induction txs with
  | nil => exact fun _ => rfl
  | cons data txs ih =>
      intro s
      rw [List.map_cons, importLoop, run_cons, importOne]
      -- What failed its signature check is passed over.
      by_cases hinvalid : (verifyDownloaded cfg s₀ fromNode none data).1.invalid = true
      · simp only [if_pos hinvalid]
        exact ih s
      · simp only [if_neg hinvalid, submitTransaction, Bool.not_false, if_true,
          Bool.false_eq_true, if_false, ite_self]
        exact ih _

/-- A normal import is the run of its turns, and it succeeds. -/
theorem importDownloadedTxs_eq_run_importOne (s : MemoryStorage) (fromNode : NodeID)
    (txs : List TxData) {verifiedProposal : Option Block}
    (hheader : proposalHeader verifiedProposal = none) :
    importDownloadedTxs cfg s fromNode txs verifiedProposal
      = (run (importOne cfg s fromNode) s txs, true) := by
  unfold importDownloadedTxs
  by_cases hempty : txs.length = 0
  · rw [if_pos hempty, List.length_eq_zero_iff.mp hempty, run_nil]
  · rw [if_neg hempty]
    simp only [hheader, Option.isSome_none, Bool.false_and, Bool.false_eq_true, if_false,
      List.map_map, Function.comp_def]
    exact importLoop_eq_run_importOne cfg s fromNode txs s

/-- What a pool needs to take a transaction in, but for a free hash: room, and
    the checks pass. The signature is among them. -/
structure Takes (s : MemoryStorage) (data : TxData) : Prop where
  room : s.size < cfg.poolLimit
  accepted : TxValidator.Accepted cfg s.ledgerNonceChecker s.txPoolNonceChecker
    (createTransaction data)

/-- A turn takes its transaction in or changes nothing. -/
theorem importOne_cases (s₀ s : MemoryStorage) (fromNode : NodeID) (data : TxData) :
    (¬ (s.exist data.hash = false ∧ Takes cfg s data) ∧
      importOne cfg s₀ fromNode s data = s) ∨
    (s.exist data.hash = false ∧ Takes cfg s data ∧
      TookIn s (importOne cfg s₀ fromNode s data) data) := by
  have hdata := verifyDownloaded_toTxData cfg s₀ fromNode none data
  have hverdict := (verifyDownloaded_verdict cfg s₀ fromNode none data).2
  unfold importOne
  simp only
  generalize (verifyDownloaded cfg s₀ fromNode none data).1 = tx at hdata hverdict
  have hhash : tx.hash = data.hash := congrArg TxData.hash hdata
  by_cases hinvalid : tx.invalid = true
  · -- Only a bad signature of a transaction that is not pooled makes it invalid.
    rw [if_pos hinvalid]
    refine Or.inl ⟨fun h => ?_, rfl⟩
    rw [hverdict, Bool.not_eq_true', Bool.or_eq_false_iff] at hinvalid
    have hsignature : cfg.framework.verify data = true := h.2.accepted.signature
    rw [hinvalid.2] at hsignature
    exact Bool.false_ne_true hsignature
  · rw [if_neg hinvalid]
    have hvalid : tx.invalid = false := Bool.not_eq_true _ |>.mp hinvalid
    have hiff : Submittable cfg s tx ↔ s.exist data.hash = false ∧ Takes cfg s data := by
      constructor
      · intro h
        refine ⟨(s.exist_eq_false_iff _).mpr (hhash ▸ h.free), h.room, ?_⟩
        exact h.accepted.congr hdata.symm rfl (fun _ hmem => hmem)
      · rintro ⟨hfree, hroom, haccepted⟩
        refine ⟨hroom, hhash ▸ (s.exist_eq_false_iff _).mp hfree, ?_⟩
        exact haccepted.congr hdata hvalid (fun _ hmem => hmem)
    rcases s.verifyAndSubmitTransaction_cases cfg tx none with ⟨hno, _, hsame⟩ | ⟨hyes, _⟩
    · exact Or.inl ⟨fun h => hno (hiff.mpr h), hsame⟩
    · have htook := hyes.tookIn cfg none
      rw [hdata] at htook
      exact Or.inr ⟨(hiff.mp hyes).1, (hiff.mp hyes).2, htook⟩

/-- The turns of an import remove nothing. What a turn brings in is there at the
    end. -/
theorem exist_run_importOne (s₀ : MemoryStorage) (fromNode : NodeID) (txs : List TxData)
    {s : MemoryStorage} {txHash : HashType} (h : s.exist txHash = true) :
    (run (importOne cfg s₀ fromNode) s txs).exist txHash = true := by
  refine run_invariant (importOne cfg s₀ fromNode) (fun s => s.exist txHash = true)
    (fun _ => True) (fun t data _ ht => ?_) txs s (fun _ _ => trivial) h
  rcases importOne_cases cfg s₀ t fromNode data with ⟨_, hsame⟩ | ⟨_, _, htook⟩
  · rw [hsame]
    exact ht
  · exact (htook.exist txHash).mpr (Or.inl ht)

/-- An import brings a hash in exactly if some transaction with that hash meets
    a pool that takes it. -/
theorem exist_import_iff (s : MemoryStorage) (fromNode : NodeID) (txs : List TxData)
    {txHash : HashType} (hfree : s.exist txHash = false) :
    (importDownloadedTxs cfg s fromNode txs none).1.exist txHash = true ↔
      ∃ pre data post, txs = pre ++ data :: post ∧ data.hash = txHash ∧
        Takes cfg (importDownloadedTxs cfg s fromNode pre none).1 data := by
  have heq := fun l => importDownloadedTxs_eq_run_importOne cfg s fromNode l proposalHeader_none
  simp only [heq]
  constructor
  · intro hin
    -- Some turn of the import brings the hash in.
    rcases exists_flip (importOne cfg s fromNode) (fun s => s.exist txHash = false) txs s hfree
      (by rw [hin]; decide) with ⟨pre, data, post, hl, hbefore, hafter⟩
    rcases importOne_cases cfg s (run (importOne cfg s fromNode) s pre) fromNode data with
      ⟨_, hsame⟩ | ⟨_, htakes, htook⟩
    · rw [hsame] at hafter
      exact absurd hbefore hafter
    · rw [Bool.not_eq_false, htook.exist, hbefore] at hafter
      exact ⟨pre, data, post, hl, (hafter.resolve_left Bool.false_ne_true).symm, htakes⟩
  · rintro ⟨pre, data, post, rfl, rfl, htakes⟩
    rw [run_append, run_cons]
    refine exist_run_importOne cfg s fromNode post ?_
    -- Where the pool would take it, the turn does, unless the hash is there.
    rcases importOne_cases cfg s (run (importOne cfg s fromNode) s pre) fromNode data with
      ⟨hno, hsame⟩ | ⟨_, _, htook⟩
    · rw [hsame, ← Bool.not_eq_false]
      exact fun hout => hno ⟨hout, htakes⟩
    · exact (htook.exist _).mpr (Or.inr rfl)

/-! ### What an import takes in -/

/-- The end of an import against its start, with what it has taken in. -/
structure Imported (s s' : MemoryStorage) (taken : List TxData) : Prop where
  hashes : (taken.map (fun data => data.hash)).Nodup
  nonces : (taken.map (fun data => data.nonce)).Nodup
  fresh : ∀ data ∈ taken, s.exist data.hash = false
  accepted : ∀ data ∈ taken, TxValidator.Accepted cfg s.ledgerNonceChecker s.txPoolNonceChecker
    (createTransaction data)
  exist : ∀ txHash, s'.exist txHash = true ↔
    s.exist txHash = true ∨ txHash ∈ taken.map (fun data => data.hash)
  cache : ∀ nonce, nonce ∈ s'.txPoolNonceChecker.nonceCache ↔
    nonce ∈ s.txPoolNonceChecker.nonceCache ∨ nonce ∈ taken.map (fun data => data.nonce)
  size : s'.size = s.size + taken.length
  room : taken = [] ∨ s'.size ≤ cfg.poolLimit
  missed : ∀ txHash, txHash ∈ s'.missedTxs ↔
    txHash ∈ s.missedTxs ∧ ¬ txHash ∈ taken.map (fun data => data.hash)
  ledger : s'.ledgerNonceChecker = s.ledgerNonceChecker

/-- Nothing taken in, nothing changed. -/
theorem imported_nil (s : MemoryStorage) : Imported cfg s s [] where
  hashes := List.nodup_nil
  nonces := List.nodup_nil
  fresh := fun _ h => absurd h List.not_mem_nil
  accepted := fun _ h => absurd h List.not_mem_nil
  exist := fun _ => ⟨Or.inl, fun h => h.resolve_right List.not_mem_nil⟩
  cache := fun _ => ⟨Or.inl, fun h => h.resolve_right List.not_mem_nil⟩
  size := rfl
  room := Or.inl rfl
  missed := fun _ => ⟨fun h => ⟨h, List.not_mem_nil⟩, fun h => h.1⟩
  ledger := rfl

/-- One more is taken in. It was accepted by the pool of the moment, which has
    more hashes and nonces than the one of the start. -/
theorem Imported.tookIn {s t t' : MemoryStorage} {taken : List TxData} {data : TxData}
    (h : Imported cfg s t taken) (hfree : t.exist data.hash = false) (htakes : Takes cfg t data)
    (htook : TookIn t t' data) : Imported cfg s t' (taken ++ [data]) := by
  -- What was taken before has its hash in the table and its nonce in the cache.
  have hhash : ¬ data.hash ∈ taken.map (fun data => data.hash) := by
    intro hmem
    rw [(h.exist data.hash).mpr (Or.inr hmem)] at hfree
    exact Bool.noConfusion hfree
  have hnonce : ¬ data.nonce ∈ taken.map (fun data => data.nonce) :=
    fun hmem => htakes.accepted.nonce ((h.cache data.nonce).mpr (Or.inr hmem))
  refine ⟨?_, ?_, fun d hd => ?_, fun d hd => ?_, fun k => ?_, fun nonce => ?_, ?_, Or.inr ?_,
    fun k => ?_, htook.ledger.trans h.ledger⟩
  · rw [List.map_append, List.map_singleton]
    exact (List.perm_append_singleton _ _).nodup_iff.mpr
      (List.nodup_cons.mpr ⟨hhash, h.hashes⟩)
  · rw [List.map_append, List.map_singleton]
    exact (List.perm_append_singleton _ _).nodup_iff.mpr
      (List.nodup_cons.mpr ⟨hnonce, h.nonces⟩)
  · rcases List.mem_append.mp hd with hd | hd
    · exact h.fresh d hd
    · rw [List.mem_singleton.mp hd, ← Bool.not_eq_true]
      intro hold
      rw [(h.exist data.hash).mpr (Or.inl hold)] at hfree
      exact Bool.noConfusion hfree
  · rcases List.mem_append.mp hd with hd | hd
    · exact h.accepted d hd
    · rw [List.mem_singleton.mp hd, ← h.ledger]
      exact htakes.accepted.congr rfl rfl (fun nonce hmem => (h.cache nonce).mpr (Or.inl hmem))
  · rw [htook.exist, h.exist, List.map_append, List.mem_append, List.map_singleton,
      List.mem_singleton, or_assoc]
  · rw [htook.nonces, h.cache, List.map_append, List.mem_append, List.map_singleton,
      List.mem_singleton, or_assoc]
  · rw [htook.size, h.size, List.length_append, List.length_singleton, Nat.add_assoc]
  · -- The limit was checked before the last one came in.
    rw [htook.size]
    exact htakes.room
  · rw [htook.missed, h.missed, List.map_append, List.mem_append, List.map_singleton,
      List.mem_singleton, not_or, and_assoc]

/-- From any point of an import on, what its turns take in is some of what is
    left, in that order. -/
theorem run_importOne_taken (s : MemoryStorage) (fromNode : NodeID) (txs : List TxData) :
    ∀ t taken, Imported cfg s t taken → ∃ more, (∀ data ∈ more, data ∈ txs) ∧
      Imported cfg s (run (importOne cfg s fromNode) t txs) (taken ++ more) := by
  -- The induction is on the transactions that are left, with what has been taken so
  -- far.
  induction txs with
  | nil =>
      intro t taken h
      exact ⟨[], fun _ hd => hd, by rw [List.append_nil]; exact h⟩
  | cons data txs ih =>
      intro t taken h
      rw [run_cons]
      rcases importOne_cases cfg s t fromNode data with ⟨_, hsame⟩ | ⟨hfree, htakes, htook⟩
      · rw [hsame]
        rcases ih t taken h with ⟨more, hmore, htaken⟩
        exact ⟨more, fun d hd => List.mem_cons_of_mem _ (hmore d hd), htaken⟩
      · rcases ih _ _ (h.tookIn cfg hfree htakes htook) with ⟨more, hmore, htaken⟩
        refine ⟨data :: more, fun d hd => ?_, ?_⟩
        · rcases List.mem_cons.mp hd with rfl | hd
          · exact List.mem_cons_self
          · exact List.mem_cons_of_mem _ (hmore d hd)
        · rw [List.append_assoc, List.singleton_append] at htaken
          exact htaken

/-- An import takes in some of what it was given. -/
theorem import_taken (s : MemoryStorage) (fromNode : NodeID) (txs : List TxData) :
    ∃ taken, (∀ data ∈ taken, data ∈ txs) ∧
      Imported cfg s (importDownloadedTxs cfg s fromNode txs none).1 taken := by
  rw [importDownloadedTxs_eq_run_importOne cfg s fromNode txs rfl]
  rcases run_importOne_taken cfg s fromNode txs s [] (imported_nil cfg s) with ⟨more, hmore, htaken⟩
  exact ⟨more, hmore, htaken⟩

end TransactionSync

end BcosTxPool
