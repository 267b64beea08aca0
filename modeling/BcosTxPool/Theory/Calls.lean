import BcosTxPool.Library.History
import BcosTxPool.Theory.Node

/-!
# The Calls of an Operation

The storage calls that an operation of a node makes, as a list. Most
operations are one call. A submission of bytes is a submission of what they
decode to, with a receipt after it if it was rejected; an import is a
submission for each of its transactions, up to the first that stops it.

So a run of a node is a run of its storage, call by call, and a condition on
single calls is a condition on runs: `runCalls` is the list to ask it of. That
matters for the imports. What a transaction of a list meets depends on what
the transactions before it did, and here it is asked in exactly the state in
which it is submitted.

## Main definitions

* `importCalls`: The submissions of an import.
* `calls`: The calls of an operation.
* `runCalls`: The calls of a run.
* `Op.Carries`: The contents an operation hands over.
* `NodeCall`: What a call may be, and of which operation.

## Theorems

* `run_eq_run_runCalls`: A run is the run of its calls.
* `runCalls_nodeCall`: What the calls of a run are.
* `run_invariant_of_calls`: What every such call preserves.
-/

namespace BcosTxPool

open Library

namespace TxPool

variable (cfg : TxPoolConfig)

/-- The submissions of an import: all but the invalid ones, and none after the
    first that stops an enforced import. -/
def importCalls (enforceImport : Bool) : List UnsealedTx → MemoryStorage → List MemoryStorage.Op
  | [], _ => []
  | tx :: txs, s =>
    if tx.1.invalid then importCalls enforceImport txs s
    else
      .submitTransaction tx none enforceImport ::
        if (s.submitTransaction cfg tx.1 none enforceImport).2 ≠ .none ∧ enforceImport = true
        then []
        else importCalls enforceImport txs (s.submitTransaction cfg tx.1 none enforceImport).1

/-- A downloaded transaction, with the fact that it is not sealed. The proposal
    is stamped on it and its flag is left down, which the submissions rely
    on. -/
def downloaded (s : MemoryStorage) (fromNode : NodeID) (header : Option BlockHeader)
    (data : TxData) : UnsealedTx :=
  ⟨(TransactionSync.verifyDownloaded cfg s fromNode header data).1,
    TransactionSync.verifyDownloaded_sealed cfg s fromNode header data⟩

/-- A decoded transaction, with the fact that it is not sealed. No object comes
    out of a decoder with its flag up. -/
def decoded (data : TxData) : UnsealedTx := ⟨createTransaction data, createTransaction_sealed data⟩

@[simp] theorem decoded_val (data : TxData) : (decoded data).1 = createTransaction data := rfl

/-- The storage calls that an operation makes, in their order. The list depends
    on the pool, since a rejection adds a receipt and a failed import ends
    early. -/
def calls (s : MemoryStorage) : Op → List MemoryStorage.Op
  | .asyncSubmit existsInGroup txData txSubmitCallback =>
    if txSubmitCallback.isNone || existsInGroup then
      match cfg.framework.decodeTransaction txData with
      | none => [.notifyInvalidReceipt 0 .malform txSubmitCallback]
      | some data =>
          let result := (s.submitTransaction cfg (createTransaction data) txSubmitCallback false).2
          .submitTransaction (decoded data) txSubmitCallback false ::
            if result ≠ .none then [.notifyInvalidReceipt data.hash result txSubmitCallback] else []
    else [.notifyInvalidReceipt 0 .requestNotBelongToTheGroup txSubmitCallback]
  | .importDownloadedTxs fromNode txs verifiedProposal =>
      let header := TransactionSync.proposalHeader verifiedProposal
      let verified := txs.map (TransactionSync.verifyDownloaded cfg s fromNode header)
      if header.isSome && !verified.all (fun v => v.2) then []
      else importCalls cfg header.isSome (txs.map (downloaded cfg s fromNode header)) s
  | .asyncSealTxs order txsLimit avoidTxs => [.batchFetchTxs order txsLimit avoidTxs true]
  | .removeInvalidTxs => [.removeInvalidTxs]
  | .asyncNotifyBlockResult blockNumber txsResult => [.batchRemove blockNumber txsResult]
  | .asyncMarkTxs txsHash sealedFlag batchId batchHash =>
      [.batchMarkTxs txsHash batchId batchHash sealedFlag]
  | .asyncResetTxPool => [.batchMarkAllTxs false]
  | .filterUnknownTxs txsHashList peer => [.filterUnknownTxs txsHashList peer]
  | .fetchNewTxs order txsLimit => [.fetchNewTxs order txsLimit]
  | .appendKnownNode txHash node => [.appendKnownNode txHash node]

/-- The storage calls of a run. Those of each operation are listed from the
    state in which it begins. -/
def runCalls : MemoryStorage → List Op → List MemoryStorage.Op
  | _, [] => []
  | s, op :: ops => calls cfg s op ++ runCalls (step cfg s op) ops

/-! ### A run is the run of its calls -/

/-- The loop of an import makes its submissions one after the other. -/
theorem importLoop_eq_run_importCalls (enforceImport : Bool) (txs : List UnsealedTx) :
    ∀ s, (TransactionSync.importLoop cfg enforceImport (txs.map (fun tx => tx.1)) s).1
      = run (MemoryStorage.step cfg) s (importCalls cfg enforceImport txs s) := by
  -- The induction is on the transactions that are left, for all pools that may meet
  -- them.
  induction txs with
  | nil => exact fun _ => rfl
  | cons tx txs ih =>
      intro s
      rw [List.map_cons, TransactionSync.importLoop, importCalls]
      by_cases hinv : tx.1.invalid = true
      · -- A transaction that failed the verification is not submitted.
        rw [if_pos hinv, if_pos hinv, ih s]
      · rw [if_neg hinv, if_neg hinv, run_cons]
        simp only [MemoryStorage.step]
        -- The loop ends with a rejected enforced submission and goes on otherwise.
        by_cases hres : (s.submitTransaction cfg tx.1 none enforceImport).2 ≠ .none
        · cases enforceImport with
          | true => simp only [ne_eq, hres, not_false_eq_true, and_self, if_true, run_nil]
          | false =>
              simp only [if_pos hres, Bool.false_eq_true, if_false, and_false]
              exact ih _
        · rw [if_neg hres, if_neg (fun hc => hres hc.1)]
          exact ih _

/-- A submission by a client is one call or two: the submission, and a receipt
    if it was rejected. -/
theorem asyncSubmit_eq_run_calls (s : MemoryStorage) (existsInGroup : Bool) (txData : Bytes)
    (txSubmitCallback : Option TxSubmitCallback) :
    asyncSubmit cfg s existsInGroup txData txSubmitCallback
      = run (MemoryStorage.step cfg) s
          (calls cfg s (.asyncSubmit existsInGroup txData txSubmitCallback)) := by
  unfold asyncSubmit checkExistsInGroup
  by_cases hgroup : (txSubmitCallback.isNone || existsInGroup) = true
  · simp only [calls, if_pos hgroup, MemoryStorage.submitTransactionData]
    cases cfg.framework.decodeTransaction txData with
    -- Bytes that do not decode have a receipt and no submission.
    | none => rfl
    | some data =>
        simp only [run_cons, MemoryStorage.step, decoded]
        split
        · rfl
        · rfl
  · simp only [calls, if_neg hgroup]
    rfl

/-- An import makes no call where the verification fails it, and its submissions
    otherwise. -/
theorem importDownloadedTxs_eq_run_calls (s : MemoryStorage) (fromNode : NodeID)
    (txs : List TxData) (verifiedProposal : Option Block) :
    (TransactionSync.importDownloadedTxs cfg s fromNode txs verifiedProposal).1
      = run (MemoryStorage.step cfg) s
          (calls cfg s (.importDownloadedTxs fromNode txs verifiedProposal)) := by
  unfold TransactionSync.importDownloadedTxs calls
  simp only
  -- An empty payload returns at once, and its loop would make no call.
  by_cases hempty : txs.length = 0
  · rw [if_pos hempty, List.length_eq_zero_iff.mp hempty]
    split
    · rfl
    · rfl
  · rw [if_neg hempty]
    split
    · rfl
    · have hloop := importLoop_eq_run_importCalls cfg
        (TransactionSync.proposalHeader verifiedProposal).isSome
        (txs.map (downloaded cfg s fromNode (TransactionSync.proposalHeader verifiedProposal))) s
      rw [List.map_map] at hloop ⊢
      exact hloop

/-- An operation is the run of its calls. All but two kinds of operations are
    one call. -/
theorem step_eq_run_calls (s : MemoryStorage) (op : Op) :
    step cfg s op = run (MemoryStorage.step cfg) s (calls cfg s op) := by
  cases op with
  | asyncSubmit existsInGroup txData txSubmitCallback =>
      exact asyncSubmit_eq_run_calls cfg s existsInGroup txData txSubmitCallback
  | importDownloadedTxs fromNode txs verifiedProposal =>
      exact importDownloadedTxs_eq_run_calls cfg s fromNode txs verifiedProposal
  | _ => rfl

/-- A run is the run of its calls, from any pool. -/
theorem run_eq_run_runCalls (ops : List Op) :
    ∀ s, run (step cfg) s ops = run (MemoryStorage.step cfg) s (runCalls cfg s ops) := by
  induction ops with
  | nil => exact fun _ => rfl
  | cons op ops ih =>
      intro s
      rw [run_cons, ih, runCalls, run_append, ← step_eq_run_calls]

/-! ### What the calls are -/

/-- The contents that an operation hands over. Only submissions and imports hand
    over any. -/
def Op.Carries (op : Op) (data : TxData) : Prop :=
  match op with
  | .asyncSubmit _ txData _ => cfg.framework.decodeTransaction txData = some data
  | .importDownloadedTxs _ txs _ => data ∈ txs
  | _ => False

/-- What a call of an operation may be. What is submitted is an object as it was
    decoded, with a good signature or else not marked. -/
def NodeCall (op : Op) : MemoryStorage.Op → Prop
  | .submitTransaction tx _ _ => op.Carries cfg tx.1.toTxData ∧ tx.1.invalid = false ∧
      tx.1.systemTx = false ∧ tx.1.submitCallback = none
  | .notifyInvalidReceipt _ _ txSubmitCallback =>
      ∃ existsInGroup txData, op = .asyncSubmit existsInGroup txData txSubmitCallback
  | .batchFetchTxs order txsLimit avoidTxs avoidDuplicate =>
      op = .asyncSealTxs order txsLimit avoidTxs ∧ avoidDuplicate = true
  | .removeInvalidTxs => op = .removeInvalidTxs
  | .batchRemove batchId txsResult => op = .asyncNotifyBlockResult batchId txsResult
  | .batchMarkTxs txsHashList batchId batchHash sealFlag =>
      op = .asyncMarkTxs txsHashList sealFlag batchId batchHash
  | .batchMarkAllTxs sealFlag => op = .asyncResetTxPool ∧ sealFlag = false
  | .filterUnknownTxs txsHashList peer => op = .filterUnknownTxs txsHashList peer
  | .fetchNewTxs order txsLimit => op = .fetchNewTxs order txsLimit
  | .appendKnownNode txHash node => op = .appendKnownNode txHash node
  | _ => False

/-- The stamp writes the origin and the proposal, and neither mark nor
    callback. -/
theorem stamp_flags (fromNode : NodeID) (header : Option BlockHeader) (tx : Transaction) :
    (TransactionSync.stamp fromNode header tx).systemTx = tx.systemTx ∧
      (TransactionSync.stamp fromNode header tx).submitCallback = tx.submitCallback := by
  cases header with
  | none => exact ⟨rfl, rfl⟩
  | some header => exact ⟨rfl, rfl⟩

/-- So a downloaded transaction has no callback and is not marked. -/
theorem downloaded_flags (s : MemoryStorage) (fromNode : NodeID) (header : Option BlockHeader)
    (data : TxData) :
    (downloaded cfg s fromNode header data).1.systemTx = false ∧
      (downloaded cfg s fromNode header data).1.submitCallback = none := by
  -- Neither the stamp nor the signature check touches these two.
  have hstamp := stamp_flags fromNode header (createTransaction data)
  unfold downloaded TransactionSync.verifyDownloaded
  simp only
  split
  · exact hstamp
  · split
    · exact hstamp
    · exact hstamp

/-- The calls of an import are submissions of its transactions, without a
    callback. -/
theorem mem_importCalls (enforceImport : Bool) (txs : List UnsealedTx) (call : MemoryStorage.Op) :
    ∀ s, call ∈ importCalls cfg enforceImport txs s →
      ∃ tx ∈ txs, tx.1.invalid = false ∧ call = .submitTransaction tx none enforceImport := by
  induction txs with
  | nil => exact fun _ h => absurd h List.not_mem_nil
  | cons tx txs ih =>
      intro s h
      -- A call for one of the others is found in the rest of the list.
      have hrest : ∀ s', call ∈ importCalls cfg enforceImport txs s' →
          ∃ t ∈ tx :: txs, t.1.invalid = false ∧
            call = .submitTransaction t none enforceImport := by
        intro s' hmem
        rcases ih s' hmem with ⟨t, ht, hcall⟩
        exact ⟨t, List.mem_cons_of_mem tx ht, hcall⟩
      rw [importCalls] at h
      by_cases hinv : tx.1.invalid = true
      · rw [if_pos hinv] at h
        exact hrest s h
      · rw [if_neg hinv] at h
        -- It is the submission of the first one, or a call after it.
        rcases List.mem_cons.mp h with rfl | h
        · exact ⟨tx, List.mem_cons_self, Bool.not_eq_true _ |>.mp hinv, rfl⟩
        · split at h
          · exact absurd h List.not_mem_nil
          · exact hrest _ h

/-- The calls of an operation are those listed, whatever the pool. -/
theorem calls_nodeCall (s : MemoryStorage) (op : Op) (call : MemoryStorage.Op)
    (h : call ∈ calls cfg s op) : NodeCall cfg op call := by
  cases op with
  | asyncSubmit existsInGroup txData txSubmitCallback =>
      simp only [calls] at h
      split at h
      · split at h
        · -- What does not decode is answered at once.
          rw [List.mem_singleton.mp h]
          exact ⟨_, _, rfl⟩
        · rename_i data hdata
          -- The submission comes first, and the receipt only where it was rejected.
          rcases List.mem_cons.mp h with rfl | h
          · exact ⟨hdata, rfl, rfl, rfl⟩
          · split at h
            · rw [List.mem_singleton.mp h]
              exact ⟨_, _, rfl⟩
            · exact absurd h List.not_mem_nil
      · rw [List.mem_singleton.mp h]
        exact ⟨_, _, rfl⟩
  | importDownloadedTxs fromNode txs verifiedProposal =>
      simp only [calls] at h
      split at h
      · exact absurd h List.not_mem_nil
      · -- What is submitted has the content of a transaction in the payload.
        rcases mem_importCalls cfg _ _ call s h with ⟨tx, htx, hvalid, rfl⟩
        rcases List.mem_map.mp htx with ⟨data, hdata, rfl⟩
        have hflags := downloaded_flags cfg s fromNode
          (TransactionSync.proposalHeader verifiedProposal) data
        refine ⟨?_, hvalid, hflags⟩
        have hcontent : (downloaded cfg s fromNode
            (TransactionSync.proposalHeader verifiedProposal) data).1.toTxData = data :=
          verifyDownloaded_toTxData cfg s fromNode _ data
        rw [hcontent]
        exact hdata
  | asyncResetTxPool =>
      rw [List.mem_singleton.mp h]
      exact ⟨rfl, rfl⟩
  | asyncSealTxs order txsLimit avoidTxs =>
      rw [List.mem_singleton.mp h]
      exact ⟨rfl, rfl⟩
  | _ =>
      rw [List.mem_singleton.mp h]
      rfl

/-- What the calls of a run are: each belongs to one of its operations. -/
theorem runCalls_nodeCall (ops : List Op) (call : MemoryStorage.Op) :
    ∀ s, call ∈ runCalls cfg s ops → ∃ op ∈ ops, NodeCall cfg op call := by
  induction ops with
  | nil => exact fun _ h => absurd h List.not_mem_nil
  | cons op ops ih =>
      intro s h
      rcases List.mem_append.mp h with h | h
      · exact ⟨op, List.mem_cons_self, calls_nodeCall cfg s op call h⟩
      · rcases ih (step cfg s op) h with ⟨o, ho, hcall⟩
        exact ⟨o, List.mem_cons_of_mem op ho, hcall⟩

/-- What holds of no call at all, and of every list of calls with one more that
    meets a condition on its past, holds of the calls of a run along which the
    condition is met, and before each of them. -/
theorem runCalls_throughout (C : List MemoryStorage.Op → MemoryStorage.Op → Prop)
    (Inv : List MemoryStorage.Op → Prop) {s : MemoryStorage} {ops : List Op} (hnil : Inv [])
    (hstep : ∀ pre op call, op ∈ ops → NodeCall cfg op call → C pre call → Inv pre →
      Inv (pre ++ [call]))
    (hC : Throughout C (runCalls cfg s ops)) :
    Inv (runCalls cfg s ops) ∧
      Throughout (fun pre call => (C pre call ∧ ∃ op ∈ ops, NodeCall cfg op call) ∧ Inv pre)
        (runCalls cfg s ops) := by
  -- What is known of the calls of a node joins the condition on their past.
  have hcalls := hC.and_mem (fun call hmem => runCalls_nodeCall cfg ops call s hmem)
  have hone : ∀ pre call, (C pre call ∧ ∃ op ∈ ops, NodeCall cfg op call) → Inv pre →
      Inv (pre ++ [call]) := by
    intro pre call hcall hpre
    rcases hcall with ⟨hmeets, op, hop, hnode⟩
    exact hstep pre op call hop hnode hmeets hpre
  exact ⟨throughout_invariant _ Inv hnil hone _ hcalls,
    throughout_and_invariant _ Inv hnil hone _ hcalls⟩

/-- What every call of a node preserves that meets a condition on the state
    holds after a run along which the condition is met. An invariant is so
    proved call by call, and an import needs no induction of its own. -/
theorem run_invariant_of_calls (C : MemoryStorage → MemoryStorage.Op → Prop)
    (Inv : MemoryStorage → Prop) {s : MemoryStorage} {ops : List Op}
    (hstep : ∀ t op call, op ∈ ops → NodeCall cfg op call → C t call → Inv t →
      Inv (MemoryStorage.step cfg t call))
    (hC : Along (MemoryStorage.step cfg) C s (runCalls cfg s ops)) (h : Inv s) :
    Inv (run (step cfg) s ops) := by
  rw [run_eq_run_runCalls]
  refine (runCalls_throughout cfg _ (fun pre => Inv (run (MemoryStorage.step cfg) s pre)) h
    (fun pre op call hop hnode hmeets hpre => ?_) ((along_iff_throughout _ C s _).mp hC)).1
  rw [run_concat]
  exact hstep _ op call hop hnode hmeets hpre

end TxPool

end BcosTxPool
