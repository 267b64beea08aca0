import BcosTxPool.Theory.Signatures

/-!
# What an Import Has Brought In

An import for a proposal that returns success has submitted every transaction that it
was given. Much may have happened by then. Another import or a client may have put the
transaction in first, and an earlier one may have been removed again. Each transaction
has still been in the pool at some moment of the import, and only a block result or the
cleanup can have taken it out since. So a proposal whose import succeeded is missing
nothing that has not been removed.

An import returns. Once the turns of its parallel loop have been taken, the number of
its own moves is bounded by the number of its transactions, whatever other imports and
everything else do in between.

## Main definitions

* `Brings`: What an import has yet to submit, and what has been in the pool.
* `movesLeft`: The moves that an import has left.
* `Ready`: The parallel loop is over.

## Theorems

* `importerMove_brings`, `verifyTurn_brings`: What a move leaves to submit.
* `import_brings`: What an import that succeeded has brought in.
* `importerMove_movesLeft`: An import comes closer to its end.
* `import_returns`: Every import returns.
-/

namespace BcosTxPool

open Library

/-! ### What is left to submit -/

/-- The content that a turn is about. Verification marks the object and leaves
    its content. -/
def ImportTurn.content : ImportTurn → TxData
  | .todo data => data
  | .done tx => tx.toTxData

/-- The content that an enforced submission is about to look up. Once it has
    written it, the content is in the pool. -/
def EnforceState.Submits (data : TxData) : EnforceState → Prop
  | .submittedToChain tx => tx.toTxData = data
  | .lookup tx => tx.toTxData = data
  | .setSealed tx => tx.toTxData = data
  | .insert tx => tx.toTxData = data
  | .eraseMissed _ => False
  -- A rejected one ends the import without success.
  | .returned status => status ≠ .none

/-- The content that an insertion is about to write. -/
def SubmitterState.Inserts (data : TxData) : SubmitterState → Prop
  | .count tx _ => tx.toTxData = data
  | .insert tx _ => tx.toTxData = data
  | _ => False

/-- An import for a proposal that is on its way to success has every content it
    was given among those in the pool since it began, or still to submit. This
    is the invariant behind `import_brings`. -/
def ImporterState.Brings (txs : List TxData) (seen : TxData → Prop) : ImporterState → Prop
  | .idle => False
  | .verifying _ header turns verifySuccess =>
      header.isSome = true ∧ (∀ data ∈ txs, ∃ turn ∈ turns, turn.content = data) ∧
        (verifySuccess = true → ∀ tx, .done tx ∈ turns → tx.invalid = false)
  | .importing enforceImport rest =>
      enforceImport = true ∧ (∀ tx ∈ rest, tx.invalid = false) ∧
        ∀ data ∈ txs, seen data ∨ ∃ tx ∈ rest, tx.toTxData = data
  | .enforcing e rest =>
      (∀ tx ∈ rest, tx.invalid = false) ∧
        ∀ data ∈ txs, (seen data ∨ ∃ tx ∈ rest, tx.toTxData = data) ∨ e.Submits data
  | .submitting enforceImport b rest =>
      enforceImport = true ∧ (∀ tx ∈ rest, tx.invalid = false) ∧
        ∀ data ∈ txs, (seen data ∨ ∃ tx ∈ rest, tx.toTxData = data) ∨ b.Inserts data
  | .returned result => result = true → ∀ data ∈ txs, seen data

section Brings

variable {cfg : TxPoolConfig} {txs : List TxData} {seen seen' : TxData → Prop}

/-- What has been in the pool may grow. Nothing else in the invariant depends on
    the pool. -/
theorem ImporterState.Brings.mono (hseen : ∀ data, seen data → seen' data) {v : ImporterState}
    (h : v.Brings txs seen) : v.Brings txs seen' := by
  cases v with
  | idle => exact h
  | verifying fromNode header turns verifySuccess => exact h
  | importing enforceImport rest =>
      exact ⟨h.1, h.2.1, fun data hdata => (h.2.2 data hdata).imp_left (hseen data)⟩
  | enforcing e rest =>
      exact ⟨h.1, fun data hdata => (h.2 data hdata).imp_left (Or.imp_left (hseen data))⟩
  | submitting enforceImport b rest =>
      exact ⟨h.1, h.2.1,
        fun data hdata => (h.2.2 data hdata).imp_left (Or.imp_left (hseen data))⟩
  | returned result => exact fun hresult data hdata => hseen data (h hresult data hdata)

/-- After a move of an enforced submission, what it was about to look up has
    been found in the pool, or it still is, or it was rejected. -/
theorem enforceMove_submits (s : MemoryStorage) {e : EnforceState}
    (hinsert : ∀ tx, e ≠ .insert tx) {data : TxData} (h : e.Submits data) :
    s.exist data.hash = true ∨ (s.enforceMove cfg e).2.Submits data := by
  cases e with
  | submittedToChain tx =>
      rw [MemoryStorage.enforceMove]
      -- A nonce on chain rejects the transaction, and that ends the import without
      -- success.
      split
      · exact Or.inr (fun h => by cases h)
      · exact Or.inr h
  | lookup tx =>
      rw [MemoryStorage.enforceMove]
      split
      -- It is found: then it is in the pool at this moment.
      next entry hfind =>
        have hhash : tx.hash = data.hash := congrArg TxData.hash h
        refine Or.inl ((s.txsTable.contains_iff data.hash).mpr ⟨entry, ?_⟩)
        rw [← hhash]
        exact hfind
      next => exact Or.inr h
  | setSealed tx => exact Or.inr h
  | insert tx => exact absurd rfl (hinsert tx)
  | eraseMissed tx => exact h.elim
  | returned status => exact Or.inr h

/-- After a move of an insertion, what it was about to write is in the pool, or
    it still is. -/
theorem submitterMove_inserts (s : MemoryStorage) {b : SubmitterState} {data : TxData}
    (h : b.Inserts data) :
    s.exist data.hash = true ∨ (s.submitterMove cfg b).1.exist data.hash = true ∨
      (s.submitterMove cfg b).2.Inserts data := by
  cases b with
  | count tx cb =>
      have hhash : tx.hash = data.hash := congrArg TxData.hash h
      rw [MemoryStorage.submitterMove]
      split
      -- Another one has put the hash in meanwhile.
      next hcontains => exact Or.inl (hhash ▸ hcontains)
      next => exact Or.inr (Or.inr h)
  | insert tx cb =>
      refine Or.inr (Or.inl ?_)
      rw [← Bool.not_eq_false, ← MemoryStorage.content_eq_none_iff, MemoryStorage.submitterMove,
        MemoryStorage.content_put, if_pos (congrArg TxData.hash h)]
      exact Option.some_ne_none tx.toTxData
  | _ => exact h.elim

/-- What a move of an import leaves to submit. What is in the pool before the
    move or after it counts as seen. -/
theorem importerMove_brings (s : MemoryStorage)
    (hseen : ∀ data, seen data → seen' data)
    (hbefore : ∀ data, s.exist data.hash = true → seen' data) {v : ImporterState}
    (hafter : ∀ data, (TransactionSync.importerMove cfg s v).1.exist data.hash = true →
      seen' data)
    (h : v.Brings txs seen) : (TransactionSync.importerMove cfg s v).2.Brings txs seen' := by
  have hsame := h.mono hseen
  cases v with
  | idle => exact h.elim
  | returned result => exact hsame
  | verifying fromNode header turns verifySuccess =>
      rcases h with ⟨hheader, hturns, hvalid⟩
      rw [TransactionSync.importerMove]
      split
      next hdone =>
        -- With a header a wrong signature ends the import without success.
        cases verifySuccess with
        | false =>
            rw [hheader]
            exact fun h => by cases h
        | true =>
            rw [Bool.not_true, Bool.and_false, if_neg Bool.false_ne_true]
            refine ⟨hheader, fun tx htx => hvalid rfl tx (ImportTurn.mem_left_iff.mp htx),
              fun data hdata => Or.inr ?_⟩
            rcases hturns data hdata with ⟨turn, hturn, hcontent⟩
            rcases ImportTurn.all_left_iff.mp hdone turn hturn with ⟨tx, rfl⟩
            exact ⟨tx, ImportTurn.mem_left_iff.mpr hturn, hcontent⟩
      next => exact hsame
  | importing enforceImport rest =>
      rcases hsame with ⟨henforce, hvalid, hrest⟩
      cases rest with
      -- None is left to submit, so all have been seen.
      | nil =>
          intro _ data hdata
          rcases hrest data hdata with hdata | ⟨tx, htx, _⟩
          · exact hdata
          · exact absurd htx List.not_mem_nil
      | cons tx rest =>
          rw [TransactionSync.importerMove, hvalid tx List.mem_cons_self,
            if_neg Bool.false_ne_true, if_pos henforce]
          -- The first one is submitted next, and the others are still to come.
          refine ⟨fun t ht => hvalid t (List.mem_cons_of_mem tx ht), fun data hdata => ?_⟩
          rcases hrest data hdata with hdata | ⟨t, ht, hcontent⟩
          · exact Or.inl (Or.inl hdata)
          · rcases List.mem_cons.mp ht with rfl | ht
            · exact Or.inr hcontent
            · exact Or.inl (Or.inr ⟨t, ht, hcontent⟩)
  | enforcing e rest =>
      -- The submission was rejected, has returned, goes on to its insertion, or
      -- makes a move of its own.
      rcases TransactionSync.importerMove_enforcing_cases cfg s e rest with
        ⟨_, _, _, hmove⟩ | ⟨rfl, hmove⟩ | ⟨tx, rfl, hmove⟩ | ⟨_, hinsert, hmove⟩
      · rw [hmove]
        exact fun h => by cases h
      · rw [hmove]
        exact ⟨rfl, hsame.1,
          fun data hdata => (hsame.2 data hdata).resolve_right (fun h => h rfl)⟩
      · rw [hmove]
        exact ⟨rfl, hsame⟩
      · rw [hmove]
        refine ⟨hsame.1, fun data hdata => ?_⟩
        rcases hsame.2 data hdata with hdata | hsubmits
        · exact Or.inl hdata
        · exact (enforceMove_submits s hinsert hsubmits).imp_left
            (fun hexist => Or.inl (hbefore data hexist))
  | submitting enforceImport b rest =>
      -- The insertion has returned, or makes a move of its own.
      rcases TransactionSync.importerMove_submitting_cases cfg s enforceImport b rest with
        ⟨rfl, hmove⟩ | ⟨_, hmove⟩
      · rw [hmove]
        exact ⟨hsame.1, hsame.2.1, fun data hdata => (hsame.2.2 data hdata).resolve_right id⟩
      · rw [hmove] at hafter ⊢
        refine ⟨hsame.1, hsame.2.1, fun data hdata => ?_⟩
        rcases hsame.2.2 data hdata with hdata | hinserts
        · exact Or.inl hdata
        rcases submitterMove_inserts s hinserts with hexist | hexist | hinserts
        · exact Or.inl (Or.inl (hbefore data hexist))
        · exact Or.inl (Or.inl (hafter data hexist))
        · exact Or.inr hinserts

/-- A turn keeps what the import was given. One that fails ends the import
    without success. -/
theorem verifyTurn_brings (s : MemoryStorage) (index : Nat) {v : ImporterState}
    (h : v.Brings txs seen) : (TransactionSync.verifyTurn cfg s index v).Brings txs seen := by
  cases v with
  | verifying fromNode header turns verifySuccess =>
      rcases h with ⟨hheader, hturns, hvalid⟩
      rcases TransactionSync.verifyTurn_cases cfg s index fromNode header turns verifySuccess with
        ⟨data, hturn, htaken⟩ | ⟨_, hsame⟩
      · rw [htaken]
        rcases List.getElem?_eq_some_iff.mp hturn with ⟨hindex, hdata⟩
        have hcontent := TxPool.verifyDownloaded_toTxData cfg s fromNode header data
        refine ⟨hheader, fun given hgiven => ?_, fun hsuccess tx hdone => ?_⟩
        · rcases hturns given hgiven with ⟨turn, hmem, habout⟩
          rcases List.mem_iff_getElem.mp hmem with ⟨k, hk, hget⟩
          -- The turn taken is about the same content, and the others stay as they are.
          by_cases heq : k = index
          · subst heq
            refine ⟨_, List.mem_set hindex _, ?_⟩
            rw [← habout, ← hget, hdata]
            exact hcontent
          · refine ⟨turn, ?_, habout⟩
            rw [← hget]
            refine List.mem_iff_getElem.mpr ⟨k, by rw [List.length_set]; exact hk, ?_⟩
            rw [List.getElem_set_ne (Ne.symm heq)]
        · -- As long as no turn has failed, what was verified is valid.
          rw [Bool.and_eq_true] at hsuccess
          rcases List.mem_or_eq_of_mem_set hdone with hold | hnew
          · exact hvalid hsuccess.1 tx hold
          · injection hnew with hnew
            rw [hnew, (TxPool.verifyDownloaded_verdict cfg s fromNode header data).2,
              ← (TxPool.verifyDownloaded_verdict cfg s fromNode header data).1, hsuccess.2]
            rfl
      · rw [hsame]
        exact ⟨hheader, hturns, hvalid⟩
  | _ => exact h

/-- At the start all contents are still to be verified. An empty import returns
    at once. -/
theorem importStart_brings (fromNode : NodeID) {verifiedProposal : Option Block}
    (hheader : (TransactionSync.proposalHeader verifiedProposal).isSome = true) :
    (TransactionSync.importStart fromNode txs verifiedProposal).Brings txs seen := by
  rw [TransactionSync.importStart]
  split
  next hnil =>
    intro _ data hdata
    rw [List.length_eq_zero_iff.mp hnil] at hdata
    exact absurd hdata List.not_mem_nil
  next =>
    refine ⟨hheader, fun data hdata => ⟨_, List.mem_map_of_mem hdata, rfl⟩, fun _ tx hdone => ?_⟩
    rcases List.mem_map.mp hdone with ⟨_, _, hturn⟩
    cases hturn

end Brings

/-! ### Success -/

section Runs

variable {ι : Type} [DecidableEq ι] (cfg : TxPoolConfig)

/-- The hash has been in the pool at some moment of a run, the start
    included. -/
def SeenIn (t : Importers ι) (events : List (ImportEvent ι)) (data : TxData) : Prop :=
  ∃ pre post, events = pre ++ post ∧
    (run (importStep cfg) t pre).shared.exist data.hash = true

variable {cfg} {t : Importers ι} {events : List (ImportEvent ι)}

/-- It stays so as the run goes on. -/
theorem SeenIn.append {data : TxData} (h : SeenIn cfg t events data) (event : ImportEvent ι) :
    SeenIn cfg t (events ++ [event]) data := by
  rcases h with ⟨pre, post, rfl, hexist⟩
  exact ⟨pre, post ++ [event], List.append_assoc pre post [event], hexist⟩

/-- Every event keeps an import on its way to success, or ends it. -/
theorem importStep_brings {i : ι} {txs : List TxData}
    (h : ((run (importStep cfg) t events).own i).Brings txs (SeenIn cfg t events))
    (event : ImportEvent ι) :
    ((run (importStep cfg) t (events ++ [event])).own i).Brings txs
      (SeenIn cfg t (events ++ [event])) := by
  have hrun : run (importStep cfg) t (events ++ [event])
      = importStep cfg (run (importStep cfg) t events) event := by
    rw [run_concat]
  have hseen : ∀ data, SeenIn cfg t events data → SeenIn cfg t (events ++ [event]) data :=
    fun data hdata => hdata.append event
  have hsame := h.mono hseen
  rw [hrun]
  -- The event is elsewhere, the call itself, a turn of the loop, or a move of the
  -- import.
  rcases importStep_own cfg (run (importStep cfg) t events) event i with
    ⟨hown, _, _⟩ | ⟨_, _, _, _, hidle, _⟩ | ⟨index, rfl, hown⟩ | ⟨rfl, hown⟩
  · rw [hown]
    exact hsame
  · -- It has been called already.
    rw [hidle] at h
    exact h.elim
  · rw [hown]
    exact verifyTurn_brings _ index hsame
  · rw [hown]
    refine importerMove_brings _ hseen (fun data hexist => ?_) (fun data hexist => ?_) h
    · exact ⟨events, [.importer i], rfl, hexist⟩
    · refine ⟨events ++ [.importer i], [], (List.append_nil _).symm, ?_⟩
      rw [hrun]
      exact hexist

/-- So an import keeps what it was given over any run of events. -/
theorem run_brings {i : ι} {txs : List TxData} (h : (t.own i).Brings txs (SeenIn cfg t []))
    (events : List (ImportEvent ι)) :
    ((run (importStep cfg) t events).own i).Brings txs (SeenIn cfg t events) := by
  -- The induction is on the run from its end, since what has been seen grows with
  -- the run.
  induction events using List.reverseRecOn with
  | nil => exact h
  | append_singleton events event ih => exact importStep_brings ih event

/-- **What a successful import has brought in.** However imports and other
    operations interleave, an import for a proposal that returns success leaves
    each of its transactions in the pool, or a block result or the cleanup has
    taken it out while the import ran. -/
theorem import_brings (cfg : TxPoolConfig) {t : Importers ι} {i : ι} (hidle : t.own i = .idle)
    (fromNode : NodeID) (txs : List TxData) {verifiedProposal : Option Block}
    (hheader : (TransactionSync.proposalHeader verifiedProposal).isSome = true)
    (events : List (ImportEvent ι))
    (hsuccess : (run (importStep cfg) t
      (.importDownloadedTxs i fromNode txs verifiedProposal :: events)).own i
        = .returned true) {data : TxData} (hdata : data ∈ txs) :
    (run (importStep cfg) t
      (.importDownloadedTxs i fromNode txs verifiedProposal :: events)).shared.exist data.hash
        = true ∨
    ∃ pre op post, events = pre ++ .pool op :: post ∧ op.Removes ∧
      (run (importStep cfg) t
        (.importDownloadedTxs i fromNode txs verifiedProposal :: pre)).shared.exist data.hash
          = true ∧
      ¬ (run (importStep cfg) t (.importDownloadedTxs i fromNode txs verifiedProposal ::
        (pre ++ [.pool op]))).shared.exist data.hash = true := by
  simp only [run_cons] at hsuccess ⊢
  have hcalled : ((importStep cfg t
      (.importDownloadedTxs i fromNode txs verifiedProposal)).own i).Brings txs
        (SeenIn cfg (importStep cfg t
          (.importDownloadedTxs i fromNode txs verifiedProposal)) []) := by
    simp only [importStep, hidle, Function.update_self]
    exact importStart_brings fromNode hheader
  generalize importStep cfg t (.importDownloadedTxs i fromNode txs verifiedProposal) = called
    at hsuccess hcalled ⊢
  have hbrings := run_brings hcalled events
  rw [hsuccess] at hbrings
  rcases hbrings rfl data hdata with ⟨pre, post, rfl, hexist⟩
  by_cases hnow : (run (importStep cfg) called (pre ++ post)).shared.exist data.hash = true
  · exact Or.inl hnow
  -- It was there and is not there now, so one event has taken it out.
  rw [run_append] at hnow
  rcases exists_flip (importStep cfg) (fun t => t.shared.exist data.hash = true) post _ hexist
    hnow with ⟨before, event, after, rfl, hheld, hlost⟩
  have hremoval : ∃ op, event = .pool op ∧ op.Removes := by
    by_contra hnone
    exact hlost (importStep_exist cfg (fun op heq hremoves => hnone ⟨op, heq, hremoves⟩) hheld)
  rcases hremoval with ⟨op, rfl, hremoves⟩
  refine Or.inr ⟨pre ++ before, op, after, (List.append_assoc _ _ _).symm, hremoves, ?_, ?_⟩
  · rw [run_append]
    exact hheld
  · rw [run_concat, run_append]
    exact hlost

end Runs

/-- Two transactions are imported for a proposal, and a block takes the first
    one out while the second one is still to come. The import succeeds all the
    same. -/
def overtakenImport : List (ImportEvent Unit) :=
  [.verify () 1, .verify () 0] ++ List.replicate 12 (.importer ()) ++
    [.pool (.asyncNotifyBlockResult 1 [⟨1, .none, 7⟩])] ++ List.replicate 20 (.importer ())

/-- What the block has taken out was there before. The proposal is then short of
    a transaction, and the import does not know. -/
theorem import_brings_overtaken :
    (run (importStep TxPool.exampleConfig) (importersIdle TxPool.examplePool)
      (.importDownloadedTxs () 1 [TxPool.exampleTx 1 7 1, TxPool.exampleTx 2 8 1]
        (some ⟨some ⟨1, 9⟩, [1, 2], []⟩) :: overtakenImport)).shared.exist 1 = true ∨
    ∃ pre op post, overtakenImport = pre ++ .pool op :: post ∧ op.Removes ∧
      (run (importStep TxPool.exampleConfig) (importersIdle TxPool.examplePool)
        (.importDownloadedTxs () 1 [TxPool.exampleTx 1 7 1, TxPool.exampleTx 2 8 1]
          (some ⟨some ⟨1, 9⟩, [1, 2], []⟩) :: pre)).shared.exist 1 = true ∧
      ¬ (run (importStep TxPool.exampleConfig) (importersIdle TxPool.examplePool)
        (.importDownloadedTxs () 1 [TxPool.exampleTx 1 7 1, TxPool.exampleTx 2 8 1]
          (some ⟨some ⟨1, 9⟩, [1, 2], []⟩) :: (pre ++ [.pool op]))).shared.exist 1 = true :=
  import_brings TxPool.exampleConfig rfl 1 [TxPool.exampleTx 1 7 1, TxPool.exampleTx 2 8 1] rfl
    overtakenImport rfl List.mem_cons_self

/-! ### Every import returns -/

/-- The moves that an enforced submission has left, its insertion included. It
    is the measure by which a submission ends. -/
def EnforceState.movesLeft : EnforceState → Nat
  | .submittedToChain _ => 9
  | .lookup _ => 8
  | .setSealed _ => 7
  | .insert _ => 6
  | .eraseMissed _ => 1
  | .returned _ => 0

/-- The moves that a number of submissions take at most, with room for the moves
    between them. -/
def submissionMoves (n : Nat) : Nat := 16 * n

/-- The moves that an import has left at most, when the turns of its loop have
    been taken. Waiting for a turn is no move that counts. -/
def ImporterState.movesLeft : ImporterState → Nat
  | .idle => 0
  | .verifying _ _ turns _ => submissionMoves turns.length + 2
  | .importing _ txs => submissionMoves txs.length + 1
  | .enforcing e txs => e.movesLeft + (submissionMoves txs.length + 2)
  | .submitting _ b txs => b.movesLeft + (submissionMoves txs.length + 2)
  | .returned _ => 0

/-- The import has been called, and no turn of its loop is left. -/
def ImporterState.Ready : ImporterState → Prop
  | .idle => False
  | .verifying _ _ turns _ => turns.all (fun turn => turn.tx?.isSome) = true
  | _ => True

/-- Where none is left, the import has returned. -/
theorem ImporterState.eq_returned {v : ImporterState} (hready : v.Ready)
    (hnone : v.movesLeft = 0) : ∃ result, v = .returned result := by
  cases v with
  | idle => exact hready.elim
  | returned result => exact ⟨result, rfl⟩
  | verifying fromNode header turns verifySuccess => exact absurd hnone (Nat.succ_ne_zero _)
  | importing enforceImport txs => exact absurd hnone (Nat.succ_ne_zero _)
  | enforcing e txs => exact absurd hnone (Nat.succ_ne_zero _)
  | submitting enforceImport b txs => exact absurd hnone (Nat.succ_ne_zero _)

section Returns

variable (cfg : TxPoolConfig)

/-- Every move of an enforced submission brings it closer to its end, or it has
    returned. -/
theorem enforceMove_movesLeft (s : MemoryStorage) (e : EnforceState) :
    (s.enforceMove cfg e).2.movesLeft ≤ e.movesLeft - 1 := by
  cases e with
  | submittedToChain tx =>
      rw [MemoryStorage.enforceMove]
      split
      · exact Nat.zero_le _
      · exact Nat.le_refl _
  | lookup tx =>
      rw [MemoryStorage.enforceMove]
      split
      · split
        · exact Nat.zero_le _
        · split
          · exact Nat.zero_le _
          · exact Nat.zero_le _
      · exact Nat.le_refl _
  | insert tx => exact Nat.le_add_left 1 4
  | _ => exact Nat.le_refl _

/-- One more transaction takes sixteen more moves at most. -/
theorem submissionMoves_cons (tx : Transaction) (txs : List Transaction) :
    submissionMoves (tx :: txs).length = submissionMoves txs.length + 16 := rfl

/-- With no turn left, every move of an import brings it closer to its end. -/
theorem importerMove_movesLeft (s : MemoryStorage) {v : ImporterState} (h : v.Ready) :
    (TransactionSync.importerMove cfg s v).2.Ready ∧
      (TransactionSync.importerMove cfg s v).2.movesLeft ≤ v.movesLeft - 1 := by
  cases v with
  | idle => exact h.elim
  | returned result => exact ⟨trivial, Nat.le_refl _⟩
  | verifying fromNode header turns verifySuccess =>
      -- All turns have been taken, so the loop is left in this move.
      have hdone : turns.all (fun turn => turn.tx?.isSome) = true := h
      have hlength : (turns.filterMap ImportTurn.tx?).length ≤ turns.length :=
        List.length_filterMap_le _ _
      rw [TransactionSync.importerMove, if_pos hdone]
      split
      · exact ⟨trivial, Nat.zero_le _⟩
      · refine ⟨trivial, ?_⟩
        simp only [ImporterState.movesLeft, submissionMoves]
        omega
  | importing enforceImport txs =>
      cases txs with
      | nil => exact ⟨trivial, Nat.zero_le _⟩
      | cons tx txs =>
          have hcons := submissionMoves_cons tx txs
          rw [TransactionSync.importerMove]
          split
          · refine ⟨trivial, ?_⟩
            simp only [ImporterState.movesLeft]
            omega
          · split
            · refine ⟨trivial, ?_⟩
              simp only [ImporterState.movesLeft, EnforceState.movesLeft]
              omega
            · refine ⟨trivial, ?_⟩
              simp only [ImporterState.movesLeft, SubmitterState.movesLeft]
              omega
  | enforcing e txs =>
      rcases TransactionSync.importerMove_enforcing_cases cfg s e txs with
        ⟨_, _, _, hmove⟩ | ⟨rfl, hmove⟩ | ⟨tx, rfl, hmove⟩ | ⟨hreturned, _, hmove⟩
      · rw [hmove]
        exact ⟨trivial, Nat.zero_le _⟩
      · rw [hmove]
        refine ⟨trivial, ?_⟩
        simp only [ImporterState.movesLeft, EnforceState.movesLeft]
        omega
      · rw [hmove]
        refine ⟨trivial, ?_⟩
        simp only [ImporterState.movesLeft, EnforceState.movesLeft, SubmitterState.movesLeft]
        omega
      · rw [hmove]
        refine ⟨trivial, ?_⟩
        have hcloser := enforceMove_movesLeft cfg s e
        -- A submission that has no moves left has returned, and then the import moves.
        have hsome : e.movesLeft ≠ 0 := by
          cases e with
          | returned status => exact absurd rfl (hreturned status)
          | _ => exact Nat.succ_ne_zero _
        simp only [ImporterState.movesLeft]
        omega
  | submitting enforceImport b txs =>
      rcases TransactionSync.importerMove_submitting_cases cfg s enforceImport b txs with
        ⟨rfl, hmove⟩ | ⟨hbusy, hmove⟩
      · rw [hmove]
        refine ⟨trivial, ?_⟩
        simp only [ImporterState.movesLeft, SubmitterState.movesLeft]
        omega
      · rw [hmove]
        refine ⟨trivial, ?_⟩
        have hcloser := s.submitterMove_movesLeft cfg b
        have hsome : b.movesLeft ≠ 0 := fun h => hbusy (SubmitterState.eq_idle h)
        simp only [ImporterState.movesLeft]
        omega

/-- With all turns taken, a turn changes nothing. The source has no such turn; a
    schedule may. -/
theorem verifyTurn_of_ready (s : MemoryStorage) (index : Nat) {v : ImporterState} (h : v.Ready) :
    TransactionSync.verifyTurn cfg s index v = v := by
  cases v with
  | verifying fromNode header turns verifySuccess =>
      rcases TransactionSync.verifyTurn_cases cfg s index fromNode header turns verifySuccess with
        ⟨data, hturn, _⟩ | ⟨_, hsame⟩
      · rcases ImportTurn.all_left_iff.mp h _ (List.mem_of_getElem? hturn) with ⟨tx, hdone⟩
        cases hdone
      · exact hsame
  | _ => rfl

/-- The import has been called for so many transactions, and these turns have
    been taken. Behind the loop the measure stands in for the turns. -/
def ImporterState.Taken (n : Nat) (taken : Nat → Prop) : ImporterState → Prop
  | .verifying _ _ turns _ =>
      turns.length = n ∧ ∀ index < n, taken index → ∃ tx, turns[index]? = some (.done tx)
  | v => v.Ready ∧ v.movesLeft ≤ submissionMoves n + 2

/-- When all have been taken, the import is ready. -/
theorem ImporterState.Taken.ready {n : Nat} {taken : Nat → Prop} {v : ImporterState}
    (h : v.Taken n taken) (hall : ∀ index < n, taken index) :
    v.Ready ∧ v.movesLeft ≤ submissionMoves n + 2 := by
  cases v with
  | verifying fromNode header turns verifySuccess =>
      rcases h with ⟨hlength, hdone⟩
      refine ⟨ImportTurn.all_left_iff.mpr (fun turn hturn => ?_), ?_⟩
      · rcases List.mem_iff_getElem?.mp hturn with ⟨index, hget⟩
        have hindex : index < n := by
          rw [← hlength]
          exact (List.getElem?_eq_some_iff.mp hget).1
        rcases hdone index hindex (hall index hindex) with ⟨tx, hdone⟩
        rw [hget] at hdone
        exact ⟨tx, Option.some.inj hdone⟩
      · rw [ImporterState.movesLeft, hlength]
  | _ => exact h

/-- An import behind its loop is ready, and no turns need to be named. -/
theorem ImporterState.taken_of_ready {n : Nat} {taken : Nat → Prop} {v : ImporterState}
    (hready : v.Ready) (hleft : v.movesLeft ≤ submissionMoves n + 2) (hv : ¬ v.InLoop) :
    v.Taken n taken := by
  cases v with
  | verifying fromNode header turns verifySuccess => exact absurd trivial hv
  | _ => exact ⟨hready, hleft⟩

/-- Outside the loop the turns do not matter any more. -/
theorem ImporterState.Taken.left {n : Nat} {taken : Nat → Prop} {v : ImporterState}
    (h : v.Taken n taken) (hv : ¬ v.InLoop) :
    v.Ready ∧ v.movesLeft ≤ submissionMoves n + 2 := by
  cases v with
  | verifying fromNode header turns verifySuccess => exact absurd trivial hv
  | _ => exact h

/-- A move of the import untakes no turn. -/
theorem importerMove_taken (s : MemoryStorage) {n : Nat} {taken : Nat → Prop} {v : ImporterState}
    (h : v.Taken n taken) : (TransactionSync.importerMove cfg s v).2.Taken n taken := by
  by_cases hv : v.InLoop
  · cases v with
    | verifying fromNode header turns verifySuccess =>
        have hlength : (turns.filterMap ImportTurn.tx?).length ≤ turns.length :=
          List.length_filterMap_le _ _
        have hturns := h.1
        rw [TransactionSync.importerMove]
        split
        · split
          · exact ⟨trivial, Nat.zero_le _⟩
          · refine ⟨trivial, ?_⟩
            simp only [ImporterState.movesLeft, submissionMoves]
            omega
        · exact h
    | _ => exact hv.elim
  · have hready := h.left hv
    have hmove := importerMove_movesLeft cfg s hready.1
    exact ImporterState.taken_of_ready hmove.1
      (hmove.2.trans ((Nat.sub_le _ _).trans hready.2))
      (TransactionSync.importerMove_not_inLoop cfg s hv)

/-- A turn takes its place, and the others stay as they are. -/
theorem verifyTurn_taken (s : MemoryStorage) (index : Nat) {n : Nat} {taken taken' : Nat → Prop}
    (htaken : ∀ k, taken' k → taken k ∨ k = index) {v : ImporterState} (h : v.Taken n taken) :
    (TransactionSync.verifyTurn cfg s index v).Taken n taken' := by
  cases v with
  | verifying fromNode header turns verifySuccess =>
      rcases h with ⟨hlength, hdone⟩
      rcases TransactionSync.verifyTurn_cases cfg s index fromNode header turns verifySuccess with
        ⟨data, hturn, hmove⟩ | ⟨hturn, hsame⟩
      · rw [hmove]
        refine ⟨by rw [List.length_set]; exact hlength, fun k hk hktaken => ?_⟩
        by_cases heq : index = k
        · subst heq
          rw [List.getElem?_set_self (by rw [hlength]; exact hk)]
          exact ⟨_, rfl⟩
        · rw [List.getElem?_set_ne heq]
          exact hdone k hk ((htaken k hktaken).resolve_right (Ne.symm heq))
      · rw [hsame]
        refine ⟨hlength, fun k hk hktaken => ?_⟩
        rcases htaken k hktaken with hold | rfl
        · exact hdone k hk hold
        · -- The turn has been taken before.
          have hsome : k < turns.length := by
            rw [hlength]
            exact hk
          cases hget : turns[k] with
          | todo data => exact absurd (List.getElem?_eq_some_iff.mpr ⟨hsome, hget⟩) (hturn data)
          | done tx => exact ⟨tx, List.getElem?_eq_some_iff.mpr ⟨hsome, hget⟩⟩
  | idle => exact h
  | importing enforceImport txs => exact h
  | enforcing e txs => exact h
  | submitting enforceImport b txs => exact h
  | returned result => exact h

/-- The turns that have been taken are still taken when fewer are asked for. -/
theorem ImporterState.Taken.anti {n : Nat} {taken taken' : Nat → Prop}
    (htaken : ∀ k, taken' k → taken k) {v : ImporterState} (h : v.Taken n taken) :
    v.Taken n taken' := by
  cases v with
  | verifying fromNode header turns verifySuccess =>
      exact ⟨h.1, fun k hk hktaken => h.2 k hk (htaken k hktaken)⟩
  | _ => exact h

variable {ι : Type} [DecidableEq ι]

/-- The moves of one import in a run. -/
def ImportEvent.isMoveOf (i : ι) : ImportEvent ι → Bool
  | .importer j => j = i
  | _ => false

/-- The turns that are taken in the events are taken. -/
theorem run_taken {t : Importers ι} {i : ι} {n : Nat}
    (h : (t.own i).Taken n (fun _ => False)) (events : List (ImportEvent ι)) :
    ((run (importStep cfg) t events).own i).Taken n (fun k => .verify i k ∈ events) := by
  -- The induction is on the run from its end. Only a turn of this import adds to
  -- what is taken.
  induction events using List.reverseRecOn with
  | nil => exact h.anti (fun k hk => absurd hk List.not_mem_nil)
  | append_singleton events event ih =>
      rw [run_concat]
      have hmem : ∀ k, .verify i k ∈ events ++ [event] → .verify i k ∈ events ∨
          event = .verify i k := by
        intro k hk
        rcases List.mem_append.mp hk with hk | hk
        · exact Or.inl hk
        · exact Or.inr (List.mem_singleton.mp hk).symm
      rcases importStep_own cfg (run (importStep cfg) t events) event i with
        ⟨hown, hverify, _⟩ | ⟨_, _, _, _, hidle, _⟩ | ⟨index, rfl, hown⟩ | ⟨rfl, hown⟩
      · rw [hown]
        exact ih.anti (fun k hk => (hmem k hk).resolve_right (hverify k))
      · rw [hidle] at ih
        exact ih.1.elim
      · rw [hown]
        refine verifyTurn_taken cfg _ index (fun k hk => ?_) ih
        rcases hmem k hk with hk | heq
        · exact Or.inl hk
        · injection heq with _ heq
          exact Or.inr heq.symm
      · rw [hown]
        exact importerMove_taken cfg _ (ih.anti (fun k hk =>
          (hmem k hk).resolve_right (fun heq => by cases heq)))

/-- The moves of a ready import, in whatever run, bring it to its end. -/
theorem run_movesLeft {i : ι} (events : List (ImportEvent ι)) :
    ∀ {t : Importers ι}, (t.own i).Ready →
      ((run (importStep cfg) t events).own i).Ready ∧
        ((run (importStep cfg) t events).own i).movesLeft
          ≤ (t.own i).movesLeft - events.countP (fun event => event.isMoveOf i) := by
  -- The induction is on the events, for any state that the import is in when they
  -- begin.
  induction events with
  | nil => exact fun hready => ⟨hready, Nat.le_refl _⟩
  | cons event events ih =>
      intro t hready
      rw [run_cons, List.countP_cons]
      rcases importStep_own cfg t event i with
        ⟨hown, _, hmove⟩ | ⟨_, _, _, _, hidle, _⟩ | ⟨index, rfl, hown⟩ | ⟨rfl, hown⟩
      · -- An event of another import or of the pool does not count.
        have hcount : event.isMoveOf i ≠ true := by
          intro hcount
          cases event with
          | importer j => exact hmove (congrArg ImportEvent.importer (of_decide_eq_true hcount))
          | _ => exact absurd hcount Bool.false_ne_true
        rw [if_neg hcount, ← hown]
        rw [← hown] at hready
        exact ih hready
      · rw [hidle] at hready
        exact hready.elim
      · rw [verifyTurn_of_ready cfg _ index hready] at hown
        have hcount : (ImportEvent.verify i index).isMoveOf i ≠ true := Bool.false_ne_true
        rw [if_neg hcount, ← hown]
        rw [← hown] at hready
        exact ih hready
      · have hmove := importerMove_movesLeft cfg t.shared hready
        rw [← hown] at hmove
        have hrest := ih hmove.1
        have hcount : (ImportEvent.importer i).isMoveOf i = true := decide_eq_true rfl
        rw [if_pos hcount]
        refine ⟨hrest.1, hrest.2.trans ?_⟩
        have hleft := hmove.2
        omega

/-- **Every import returns.** However imports and other operations interleave:
    once the turns of its parallel loop have been taken, an import returns after
    a number of its own moves that the number of its transactions bounds. -/
theorem import_returns {t : Importers ι} {i : ι} (hidle : t.own i = .idle) (fromNode : NodeID)
    (txs : List TxData) (verifiedProposal : Option Block) {turns moves : List (ImportEvent ι)}
    (hturns : ∀ index < txs.length, .verify i index ∈ turns)
    (hmoves : submissionMoves txs.length + 2 ≤ moves.countP (fun event => event.isMoveOf i)) :
    ∃ result, (run (importStep cfg) t
      (.importDownloadedTxs i fromNode txs verifiedProposal :: (turns ++ moves))).own i
        = .returned result := by
  have hcalled : ((importStep cfg t
      (.importDownloadedTxs i fromNode txs verifiedProposal)).own i).Taken txs.length
        (fun _ => False) := by
    simp only [importStep, hidle, Function.update_self, TransactionSync.importStart]
    split
    · exact ⟨trivial, Nat.zero_le _⟩
    · exact ⟨List.length_map _, fun _ _ h => h.elim⟩
  rw [run_cons, run_append]
  -- After the turns the loop is over, and from there every move counts.
  have hready := (run_taken cfg hcalled turns).ready hturns
  have hend := run_movesLeft cfg moves hready.1
  have hnone : ((run (importStep cfg) (run (importStep cfg) (importStep cfg t
      (.importDownloadedTxs i fromNode txs verifiedProposal)) turns) moves).own i).movesLeft
        = 0 := by
    have hleft := hready.2
    omega
  exact ImporterState.eq_returned hend.1 hnone

end Returns

/-- Two turns, and then as many moves as two submissions may take. -/
theorem import_returns_twoTurns :
    ∃ result, (run (importStep TxPool.exampleConfig) (importersIdle TxPool.examplePool)
      (.importDownloadedTxs () 1 [TxPool.exampleTx 1 7 1, TxPool.exampleTx 2 8 1] none ::
        ([.verify () 1, .verify () 0] ++ List.replicate 34 (.importer ())))).own ()
        = .returned result :=
  import_returns TxPool.exampleConfig rfl 1 [TxPool.exampleTx 1 7 1, TxPool.exampleTx 2 8 1] none
    (by
      intro index hindex
      match index, hindex with
      | 0, _ => exact List.mem_cons_of_mem _ List.mem_cons_self
      | 1, _ => exact List.mem_cons_self)
    (by decide)

end BcosTxPool
