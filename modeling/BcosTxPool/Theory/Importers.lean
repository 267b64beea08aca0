import BcosTxPool.Core.Importers
import BcosTxPool.Theory.Interleaving
import BcosTxPool.Theory.Parallel

/-!
# An Import as One Step

An import checks signatures in a parallel loop and then submits for a while, move by
move. Where nothing else happens to the pool in between, all of this is the call that
the import is elsewhere: the turns of the loop may be taken in any order, and other
imports may be called and check their signatures meanwhile.

While the loop is under way, a turn that has been taken has left what it would leave
now, since the pool is still the same. So what the import leads to is known at every
moment of the loop. After the loop the program is deterministic and leads to it.

## Main definitions

* `InLoop`: The parallel loop is under way.
* `outcome`, `concluded`: What the loop leads to.
* `importerAlone`: An import that moves alone.
* `Heads`: The import is on its way to a pool and a result.
* `ImportEvent.Spares`: The pool is left to one import.

## Theorems

* `verifyTurn_cases`, `importerMove_enforcing_cases`, `importerMove_submitting_cases`: What
  a turn and a move do.
* `concluded_todo`, `importing_leads`: The loop, and what comes after it.
* `import_uninterrupted`: An import as one step.
-/

namespace BcosTxPool

open Library

/-- The import is in its parallel loop. No transaction has been submitted
    yet. -/
def ImporterState.InLoop : ImporterState → Prop
  | .verifying _ _ _ _ => True
  | _ => False

/-- The transactions that the turns have left are those of the turns that are
    done. -/
theorem ImportTurn.mem_left_iff {turns : List ImportTurn} {tx : Transaction} :
    tx ∈ turns.filterMap ImportTurn.tx? ↔ ImportTurn.done tx ∈ turns := by
  rw [List.mem_filterMap]
  constructor
  · rintro ⟨turn, hturn, hleft⟩
    cases turn with
    | todo data => cases hleft
    | done left =>
        injection hleft with hleft
        exact hleft ▸ hturn
  · exact fun hturn => ⟨_, hturn, rfl⟩

/-- The loop is left when each turn has left its transaction. -/
theorem ImportTurn.all_left_iff {turns : List ImportTurn} :
    turns.all (fun turn => turn.tx?.isSome) = true ↔ ∀ turn ∈ turns, ∃ tx, turn = .done tx := by
  rw [List.all_eq_true]
  refine forall₂_congr (fun turn _ => ?_)
  cases turn with
  | todo data =>
      refine iff_of_false Bool.false_ne_true ?_
      rintro ⟨tx, heq⟩
      cases heq
  | done tx => exact iff_of_true rfl ⟨tx, rfl⟩

namespace TransactionSync

variable (cfg : TxPoolConfig)

/-! ### The parallel loop -/

/-- What a turn has left, or would leave now. The two agree as long as the pool
    is the same, and that is why the order of the turns does not matter. -/
def outcome (s : MemoryStorage) (fromNode : NodeID) (header : Option BlockHeader) :
    ImportTurn → Transaction × Bool
  | .todo data => verifyDownloaded cfg s fromNode header data
  | .done tx => (tx, true)

/-- The pool and the result when the turns that are left are taken now, and the
    submissions after them in one piece. -/
def concluded (s : MemoryStorage) (fromNode : NodeID) (header : Option BlockHeader)
    (turns : List ImportTurn) (verifySuccess : Bool) : MemoryStorage × Bool :=
  let verified := turns.map (outcome cfg s fromNode header)
  if header.isSome && !(verifySuccess && verified.all (fun v => v.2)) then (s, false)
  else importLoop cfg header.isSome (verified.map (fun v => v.1)) s

/-- At the start, when no turn has been taken, that is the call itself. -/
theorem concluded_start (s : MemoryStorage) (fromNode : NodeID) {txs : List TxData}
    (htxs : txs.length ≠ 0) (verifiedProposal : Option Block) :
    concluded cfg s fromNode (proposalHeader verifiedProposal) (txs.map .todo) true
      = importDownloadedTxs cfg s fromNode txs verifiedProposal := by
  have hturns : (txs.map ImportTurn.todo).map
        (outcome cfg s fromNode (proposalHeader verifiedProposal))
      = txs.map (verifyDownloaded cfg s fromNode (proposalHeader verifiedProposal)) :=
    List.map_map
  simp only [concluded, importDownloadedTxs, hturns, Bool.true_and]
  rw [if_neg htxs]

/-- A turn that is yet to be taken is taken, and nothing happens at any other
    index. -/
theorem verifyTurn_cases (s : MemoryStorage) (index : Nat) (fromNode : NodeID)
    (header : Option BlockHeader) (turns : List ImportTurn) (verifySuccess : Bool) :
    (∃ data, turns[index]? = some (.todo data) ∧
      verifyTurn cfg s index (.verifying fromNode header turns verifySuccess)
        = .verifying fromNode header
            (turns.set index (.done (verifyDownloaded cfg s fromNode header data).1))
            (verifySuccess && (verifyDownloaded cfg s fromNode header data).2)) ∨
    ((∀ data, turns[index]? ≠ some (.todo data)) ∧
      verifyTurn cfg s index (.verifying fromNode header turns verifySuccess)
        = .verifying fromNode header turns verifySuccess) := by
  rw [verifyTurn]
  split
  next data hturn => exact Or.inl ⟨data, hturn, rfl⟩
  next hturn => exact Or.inr ⟨hturn, rfl⟩

/-- A turn of the loop changes nothing about what the loop leads to. It leaves
    what it would have left in the end, and the verdict is a conjunction. -/
theorem concluded_todo (s : MemoryStorage) {index : Nat} (fromNode : NodeID)
    (header : Option BlockHeader) {turns : List ImportTurn} {data : TxData}
    (hturn : turns[index]? = some (.todo data)) (verifySuccess : Bool) :
    concluded cfg s fromNode header
        (turns.set index (.done (verifyDownloaded cfg s fromNode header data).1))
        (verifySuccess && (verifyDownloaded cfg s fromNode header data).2)
      = concluded cfg s fromNode header turns verifySuccess := by
  rcases List.getElem?_eq_some_iff.mp hturn with ⟨hindex, hdata⟩
  -- The turn stands between those before and those after it.
  have hsplit : turns = turns.take index ++ .todo data :: turns.drop (index + 1) := by
    rw [← hdata, List.cons_getElem_drop_succ, List.take_append_drop]
  have hset := List.set_eq_take_append_cons_drop (l := turns) (i := index)
    (a := ImportTurn.done (verifyDownloaded cfg s fromNode header data).1)
  rw [if_pos hindex] at hset
  rw [hset]
  conv_rhs => rw [hsplit]
  simp only [concluded, List.map_append, List.map_cons, outcome, List.all_append, List.all_cons,
    Bool.true_and]
  generalize (turns.take index).map (outcome cfg s fromNode header) = before
  generalize (turns.drop (index + 1)).map (outcome cfg s fromNode header) = after
  generalize verifyDownloaded cfg s fromNode header data = v
  -- The verdict of the turn moves to its place in the conjunction.
  have hverdict : (verifySuccess && v.2 && (before.all (fun v => v.2)
        && after.all (fun v => v.2)))
      = (verifySuccess && (before.all (fun v => v.2) && (v.2 && after.all (fun v => v.2)))) := by
    cases v.2 with
    | true => rw [Bool.and_true, Bool.true_and]
    | false => rw [Bool.and_false, Bool.false_and, Bool.false_and, Bool.and_false,
        Bool.and_false]
  rw [hverdict]

/-- The loop is over: only the verdict and the transactions left decide. -/
theorem concluded_of_done (s : MemoryStorage) (fromNode : NodeID) (header : Option BlockHeader)
    {turns : List ImportTurn} (hdone : turns.all (fun turn => turn.tx?.isSome) = true)
    (verifySuccess : Bool) :
    concluded cfg s fromNode header turns verifySuccess
      = if header.isSome && !verifySuccess then (s, false)
        else importLoop cfg header.isSome (turns.filterMap ImportTurn.tx?) s := by
  have hleft : turns.map (outcome cfg s fromNode header)
      = (turns.filterMap ImportTurn.tx?).map (fun tx => (tx, true)) := by
    -- Each turn is done, so it leaves its transaction and no verdict of its own.
    induction turns with
    | nil => rfl
    | cons turn turns ih =>
        rw [List.all_cons, Bool.and_eq_true] at hdone
        cases turn with
        | todo data => exact absurd hdone.1 Bool.false_ne_true
        | done tx => rw [List.map_cons, ih hdone.2]; rfl
  have hnobody : ((turns.filterMap ImportTurn.tx?).map (fun tx => (tx, true))).all
      (fun v => v.2) = true := by
    rw [List.all_map]
    exact List.all_eq_true.mpr (fun _ _ => rfl)
  simp only [concluded, hleft, hnobody, Bool.and_true]
  rw [List.map_map]
  exact congrArg _ (congrArg (fun txs => importLoop cfg header.isSome txs s) (List.map_id _))

/-! ### The submissions -/

/-- An import that moves alone, with the pool in its hands. -/
def importerAlone (p : MemoryStorage × ImporterState) : MemoryStorage × ImporterState :=
  importerMove cfg p.1 p.2

/-- In the middle of an enforced submission the import makes the move of the
    submission. -/
theorem importerMove_enforcing (s : MemoryStorage) {e : EnforceState}
    (hreturned : ∀ status, e ≠ .returned status) (hinsert : ∀ tx, e ≠ .insert tx)
    (txs : List Transaction) :
    importerMove cfg s (.enforcing e txs)
      = ((s.enforceMove cfg e).1, .enforcing (s.enforceMove cfg e).2 txs) := by
  cases e with
  | returned status => exact absurd rfl (hreturned status)
  | insert tx => exact absurd rfl (hinsert tx)
  | _ => rfl

/-- The same in a normal submission, and in the insertion that both routes
    share. -/
theorem importerMove_submitting (s : MemoryStorage) (enforceImport : Bool) {b : SubmitterState}
    (hb : b ≠ .idle) (txs : List Transaction) :
    importerMove cfg s (.submitting enforceImport b txs)
      = ((s.submitterMove cfg b).1, .submitting enforceImport (s.submitterMove cfg b).2 txs) := by
  cases b with
  | idle => exact absurd rfl hb
  | _ => rfl

/-- A move in an enforced submission acts on its status, calls `insert`, or is a
    move of the submission. -/
theorem importerMove_enforcing_cases (s : MemoryStorage) (e : EnforceState)
    (txs : List Transaction) :
    (∃ status, e = .returned status ∧ status ≠ .none ∧
      importerMove cfg s (.enforcing e txs) = (s, .returned false)) ∨
    (e = .returned .none ∧ importerMove cfg s (.enforcing e txs) = (s, .importing true txs)) ∨
    (∃ tx, e = .insert tx ∧
      importerMove cfg s (.enforcing e txs) = (s, .submitting true (.count tx none) txs)) ∨
    ((∀ status, e ≠ .returned status) ∧ (∀ tx, e ≠ .insert tx) ∧
      importerMove cfg s (.enforcing e txs)
        = ((s.enforceMove cfg e).1, .enforcing (s.enforceMove cfg e).2 txs)) := by
  by_cases hreturned : ∃ status, e = .returned status
  · rcases hreturned with ⟨status, rfl⟩
    by_cases hstatus : status = .none
    · subst hstatus
      exact Or.inr (Or.inl ⟨rfl, rfl⟩)
    · exact Or.inl ⟨status, rfl, hstatus, by rw [importerMove, if_pos hstatus]⟩
  by_cases hinsert : ∃ tx, e = .insert tx
  · rcases hinsert with ⟨tx, rfl⟩
    exact Or.inr (Or.inr (Or.inl ⟨tx, rfl, rfl⟩))
  · have hreturned : ∀ status, e ≠ .returned status := not_exists.mp hreturned
    have hinsert : ∀ tx, e ≠ .insert tx := not_exists.mp hinsert
    exact Or.inr (Or.inr (Or.inr ⟨hreturned, hinsert,
      importerMove_enforcing cfg s hreturned hinsert txs⟩))

/-- A move in an insertion or in a normal submission is a move of it, until it
    is over. -/
theorem importerMove_submitting_cases (s : MemoryStorage) (enforceImport : Bool)
    (b : SubmitterState) (txs : List Transaction) :
    (b = .idle ∧ importerMove cfg s (.submitting enforceImport b txs)
      = (s, .importing enforceImport txs)) ∨
    (b ≠ .idle ∧ importerMove cfg s (.submitting enforceImport b txs)
      = ((s.submitterMove cfg b).1,
          .submitting enforceImport (s.submitterMove cfg b).2 txs)) := by
  by_cases hidle : b = .idle
  · subst hidle
    exact Or.inl ⟨rfl, rfl⟩
  · exact Or.inr ⟨hidle, importerMove_submitting cfg s enforceImport hidle txs⟩

/-- The moves of a submission are those that it makes on a worker. -/
theorem submitting_leads (enforceImport : Bool) (txs : List Transaction) {s s' : MemoryStorage}
    {b : SubmitterState}
    (h : Leads (MemoryStorage.submitterAlone cfg) (s, b) (s', .idle)) :
    Leads (importerAlone cfg) (s, .submitting enforceImport b txs)
      (s', .importing enforceImport txs) := by
  rcases h with ⟨n, hn⟩
  -- The induction is on the number of moves that the worker takes.
  induction n generalizing s b with
  | zero =>
      rw [Function.iterate_zero, id, Prod.mk.injEq] at hn
      rw [hn.1, hn.2]
      exact Leads.step (Leads.refl _)
  | succ n ih =>
      rw [Function.iterate_succ_apply] at hn
      -- An idle worker stays idle, while the import goes on to the next one.
      by_cases hb : b = .idle
      · subst hb
        exact ih hn
      · refine Leads.step ?_
        rw [importerAlone, importerMove_submitting cfg s enforceImport hb]
        exact ih hn

/-- Without a callback nobody is answered. -/
theorem replied_none (txHash : HashType) (p : MemoryStorage × TransactionStatus) :
    MemoryStorage.replied txHash none p = p.1 := by
  rw [MemoryStorage.replied]
  split
  · rfl
  · rfl

/-- Once an enforced submission has its status, the next move acts on it. -/
theorem enforced_leads (p : MemoryStorage × TransactionStatus) (txs : List Transaction) :
    Leads (importerAlone cfg) (p.1, .enforcing (.returned p.2) txs)
      (p.1, if p.2 ≠ .none then .returned false else .importing true txs) := by
  refine Leads.step ?_
  rw [importerAlone, importerMove]
  split
  · exact Leads.refl _
  · exact Leads.refl _

/-- One move of an enforced submission on the way to where the rest of it
    leads. -/
theorem enforcing_step {s : MemoryStorage} (e : EnforceState)
    (hreturned : ∀ status, e ≠ .returned status) (hinsert : ∀ tx, e ≠ .insert tx)
    {txs : List Transaction} {q : MemoryStorage × ImporterState}
    (h : Leads (importerAlone cfg)
      ((s.enforceMove cfg e).1, .enforcing (s.enforceMove cfg e).2 txs) q) :
    Leads (importerAlone cfg) (s, .enforcing e txs) q := by
  refine Leads.step ?_
  rw [importerAlone, importerMove_enforcing cfg s hreturned hinsert]
  exact h

/-- The moves of an enforced submission, with those of its insertion, make the
    call. The status of the insertion is dropped on the way, as in the
    source. -/
theorem enforcing_leads (s : MemoryStorage) (tx : Transaction) (txs : List Transaction) :
    Leads (importerAlone cfg) (s, .enforcing (.submittedToChain tx) txs)
      ((s.enforceSubmitTransaction cfg tx).1,
        if (s.enforceSubmitTransaction cfg tx).2 ≠ .none then .returned false
        else .importing true txs) := by
  have hcheck := TxValidator.submittedToChain_eq_nonceCheckFail_iff s.ledgerNonceChecker tx
  refine enforcing_step cfg (.submittedToChain tx) (fun _ h => by cases h)
    (fun _ h => by cases h) ?_
  -- The nonce is on chain, or the lookup comes next.
  rcases s.enforceMove_submittedToChain_cases cfg tx with ⟨hnonce, hmove⟩ | ⟨hnonce, hmove⟩
  · have hcall : s.enforceSubmitTransaction cfg tx = (s, .nonceCheckFail) := by
      rw [MemoryStorage.enforceSubmitTransaction, if_pos (hcheck.mpr hnonce)]
    rw [hmove, hcall]
    exact enforced_leads cfg (s, .nonceCheckFail) txs
  rw [hmove]
  refine enforcing_step cfg (.lookup tx) (fun _ h => by cases h) (fun _ h => by cases h) ?_
  cases hfind : s.txsTable.find? tx.hash with
  | some entry =>
      rw [s.enforceMove_lookup_of_find?_some cfg hnonce hfind]
      exact enforced_leads cfg (s.enforceSubmitTransaction cfg tx) txs
  | none =>
      simp only [MemoryStorage.enforceMove, hfind, MemoryStorage.enforceSubmitTransaction,
        if_neg (fun h => hnonce (hcheck.mp h)), ne_eq, not_true_eq_false, if_false]
      -- The object is sealed, and the insertion is called.
      refine Leads.step (Leads.step ?_)
      -- Its moves are those of an insertion without a callback.
      have hinsert := submitting_leads cfg true txs (MemoryStorage.insertAndAnswer_leads cfg
        (if tx.sealed then s else { s with sealedTxsSize := s.sealedTxsSize + 1 })
        { tx with sealed := true } none)
      rw [replied_none] at hinsert
      exact hinsert

/-- The submissions of an import make the submission loop. -/
theorem importing_leads (enforceImport : Bool) (txs : List Transaction) :
    ∀ s, Leads (importerAlone cfg) (s, .importing enforceImport txs)
      ((importLoop cfg enforceImport txs s).1,
        .returned (importLoop cfg enforceImport txs s).2) := by
  -- The induction is on the transactions that are left, for whatever pool the
  -- earlier ones have reached.
  induction txs with
  | nil => exact fun s => Leads.step (Leads.refl _)
  | cons tx txs ih =>
      intro s
      refine Leads.step ?_
      rw [importerAlone, importerMove, importLoop]
      -- What failed its signature check is passed over in both.
      by_cases hinvalid : tx.invalid = true
      · rw [if_pos hinvalid, if_pos hinvalid]
        exact ih s
      rw [if_neg hinvalid, if_neg hinvalid]
      cases enforceImport with
      | true =>
          have hsubmit : s.submitTransaction cfg tx none true = s.enforceSubmitTransaction cfg tx :=
            rfl
          rw [if_pos rfl, hsubmit]
          refine (enforcing_leads cfg s tx txs).trans ?_
          simp only
          split
          · exact Leads.refl _
          · exact ih _
      | false =>
          have hsubmit : s.submitTransaction cfg tx none false
              = s.verifyAndSubmitTransaction cfg tx none := rfl
          have hleads := submitting_leads cfg false txs
            (MemoryStorage.verifyAndSubmit_leads cfg s tx none)
          rw [replied_none] at hleads
          rw [if_neg Bool.false_ne_true, hsubmit]
          refine hleads.trans ?_
          simp only [Bool.false_eq_true, if_false, ite_self]
          exact ih _

/-! ### The whole import -/

/-- The import is on its way to a pool and a result, if it is left alone with
    the pool. In the loop the end is known by what is left to do, and after it
    by the moves that lead there. -/
def Heads (s : MemoryStorage) (v : ImporterState) (p : MemoryStorage × Bool) : Prop :=
  match v with
  | .verifying fromNode header turns verifySuccess =>
      concluded cfg s fromNode header turns verifySuccess = p
  | v => Leads (importerAlone cfg) (s, v) (p.1, .returned p.2)

/-- An import that has just been called is on its way to what the call
    returns. -/
theorem heads_start (s : MemoryStorage) (fromNode : NodeID) (txs : List TxData)
    (verifiedProposal : Option Block) :
    Heads cfg s (importStart fromNode txs verifiedProposal)
      (importDownloadedTxs cfg s fromNode txs verifiedProposal) := by
  by_cases htxs : txs.length = 0
  · rw [importStart, importDownloadedTxs, if_pos htxs, if_pos htxs]
    exact Leads.refl _
  · rw [importStart, if_neg htxs]
    exact concluded_start cfg s fromNode htxs verifiedProposal

/-- The parallel loop, once left, is not entered again. -/
theorem importerMove_not_inLoop (s : MemoryStorage) {v : ImporterState} (hv : ¬ v.InLoop) :
    ¬ (importerMove cfg s v).2.InLoop := by
  cases v with
  | idle => exact id
  | verifying fromNode header turns verifySuccess => exact absurd trivial hv
  | importing enforceImport txs =>
      cases txs with
      | nil => exact id
      | cons tx txs =>
          rw [importerMove]
          split
          · exact id
          · split
            · exact id
            · exact id
  | enforcing e txs =>
      cases e with
      | returned status =>
          rw [importerMove]
          split
          · exact id
          · exact id
      | _ => exact id
  | submitting enforceImport b txs =>
      cases b with
      | _ => exact id
  | returned result => exact id

variable {cfg} {s : MemoryStorage} {v : ImporterState} {p : MemoryStorage × Bool}

/-- Outside the loop that is where its moves lead. -/
theorem heads_iff_leads (hv : ¬ v.InLoop) :
    Heads cfg s v p ↔ Leads (importerAlone cfg) (s, v) (p.1, .returned p.2) := by
  cases v with
  | verifying fromNode header turns verifySuccess => exact absurd trivial hv
  | _ => exact Iff.rfl

/-- A turn keeps the import on its way. -/
theorem heads_verifyTurn (h : Heads cfg s v p) (index : Nat) :
    Heads cfg s (verifyTurn cfg s index v) p := by
  cases v with
  | verifying fromNode header turns verifySuccess =>
      rcases verifyTurn_cases cfg s index fromNode header turns verifySuccess with
        ⟨data, hturn, htaken⟩ | ⟨_, hsame⟩
      · rw [htaken]
        exact (concluded_todo cfg s fromNode header hturn verifySuccess).trans h
      · rw [hsame]
        exact h
  | _ => exact h

/-- And so does a move of the import. -/
theorem heads_importerMove (h : Heads cfg s v p) :
    Heads cfg (importerMove cfg s v).1 (importerMove cfg s v).2 p := by
  by_cases hv : v.InLoop
  · cases v with
    | verifying fromNode header turns verifySuccess =>
        have hconcluded : concluded cfg s fromNode header turns verifySuccess = p := h
        rw [importerMove]
        split
        next hdone =>
          -- The loop is left, and what comes next is what it leads to.
          rw [concluded_of_done cfg s fromNode header hdone] at hconcluded
          split
          next hfailed =>
            rw [if_pos hfailed] at hconcluded
            rw [← hconcluded]
            exact Leads.refl _
          next hpassed =>
            rw [if_neg hpassed] at hconcluded
            rw [← hconcluded]
            exact importing_leads cfg header.isSome _ s
        next => exact h
    | _ => exact hv.elim
  · exact (heads_iff_leads (importerMove_not_inLoop cfg s hv)).mpr
      (((heads_iff_leads hv).mp h).tail rfl)

/-- An import that is on its way has been called. -/
theorem Heads.not_idle (h : Heads cfg s v p) : v ≠ .idle := by
  rintro rfl
  have hend := Leads.end_unique (Leads.refl (s, ImporterState.idle)) rfl h rfl
  have hend := congrArg Prod.snd hend
  cases hend

/-- What has returned has come to its end. -/
theorem Heads.returned {result : Bool} (h : Heads cfg s (.returned result) p) :
    (s, result) = p := by
  have hend := Leads.end_unique (Leads.refl (s, ImporterState.returned result)) rfl h rfl
  rw [Prod.mk.injEq, ImporterState.returned.injEq] at hend
  exact Prod.ext hend.1 hend.2

end TransactionSync

section Imports

variable {ι : Type} [DecidableEq ι] (cfg : TxPoolConfig)

/-- What an event does to one import: nothing, or it is called, or a turn of its
    loop is taken, or it moves. -/
theorem importStep_own (t : Importers ι) (event : ImportEvent ι) (i : ι) :
    ((importStep cfg t event).own i = t.own i ∧ (∀ index, event ≠ .verify i index) ∧
      event ≠ .importer i) ∨
    (∃ fromNode txs verifiedProposal,
      event = .importDownloadedTxs i fromNode txs verifiedProposal ∧ t.own i = .idle ∧
      (importStep cfg t event).own i
        = TransactionSync.importStart fromNode txs verifiedProposal) ∨
    (∃ index, event = .verify i index ∧
      (importStep cfg t event).own i
        = TransactionSync.verifyTurn cfg t.shared index (t.own i)) ∨
    (event = .importer i ∧
      (importStep cfg t event).own i
        = (TransactionSync.importerMove cfg t.shared (t.own i)).2) := by
  cases event with
  | importDownloadedTxs j fromNode txs verifiedProposal =>
      rw [importStep]
      split
      -- The call takes effect only where the import is idle.
      next hidle =>
        by_cases hij : i = j
        · subst hij
          exact Or.inr (Or.inl ⟨fromNode, txs, verifiedProposal, rfl, hidle,
            Function.update_self i _ t.own⟩)
        · exact Or.inl ⟨Function.update_of_ne hij _ t.own, (fun _ h => by cases h),
            (fun h => by cases h)⟩
      next => exact Or.inl ⟨rfl, (fun _ h => by cases h), (fun h => by cases h)⟩
  | verify j index =>
      rw [importStep]
      by_cases hij : i = j
      · subst hij
        exact Or.inr (Or.inr (Or.inl ⟨index, rfl, Function.update_self i _ t.own⟩))
      · refine Or.inl ⟨Function.update_of_ne hij _ t.own, fun k heq => hij ?_,
          (fun h => by cases h)⟩
        injection heq with heq _
        exact heq.symm
  | importer j =>
      rw [importStep]
      by_cases hij : i = j
      · subst hij
        exact Or.inr (Or.inr (Or.inr ⟨rfl, Threads.move_own_self _ t i⟩))
      · refine Or.inl ⟨Threads.move_own_of_ne _ t hij, (fun _ h => by cases h),
          fun heq => hij ?_⟩
        injection heq with heq
        exact heq.symm
  | pool op => exact Or.inl ⟨rfl, (fun _ h => by cases h), (fun h => by cases h)⟩

/-- An event that leaves the pool to one import: that import moves, or another
    is called or checks signatures. -/
def ImportEvent.Spares (i : ι) : ImportEvent ι → Prop
  | .importDownloadedTxs _ _ _ _ => True
  | .verify _ _ => True
  | .importer j => j = i
  | .pool _ => False

instance (i : ι) (event : ImportEvent ι) : Decidable (event.Spares i) :=
  match event with
  | .importDownloadedTxs _ _ _ _ => inferInstanceAs (Decidable True)
  | .verify _ _ => inferInstanceAs (Decidable True)
  | .importer j => inferInstanceAs (Decidable (j = i))
  | .pool _ => inferInstanceAs (Decidable False)

/-- Only a move of the import itself changes the pool then. -/
theorem importStep_shared_of_spares {i : ι} {event : ImportEvent ι} (hevent : event.Spares i)
    (hmove : event ≠ .importer i) (t : Importers ι) :
    (importStep cfg t event).shared = t.shared := by
  cases event with
  | importDownloadedTxs j fromNode txs verifiedProposal =>
      rw [importStep]
      split
      · rfl
      · rfl
  | verify j index => rfl
  | importer j =>
      have hij : j = i := hevent
      exact absurd (congrArg ImportEvent.importer hij) hmove
  | pool op => exact hevent.elim

/-- An event that spares the pool keeps the import on its way. -/
theorem importStep_heads {i : ι} {event : ImportEvent ι} (hevent : event.Spares i)
    {t : Importers ι} {p : MemoryStorage × Bool}
    (h : TransactionSync.Heads cfg t.shared (t.own i) p) :
    TransactionSync.Heads cfg (importStep cfg t event).shared
      ((importStep cfg t event).own i) p := by
  rcases importStep_own cfg t event i with
    ⟨hown, _, hmove⟩ | ⟨_, _, _, _, hidle, _⟩ | ⟨index, rfl, hown⟩ | ⟨rfl, hown⟩
  · rw [hown, importStep_shared_of_spares cfg hevent hmove]
    exact h
  · -- It is on its way already, so this call is of another import.
    exact absurd hidle h.not_idle
  · rw [hown]
    exact TransactionSync.heads_verifyTurn h index
  · rw [hown, importStep, Threads.move_shared]
    exact TransactionSync.heads_importerMove h

/-- **An import as one step.** Whatever the order of the turns of its parallel
    loop, and whatever other imports are called and check meanwhile: where
    nothing else happens to the pool before it returns, an import leads to what
    the call leads to. -/
theorem import_uninterrupted {t : Importers ι} {i : ι} (hidle : t.own i = .idle)
    (fromNode : NodeID) (txs : List TxData) (verifiedProposal : Option Block)
    {events : List (ImportEvent ι)} (hevents : ∀ event ∈ events, event.Spares i) {result : Bool}
    (hreturned : (run (importStep cfg) t
      (.importDownloadedTxs i fromNode txs verifiedProposal :: events)).own i
        = .returned result) :
    ((run (importStep cfg) t
      (.importDownloadedTxs i fromNode txs verifiedProposal :: events)).shared, result)
      = TransactionSync.importDownloadedTxs cfg t.shared fromNode txs verifiedProposal := by
  have hcalled : TransactionSync.Heads cfg
      (importStep cfg t (.importDownloadedTxs i fromNode txs verifiedProposal)).shared
      ((importStep cfg t (.importDownloadedTxs i fromNode txs verifiedProposal)).own i)
      (TransactionSync.importDownloadedTxs cfg t.shared fromNode txs verifiedProposal) := by
    simp only [importStep, hidle, Function.update_self]
    exact TransactionSync.heads_start cfg t.shared fromNode txs verifiedProposal
  have hheads := run_invariant (importStep cfg)
    (fun t => TransactionSync.Heads cfg t.shared (t.own i) _) (fun event => event.Spares i)
    (fun _ _ hevent h => importStep_heads cfg hevent h) events _ hevents hcalled
  rw [run_cons] at hreturned ⊢
  rw [hreturned] at hheads
  exact hheads.returned

end Imports

/-- Two turns in reverse order, and another import that checks its signatures
    meanwhile. -/
theorem import_uninterrupted_reversed :
    ((run (importStep TxPool.exampleConfig) (importersIdle TxPool.examplePool : Importers Bool)
      (.importDownloadedTxs true 1 [TxPool.exampleTx 1 7 1, TxPool.exampleTx 2 8 1] none ::
        ([.verify true 1, .importDownloadedTxs false 2 [TxPool.exampleTx 3 9 1] none,
          .verify false 0, .verify true 0] ++ List.replicate 40 (.importer true)))).shared, true)
      = TransactionSync.importDownloadedTxs TxPool.exampleConfig TxPool.examplePool 1
          [TxPool.exampleTx 1 7 1, TxPool.exampleTx 2 8 1] none :=
  import_uninterrupted TxPool.exampleConfig rfl 1 _ none
    (by decide) rfl

end BcosTxPool
