import BcosTxPool.Theory.Frames

/-!
# The Walk of a Seal

The loop of `batchFetchTxs` taken apart into turns. A turn looks one hash up
and does one of four things with the entry it finds: it leaves it alone, sets
it aside because its nonce is on chain, sets it aside because it has expired,
or hands it out. The loop is the run of its turns over the part of the table
it meets before it has enough, which is `walked`.

So a seal is a run too. `Visits` says that the walk meets an entry in some
state, and `batchFetchTxs_invariant` is the rule for what a seal preserves:
only the entries that are met count, each in the state in which it is met.

## Main definitions

* `setAsideOnChain`, `setAsideExpired`, `handOut`: The pool after a turn.
* `turn`: One turn of the walk.
* `walked`: The part of the order that the walk meets.
* `Visits`: The walk meets an entry.

## Theorems

* `fetchLoop_eq_run`: The loop is the run of its turns.
* `batchFetchTxs_invariant`: What a seal preserves.
* `fetchDecision_onChain_iff`, `fetchDecision_expired_iff`,
  `submittedToChain_of_fetch`: When a turn does what.
* `step_effect`: What a call of a node may do to contents and caches.
-/

namespace BcosTxPool

open Library

namespace MemoryStorage

/-! ### Turns -/

theorem withoutCallback_hash (tx : Transaction) :
    ({ tx with submitCallback := none } : Transaction).hash = tx.hash := rfl

theorem handedOut_hash (tx : Transaction) :
    ({ tx with sealed := true, batchId := -1, batchHash := 0 } : Transaction).hash = tx.hash := rfl

/-- The pool after an entry was set aside whose nonce is on chain. Its callback
    is taken away, and its nonce goes into the set of hashes, as in the
    source. -/
def setAsideOnChain (s : MemoryStorage) (txHash : HashType) (tx : Transaction) : MemoryStorage :=
  { s with
    txsTable := s.txsTable.modify txHash (fun tx => { tx with submitCallback := none })
      withoutCallback_hash
    invalidTxs := (s.invalidTxs.insert txHash).insert (nonceToHash tx.nonce) }

/-- The pool after an entry was set aside that has expired. It keeps its
    callback, and its nonce is noted for release. -/
def setAsideExpired (s : MemoryStorage) (txHash : HashType) (tx : Transaction) : MemoryStorage :=
  { s with
    invalidTxs := s.invalidTxs.insert txHash
    invalidNonces := s.invalidNonces.insert tx.nonce }

/-- The pool after an entry was handed out: sealed, and for no proposal yet. -/
def handOut (s : MemoryStorage) (txHash : HashType) (tx : Transaction) : MemoryStorage :=
  { s with
    sealedTxsSize := if tx.sealed then s.sealedTxsSize else s.sealedTxsSize + 1
    txsTable := s.txsTable.modify txHash
      (fun tx => { tx with sealed := true, batchId := -1, batchHash := 0 }) handedOut_hash }

/-- One turn of the walk. The blocks filled so far go along with the pool. -/
def turn (avoidTxs : HashList) (avoidDuplicate : Bool) (acc : MemoryStorage × FetchedTxs)
    (txHash : HashType) : MemoryStorage × FetchedTxs :=
  match acc.1.txsTable.find? txHash with
  | none => acc
  | some tx =>
    match acc.1.fetchDecision avoidTxs avoidDuplicate tx with
    | .skip => acc
    | .onChain => (acc.1.setAsideOnChain txHash tx, acc.2)
    | .expired => (acc.1.setAsideExpired txHash tx, acc.2)
    | .fetch => (acc.1.handOut txHash tx, acc.2.append tx)

/-- The part of the order that the walk meets: it ends with the entry that
    fills the two blocks. -/
def walked (txsLimit : Nat) (avoidTxs : HashList) (avoidDuplicate : Bool) :
    HashList → MemoryStorage × FetchedTxs → HashList
  | [], _ => []
  | txHash :: order, acc =>
      let acc' := turn avoidTxs avoidDuplicate acc txHash
      txHash :: if acc.2.size < acc'.2.size ∧ acc'.2.size ≥ txsLimit then []
        else walked txsLimit avoidTxs avoidDuplicate order acc'

theorem size_append (f : FetchedTxs) (tx : Transaction) : (f.append tx).size = f.size + 1 := by
  unfold FetchedTxs.append FetchedTxs.size
  simp only
  -- It joins one of the two blocks.
  split
  · simp only [List.length_append, List.length_singleton]
    omega
  · simp only [List.length_append, List.length_singleton]
    omega

theorem hashes_append_perm (f : FetchedTxs) (tx : Transaction) :
    (f.append tx).hashes.Perm (tx.hash :: f.hashes) := by
  unfold FetchedTxs.append FetchedTxs.hashes
  simp only
  split
  · rw [List.map_append, List.map_singleton, ← List.append_assoc]
    exact List.perm_append_singleton _ _
  · rw [List.map_append, List.map_singleton, List.append_assoc, List.singleton_append]
    exact List.perm_middle

theorem mem_hashes_append (f : FetchedTxs) (tx : Transaction) (txHash : HashType) :
    txHash ∈ (f.append tx).hashes ↔ txHash = tx.hash ∨ txHash ∈ f.hashes :=
  (hashes_append_perm f tx).mem_iff.trans List.mem_cons

theorem turn_of_find?_none (avoidTxs : HashList) (avoidDuplicate : Bool)
    {acc : MemoryStorage × FetchedTxs} {txHash : HashType}
    (hfind : acc.1.txsTable.find? txHash = none) :
    turn avoidTxs avoidDuplicate acc txHash = acc := by
  simp only [turn, hfind]

/-- A turn changes nothing, or it sets the entry it meets aside or hands it
    out. -/
theorem turn_cases (avoidTxs : HashList) (avoidDuplicate : Bool)
    (acc : MemoryStorage × FetchedTxs) (txHash : HashType) :
    turn avoidTxs avoidDuplicate acc txHash = acc ∨
    ∃ tx, acc.1.txsTable.find? txHash = some tx ∧
      ((acc.1.fetchDecision avoidTxs avoidDuplicate tx = .onChain ∧
        turn avoidTxs avoidDuplicate acc txHash = (acc.1.setAsideOnChain txHash tx, acc.2)) ∨
      (acc.1.fetchDecision avoidTxs avoidDuplicate tx = .expired ∧
        turn avoidTxs avoidDuplicate acc txHash = (acc.1.setAsideExpired txHash tx, acc.2)) ∨
      (acc.1.fetchDecision avoidTxs avoidDuplicate tx = .fetch ∧
        turn avoidTxs avoidDuplicate acc txHash = (acc.1.handOut txHash tx, acc.2.append tx))) := by
  unfold turn
  cases hfind : acc.1.txsTable.find? txHash with
  | none => exact Or.inl rfl
  | some tx =>
      simp only
      cases hdecision : acc.1.fetchDecision avoidTxs avoidDuplicate tx with
      | skip => exact Or.inl rfl
      | onChain => exact Or.inr ⟨tx, rfl, Or.inl ⟨hdecision, rfl⟩⟩
      | expired => exact Or.inr ⟨tx, rfl, Or.inr (Or.inl ⟨hdecision, rfl⟩)⟩
      | fetch => exact Or.inr ⟨tx, rfl, Or.inr (Or.inr ⟨hdecision, rfl⟩)⟩

/-- The loop is the run of its turns over the part of the order that it walks,
    so the rules for runs apply to a seal. -/
theorem fetchLoop_eq_run (txsLimit : Nat) (avoidTxs : HashList) (avoidDuplicate : Bool)
    (order : HashList) :
    ∀ acc : MemoryStorage × FetchedTxs,
      fetchLoop txsLimit avoidTxs avoidDuplicate order acc.1 acc.2
        = run (turn avoidTxs avoidDuplicate) acc
            (walked txsLimit avoidTxs avoidDuplicate order acc) := by
  induction order with
  | nil => exact fun _ => rfl
  | cons txHash order ih =>
      intro acc
      rw [walked, run_cons, fetchLoop]
      -- A turn that hands nothing out leaves the blocks as they are, and the walk
      -- goes on after it.
      have hgoes : ∀ acc' : MemoryStorage × FetchedTxs, acc'.2 = acc.2 →
          ¬ (acc.2.size < acc'.2.size ∧ acc'.2.size ≥ txsLimit) := by
        intro acc' hsame hc
        rw [hsame] at hc
        exact absurd hc.1 (Nat.lt_irrefl _)
      cases hfind : acc.1.txsTable.find? txHash with
      | none =>
          have hturn := turn_of_find?_none avoidTxs avoidDuplicate hfind
          rw [hturn, if_neg (hgoes acc rfl)]
          exact ih acc
      | some tx =>
          simp only
          cases hdecision : acc.1.fetchDecision avoidTxs avoidDuplicate tx with
          | skip =>
              have hturn : turn avoidTxs avoidDuplicate acc txHash = acc := by
                simp only [turn, hfind, hdecision]
              rw [hturn, if_neg (hgoes acc rfl)]
              exact ih acc
          | onChain =>
              have hturn : turn avoidTxs avoidDuplicate acc txHash
                  = (acc.1.setAsideOnChain txHash tx, acc.2) := by
                simp only [turn, hfind, hdecision]
              rw [hturn, if_neg (hgoes _ rfl)]
              exact ih (acc.1.setAsideOnChain txHash tx, acc.2)
          | expired =>
              have hturn : turn avoidTxs avoidDuplicate acc txHash
                  = (acc.1.setAsideExpired txHash tx, acc.2) := by
                simp only [turn, hfind, hdecision]
              rw [hturn, if_neg (hgoes _ rfl)]
              exact ih (acc.1.setAsideExpired txHash tx, acc.2)
          | fetch =>
              have hturn : turn avoidTxs avoidDuplicate acc txHash
                  = (acc.1.handOut txHash tx, acc.2.append tx) := by
                simp only [turn, hfind, hdecision]
              rw [hturn]
              have hmore : acc.2.size < (acc.2.append tx).size := by
                rw [size_append]
                exact Nat.lt_succ_self _
              -- Only handing out fills a block, so only here the loop may end.
              by_cases hfull : (acc.2.append tx).size ≥ txsLimit
              · simp only [hmore, hfull, and_self, if_true, run_nil]
                rfl
              · simp only [hmore, hfull, and_false, if_false]
                exact ih (acc.1.handOut txHash tx, acc.2.append tx)

theorem walked_isPrefix (txsLimit : Nat) (avoidTxs : HashList) (avoidDuplicate : Bool)
    (order : HashList) :
    ∀ acc, walked txsLimit avoidTxs avoidDuplicate order acc <+: order := by
  induction order with
  | nil => exact fun _ => List.prefix_rfl
  | cons txHash order ih =>
      intro acc
      rw [walked, List.prefix_cons_inj]
      split
      · exact List.nil_prefix
      · exact ih _

/-! ### Decisions -/

variable {s : MemoryStorage} {avoidTxs : HashList} {avoidDuplicate : Bool} {tx : Transaction}

theorem fetchDecision_onChain_iff :
    s.fetchDecision avoidTxs avoidDuplicate tx = .onChain ↔
      ¬ tx.hash ∈ s.invalidTxs ∧ tx.nonce ∈ s.ledgerNonceChecker.nonceCache := by
  rw [← TxValidator.submittedToChain_eq_nonceCheckFail_iff]
  unfold fetchDecision
  by_cases hinvalid : tx.hash ∈ s.invalidTxs
  · rw [if_pos hinvalid]
    exact iff_of_false (fun h => by cases h) (fun h => h.1 hinvalid)
  · rw [if_neg hinvalid]
    split
    · -- The check by nonce comes right after that of the invalid hashes.
      rename_i hresult
      exact iff_of_true rfl ⟨hinvalid, hresult⟩
    · rename_i hresult
      refine iff_of_false ?_ (fun h => hresult h.2)
      split
      · exact fun h => by cases h
      · split
        · exact fun h => by cases h
        · split
          · exact fun h => by cases h
          · exact fun h => by cases h

theorem fetchDecision_expired_iff :
    s.fetchDecision avoidTxs avoidDuplicate tx = .expired ↔
      ¬ tx.hash ∈ s.invalidTxs ∧
        TxValidator.submittedToChain s.ledgerNonceChecker tx = .blockLimitCheckFail ∧
        tx.sealed = false := by
  unfold fetchDecision
  by_cases hinvalid : tx.hash ∈ s.invalidTxs
  · rw [if_pos hinvalid]
    exact iff_of_false (fun h => by cases h) (fun h => h.1 hinvalid)
  · rw [if_neg hinvalid]
    split
    · -- A nonce on the ledger is another reason, and it is found first.
      rename_i hresult
      rw [hresult]
      exact iff_of_false (fun h => by cases h) (fun h => by cases h.2.1)
    · split
      · rename_i hexpired
        rw [Bool.not_eq_true'] at hexpired
        exact iff_of_true rfl ⟨hinvalid, hexpired⟩
      · rename_i hexpired
        rw [Bool.not_eq_true'] at hexpired
        refine iff_of_false ?_ (fun h => hexpired h.2)
        split
        · exact fun h => by cases h
        · split
          · exact fun h => by cases h
          · exact fun h => by cases h

/-- What is handed out while duplicates are avoided passes the ledger check. -/
theorem submittedToChain_of_fetch (h : s.fetchDecision avoidTxs true tx = .fetch) :
    ¬ tx.hash ∈ s.invalidTxs ∧ tx.sealed = false ∧
      TxValidator.submittedToChain s.ledgerNonceChecker tx = .none := by
  -- Each of the other decisions would have been met before.
  have hopen := sealed_of_fetchDecision_fetch h
  have hinvalid : ¬ tx.hash ∈ s.invalidTxs := by
    intro hmem
    rw [fetchDecision, if_pos hmem] at h
    cases h
  refine ⟨hinvalid, hopen, ?_⟩
  have honChain : ¬ tx.nonce ∈ s.ledgerNonceChecker.nonceCache := by
    intro hmem
    rw [fetchDecision_onChain_iff.mpr ⟨hinvalid, hmem⟩] at h
    cases h
  have hexpired : TxValidator.submittedToChain s.ledgerNonceChecker tx ≠ .blockLimitCheckFail := by
    intro hfail
    rw [fetchDecision_expired_iff.mpr ⟨hinvalid, hfail, hopen⟩] at h
    cases h
  -- Neither on chain nor expired, there is no third status but success.
  rw [TxValidator.submittedToChain_eq, if_neg honChain] at hexpired ⊢
  unfold LedgerNonceChecker.checkBlockLimit at hexpired ⊢
  split
  · rename_i hfail
    rw [if_pos hfail] at hexpired
    exact absurd rfl hexpired
  · rfl

/-! ### What a seal preserves -/

variable {α : Type} {π : Transaction → α} (cfg : TxPoolConfig)

/-- The walk of a seal meets the entry in the given state. The state is that
    after the turns before it, so earlier turns may have changed the entry. -/
def Visits (s : MemoryStorage) (order : HashList) (txsLimit : Nat) (avoidTxs : HashList)
    (avoidDuplicate : Bool) (s' : MemoryStorage) (txHash : HashType) (tx : Transaction) : Prop :=
  ∃ pre post f, walked txsLimit avoidTxs avoidDuplicate order (s, {}) = pre ++ txHash :: post ∧
    run (turn avoidTxs avoidDuplicate) (s, {}) pre = (s', f) ∧
    s'.txsTable.find? txHash = some tx

theorem Visits.find {order : HashList} {txsLimit : Nat} {s' : MemoryStorage} {txHash : HashType}
    (h : Visits s order txsLimit avoidTxs avoidDuplicate s' txHash tx) :
    s'.txsTable.find? txHash = some tx := by
  rcases h with ⟨_, _, _, _, _, hfind⟩
  exact hfind

/-- What the turns of a walk preserve, of the pool and the two blocks, its loop
    preserves. -/
theorem fetchLoop_invariant {order : HashList} {txsLimit : Nat}
    (Inv : MemoryStorage × FetchedTxs → Prop)
    (honChain : ∀ s' f txHash tx, Visits s order txsLimit avoidTxs avoidDuplicate s' txHash tx →
      s'.fetchDecision avoidTxs avoidDuplicate tx = .onChain → Inv (s', f) →
      Inv (s'.setAsideOnChain txHash tx, f))
    (hexpired : ∀ s' f txHash tx, Visits s order txsLimit avoidTxs avoidDuplicate s' txHash tx →
      s'.fetchDecision avoidTxs avoidDuplicate tx = .expired → Inv (s', f) →
      Inv (s'.setAsideExpired txHash tx, f))
    (hfetch : ∀ s' f txHash tx, Visits s order txsLimit avoidTxs avoidDuplicate s' txHash tx →
      s'.fetchDecision avoidTxs avoidDuplicate tx = .fetch → Inv (s', f) →
      Inv (s'.handOut txHash tx, f.append tx))
    (h : Inv (s, {})) : Inv (fetchLoop txsLimit avoidTxs avoidDuplicate order s {}) := by
  rw [fetchLoop_eq_run txsLimit avoidTxs avoidDuplicate order (s, {})]
  -- Every turn of the walk is a visit, in the state where it happens.
  have hvisits : Along (turn avoidTxs avoidDuplicate) (fun acc txHash => ∀ tx,
      acc.1.txsTable.find? txHash = some tx →
      Visits s order txsLimit avoidTxs avoidDuplicate acc.1 txHash tx) (s, {})
      (walked txsLimit avoidTxs avoidDuplicate order (s, {})) := by
    rw [along_iff_throughout]
    exact fun pre txHash post heq tx hfind => ⟨pre, post, _, heq, rfl, hfind⟩
  refine along_invariant _ _ Inv (fun acc txHash hvisit hinv => ?_) _ _ hvisits h
  rcases turn_cases avoidTxs avoidDuplicate acc txHash with hturn |
    ⟨tx, hfind, ⟨hdecision, hturn⟩ | ⟨hdecision, hturn⟩ | ⟨hdecision, hturn⟩⟩
  · rw [hturn]
    exact hinv
  · rw [hturn]
    exact honChain acc.1 acc.2 txHash tx (hvisit tx hfind) hdecision hinv
  · rw [hturn]
    exact hexpired acc.1 acc.2 txHash tx (hvisit tx hfind) hdecision hinv
  · rw [hturn]
    exact hfetch acc.1 acc.2 txHash tx (hvisit tx hfind) hdecision hinv

/-- What a seal preserves: an invariant that reports do not touch and that every
    turn keeps, of an entry the walk meets. -/
theorem batchFetchTxs_invariant {order : HashList} {txsLimit : Nat} (Inv : MemoryStorage → Prop)
    (honChain : ∀ s' txHash tx, Visits s order txsLimit avoidTxs avoidDuplicate s' txHash tx →
      s'.fetchDecision avoidTxs avoidDuplicate tx = .onChain → Inv s' →
      Inv (s'.setAsideOnChain txHash tx))
    (hexpired : ∀ s' txHash tx, Visits s order txsLimit avoidTxs avoidDuplicate s' txHash tx →
      s'.fetchDecision avoidTxs avoidDuplicate tx = .expired → Inv s' →
      Inv (s'.setAsideExpired txHash tx))
    (hfetch : ∀ s' txHash tx, Visits s order txsLimit avoidTxs avoidDuplicate s' txHash tx →
      s'.fetchDecision avoidTxs avoidDuplicate tx = .fetch → Inv s' → Inv (s'.handOut txHash tx))
    (hreport : ∀ (s' : MemoryStorage) n reports, Inv s' →
      Inv { s' with sealedTxsSize := n, reports := reports })
    (h : Inv s) : Inv (s.batchFetchTxs cfg order txsLimit avoidTxs avoidDuplicate).1 := by
  have hloop := fetchLoop_invariant (fun acc => Inv acc.1)
    (fun s' _ txHash tx hv hd hi => honChain s' txHash tx hv hd hi)
    (fun s' _ txHash tx hv hd hi => hexpired s' txHash tx hv hd hi)
    (fun s' _ txHash tx hv hd hi => hfetch s' txHash tx hv hd hi) h
  unfold batchFetchTxs
  simp only
  -- After the loop the seal reports to the sealer, and no more.
  rcases notifyUnsealedTxsSize_eq cfg
    (fetchLoop txsLimit avoidTxs avoidDuplicate order s {}).1 with ⟨n, rs, heq, _⟩
  rw [heq]
  exact hreport _ n rs hloop

/-- Turns leave what shows no flags and the nonce checkers alone. Here the
    callback is dropped, which such a projection does not show. -/
theorem setAsideOnChain_sameEntries (hπ : Fixed π) (s : MemoryStorage) (txHash : HashType)
    (tx : Transaction) : SameEntries π s (s.setAsideOnChain txHash tx) where
  entries := by
    intro k
    rw [setAsideOnChain, KeyedTable.find?_modify]
    split
    · rw [Option.map_map]
      exact Option.map_congr (fun tx _ => hπ.change .dropCallback tx)
    · rfl
  txPool := rfl
  ledger := rfl

theorem handOut_sameEntries (hπ : Fixed π) (s : MemoryStorage) (txHash : HashType)
    (tx : Transaction) : SameEntries π s (s.handOut txHash tx) where
  entries := by
    intro k
    rw [handOut, KeyedTable.find?_modify]
    split
    · rw [Option.map_map]
      exact Option.map_congr (fun tx _ => hπ.change (.setSeal (-1) 0) tx)
    · rfl
  txPool := rfl
  ledger := rfl

/-- The states of a walk show what the state it began with shows, so a fact
    about contents or caches may be moved between them. -/
theorem Visits.sameEntries (hπ : Fixed π) {order : HashList} {txsLimit : Nat} {s' : MemoryStorage}
    {txHash : HashType} (h : Visits s order txsLimit avoidTxs avoidDuplicate s' txHash tx) :
    SameEntries π s s' := by
  rcases h with ⟨pre, _, f, _, hrun, _⟩
  have hpre := run_invariant (turn avoidTxs avoidDuplicate)
    (fun acc => SameEntries π s acc.1) (fun _ => True)
    (fun acc k _ hacc => ?_) pre (s, {}) (fun _ _ => trivial) (SameEntries.refl _ s)
  · rw [hrun] at hpre
    exact hpre
  · -- One turn, in its four outcomes.
    rcases turn_cases avoidTxs avoidDuplicate acc k with hturn |
      ⟨tx, _, ⟨_, hturn⟩ | ⟨_, hturn⟩ | ⟨_, hturn⟩⟩
    · rw [hturn]
      exact hacc
    · rw [hturn]
      exact hacc.trans (setAsideOnChain_sameEntries hπ acc.1 k tx)
    · rw [hturn]
      exact ⟨hacc.entries, hacc.txPool, hacc.ledger⟩
    · rw [hturn]
      exact hacc.trans (handOut_sameEntries hπ acc.1 k tx)

/-- A seal leaves what shows no flags and the nonce checkers alone. -/
theorem batchFetchTxs_sameEntries (hπ : Fixed π) (s : MemoryStorage) (order : HashList)
    (txsLimit : Nat) (avoidTxs : HashList) (avoidDuplicate : Bool) :
    SameEntries π s
      (s.batchFetchTxs cfg order txsLimit avoidTxs avoidDuplicate).1 := by
  refine batchFetchTxs_invariant cfg (SameEntries π s) ?_ ?_ ?_ ?_
    (SameEntries.refl _ s)
  · exact fun s' txHash tx _ _ hs => hs.trans (setAsideOnChain_sameEntries hπ s' txHash tx)
  · exact fun s' txHash tx _ _ hs => ⟨hs.entries, hs.txPool, hs.ledger⟩
  · exact fun s' txHash tx _ _ hs => hs.trans (handOut_sameEntries hπ s' txHash tx)
  · exact fun s' n rs hs => ⟨hs.entries, hs.txPool, hs.ledger⟩

/-! ### The effect of a call -/

/-- The effect of a node's call: it leaves caches alone and what shows no flags,
    brings a transaction in, or is a seal, a cleanup or a block result.
    Invariants about contents and caches need these five cases and no others. -/
theorem step_effect (hπ : Fixed π) {op : TxPool.Op} {call : Op}
    (hcall : TxPool.NodeCall cfg op call) (s : MemoryStorage) :
    SameUpTo π s (step cfg s call) ∨
    (∃ tx txSubmitCallback enforceImport,
      call = .submitTransaction tx txSubmitCallback enforceImport ∧
      op.Carries cfg tx.1.toTxData ∧ Admits cfg s tx.1 enforceImport ∧
      BringsIn tx.1 (entering cfg tx.1 txSubmitCallback enforceImport) enforceImport s
        (step cfg s call)) ∨
    (∃ order txsLimit avoidTxs, call = .batchFetchTxs order txsLimit avoidTxs true) ∨
    call = .removeInvalidTxs ∨
    ∃ batchId txsResult, call = .batchRemove batchId txsResult := by
  -- Call by call. The last two groups set flags only.
  cases call with
  | submitTransaction tx txSubmitCallback enforceImport =>
      by_cases hadmits : Admits cfg s tx.1 enforceImport
      · exact Or.inr (Or.inl ⟨tx, txSubmitCallback, enforceImport, rfl, hcall.1, hadmits,
          (s.submitTransaction_of_admits cfg tx.1 txSubmitCallback hadmits).2⟩)
      · exact Or.inl (s.submitTransaction_of_not_admits cfg π tx.1
          (fun tx' => hπ.change (.setSeal tx.1.batchId tx.1.batchHash) tx')
          txSubmitCallback hadmits).1
  | batchFetchTxs order txsLimit avoidTxs avoidDuplicate =>
      rw [hcall.2]
      exact Or.inr (Or.inr (Or.inl ⟨order, txsLimit, avoidTxs, rfl⟩))
  | removeInvalidTxs => exact Or.inr (Or.inr (Or.inr (Or.inl rfl)))
  | batchRemove batchId txsResult =>
      exact Or.inr (Or.inr (Or.inr (Or.inr ⟨batchId, txsResult, rfl⟩)))
  | notifyInvalidReceipt txHash status txSubmitCallback =>
      exact Or.inl (s.step_flags cfg hπ (Or.inl trivial))
  | filterUnknownTxs txsHashList peer => exact Or.inl (s.step_flags cfg hπ (Or.inl trivial))
  | fetchNewTxs order txsLimit => exact Or.inl (s.step_flags cfg hπ (Or.inl trivial))
  | appendKnownNode txHash node => exact Or.inl (s.step_flags cfg hπ (Or.inl trivial))
  | batchMarkTxs txsHashList batchId batchHash sealFlag =>
      exact Or.inl (s.step_flags cfg hπ (Or.inr trivial))
  | batchMarkAllTxs sealFlag => exact Or.inl (s.step_flags cfg hπ (Or.inr trivial))
  | _ => exact hcall.elim

end MemoryStorage

end BcosTxPool
