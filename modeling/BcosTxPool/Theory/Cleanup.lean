import BcosTxPool.Theory.NonceWindow
import BcosTxPool.Theory.Walk

/-!
# The Cleanup and its Causes

A seal decides what is to be removed, and a cleanup removes it later. Between
the two stand the hashes set aside, which is all that the cleanup looks at. So
there are two questions about a removal: whether the transaction was ever
found invalid itself, and whether what spoke against keeping it still holds
when it is removed.

A seal sets a transaction aside when the ledger check fails on it. With a
nonce on the ledger it sets a second hash aside: the nonce, read as a hash. A
sender chooses the nonce, so this can be the hash of any transaction. Without
such a coincidence, each removal has a failed check of that very transaction
behind it. That is an invariant of whole runs, since it speaks of the past of
each hash that is set aside.

An expired transaction is set aside only if it is not sealed. A mark or an
enforced submission can seal it before the cleanup comes, and a block result
can evict the nonce of one that was set aside while on the ledger. These are
the calls that `KeepsGuarded` restricts.

## Main definitions

* `CheckFails`: The ledger check is made on an entry, and it fails.
* `FailedInWalk`, `FailedCheck`: It has failed in a walk, or in a run.
* `Grounded`: Every pooled hash set aside has failed a check.
* `Guarded`: Every entry set aside is unsealed, or its nonce is on the ledger.
* `KeepsGrounded`, `KeepsGuarded`: The conditions on calls.

## Theorems

* `dropped_failed_check`: What is removed or skipped has failed a check.
* `removed_unsealed_or_onChain`: What is removed is not held by a proposal, or
  its nonce is on the ledger.
-/

namespace BcosTxPool

open Library

/-- A write that brings nothing in and sets the flag only where `P` holds. -/
def Write.SealsOnly (P : HashType → Prop) : Write → Prop
  | .change txHash (.setSeal _ _) => P txHash
  | .markAll sealFlag => sealFlag = false
  | .enter _ => False
  | _ => True

/-- A quiet write sets no flag and brings nothing in. -/
theorem Write.Quiet.sealsOnly {w : Write} (hw : w.Quiet) (P : HashType → Prop) : w.SealsOnly P := by
  cases w with
  | change txHash c =>
      cases c with
      | setSeal batchId batchHash => exact hw.elim
      | _ => trivial
  | notify => trivial
  | clamp => trivial
  | aside missedTxs blockNumber receipts => trivial
  | _ => exact hw.elim

namespace MemoryStorage

variable (cfg : TxPoolConfig)

/-! ### Failed checks -/

/-- The ledger check is made on the entry, since its hash is not set aside, and
    it fails. -/
def CheckFails (s : MemoryStorage) (txHash : HashType) : Prop :=
  ∃ tx, s.txsTable.find? txHash = some tx ∧ ¬ tx.hash ∈ s.invalidTxs ∧
    (TxValidator.submittedToChain s.ledgerNonceChecker tx = .nonceCheckFail ∨
      TxValidator.submittedToChain s.ledgerNonceChecker tx = .blockLimitCheckFail)

/-- In a part of a walk the check failed on the entry, in the state that the
    walk had reached at its turn. -/
def FailedInWalk (s : MemoryStorage) (avoidTxs : HashList) (avoidDuplicate : Bool)
    (met : HashList) (txHash : HashType) : Prop :=
  Once (turn avoidTxs avoidDuplicate) (fun acc k => k = txHash ∧ CheckFails acc.1 txHash)
    (s, {}) met

/-- In some seal of the run the check failed on the entry. It may have been long
    ago, and for another transaction of this hash. -/
def FailedCheck (s₀ : MemoryStorage) (pre : List Op) (txHash : HashType) : Prop :=
  Once (step cfg)
    (fun s call => ∃ order txsLimit avoidTxs avoidDuplicate,
      call = .batchFetchTxs order txsLimit avoidTxs avoidDuplicate ∧
      FailedInWalk s avoidTxs avoidDuplicate
        (walked txsLimit avoidTxs avoidDuplicate order (s, {})) txHash) s₀ pre

/-- What has failed a check has failed it for good. -/
theorem failedCheck_concat {s₀ : MemoryStorage} {pre : List Op} {txHash : HashType} (call : Op)
    (h : FailedCheck cfg s₀ pre txHash) : FailedCheck cfg s₀ (pre ++ [call]) txHash :=
  (once_concat _ _ _ _ _).mpr (Or.inl h)

/-- What was found failing in a part of a walk was met there. -/
theorem FailedInWalk.mem {s : MemoryStorage} {avoidTxs : HashList} {avoidDuplicate : Bool}
    {met : HashList} {txHash : HashType}
    (h : FailedInWalk s avoidTxs avoidDuplicate met txHash) : txHash ∈ met := by
  rcases h with ⟨pre, k, post, rfl, rfl, _⟩
  exact List.mem_append_right pre List.mem_cons_self

/-- What has failed a check was met by some seal of the run. -/
theorem FailedCheck.met {s₀ : MemoryStorage} {pre : List Op} {txHash : HashType}
    (h : FailedCheck cfg s₀ pre txHash) :
    ∃ order txsLimit avoidTxs avoidDuplicate,
      Op.batchFetchTxs order txsLimit avoidTxs avoidDuplicate ∈ pre ∧ txHash ∈ order := by
  rcases h with ⟨before, call, after, rfl, order, txsLimit, avoidTxs, avoidDuplicate, rfl, hwalk⟩
  refine ⟨order, txsLimit, avoidTxs, avoidDuplicate,
    List.mem_append_right before List.mem_cons_self, ?_⟩
  exact (walked_isPrefix txsLimit avoidTxs avoidDuplicate order _).subset hwalk.mem

/-- Of every hash set aside, if it is pooled, `P` holds. Hashes that are set
    aside and not pooled do no harm until a transaction comes in under them. -/
def SetAside (P : HashType → Prop) (s : MemoryStorage) : Prop :=
  ∀ txHash, txHash ∈ s.invalidTxs → s.txsTable.find? txHash ≠ none → P txHash

/-- What holds of all of them may be weakened. -/
theorem SetAside.mono {P Q : HashType → Prop} {s : MemoryStorage} (h : SetAside P s)
    (hQ : ∀ txHash, P txHash → Q txHash) : SetAside Q s :=
  fun txHash hmem hfind => hQ txHash (h txHash hmem hfind)

/-- The nonce of an entry on the ledger, read as a hash, is that of the entry, of
    none in the pool, or of one that failed a check. -/
def NonceHitsFailed (P : HashType → Prop) (s : MemoryStorage) (txHash : HashType) : Prop :=
  ∀ tx, s.txsTable.find? txHash = some tx → ¬ txHash ∈ s.invalidTxs →
    tx.nonce ∈ s.ledgerNonceChecker.nonceCache → nonceToHash tx.nonce ≠ txHash →
    s.txsTable.find? (nonceToHash tx.nonce) ≠ none → P (nonceToHash tx.nonce)

/-- A turn that finds the nonce on the ledger sets two hashes aside, the entry's
    and the one its nonce reads as. -/
theorem SetAside.onChain {P : HashType → Prop} {s : MemoryStorage} (h : SetAside P s)
    {txHash : HashType} {tx : Transaction} (hself : P txHash)
    (hnonce : s.txsTable.find? (nonceToHash tx.nonce) ≠ none → P (nonceToHash tx.nonce)) :
    SetAside P (s.setAsideOnChain txHash tx) := by
  intro k hmem hpooled
  rw [ne_eq, (setAsideOnChain_sameEntries fixed_toTxData s txHash tx).find?_eq_none_iff] at hpooled
  rw [setAsideOnChain, SortedSet.mem_insert, SortedSet.mem_insert] at hmem
  rcases hmem with rfl | rfl | hmem
  · exact hnonce hpooled
  · exact hself
  · exact h k hmem hpooled

/-- A turn that finds the entry expired sets its hash aside. -/
theorem SetAside.expired {P : HashType → Prop} {s : MemoryStorage} (h : SetAside P s)
    {txHash : HashType} (tx : Transaction) (hself : P txHash) :
    SetAside P (s.setAsideExpired txHash tx) := by
  intro k hmem hpooled
  rw [setAsideExpired, SortedSet.mem_insert] at hmem
  rcases hmem with rfl | hmem
  · exact hself
  · exact h k hmem hpooled

/-- A turn that hands its entry out sets nothing aside. -/
theorem SetAside.handOut {P : HashType → Prop} {s : MemoryStorage} (h : SetAside P s)
    (txHash : HashType) (tx : Transaction) : SetAside P (s.handOut txHash tx) := by
  intro k hmem hpooled
  rw [ne_eq, (handOut_sameEntries fixed_toTxData s txHash tx).find?_eq_none_iff] at hpooled
  exact h k hmem hpooled

/-- A walk sets aside what fails its check, if no nonce hits the hash of anything
    else. -/
theorem setAside_walk {P : HashType → Prop} {s : MemoryStorage} (h : SetAside P s)
    (avoidTxs : HashList) (avoidDuplicate : Bool) (met : HashList)
    (hcond : Throughout (fun met txHash => NonceHitsFailed
      (fun k => P k ∨ FailedInWalk s avoidTxs avoidDuplicate met k)
      (run (turn avoidTxs avoidDuplicate) (s, {}) met).1 txHash) met) :
    SetAside (fun k => P k ∨ FailedInWalk s avoidTxs avoidDuplicate met k)
      (run (turn avoidTxs avoidDuplicate) (s, {}) met).1 := by
  -- The invariant speaks of the part of the walk behind us, so it is carried from
  -- turn to turn.
  refine throughout_invariant _ (fun met => SetAside
    (fun k => P k ∨ FailedInWalk s avoidTxs avoidDuplicate met k)
    (run (turn avoidTxs avoidDuplicate) (s, {}) met).1) (h.mono (fun _ => Or.inl)) ?_ met hcond
  intro met txHash hhits hmet
  have hlater : ∀ k, P k ∨ FailedInWalk s avoidTxs avoidDuplicate met k →
      P k ∨ FailedInWalk s avoidTxs avoidDuplicate (met ++ [txHash]) k :=
    fun k hk => hk.imp_right (fun hin => (once_concat _ _ _ _ _).mpr (Or.inl hin))
  rw [run_concat]
  generalize hacc : run (turn avoidTxs avoidDuplicate) (s, {}) met = acc at hhits hmet ⊢
  -- If the check fails now, it has failed in the walk.
  have hfailed : CheckFails acc.1 txHash →
      P txHash ∨ FailedInWalk s avoidTxs avoidDuplicate (met ++ [txHash]) txHash := by
    intro hfails
    refine Or.inr ((once_concat _ _ _ _ _).mpr (Or.inr ⟨rfl, ?_⟩))
    rw [hacc]
    exact hfails
  rcases turn_cases avoidTxs avoidDuplicate acc txHash with hturn |
    ⟨tx, hfind, ⟨hdecision, hturn⟩ | ⟨hdecision, hturn⟩ | ⟨_, hturn⟩⟩
  · rw [hturn]
    exact hmet.mono hlater
  · rw [hturn]
    have hkey := ((KeyedTable.find?_eq_some_iff _ txHash tx).mp hfind).2
    rcases fetchDecision_onChain_iff.mp hdecision with ⟨hfree, honChain⟩
    have hself : P txHash ∨ FailedInWalk s avoidTxs avoidDuplicate (met ++ [txHash]) txHash :=
      hfailed ⟨tx, hfind, hfree,
        Or.inl ((TxValidator.submittedToChain_eq_nonceCheckFail_iff _ _).mpr honChain)⟩
    refine (hmet.mono hlater).onChain hself (fun hpooled => ?_)
    -- The hash made of the nonce is the entry's own, or the condition speaks of it.
    by_cases hown : nonceToHash tx.nonce = txHash
    · rw [hown]
      exact hself
    · rw [hkey] at hfree
      exact hlater _ (hhits tx hfind hfree honChain hown hpooled)
  · rw [hturn]
    rcases fetchDecision_expired_iff.mp hdecision with ⟨hfree, hexpired, _⟩
    exact (hmet.mono hlater).expired tx (hfailed ⟨tx, hfind, hfree, Or.inr hexpired⟩)
  · rw [hturn]
    exact (hmet.mono hlater).handOut txHash tx

/-! ### Grounded hashes -/

/-- Every pooled hash that is set aside has failed a check in the run. -/
def Grounded (s₀ : MemoryStorage) (pre : List Op) : Prop :=
  SetAside (FailedCheck cfg s₀ pre) (run (step cfg) s₀ pre)

/-- The condition on a call under which every hash set aside has failed a check.
    No transaction comes in under a hash that is set aside and never failed. And
    no nonce on the ledger that a walk meets is the hash of another entry, unless
    that entry has failed before, at the latest in this walk. -/
def KeepsGrounded (s₀ : MemoryStorage) (pre : List Op) : Op → Prop
  | .submitTransaction tx _ enforceImport =>
      let s := run (step cfg) s₀ pre
      Admits cfg s tx.1 enforceImport → tx.1.hash ∈ s.invalidTxs → FailedCheck cfg s₀ pre tx.1.hash
  | .batchFetchTxs order txsLimit avoidTxs avoidDuplicate =>
      let s := run (step cfg) s₀ pre
      Throughout (fun met txHash => NonceHitsFailed
          (fun k => FailedCheck cfg s₀ pre k ∨ FailedInWalk s avoidTxs avoidDuplicate met k)
          (run (turn avoidTxs avoidDuplicate) (s, {}) met).1 txHash)
        (walked txsLimit avoidTxs avoidDuplicate order (s, {}))
  | _ => True

/-- What a call drops has failed a check before: what a cleanup removes, and what
    a seal skips because its hash is set aside. -/
def DropsFailed (s₀ : MemoryStorage) (pre : List Op) : Op → Prop
  | .removeInvalidTxs =>
      let s := run (step cfg) s₀ pre
      ∀ txHash, s.txsTable.find? txHash ≠ none →
        (s.removeInvalidTxs cfg).txsTable.find? txHash = none → FailedCheck cfg s₀ pre txHash
  | .batchFetchTxs order txsLimit avoidTxs avoidDuplicate =>
      let s := run (step cfg) s₀ pre
      order.Nodup → ∀ met txHash rest,
        walked txsLimit avoidTxs avoidDuplicate order (s, {}) = met ++ txHash :: rest →
        let s' := (run (turn avoidTxs avoidDuplicate) (s, {}) met).1
        s'.txsTable.find? txHash ≠ none → txHash ∈ s'.invalidTxs → FailedCheck cfg s₀ pre txHash
  | _ => True

/-- A call that meets its condition keeps every hash set aside grounded. -/
theorem step_grounded {op : TxPool.Op} {call : Op} (hcall : TxPool.NodeCall cfg op call)
    (s₀ : MemoryStorage) (pre : List Op) (hkeeps : KeepsGrounded cfg s₀ pre call)
    (h : Grounded cfg s₀ pre) : Grounded cfg s₀ (pre ++ [call]) := by
  have hlater := h.mono (fun txHash hfailed => failedCheck_concat cfg call hfailed)
  unfold Grounded
  rw [run_concat]
  rcases step_effect cfg fixed_toTxData hcall (run (step cfg) s₀ pre) with
    hsame | ⟨tx, callback, enforceImport, rfl, _, hadmits, hbrings⟩ |
    ⟨order, txsLimit, avoidTxs, rfl⟩ | rfl | ⟨batchId, txsResult, rfl⟩
  · intro txHash hmem hpooled
    rw [hsame.invalidTxs] at hmem
    rw [ne_eq, hsame.find?_eq_none_iff] at hpooled
    exact hlater txHash hmem hpooled
  · intro txHash hmem hpooled
    rw [hbrings.invalidTxs] at hmem
    rw [hbrings.find] at hpooled
    split at hpooled
    · -- A hash that was set aside before its transaction came in is what is asked for.
      rename_i hnew
      rw [← hnew] at hmem ⊢
      exact failedCheck_concat cfg _ (hkeeps hadmits hmem)
    · exact hlater txHash hmem hpooled
  · -- The seal: what it sets aside has failed in this walk, which is now part of
    -- the run.
    have hwalk := setAside_walk h avoidTxs true _ hkeeps
    rw [← fetchLoop_eq_run txsLimit avoidTxs true order (run (step cfg) s₀ pre, {})] at hwalk
    intro txHash hmem hpooled
    have hreport := notifyUnsealedTxsSize_sameUpTo cfg (fun tx => tx)
      (fetchLoop txsLimit avoidTxs true order (run (step cfg) s₀ pre) {}).1
    simp only [step, batchFetchTxs] at hmem hpooled
    rw [hreport.invalidTxs] at hmem
    rw [ne_eq, hreport.find?_eq_none_iff] at hpooled
    rcases hwalk txHash hmem hpooled with hfailed | hfailed
    · exact failedCheck_concat cfg _ hfailed
    · exact (once_concat _ _ _ _ _).mpr
        (Or.inr ⟨order, txsLimit, avoidTxs, true, rfl, hfailed⟩)
  · -- The cleanup empties the set.
    intro txHash hmem
    exact absurd hmem (not_mem_invalidTxs_removeInvalidTxs cfg _ txHash)
  · intro txHash hmem hpooled
    have hinvalid := (batchRemove_invalid cfg (run (step cfg) s₀ pre) batchId txsResult).1
    simp only [step] at hmem hpooled
    rw [hinvalid] at hmem
    refine hlater txHash hmem (fun hnone => hpooled ?_)
    rw [find?_batchRemove, hnone, ite_self]

/-- What is dropped in a grounded state has failed a check. -/
theorem Grounded.dropsFailed {s₀ : MemoryStorage} {pre : List Op} (h : Grounded cfg s₀ pre)
    (call : Op) (hkeeps : KeepsGrounded cfg s₀ pre call) : DropsFailed cfg s₀ pre call := by
  cases call with
  -- The cleanup removes what is set aside and nothing else.
  | removeInvalidTxs =>
      intro txHash hpooled hgone
      rw [find?_removeInvalidTxs] at hgone
      split at hgone
      · rename_i hmem
        exact h txHash hmem hpooled
      · exact absurd hgone hpooled
  | batchFetchTxs order txsLimit avoidTxs avoidDuplicate =>
      -- A seal skips an entry for its hash. It was set aside before the walk or by
      -- an earlier turn of it.
      intro hnodup met txHash rest hwalked s' hpooled hmem
      simp only [KeepsGrounded] at hkeeps
      rw [hwalked] at hkeeps
      rcases setAside_walk h avoidTxs avoidDuplicate met hkeeps.of_append txHash hmem hpooled with
        hfailed | hfailed
      · exact hfailed
      · -- A traversal meets no hash twice, so this walk has not met it before.
        have hprefix := walked_isPrefix txsLimit avoidTxs avoidDuplicate order
          (run (step cfg) s₀ pre, {})
        rw [hwalked] at hprefix
        have hdistinct := hnodup.sublist hprefix.sublist
        rw [List.nodup_append] at hdistinct
        exact absurd rfl (hdistinct.2.2 txHash hfailed.mem txHash List.mem_cons_self)
  | _ => trivial

/-! ### Guarded entries -/

/-- Every entry set aside is unsealed, or its nonce is on the ledger. Removing
    such an entry takes nothing from a proposal that could still be
    committed. -/
def Guarded (s : MemoryStorage) : Prop :=
  ∀ txHash tx, txHash ∈ s.invalidTxs → s.txsTable.find? txHash = some tx →
    tx.sealed = false ∨ tx.nonce ∈ s.ledgerNonceChecker.nonceCache

/-- What is sealed after was sealed before, or `P` holds of its hash. -/
def SealsOnly (P : HashType → Prop) (s s' : MemoryStorage) : Prop :=
  ∀ txHash tx, s'.txsTable.find? txHash = some tx → tx.sealed = true →
    P txHash ∨ ∃ old, s.txsTable.find? txHash = some old ∧ old.sealed = true

/-- Where nothing changes, nothing is sealed. -/
theorem SealsOnly.refl (P : HashType → Prop) (s : MemoryStorage) : SealsOnly P s s :=
  fun _ tx hfind hsealed => Or.inr ⟨tx, hfind, hsealed⟩

/-- A write that sets the flag only where `P` holds adds nothing else to what is
    sealed. -/
theorem write_sealsOnly {P : HashType → Prop} {s t : MemoryStorage} (h : SealsOnly P s t)
    {w : Write}
    (hw : w.SealsOnly P) : SealsOnly P s (write cfg t w) := by
  intro txHash tx hfind hsealed
  rw [find?_write] at hfind
  cases w with
  | change changed c =>
      simp only [entryAfter] at hfind
      split at hfind
      · rename_i hthis
        subst hthis
        rcases Option.map_eq_some_iff.mp hfind with ⟨old, hold, rfl⟩
        cases c with
        | setSeal batchId batchHash => exact Or.inl hw
        | clearSeal => exact absurd hsealed Bool.false_ne_true
        | _ => exact h changed old hold hsealed
      · exact h txHash tx hfind hsealed
  | markAll sealFlag =>
      -- Only the mark that unseals is allowed here.
      rcases Option.map_eq_some_iff.mp hfind with ⟨old, hold, rfl⟩
      have hflag : sealFlag = false := hw
      rw [hflag] at hsealed
      exact absurd hsealed Bool.false_ne_true
  | enter tx' => exact hw.elim
  | leave left =>
      simp only [entryAfter] at hfind
      split at hfind
      · exact absurd hfind.symm (Option.some_ne_none tx)
      · exact h txHash tx hfind hsealed
  | _ => exact h txHash tx hfind hsealed

/-- And so does a run of such writes. -/
theorem sealsOnly_of_reaches {P : HashType → Prop} {s s' : MemoryStorage}
    (h : Reaches (write cfg) (fun _ w => w.SealsOnly P) s s') : SealsOnly P s s' :=
  h.invariant (SealsOnly P s) (fun _ _ hw ht => write_sealsOnly cfg ht hw) (SealsOnly.refl P s)

/-- A call that sets flags, quietly or as a mark, seals at most what it is told
    to. -/
theorem step_sealsOnly (s : MemoryStorage) {call : Op} (hcall : QuietCall call ∨ MarkCall call) :
    SealsOnly (fun txHash => ∃ txsHashList batchId batchHash,
        call = .batchMarkTxs txsHashList batchId batchHash true ∧ txHash ∈ txsHashList) s
        (step cfg s call) ∨ call = .batchMarkAllTxs true := by
  rcases hcall with hquiet | hmark
  · have hsame : SameUpTo (fun tx => tx.sealed) s (step cfg s call) := by
      refine step_quiet cfg _ (fun c hc tx => ?_) s hquiet
      cases c with
      | setSeal batchId batchHash => exact hc.elim
      | clearSeal => exact hc.elim
      | _ => rfl
    refine Or.inl (fun txHash tx hfind hsealed => Or.inr ?_)
    rcases hsame.before hfind with ⟨old, hold, hflag⟩
    exact ⟨old, hold, hflag.trans hsealed⟩
  · cases call with
    | batchMarkTxs txsHashList batchId batchHash sealFlag =>
        -- A sealing mark names what it seals; an unsealing one seals nothing.
        refine Or.inl (sealsOnly_of_reaches cfg ?_)
        refine batchMarkTxs_reaches cfg s txsHashList batchId batchHash sealFlag
          (fun _ txHash hmem _ _ _ => ?_)
        cases sealFlag with
        | true => exact ⟨txsHashList, batchId, batchHash, rfl, hmem⟩
        | false => trivial
    -- The mark of all entries is used with either flag; a node only unseals with
    -- it.
    | batchMarkAllTxs sealFlag =>
        cases sealFlag with
        | true => exact Or.inr rfl
        | false =>
            exact Or.inl (sealsOnly_of_reaches cfg
              (batchMarkAllTxs_reaches cfg (fun _ w hw => hw.sealsOnly _) s false rfl))
    | _ => exact hmark.elim

/-- A submission that brings nothing in seals at most the entry of its hash, and
    only if it is enforced and its nonce is not on the ledger. -/
theorem submitTransaction_sealsOnly (s : MemoryStorage) (tx : Transaction)
    (txSubmitCallback : Option TxSubmitCallback) {enforceImport : Bool}
    (h : ¬ Admits cfg s tx enforceImport) :
    SealsOnly (fun txHash => enforceImport = true ∧ txHash = tx.hash ∧
        ¬ tx.nonce ∈ s.ledgerNonceChecker.nonceCache) s
      (s.submitTransaction cfg tx txSubmitCallback enforceImport).1 := by
  cases enforceImport with
  | false =>
      rw [(s.submitTransaction_rejected cfg tx txSubmitCallback h).2]
      exact SealsOnly.refl _ s
  | true =>
      have hsubmit : s.submitTransaction cfg tx txSubmitCallback true
          = s.enforceSubmitTransaction cfg tx := rfl
      rw [hsubmit]
      rcases s.enforceSubmitTransaction_of_not_admits cfg tx h with he | ⟨hnonce, entry, _, _, he⟩
      · rw [he]
        exact SealsOnly.refl _ s
      · rw [he]
        intro txHash tx' hfind hsealed
        rw [sealedFor, KeyedTable.find?_modify] at hfind
        split at hfind
        · rename_i hthis
          exact Or.inl ⟨rfl, hthis.symm, hnonce⟩
        · exact Or.inr ⟨tx', hfind, hsealed⟩

/-- The condition on a call under which the entries set aside stay guarded. A
    call that would seal an entry set aside finds its nonce on the ledger: an
    enforced submission that is not rejected for its own nonce, a mark, and a
    walk whose nonce hits the hash of a sealed entry. And a block evicts the
    nonce of no sealed entry set aside that it leaves. -/
def KeepsGuarded (s : MemoryStorage) : Op → Prop
  | .submitTransaction tx _ true =>
      ¬ tx.1.nonce ∈ s.ledgerNonceChecker.nonceCache → tx.1.hash ∈ s.invalidTxs →
        ∃ entry, s.txsTable.find? tx.1.hash = some entry ∧
          entry.nonce ∈ s.ledgerNonceChecker.nonceCache
  | .batchFetchTxs order txsLimit avoidTxs avoidDuplicate =>
      ∀ s' txHash tx, Visits s order txsLimit avoidTxs avoidDuplicate s' txHash tx →
        s'.fetchDecision avoidTxs avoidDuplicate tx = .onChain →
        ∀ entry, s'.txsTable.find? (nonceToHash tx.nonce) = some entry →
          entry.sealed = false ∨ entry.nonce ∈ s'.ledgerNonceChecker.nonceCache
  | .batchMarkTxs txsHashList _ _ true =>
      ∀ txHash ∈ txsHashList, txHash ∈ s.invalidTxs → ∀ entry,
        s.txsTable.find? txHash = some entry → entry.nonce ∈ s.ledgerNonceChecker.nonceCache
  | .batchRemove batchId txsResult =>
      ∀ txHash, txHash ∈ s.invalidTxs → ∀ entry, s.txsTable.find? txHash = some entry →
        entry.sealed = true → (∀ r ∈ txsResult, r.txHash ≠ txHash) →
        ¬ entry.nonce ∈ (s.ledgerNonceChecker.expired batchId (s.blockNonces txsResult)).getD []
  | _ => True

/-- Calls that leave contents and sets alone keep entries guarded, if what they
    seal has its nonce on the ledger. -/
theorem Guarded.sealsOnly {P : HashType → Prop} {s s' : MemoryStorage} (h : Guarded s)
    (hsame : SameUpTo (fun tx => tx.toTxData) s s') (hseals : SealsOnly P s s')
    (hP : ∀ txHash, P txHash → txHash ∈ s.invalidTxs → ∀ entry,
      s.txsTable.find? txHash = some entry → entry.nonce ∈ s.ledgerNonceChecker.nonceCache) :
    Guarded s' := by
  intro txHash tx hmem hfind
  rw [hsame.invalidTxs] at hmem
  rw [hsame.ledger]
  cases hsealed : tx.sealed with
  | false => exact Or.inl rfl
  | true =>
      refine Or.inr ?_
      rcases hsame.before hfind with ⟨old, hold, hdata⟩
      have hnonce : old.nonce = tx.nonce := congrArg TxData.nonce hdata
      rw [← hnonce]
      rcases hseals txHash tx hfind hsealed with hnow | ⟨old', hold', hbefore⟩
      · exact hP txHash hnow hmem old hold
      · -- It was sealed before, so what guarded it was its nonce.
        rw [hold, Option.some.injEq] at hold'
        subst hold'
        rcases h txHash old hmem hold with hopen | hledger
        · rw [hopen] at hbefore
          exact absurd hbefore Bool.false_ne_true
        · exact hledger

/-- A seal keeps entries guarded: it sets aside what is unsealed or on the ledger,
    and it hands out nothing that is set aside. -/
theorem Guarded.batchFetchTxs {s : MemoryStorage} (h : Guarded s) (order : HashList)
    (txsLimit : Nat) (avoidTxs : HashList)
    (hkeeps : KeepsGuarded s (.batchFetchTxs order txsLimit avoidTxs true)) :
    Guarded (s.batchFetchTxs cfg order txsLimit avoidTxs true).1 := by
  refine batchFetchTxs_invariant cfg Guarded ?_ ?_ ?_ (fun _ _ _ hs => hs) h
  · -- A nonce on the ledger: two hashes are set aside, and the condition speaks of
    -- the one that is not the entry's own.
    intro s' txHash tx hvisit hdecision hs k entry hmem hfind
    have honChain := (fetchDecision_onChain_iff.mp hdecision).2
    have hhits := hkeeps s' txHash tx hvisit hdecision
    -- Dropping a callback touches neither the flag nor the nonce.
    have hbefore : ∃ old, s'.txsTable.find? k = some old ∧ old.sealed = entry.sealed ∧
        old.nonce = entry.nonce := by
      rw [setAsideOnChain, KeyedTable.find?_modify] at hfind
      split at hfind
      · rcases Option.map_eq_some_iff.mp hfind with ⟨old, hold, rfl⟩
        exact ⟨old, hold, rfl, rfl⟩
      · exact ⟨entry, hfind, rfl, rfl⟩
    rcases hbefore with ⟨old, hold, hsealed, hnonce⟩
    rw [← hsealed, ← hnonce]
    rw [setAsideOnChain, SortedSet.mem_insert, SortedSet.mem_insert] at hmem
    rcases hmem with rfl | rfl | hmem
    · exact hhits old hold
    · rw [hvisit.find, Option.some.injEq] at hold
      rw [← hold]
      exact Or.inr honChain
    · exact hs k old hmem hold
  · -- Expired: the turn sets aside only what is not sealed.
    intro s' txHash tx hvisit hdecision hs k entry hmem hfind
    rw [setAsideExpired, SortedSet.mem_insert] at hmem
    rcases hmem with rfl | hmem
    · have hthis : entry = tx := Option.some.inj (hfind.symm.trans hvisit.find)
      rw [hthis]
      exact Or.inl (fetchDecision_expired_iff.mp hdecision).2.2
    · exact hs k entry hmem hfind
  · -- Handed out: the flag is raised on an entry that is not set aside.
    intro s' txHash tx hvisit hdecision hs k entry hmem hfind
    rw [handOut, KeyedTable.find?_modify] at hfind
    split at hfind
    · rename_i hthis
      subst hthis
      have hkey := ((KeyedTable.find?_eq_some_iff _ txHash tx).mp hvisit.find).2
      have hfree := (submittedToChain_of_fetch hdecision).1
      rw [hkey] at hfree
      exact absurd hmem hfree
    · exact hs k entry hmem hfind

/-- A new entry is unsealed when the caller's object is; an enforced one was not
    set aside, or its hash was taken. -/
theorem Guarded.submitTransaction {s : MemoryStorage} (h : Guarded s) (tx : UnsealedTx)
    (txSubmitCallback : Option TxSubmitCallback) (enforceImport : Bool)
    (hkeeps : KeepsGuarded s (.submitTransaction tx txSubmitCallback enforceImport)) :
    Guarded (s.submitTransaction cfg tx.1 txSubmitCallback enforceImport).1 := by
  by_cases hadmits : Admits cfg s tx.1 enforceImport
  · have hbrings := (s.submitTransaction_of_admits cfg tx.1 txSubmitCallback hadmits).2
    intro txHash entry hmem hfind
    rw [hbrings.invalidTxs] at hmem
    rw [hbrings.ledger]
    rw [hbrings.find] at hfind
    split at hfind
    · rename_i hnew
      subst hnew
      rw [← Option.some.inj hfind]
      cases enforceImport with
      | false =>
          refine Or.inl ?_
          rw [entering, TxValidator.marked_sealed, withCallback_sealed]
          exact tx.2
      | true =>
          -- The hash was free, so nothing can be found under it.
          rcases hkeeps hadmits.nonce hmem with ⟨old, hold, _⟩
          exact absurd (hadmits.free.symm.trans hold) (Option.some_ne_none old).symm
    · exact h txHash entry hmem hfind
  · refine h.sealsOnly (s.submitTransaction_of_not_admits cfg _ tx.1 (fun _ => rfl)
      txSubmitCallback hadmits).1 (s.submitTransaction_sealsOnly cfg tx.1 txSubmitCallback
      hadmits) ?_
    intro txHash hnow hmem entry hfind
    rcases hnow with ⟨rfl, rfl, hnonce⟩
    rcases hkeeps hnonce hmem with ⟨old, hold, hledger⟩
    rw [Option.some.inj (hfind.symm.trans hold)]
    exact hledger

/-- A block leaves guarded what it does not name and whose nonce it does not
    evict. -/
theorem Guarded.batchRemove {s : MemoryStorage} (h : Guarded s) (batchId : Int)
    (txsResult : List TransactionSubmitResult)
    (hkeeps : KeepsGuarded s (.batchRemove batchId txsResult)) :
    Guarded (s.batchRemove cfg batchId txsResult) := by
  intro txHash entry hmem hfind
  rw [(s.batchRemove_invalid cfg batchId txsResult).1] at hmem
  rw [find?_batchRemove] at hfind
  split at hfind
  · exact absurd hfind.symm (Option.some_ne_none entry)
  · rename_i hunnamed
    cases hsealed : entry.sealed with
    | false => exact Or.inl rfl
    | true =>
        refine Or.inr ?_
        rw [TxPool.batchRemove_ledgerNonceChecker, LedgerNonceChecker.mem_batchInsert_iff]
        rcases h txHash entry hmem hfind with hopen | hledger
        · rw [hopen] at hsealed
          exact absurd hsealed Bool.false_ne_true
        · -- The nonce stays in the cache, since this block does not evict it.
          refine ⟨Or.inl hledger, hkeeps txHash hmem entry hfind hsealed ?_⟩
          exact fun r hr heq => hunnamed (List.mem_map.mpr ⟨r, hr, heq⟩)

/-- The calls that move no entry seal what a mark names at most. -/
theorem Guarded.flags {s : MemoryStorage} (h : Guarded s) {call : Op}
    (hflag : QuietCall call ∨ MarkCall call) (hkeeps : KeepsGuarded s call)
    (hnot : call ≠ .batchMarkAllTxs true) : Guarded (step cfg s call) := by
  rcases s.step_sealsOnly cfg hflag with hseals | hall
  · refine h.sealsOnly (s.step_flags cfg fixed_toTxData hflag) hseals ?_
    intro txHash hnow hmem entry hfind
    rcases hnow with ⟨txsHashList, batchId, batchHash, rfl, hnamed⟩
    exact hkeeps txHash hnamed hmem entry hfind
  · exact absurd hall hnot

/-- Every call that meets its condition keeps the entries guarded. -/
theorem step_guarded {op : TxPool.Op} {call : Op} (hcall : TxPool.NodeCall cfg op call)
    (s : MemoryStorage) (hkeeps : KeepsGuarded s call) (h : Guarded s) :
    Guarded (step cfg s call) := by
  cases call with
  | submitTransaction tx txSubmitCallback enforceImport =>
      exact h.submitTransaction cfg tx txSubmitCallback enforceImport hkeeps
  | batchFetchTxs order txsLimit avoidTxs avoidDuplicate =>
      rcases hcall with ⟨_, rfl⟩
      exact h.batchFetchTxs cfg order txsLimit avoidTxs hkeeps
  | removeInvalidTxs =>
      intro txHash entry hmem
      exact absurd hmem (not_mem_invalidTxs_removeInvalidTxs cfg s txHash)
  | batchRemove batchId txsResult =>
      exact h.batchRemove cfg batchId txsResult hkeeps
  | notifyInvalidReceipt txHash status txSubmitCallback =>
      exact h.flags cfg (Or.inl trivial) hkeeps (fun hc => by cases hc)
  | filterUnknownTxs txsHashList peer =>
      exact h.flags cfg (Or.inl trivial) hkeeps (fun hc => by cases hc)
  | fetchNewTxs order txsLimit =>
      exact h.flags cfg (Or.inl trivial) hkeeps (fun hc => by cases hc)
  | appendKnownNode txHash node =>
      exact h.flags cfg (Or.inl trivial) hkeeps (fun hc => by cases hc)
  | batchMarkTxs txsHashList batchId batchHash sealFlag =>
      exact h.flags cfg (Or.inr trivial) hkeeps (fun hc => by cases hc)
  | batchMarkAllTxs sealFlag =>
      rcases hcall with ⟨_, rfl⟩
      exact h.flags cfg (Or.inr trivial) hkeeps (fun hc => by cases hc)
  | _ => exact hcall.elim

end MemoryStorage

namespace TxPool

open MemoryStorage

/-- In every run whose calls meet `KeepsGrounded`, what a cleanup removes and what
    a seal skips because its hash is set aside has failed the ledger check itself,
    in an earlier seal. -/
theorem dropped_failed_check (cfg : TxPoolConfig) (ledger : LedgerNonceChecker) (ops : List Op)
    (hkeeps : Throughout (KeepsGrounded cfg { ledgerNonceChecker := ledger })
      (runCalls cfg { ledgerNonceChecker := ledger } ops)) :
    Throughout (DropsFailed cfg { ledgerNonceChecker := ledger })
      (runCalls cfg { ledgerNonceChecker := ledger } ops) := by
  -- Along the run every hash set aside is grounded, so what is dropped has failed.
  have hgrounded := (runCalls_throughout cfg _ (Grounded cfg { ledgerNonceChecker := ledger })
    (fun txHash hmem => absurd hmem (SortedSet.mem_empty txHash))
    (fun pre op call _ hcall hmeets hpre => step_grounded cfg hcall _ pre hmeets hpre) hkeeps).2
  intro pre call post heq
  rcases hgrounded pre call post heq with ⟨⟨hmeets, _⟩, hpre⟩
  exact hpre.dropsFailed cfg call hmeets

/-- A transaction whose nonce came on the ledger with another is set aside by a
    seal and removed by the cleanup. -/
theorem dropped_failed_check_exampleRun :
    let ops : List Op := [.importDownloadedTxs 1 [exampleTx 1 7 1] none,
      .asyncNotifyBlockResult 1 [{ txHash := 8, status := .none, nonce := 7 }],
      .asyncSealTxs [1] 1 []]
    let s := run (step exampleConfig) examplePool ops
    s.txsTable.find? 1 ≠ none ∧ (s.removeInvalidTxs exampleConfig).txsTable.find? 1 = none ∧
    FailedCheck exampleConfig examplePool (runCalls exampleConfig examplePool ops) 1 := by
  intro ops s
  let submitted : MemoryStorage.Op :=
    .submitTransaction (downloaded exampleConfig examplePool 1 none (exampleTx 1 7 1)) none false
  let committed : MemoryStorage.Op :=
    .batchRemove 1 [{ txHash := 8, status := .none, nonce := 7 }]
  let sealing : MemoryStorage.Op := .batchFetchTxs [1] 1 [] true
  have hkeeps : Throughout (KeepsGrounded exampleConfig examplePool)
      [submitted, committed, sealing, .removeInvalidTxs] := by
    refine (throughout_concat _ [submitted, committed, sealing] _).mpr ⟨?_, trivial⟩
    refine (throughout_concat _ [submitted, committed] sealing).mpr ⟨?_, ?_⟩
    · refine (throughout_concat _ [submitted] committed).mpr ⟨?_, trivial⟩
      refine (throughout_concat _ [] submitted).mpr ⟨throughout_nil _, fun _ haside => ?_⟩
      exact absurd haside (SortedSet.mem_empty _)
    · have hwalked : walked 1 [] true [1]
          (run (MemoryStorage.step exampleConfig) examplePool [submitted, committed], {})
          = [1] := by decide
      simp only [KeepsGrounded, sealing]
      rw [hwalked]
      refine (throughout_concat _ [] 1).mpr ⟨throughout_nil _, ?_⟩
      intro tx hfind _ _ _ hpooled
      -- Its nonce is seven, and no entry has that hash.
      have hall : ∀ tx ∈ (run (MemoryStorage.step exampleConfig) examplePool
          [submitted, committed]).txsTable.entries, tx.nonce = 7 := by decide
      rw [hall tx ((KeyedTable.find?_eq_some_iff _ _ _).mp hfind).1] at hpooled
      exact absurd (by decide) hpooled
  have hdrops := dropped_failed_check exampleConfig examplePool.ledgerNonceChecker
    (ops ++ [Op.removeInvalidTxs]) hkeeps [submitted, committed, sealing] .removeInvalidTxs [] rfl
  exact ⟨by decide, by decide, hdrops 1 (by decide) (by decide)⟩

/-- A sender chooses the hash of a pooled transaction as the nonce. A seal that
    walks over both passes that transaction over without a check, and the
    cleanup removes it. -/
theorem dropped_failed_check_counterexample :
    let ops : List Op := [.importDownloadedTxs 1 [exampleTx 1 7 1] none,
      .asyncNotifyBlockResult 1 [{ txHash := 8, status := .none, nonce := 7 }],
      .importDownloadedTxs 1 [exampleTx 7 3 2] none, .asyncSealTxs [1, 7] 2 []]
    let s := run (step exampleConfig) examplePool ops
    s.txsTable.find? 7 ≠ none ∧ (s.removeInvalidTxs exampleConfig).txsTable.find? 7 = none ∧
    ¬ FailedCheck exampleConfig examplePool (runCalls exampleConfig examplePool ops) 7 := by
  intro ops s
  refine ⟨by decide, by decide, fun hfailed => ?_⟩
  let before : List Op := [.importDownloadedTxs 1 [exampleTx 1 7 1] none,
    .asyncNotifyBlockResult 1 [{ txHash := 8, status := .none, nonce := 7 }],
    .importDownloadedTxs 1 [exampleTx 7 3 2] none]
  have hcalls : runCalls exampleConfig examplePool ops
      = runCalls exampleConfig examplePool before ++ [.batchFetchTxs [1, 7] 2 [] true] := rfl
  rw [hcalls] at hfailed
  rcases (once_concat _ _ _ _ _).mp hfailed with hearlier | ⟨order, txsLimit, avoidTxs,
    avoidDuplicate, heq, hwalk⟩
  · -- There was no seal before this one.
    rcases FailedCheck.met exampleConfig hearlier with
      ⟨order, txsLimit, avoidTxs, avoidDuplicate, hmem, _⟩
    rcases runCalls_nodeCall exampleConfig before _ _ hmem with ⟨op, hop, hseal, _⟩
    rw [hseal] at hop
    rcases List.mem_cons.mp hop with hc | hop
    · cases hc
    · rcases List.mem_cons.mp hop with hc | hop
      · cases hc
      · cases List.mem_singleton.mp hop
  · cases heq
    have hwalked : walked 2 [] true [1, 7]
        (run (MemoryStorage.step exampleConfig) examplePool
          (runCalls exampleConfig examplePool before), {}) = [1] ++ [7] := by decide
    rw [hwalked] at hwalk
    rcases (once_concat _ _ _ _ _).mp hwalk with hfirst | ⟨_, tx, hfind, hclear, _⟩
    · exact absurd (FailedInWalk.mem hfirst) (by decide)
    · -- The turn before has put this very hash among the invalid ones.
      have haside : 7 ∈ (run (turn [] true) (run (MemoryStorage.step exampleConfig) examplePool
          (runCalls exampleConfig examplePool before), {}) [1]).1.invalidTxs := by decide
      rw [((KeyedTable.find?_eq_some_iff _ 7 tx).mp hfind).2] at hclear
      exact hclear haside

/-- In every run whose calls meet `KeepsGuarded`, what the cleanup removes is not
    sealed at that moment, or its nonce is on the ledger. -/
theorem removed_unsealed_or_onChain (cfg : TxPoolConfig) (ledger : LedgerNonceChecker)
    (ops : List Op)
    (hkeeps : Along (MemoryStorage.step cfg) KeepsGuarded { ledgerNonceChecker := ledger }
      (runCalls cfg { ledgerNonceChecker := ledger } ops)) :
    let s := run (step cfg) { ledgerNonceChecker := ledger } ops
    ∀ txHash tx, s.txsTable.find? txHash = some tx →
      (s.removeInvalidTxs cfg).txsTable.find? txHash = none →
      tx.sealed = false ∨ tx.nonce ∈ s.ledgerNonceChecker.nonceCache := by
  intro s txHash tx hfind hgone
  have hguarded : Guarded s := run_invariant_of_calls cfg _ Guarded
    (fun t op call _ hcall hmeets ht => step_guarded cfg hcall t hmeets ht) hkeeps
    (fun k entry hmem => absurd hmem (SortedSet.mem_empty k))
  -- What the cleanup removes is set aside.
  rw [find?_removeInvalidTxs] at hgone
  split at hgone
  · rename_i hmem
    exact hguarded txHash tx hmem hfind
  · exact absurd (hfind.symm.trans hgone) (Option.some_ne_none tx)

/-- An expired transaction is set aside unsealed, and is so when it is removed. -/
theorem removed_unsealed_or_onChain_exampleRun :
    let s := run (step exampleConfig) examplePool
      [.importDownloadedTxs 1 [exampleTx 5 7 1] none, .asyncNotifyBlockResult 1 [],
        .asyncSealTxs [5] 1 []]
    s.txsTable.find? 5 ≠ none ∧ (s.removeInvalidTxs exampleConfig).txsTable.find? 5 = none ∧
    ∀ tx, s.txsTable.find? 5 = some tx →
      tx.sealed = false ∨ tx.nonce ∈ s.ledgerNonceChecker.nonceCache := by
  intro s
  have hkeeps : Along (MemoryStorage.step exampleConfig) KeepsGuarded examplePool
      [.submitTransaction (downloaded exampleConfig examplePool 1 none (exampleTx 5 7 1)) none
          false,
        .batchRemove 1 [], .batchFetchTxs [5] 1 [] true] := by
    refine ⟨trivial, ?_, ?_, trivial⟩
    · exact fun txHash haside => absurd haside (SortedSet.mem_empty txHash)
    · intro s' txHash tx hvisit honChain
      have hledger := (fetchDecision_onChain_iff.mp honChain).2
      rw [(hvisit.sameEntries fixed_toTxData).ledger] at hledger
      -- The ledger holds no nonce at all.
      exact absurd hledger (Finset.notMem_empty tx.nonce)
  exact ⟨by decide, by decide, fun tx hfind =>
    removed_unsealed_or_onChain exampleConfig examplePool.ledgerNonceChecker
      [.importDownloadedTxs 1 [exampleTx 5 7 1] none, .asyncNotifyBlockResult 1 [],
        .asyncSealTxs [5] 1 []] hkeeps 5 tx hfind (by decide)⟩

/-- An expired transaction is set aside, and then a proposal that holds it
    is marked. The cleanup removes it, sealed and with its nonce not on the
    ledger. -/
theorem removed_unsealed_or_onChain_counterexample :
    let s := run (step exampleConfig) examplePool
      [.importDownloadedTxs 1 [exampleTx 5 7 1] none, .asyncNotifyBlockResult 1 [],
        .asyncSealTxs [5] 1 [], .asyncMarkTxs [5] true 2 9]
    (s.txsTable.find? 5).map (fun tx => (tx.sealed, tx.nonce)) = some (true, 7) ∧
    ¬ 7 ∈ s.ledgerNonceChecker.nonceCache ∧
    (s.removeInvalidTxs exampleConfig).txsTable.find? 5 = none := by
  decide

end TxPool

end BcosTxPool
