import BcosTxPool.Theory.Replay
import BcosTxPool.Theory.Walk

/-!
# Nonce Reservations

What the txpool checker is there for: two pending transactions with one nonce
must not both be sealed, and a nonce is reserved as long as its transaction is
pending and not longer.

The normal path keeps to it, since it reserves the nonce of what it accepts.
The path of proposals does not ask the txpool checker and reserves nothing.
And nonces are released by value: a block result, a cleanup and an eviction
from the ledger's window each have their own list of nonces, whoever reserved
them. So each of the three laws holds along a run whose calls meet a
condition, and it fails on a short run that does not meet it.

Two transactions with one nonce are in the pool, both open, when one of them
is brought in beside the other. A reservation is lost when a nonce set aside
for one transaction is that of another. And it stays behind when a
transaction comes in under a hash that awaits its removal, since the cleanup
then removes the transaction but not the nonce.

## Main definitions

* `Open`: The block limit is above the height.
* `Apart`: No two open entries share a nonce.
* `AcceptedSince`: Accepted by the normal path and in the table since.
* `Reserved`: The nonces of such entries are held.
* `Owned`: Every reserved nonce is that of an entry the cleanup leaves, or it
  is released with it.
* `KeepsApart`, `KeepsReserved`, `KeepsOwned`: The conditions on calls.

## Theorems

* `sealed_nonces_nodup`: What one seal returns has distinct nonces.
* `nonce_reserved`: The nonce of a pending transaction is reserved.
* `no_nonce_leak`: A reserved nonce is that of a pending transaction.
-/

namespace BcosTxPool

open Library

namespace MemoryStorage

variable (cfg : TxPoolConfig)

/-- The block limit of a transaction is above the height of the ledger. A seal
    hands out open transactions only. -/
def Open (s : MemoryStorage) (tx : Transaction) : Prop :=
  s.ledgerNonceChecker.blockNumber < tx.blockLimit

instance (s : MemoryStorage) (tx : Transaction) : Decidable (Open s tx) :=
  inferInstanceAs (Decidable (_ < _))

/-- A block result raises the height of the ledger checker to its number, if that
    is higher. -/
theorem blockNumber_batchRemove (s : MemoryStorage) (batchId : Int)
    (txsResult : List TransactionSubmitResult) :
    (s.batchRemove cfg batchId txsResult).ledgerNonceChecker.blockNumber
      = max s.ledgerNonceChecker.blockNumber batchId := by
  rw [TxPool.batchRemove_ledgerNonceChecker, LedgerNonceChecker.batchInsert_eq]
  simp only
  split
  · omega
  · omega

/-- Entries may have left and the height may have risen, and no content is new.
    All calls but submissions are of this kind. -/
def Shrinks (s s' : MemoryStorage) : Prop :=
  s.ledgerNonceChecker.blockNumber ≤ s'.ledgerNonceChecker.blockNumber ∧
    ∀ txHash tx, s'.txsTable.find? txHash = some tx →
      ∃ old, s.txsTable.find? txHash = some old ∧ old.toTxData = tx.toTxData

/-- Changes of flags and callbacks bring no content in. -/
theorem SameEntries.shrinks {s s' : MemoryStorage} (h : SameEntries (fun tx => tx.toTxData) s s') :
    Shrinks s s' :=
  ⟨by rw [h.ledger], fun _ _ hfind => h.before hfind⟩

/-- The cleanup takes out what was set aside. -/
theorem removeInvalidTxs_shrinks (s : MemoryStorage) : Shrinks s (s.removeInvalidTxs cfg) := by
  refine ⟨by rw [removeInvalidTxs_ledgerNonceChecker], fun txHash tx hfind => ⟨tx, ?_, rfl⟩⟩
  rw [find?_removeInvalidTxs] at hfind
  split at hfind
  · exact absurd hfind (Option.some_ne_none tx).symm
  · exact hfind

/-- A block result takes out what it names, and raises the height. -/
theorem batchRemove_shrinks (s : MemoryStorage) (batchId : Int)
    (txsResult : List TransactionSubmitResult) :
    Shrinks s (s.batchRemove cfg batchId txsResult) := by
  refine ⟨by rw [blockNumber_batchRemove]; omega, fun txHash tx hfind => ⟨tx, ?_, rfl⟩⟩
  rw [find?_batchRemove] at hfind
  split at hfind
  · exact absurd hfind (Option.some_ne_none tx).symm
  · exact hfind

/-- Any call of a node brings one transaction in or shrinks the pool. So what
    holds of pairs of entries is a matter of submissions alone. -/
theorem step_shrinks {op : TxPool.Op} {call : Op} (hcall : TxPool.NodeCall cfg op call)
    (s : MemoryStorage) :
    Shrinks s (step cfg s call) ∨
    ∃ tx txSubmitCallback enforceImport,
      call = .submitTransaction tx txSubmitCallback enforceImport ∧
      Admits cfg s tx.1 enforceImport ∧
      BringsIn tx.1 (entering cfg tx.1 txSubmitCallback enforceImport) enforceImport s
        (step cfg s call) := by
  rcases step_effect cfg fixed_toTxData hcall s with
    hsame | ⟨tx, callback, enforceImport, rfl, _, hadmits, hbrings⟩ |
    ⟨order, txsLimit, avoidTxs, rfl⟩ | rfl | ⟨batchId, txsResult, rfl⟩
  · exact Or.inl hsame.toSameEntries.shrinks
  · exact Or.inr ⟨tx, callback, enforceImport, rfl, hadmits, hbrings⟩
  · exact Or.inl
      (s.batchFetchTxs_sameEntries cfg fixed_toTxData order txsLimit avoidTxs true).shrinks
  · exact Or.inl (s.removeInvalidTxs_shrinks cfg)
  · exact Or.inl (s.batchRemove_shrinks cfg batchId txsResult)

/-! ### Entries apart -/

/-- No two open entries share a nonce. Expired ones may, since a seal leaves
    them out. -/
def Apart (s : MemoryStorage) : Prop :=
  ∀ txHash txHash' tx tx', s.txsTable.find? txHash = some tx →
    s.txsTable.find? txHash' = some tx' → Open s tx → Open s tx' → tx.nonce = tx'.nonce →
    txHash = txHash'

/-- A call brings no open transaction in beside an open one with its nonce. -/
def KeepsApart (s : MemoryStorage) : Op → Prop
  | .submitTransaction tx _ enforceImport => Admits cfg s tx.1 enforceImport → Open s tx.1 →
      ∀ txHash entry, s.txsTable.find? txHash = some entry → Open s entry →
        entry.nonce ≠ tx.1.nonce
  | _ => True

/-- Entries that were apart stay apart when the pool shrinks. -/
theorem Apart.shrinks {s s' : MemoryStorage} (h : Apart s) (hs : Shrinks s s') : Apart s' := by
  intro txHash txHash' tx tx' hfind hfind' hopen hopen' hnonce
  rcases hs.2 txHash tx hfind with ⟨old, hold, hdata⟩
  rcases hs.2 txHash' tx' hfind' with ⟨old', hold', hdata'⟩
  have hlimit := congrArg TxData.blockLimit hdata
  have hlimit' := congrArg TxData.blockLimit hdata'
  have hraised := hs.1
  -- What is open now was open at the lower height.
  refine h txHash txHash' old old' hold hold' ?_ ?_ ?_
  · unfold Open at hopen ⊢
    omega
  · unfold Open at hopen' ⊢
    omega
  · rw [congrArg TxData.nonce hdata, hnonce, congrArg TxData.nonce hdata']

/-- A call that brings nothing in beside its nonce keeps the entries apart. -/
theorem step_apart {op : TxPool.Op} {call : Op} (hcall : TxPool.NodeCall cfg op call)
    (s : MemoryStorage) (hkeeps : KeepsApart cfg s call) (h : Apart s) :
    Apart (step cfg s call) := by
  rcases step_shrinks cfg hcall s with hs | ⟨tx, callback, enforceImport, rfl, hadmits, hbrings⟩
  · exact h.shrinks hs
  · have hdata := entering_toTxData cfg tx.1 callback enforceImport
    generalize entering cfg tx.1 callback enforceImport = entered at hbrings hdata
    have hnonce : entered.nonce = tx.1.nonce := congrArg TxData.nonce hdata
    have hlimit : entered.blockLimit = tx.1.blockLimit := congrArg TxData.blockLimit hdata
    have hfresh := hkeeps hadmits
    intro txHash txHash' u u' hfind hfind' hopen hopen' hsame
    unfold Open at hopen hopen'
    rw [hbrings.ledger] at hopen hopen'
    rw [hbrings.find] at hfind hfind'
    -- Each of the two is the new entry or an old one.
    split at hfind
    · rename_i hnew
      rw [Option.some.injEq] at hfind
      subst hfind
      split at hfind'
      · rename_i hnew'
        exact hnew.symm.trans hnew'
      · rw [hlimit] at hopen
        exact absurd (hsame.symm.trans hnonce) (hfresh hopen txHash' u' hfind' hopen')
    · split at hfind'
      · rw [Option.some.injEq] at hfind'
        subst hfind'
        rw [hlimit] at hopen'
        exact absurd (hsame.trans hnonce) (hfresh hopen' txHash u hfind hopen)
      · exact h txHash txHash' u u' hfind hfind' hopen hopen' hsame

/-! ### The transactions of a seal -/

/-- In a walk from `s`, what has been handed out so far is distinct, is sealed
    by now, and passes the ledger check as `s` has it. Since it is sealed, no
    later turn hands it out again. -/
structure HandedOut (s : MemoryStorage) (acc : MemoryStorage × FetchedTxs) : Prop where
  same : SameEntries (fun tx => tx.toTxData) s acc.1
  nodup : acc.2.hashes.Nodup
  sealedNow : ∀ txHash ∈ acc.2.hashes, ∃ tx, acc.1.txsTable.find? txHash = some tx ∧
    tx.sealed = true
  passed : ∀ txHash ∈ acc.2.hashes, ∃ tx, s.txsTable.find? txHash = some tx ∧
    TxValidator.submittedToChain s.ledgerNonceChecker tx = .none

/-- Dropping a callback leaves the seal flags alone. -/
theorem HandedOut.setAsideOnChain {s s' : MemoryStorage} {f : FetchedTxs}
    (h : HandedOut s (s', f)) (txHash : HashType) (tx : Transaction) :
    HandedOut s (s'.setAsideOnChain txHash tx, f) := by
  refine ⟨h.same.trans (setAsideOnChain_sameEntries fixed_toTxData s' txHash tx), h.nodup,
    fun k hk => ?_, h.passed⟩
  rcases h.sealedNow k hk with ⟨u, hu, hsealed⟩
  rw [MemoryStorage.setAsideOnChain, KeyedTable.find?_modify, hu]
  split
  · exact ⟨_, rfl, hsealed⟩
  · exact ⟨u, rfl, hsealed⟩

/-- A transaction handed out was unsealed, so it was not handed out before. -/
theorem HandedOut.handOut {s s' : MemoryStorage} {f : FetchedTxs} (h : HandedOut s (s', f))
    {txHash : HashType} {tx : Transaction} (hfind : s'.txsTable.find? txHash = some tx)
    (hopen : tx.sealed = false)
    (hpasses : TxValidator.submittedToChain s'.ledgerNonceChecker tx = .none) :
    HandedOut s (s'.handOut txHash tx, f.append tx) := by
  have hkey : tx.hash = txHash := ((KeyedTable.find?_eq_some_iff _ txHash tx).mp hfind).2
  have hperm := hashes_append_perm f tx
  have hmem : ∀ k, k ∈ (f.append tx).hashes → k = txHash ∨ k ∈ f.hashes :=
    fun k hk => hkey ▸ (mem_hashes_append f tx k).mp hk
  refine ⟨h.same.trans (handOut_sameEntries fixed_toTxData s' txHash tx), ?_, fun k hk => ?_,
    fun k hk => ?_⟩
  · -- It is open, and what was handed out before is sealed.
    rw [hperm.nodup_iff, List.nodup_cons]
    refine ⟨fun hbefore => ?_, h.nodup⟩
    rcases h.sealedNow tx.hash hbefore with ⟨u, hu, hsealed⟩
    rw [hkey, hfind, Option.some.injEq] at hu
    rw [← hu, hopen] at hsealed
    exact Bool.false_ne_true hsealed
  · rw [MemoryStorage.handOut, KeyedTable.find?_modify]
    rcases hmem k hk with rfl | hbefore
    · rw [if_pos rfl, hfind]
      exact ⟨_, rfl, rfl⟩
    · rcases h.sealedNow k hbefore with ⟨u, hu, hsealed⟩
      rw [hu]
      split
      · exact ⟨_, rfl, rfl⟩
      · exact ⟨u, rfl, hsealed⟩
  · rcases hmem k hk with rfl | hbefore
    · rcases h.same.before hfind with ⟨old, hold, hdata⟩
      refine ⟨old, hold, ?_⟩
      rw [h.same.ledger] at hpasses
      rw [TxValidator.submittedToChain_eq_none_iff] at hpasses ⊢
      rw [congrArg TxData.nonce hdata, congrArg TxData.blockLimit hdata]
      exact hpasses
    · exact h.passed k hbefore

/-- What a seal hands out is handed out once, and passed the ledger check. -/
theorem hashes_batchFetchTxs (s : MemoryStorage) (order : HashList) (txsLimit : Nat)
    (avoidTxs : HashList) :
    (s.batchFetchTxs cfg order txsLimit avoidTxs true).2.hashes.Nodup ∧
    ∀ txHash ∈ (s.batchFetchTxs cfg order txsLimit avoidTxs true).2.hashes,
      ∃ tx, s.txsTable.find? txHash = some tx ∧
        TxValidator.submittedToChain s.ledgerNonceChecker tx = .none := by
  have hloop : HandedOut s (fetchLoop txsLimit avoidTxs true order s {}) := by
    -- Each turn of the walk keeps the invariant, whichever of the three it is.
    refine fetchLoop_invariant (HandedOut s) ?_ ?_ ?_
      ⟨SameEntries.refl _ s, List.nodup_nil, fun _ h => absurd h List.not_mem_nil,
        fun _ h => absurd h List.not_mem_nil⟩
    · exact fun s' f txHash tx _ _ hinv => hinv.setAsideOnChain txHash tx
    · intro s' f txHash tx _ _ hinv
      exact ⟨⟨hinv.same.entries, hinv.same.txPool, hinv.same.ledger⟩, hinv.nodup,
        hinv.sealedNow, hinv.passed⟩
    · intro s' f txHash tx hvisit hfetch hinv
      rcases submittedToChain_of_fetch hfetch with ⟨_, hopen, hpasses⟩
      exact hinv.handOut hvisit.find hopen hpasses
  exact ⟨hloop.nodup, hloop.passed⟩

/-- In a pool whose open entries are apart, a seal returns distinct nonces. -/
theorem Apart.nodup_nonces {s : MemoryStorage} (h : Apart s) (order : HashList) (txsLimit : Nat)
    (avoidTxs : HashList) :
    ((s.batchFetchTxs cfg order txsLimit avoidTxs true).2.hashes.map
      (fun txHash => (s.txsTable.find? txHash).map (fun tx => tx.nonce))).Nodup := by
  rcases s.hashes_batchFetchTxs cfg order txsLimit avoidTxs with ⟨hnodup, hpass⟩
  refine List.Nodup.map_on (fun txHash hmem txHash' hmem' heq => ?_) hnodup
  rcases hpass txHash hmem with ⟨tx, hfind, hnone⟩
  rcases hpass txHash' hmem' with ⟨tx', hfind', hnone'⟩
  rw [hfind, hfind', Option.map_some, Option.map_some, Option.some.injEq] at heq
  -- Both passed the ledger check, so both are open.
  rw [TxValidator.submittedToChain_eq_none_iff] at hnone hnone'
  exact h txHash txHash' tx tx' hfind hfind' hnone.2.1 hnone'.2.1 heq

/-! ### Reserved nonces -/

/-- In a run of calls, a normal submission accepted the transaction, and it has
    been in the table since. A later seal or mark does not matter. -/
def AcceptedSince (s₀ : MemoryStorage) (pre : List Op) (txHash : HashType) : Prop :=
  Since (step cfg)
    (fun s call => ∃ tx txSubmitCallback, call = .submitTransaction tx txSubmitCallback false ∧
      tx.1.hash = txHash ∧ Submittable cfg s tx.1)
    (fun s => s.txsTable.find? txHash ≠ none) s₀ pre

/-- The nonces of some open entries are held by one of the two checkers. None of
    them is set aside for release, unless its entry is set aside with it. -/
def Reserved (A : HashType → Prop) (s : MemoryStorage) : Prop :=
  ∀ txHash tx, A txHash → s.txsTable.find? txHash = some tx → Open s tx →
    (tx.nonce ∈ s.txPoolNonceChecker.nonceCache ∨ tx.nonce ∈ s.ledgerNonceChecker.nonceCache) ∧
      (tx.nonce ∈ s.invalidNonces → txHash ∈ s.invalidTxs)

/-- The condition on a call under which accepted transactions keep their nonces.
    A nonce awaiting its release is not accepted again, unless the hash awaits
    its removal. A seal sets no expired entry aside whose nonce is that of
    another accepted one. And a block evicts the nonce of no accepted entry that
    stays open in the pool, unless the txpool checker keeps it. -/
def KeepsReserved (s₀ : MemoryStorage) (pre : List Op) : Op → Prop
  | .submitTransaction tx _ false =>
      let s := run (step cfg) s₀ pre
      Submittable cfg s tx.1 → tx.1.nonce ∈ s.invalidNonces → tx.1.hash ∈ s.invalidTxs
  | .batchFetchTxs order txsLimit avoidTxs avoidDuplicate =>
      ∀ s' txHash tx, Visits (run (step cfg) s₀ pre) order txsLimit avoidTxs avoidDuplicate s'
          txHash tx →
        s'.fetchDecision avoidTxs avoidDuplicate tx = .expired →
        ∀ other entry, other ≠ txHash → AcceptedSince cfg s₀ pre other →
          s'.txsTable.find? other = some entry → Open s' entry → entry.nonce = tx.nonce →
          other ∈ s'.invalidTxs
  | .batchRemove batchId txsResult =>
      let s := run (step cfg) s₀ pre
      ∀ txHash tx, AcceptedSince cfg s₀ pre txHash → s.txsTable.find? txHash = some tx →
        (∀ r ∈ txsResult, r.txHash ≠ txHash) →
        max s.ledgerNonceChecker.blockNumber batchId < tx.blockLimit →
        tx.nonce ∈ (s.ledgerNonceChecker.expired batchId (s.blockNonces txsResult)).getD [] →
        tx.nonce ∈ s.txPoolNonceChecker.nonceCache ∧ ¬ tx.nonce ∈ s.blockNonces txsResult
  | _ => True

/-- Fewer entries need fewer nonces. -/
theorem Reserved.mono {A B : HashType → Prop} {s : MemoryStorage} (h : Reserved A s)
    (hB : ∀ txHash, B txHash → A txHash) : Reserved B s :=
  fun txHash tx hb hfind hopen => h txHash tx (hB txHash hb) hfind hopen

/-- Calls that leave contents, checkers and sets alone leave reservations
    alone. -/
theorem Reserved.sameUpTo {A : HashType → Prop} {s s' : MemoryStorage} (h : Reserved A s)
    (hsame : SameUpTo (fun tx => tx.toTxData) s s') : Reserved A s' := by
  intro txHash tx ha hfind hopen
  rcases hsame.before hfind with ⟨old, hold, hdata⟩
  have hnonce : old.nonce = tx.nonce := congrArg TxData.nonce hdata
  have hlimit : old.blockLimit = tx.blockLimit := congrArg TxData.blockLimit hdata
  unfold Open at hopen
  rw [hsame.ledger, ← hlimit] at hopen
  rw [hsame.txPool, hsame.ledger, hsame.invalidNonces, hsame.invalidTxs, ← hnonce]
  exact h txHash old ha hold hopen

/-- A seal keeps reservations: an expired entry's nonce is set aside only where no
    accepted entry needs it. -/
theorem Reserved.batchFetchTxs {A : HashType → Prop} {s : MemoryStorage} (h : Reserved A s)
    (order : HashList) (txsLimit : Nat) (avoidTxs : HashList) (avoidDuplicate : Bool)
    (hcond : ∀ s' txHash tx, Visits s order txsLimit avoidTxs avoidDuplicate s' txHash tx →
      s'.fetchDecision avoidTxs avoidDuplicate tx = .expired →
      ∀ other entry, other ≠ txHash → A other → s'.txsTable.find? other = some entry →
        Open s' entry → entry.nonce = tx.nonce → other ∈ s'.invalidTxs) :
    Reserved A (s.batchFetchTxs cfg order txsLimit avoidTxs avoidDuplicate).1 := by
  refine batchFetchTxs_invariant cfg (Reserved A) ?_ ?_ ?_ (fun _ _ _ hs => hs) h
  · intro s' txHash tx _ _ hs other entry ha hfind hopen
    have hsame := setAsideOnChain_sameEntries fixed_toTxData s' txHash tx
    rcases hsame.before hfind with ⟨old, hold, hdata⟩
    have hnonce : old.nonce = entry.nonce := congrArg TxData.nonce hdata
    have hlimit : old.blockLimit = entry.blockLimit := congrArg TxData.blockLimit hdata
    have hbefore := hs other old ha hold (by unfold Open at hopen ⊢; rw [hlimit]; exact hopen)
    rw [← hnonce]
    -- The set of hashes grows, the set of nonces does not.
    refine ⟨hbefore.1, fun hmem => ?_⟩
    simp only [setAsideOnChain, SortedSet.mem_insert]
    exact Or.inr (Or.inr (hbefore.2 hmem))
  · intro s' txHash tx hvisit hexpired hs other entry ha hfind hopen
    have hbefore := hs other entry ha hfind hopen
    refine ⟨hbefore.1, fun hmem => ?_⟩
    simp only [setAsideExpired, SortedSet.mem_insert] at hmem ⊢
    by_cases heq : other = txHash
    · exact Or.inl heq
    · rcases hmem with hnonce | hmem
      · exact Or.inr (hcond s' txHash tx hvisit hexpired other entry heq ha hfind hopen hnonce)
      · exact Or.inr (hbefore.2 hmem)
  · intro s' txHash tx _ _ hs
    have hsame := handOut_sameEntries fixed_toTxData s' txHash tx
    exact hs.sameUpTo ⟨hsame, rfl, rfl⟩

/-- A cleanup keeps reservations: what it releases belongs to entries it
    removes. -/
theorem Reserved.removeInvalidTxs {A : HashType → Prop} {s : MemoryStorage} (h : Reserved A s) :
    Reserved A (s.removeInvalidTxs cfg) := by
  rcases s.removeInvalidTxs_eq cfg with ⟨_, hsame⟩ | ⟨n, rs, rs', hclean⟩
  · rw [hsame]
    exact h
  · intro txHash tx ha hfind hopen
    rw [find?_removeInvalidTxs] at hfind
    unfold Open at hopen
    rw [removeInvalidTxs_ledgerNonceChecker] at hopen ⊢
    by_cases hmem : txHash ∈ s.invalidTxs
    · rw [if_pos hmem] at hfind
      exact absurd hfind (Option.some_ne_none tx).symm
    · rw [if_neg hmem] at hfind
      rcases h txHash tx ha hfind hopen with ⟨hheld, haside⟩
      -- The entry stays, so its nonce is not among those released.
      have hkept : ¬ tx.nonce ∈ s.invalidNonces := fun hn => hmem (haside hn)
      refine ⟨hheld.imp_left (fun hin => ?_), fun hin => ?_⟩
      · exact (s.mem_removeInvalidTxs_txPool cfg tx.nonce).mpr ⟨hin, Or.inr hkept⟩
      · rw [hclean] at hin
        exact absurd hin (SortedSet.mem_empty tx.nonce)

/-- A block result keeps reservations: it moves nonces from one checker to the
    other, and the condition speaks of those it evicts. -/
theorem Reserved.batchRemove {A : HashType → Prop} {s : MemoryStorage} (h : Reserved A s)
    (batchId : Int) (txsResult : List TransactionSubmitResult)
    (hcond : ∀ txHash tx, A txHash → s.txsTable.find? txHash = some tx →
      (∀ r ∈ txsResult, r.txHash ≠ txHash) →
      max s.ledgerNonceChecker.blockNumber batchId < tx.blockLimit →
      tx.nonce ∈ (s.ledgerNonceChecker.expired batchId (s.blockNonces txsResult)).getD [] →
      tx.nonce ∈ s.txPoolNonceChecker.nonceCache ∧ ¬ tx.nonce ∈ s.blockNonces txsResult) :
    Reserved A (s.batchRemove cfg batchId txsResult) := by
  intro txHash tx ha hfind hopen
  unfold Open at hopen
  rw [blockNumber_batchRemove] at hopen
  rw [find?_batchRemove] at hfind
  rw [batchRemove_txPoolNonceChecker, TxPoolNonceChecker.mem_batchRemove,
    TxPool.batchRemove_ledgerNonceChecker, LedgerNonceChecker.mem_batchInsert_iff,
    (s.batchRemove_invalid cfg batchId txsResult).1,
    (s.batchRemove_invalid cfg batchId txsResult).2]
  by_cases hnamed : txHash ∈ txsResult.map (fun r => r.txHash)
  · rw [if_pos hnamed] at hfind
    exact absurd hfind (Option.some_ne_none tx).symm
  · rw [if_neg hnamed] at hfind
    have hunnamed : ∀ r ∈ txsResult, r.txHash ≠ txHash :=
      fun r hr heq => hnamed (List.mem_map.mpr ⟨r, hr, heq⟩)
    rcases h txHash tx ha hfind (by unfold Open; omega) with ⟨hheld, haside⟩
    refine ⟨?_, haside⟩
    -- The block may evict the nonce, record it, or leave it where it is.
    by_cases hevicted : tx.nonce ∈
        (s.ledgerNonceChecker.expired batchId (s.blockNonces txsResult)).getD []
    · exact Or.inl (hcond txHash tx ha hfind hunnamed hopen hevicted)
    · -- Not evicted, it is with the ledger if it is among the block's nonces.
      by_cases hblock : tx.nonce ∈ s.blockNonces txsResult
      · exact Or.inr ⟨Or.inr hblock, hevicted⟩
      · rcases hheld with hin | hin
        · exact Or.inl ⟨hin, hblock⟩
        · exact Or.inr ⟨Or.inl hin, hevicted⟩

/-- A new entry keeps reservations: a normal submission reserves the nonce of what
    it brings in, and nothing else is touched. -/
theorem Reserved.bringsIn {A B : HashType → Prop} {s s' : MemoryStorage} (h : Reserved A s)
    {tx entered : Transaction} {enforceImport : Bool}
    (hbrings : BringsIn tx entered enforceImport s s') (hdata : entered.toTxData = tx.toTxData)
    (hnew : B tx.hash →
      enforceImport = false ∧ (tx.nonce ∈ s.invalidNonces → tx.hash ∈ s.invalidTxs))
    (hold : ∀ txHash, B txHash → tx.hash ≠ txHash → A txHash) : Reserved B s' := by
  intro txHash entry hb hfind hopen
  rw [hbrings.find] at hfind
  unfold Open at hopen
  rw [hbrings.ledger] at hopen ⊢
  rw [hbrings.txPool, hbrings.invalidTxs, hbrings.invalidNonces]
  split at hfind
  · -- The new entry itself: if it needs a nonce, it came by the normal path.
    rename_i hthis
    rw [Option.some.injEq] at hfind
    subst hfind hthis
    rcases hnew hb with ⟨hnormal, haside⟩
    have hnonce : entered.nonce = tx.nonce := congrArg TxData.nonce hdata
    rw [hnonce]
    exact ⟨Or.inl (Or.inl ⟨hnormal, rfl⟩), haside⟩
  · rename_i hother
    rcases h txHash entry (hold txHash hb hother) hfind hopen with ⟨hheld, haside⟩
    exact ⟨hheld.imp_left Or.inr, haside⟩

/-- One more call keeps the nonces of what has been accepted so far. -/
theorem step_reserved {op : TxPool.Op} {call : Op} (hcall : TxPool.NodeCall cfg op call)
    (s₀ : MemoryStorage) (pre : List Op) (hkeeps : KeepsReserved cfg s₀ pre call)
    (h : Reserved (AcceptedSince cfg s₀ pre) (run (step cfg) s₀ pre)) :
    Reserved (AcceptedSince cfg s₀ (pre ++ [call])) (run (step cfg) s₀ (pre ++ [call])) := by
  rw [run_concat]
  -- What is accepted and there after the call was accepted before it, unless the
  -- call is the submission that accepts it.
  have hearlier : (∀ tx txSubmitCallback, call = .submitTransaction tx txSubmitCallback false →
        ¬ Submittable cfg (run (step cfg) s₀ pre) tx.1) →
      ∀ txHash, AcceptedSince cfg s₀ (pre ++ [call]) txHash → AcceptedSince cfg s₀ pre txHash := by
    intro hnone txHash hacc
    rcases ((since_concat _ _ _ _ _ _).mp hacc).2 with hacc | ⟨tx, callback, hsub, _, hyes⟩
    · exact hacc
    · exact absurd hyes (hnone tx callback hsub)
  rcases step_effect cfg fixed_toTxData hcall (run (step cfg) s₀ pre) with
    hsame | ⟨tx, callback, enforceImport, rfl, _, hadmits, hbrings⟩ |
    ⟨order, txsLimit, avoidTxs, rfl⟩ | rfl | ⟨batchId, txsResult, rfl⟩
  · refine (h.sameUpTo hsame).mono ?_
    intro txHash hacc
    rcases (since_concat _ _ _ _ _ _).mp hacc with ⟨hthere, hacc | ⟨tx, callback, rfl, rfl, hyes⟩⟩
    · exact hacc
    · -- A hash that is there after it was there before, and not free to submit.
      rw [run_concat] at hthere
      exact absurd ((hsame.find?_eq_none_iff tx.1.hash).mpr hyes.free) hthere
  · refine h.bringsIn hbrings (entering_toTxData cfg tx.1 callback enforceImport) ?_ ?_
    · intro hacc
      -- The hash was free, so it is this submission that accepts it.
      rcases ((since_concat _ _ _ _ _ _).mp hacc).2 with hbefore | ⟨tx', callback', hsub, _, hyes⟩
      · exact absurd hadmits.free hbefore.now
      · rw [Op.submitTransaction.injEq] at hsub
        rcases hsub with ⟨rfl, rfl, rfl⟩
        exact ⟨rfl, hkeeps hyes⟩
    · intro txHash hacc hother
      rcases ((since_concat _ _ _ _ _ _).mp hacc).2 with hbefore | ⟨tx', callback', hsub, hhash, _⟩
      · exact hbefore
      · rw [Op.submitTransaction.injEq] at hsub
        rw [← hsub.1] at hhash
        exact absurd hhash hother
  · refine (h.batchFetchTxs cfg order txsLimit avoidTxs true ?_).mono
      (hearlier (fun _ _ hc => by cases hc))
    exact fun s' txHash tx hvisit hexpired other entry hne ha hfind hopen hnonce =>
      hkeeps s' txHash tx hvisit hexpired other entry hne ha hfind hopen hnonce
  · exact (h.removeInvalidTxs cfg).mono (hearlier (fun _ _ hc => by cases hc))
  · exact (h.batchRemove cfg batchId txsResult hkeeps).mono (hearlier (fun _ _ hc => by cases hc))

/-! ### Owned nonces -/

/-- Every reserved nonce is off the ledger and belongs to an entry, which the
    cleanup does not remove without releasing the nonce. The contents of the
    entries satisfy `K`, which is used to keep nonces and hashes apart. -/
structure Owned (K : TxData → Prop) (s : MemoryStorage) : Prop where
  offLedger : ∀ nonce ∈ s.txPoolNonceChecker.nonceCache, ¬ nonce ∈ s.ledgerNonceChecker.nonceCache
  owner : ∀ nonce ∈ s.txPoolNonceChecker.nonceCache, ∃ txHash tx,
    s.txsTable.find? txHash = some tx ∧ tx.nonce = nonce ∧
      (txHash ∈ s.invalidTxs → nonce ∈ s.invalidNonces)
  known : ∀ txHash tx, s.txsTable.find? txHash = some tx → K tx.toTxData

/-- A call does not accept a transaction whose hash awaits its removal, unless
    its nonce awaits its release. -/
def KeepsOwned (s : MemoryStorage) : Op → Prop
  | .submitTransaction tx _ false =>
      Submittable cfg s tx.1 → tx.1.hash ∈ s.invalidTxs → tx.1.nonce ∈ s.invalidNonces
  | _ => True

/-- Calls that leave contents, checkers and sets alone leave owners alone. -/
theorem Owned.sameUpTo {K : TxData → Prop} {s s' : MemoryStorage} (h : Owned K s)
    (hsame : SameUpTo (fun tx => tx.toTxData) s s') : Owned K s' where
  offLedger := by
    rw [hsame.txPool, hsame.ledger]
    exact h.offLedger
  owner := by
    intro nonce hmem
    rw [hsame.txPool] at hmem
    rcases h.owner nonce hmem with ⟨txHash, tx, hfind, hnonce, haside⟩
    rcases hsame.after hfind with ⟨new, hnew, hdata⟩
    refine ⟨txHash, new, hnew, (congrArg TxData.nonce hdata).trans hnonce, ?_⟩
    rw [hsame.invalidTxs, hsame.invalidNonces]
    exact haside
  known := by
    intro txHash tx hfind
    rcases hsame.before hfind with ⟨old, hold, hdata⟩
    have hknown := h.known txHash old hold
    simp only [hdata] at hknown
    exact hknown

/-- A transaction that comes in owns its nonce. -/
theorem Owned.bringsIn {K : TxData → Prop} {s s' : MemoryStorage} {tx entry : Transaction}
    {enforceImport : Bool} (h : Owned K s) (hadmits : Admits cfg s tx enforceImport)
    (hbrings : BringsIn tx entry enforceImport s s') (hdata : entry.toTxData = tx.toTxData)
    (hK : K tx.toTxData)
    (haside : enforceImport = false → tx.hash ∈ s.invalidTxs → tx.nonce ∈ s.invalidNonces) :
    Owned K s' where
  offLedger := by
    intro nonce hmem
    rw [hbrings.ledger]
    rcases (hbrings.txPool nonce).mp hmem with ⟨_, rfl⟩ | hold
    · exact hadmits.nonce
    · exact h.offLedger nonce hold
  owner := by
    intro nonce hmem
    rw [hbrings.invalidTxs, hbrings.invalidNonces]
    rcases (hbrings.txPool nonce).mp hmem with ⟨hnormal, rfl⟩ | hold
    · -- Only a normal submission reserves, and then for its own entry.
      refine ⟨tx.hash, entry, ?_, congrArg TxData.nonce hdata, haside hnormal⟩
      rw [hbrings.find, if_pos rfl]
    · rcases h.owner nonce hold with ⟨txHash, old, hfind, hnonce, hset⟩
      refine ⟨txHash, old, ?_, hnonce, hset⟩
      -- The hash of the newcomer was free, so it is no other owner's.
      rw [hbrings.find, if_neg]
      · exact hfind
      · rintro rfl
        rw [hadmits.free] at hfind
        exact absurd hfind.symm (Option.some_ne_none old)
  known := by
    intro txHash old hfind
    rw [hbrings.find] at hfind
    split at hfind
    · rw [← Option.some.inj hfind, hdata]
      exact hK
    · exact h.known txHash old hfind

/-- A seal keeps owners. What it sets aside for its nonce on the ledger owns no
    reserved nonce, and what it sets aside as expired has its nonce set aside
    too. -/
theorem Owned.batchFetchTxs {K : TxData → Prop} {s : MemoryStorage} (h : Owned K s)
    (hK : ∀ data data', K data → K data' → nonceToHash data.nonce ≠ data'.hash)
    (order : HashList) (txsLimit : Nat) (avoidTxs : HashList) (avoidDuplicate : Bool) :
    Owned K (s.batchFetchTxs cfg order txsLimit avoidTxs avoidDuplicate).1 := by
  refine batchFetchTxs_invariant cfg (Owned K) ?_ ?_ ?_
    (fun _ _ _ hs => ⟨hs.offLedger, hs.owner, hs.known⟩) h
  · intro s' txHash tx hvisit honChain hs
    have hsame := setAsideOnChain_sameEntries fixed_toTxData s' txHash tx
    have hledger := (fetchDecision_onChain_iff.mp honChain).2
    refine ⟨hs.offLedger, fun nonce hmem => ?_, fun k u hfind => ?_⟩
    · -- The entry set aside has its nonce on the ledger, and no reserved nonce is
      -- there.
      rcases hs.owner nonce hmem with ⟨k, u, hfind, hnonce, haside⟩
      rcases hsame.after hfind with ⟨new, hnew, hdata⟩
      refine ⟨k, new, hnew, (congrArg TxData.nonce hdata).trans hnonce, fun hin => ?_⟩
      rw [setAsideOnChain, SortedSet.mem_insert, SortedSet.mem_insert] at hin
      rcases hin with rfl | rfl | hin
      · -- The owner's hash is no transaction's nonce.
        have hkey := ((KeyedTable.find?_eq_some_iff _ _ u).mp hfind).2
        exact absurd hkey.symm (hK _ _ (hs.known _ tx hvisit.find) (hs.known _ u hfind))
      · rw [hvisit.find, Option.some.injEq] at hfind
        rw [hfind, hnonce] at hledger
        exact absurd hledger (hs.offLedger nonce hmem)
      · exact haside hin
    · rcases hsame.before hfind with ⟨old, hold, hdata⟩
      have hknown := hs.known k old hold
      simp only [hdata] at hknown
      exact hknown
  · intro s' txHash tx hvisit _ hs
    refine ⟨hs.offLedger, fun nonce hmem => ?_, hs.known⟩
    rcases hs.owner nonce hmem with ⟨k, u, hfind, hnonce, haside⟩
    refine ⟨k, u, hfind, hnonce, fun hin => ?_⟩
    rw [setAsideExpired, SortedSet.mem_insert] at hin ⊢
    rcases hin with rfl | hin
    · rw [hvisit.find, Option.some.injEq] at hfind
      rw [hfind, hnonce]
      exact Or.inl rfl
    · exact Or.inr (haside hin)
  · exact fun s' txHash tx _ _ hs =>
      hs.sameUpTo ⟨handOut_sameEntries fixed_toTxData s' txHash tx, rfl, rfl⟩

/-- A cleanup keeps owners: a nonce it keeps has an owner that it does not
    remove. -/
theorem Owned.removeInvalidTxs {K : TxData → Prop} {s : MemoryStorage} (h : Owned K s) :
    Owned K (s.removeInvalidTxs cfg) where
  offLedger := by
    intro nonce hmem
    rw [removeInvalidTxs_ledgerNonceChecker]
    exact h.offLedger nonce ((s.mem_removeInvalidTxs_txPool cfg nonce).mp hmem).1
  owner := by
    intro nonce hmem
    rcases (s.mem_removeInvalidTxs_txPool cfg nonce).mp hmem with ⟨hin, hkept⟩
    rcases h.owner nonce hin with ⟨txHash, tx, hfind, hnonce, haside⟩
    refine ⟨txHash, tx, ?_, hnonce,
      fun hc => absurd hc (s.not_mem_invalidTxs_removeInvalidTxs cfg txHash)⟩
    rw [find?_removeInvalidTxs, if_neg]
    · exact hfind
    · intro hset
      -- A cleanup that finds nothing set aside releases nothing.
      rcases hkept with hempty | hfree
      · exact hempty txHash hset
      · exact hfree (haside hset)
  known := by
    intro txHash tx hfind
    rcases (s.removeInvalidTxs_shrinks cfg).2 txHash tx hfind with ⟨old, hold, hdata⟩
    rw [← hdata]
    exact h.known txHash old hold

/-- A block result keeps owners: it releases the nonce of every entry it
    removes, and every nonce that it records. -/
theorem Owned.batchRemove {K : TxData → Prop} {s : MemoryStorage} (h : Owned K s) (batchId : Int)
    (txsResult : List TransactionSubmitResult) :
    Owned K (s.batchRemove cfg batchId txsResult) where
  offLedger := by
    intro nonce hmem
    rw [batchRemove_txPoolNonceChecker, TxPoolNonceChecker.mem_batchRemove] at hmem
    rw [TxPool.batchRemove_ledgerNonceChecker, LedgerNonceChecker.mem_batchInsert_iff]
    intro hc
    rcases hc.1 with hold | hblock
    · exact h.offLedger nonce hmem.1 hold
    · exact hmem.2 hblock
  owner := by
    intro nonce hmem
    rw [batchRemove_txPoolNonceChecker, TxPoolNonceChecker.mem_batchRemove] at hmem
    rcases h.owner nonce hmem.1 with ⟨txHash, tx, hfind, hnonce, haside⟩
    rw [(s.batchRemove_invalid cfg batchId txsResult).1,
      (s.batchRemove_invalid cfg batchId txsResult).2]
    refine ⟨txHash, tx, ?_, hnonce, haside⟩
    rw [find?_batchRemove, if_neg]
    · exact hfind
    · -- An owner that is removed has its nonce among those of the block.
      intro hnamed
      rcases List.mem_map.mp hnamed with ⟨r, hr, hrhash⟩
      refine hmem.2 (nonce_mem_of_pooled txsResult txHash nonce ⟨r, hr, hrhash⟩ (s, []) ?_)
      exact ⟨tx, hfind, hnonce⟩
  known := by
    intro txHash tx hfind
    rcases (s.batchRemove_shrinks cfg batchId txsResult).2 txHash tx hfind with ⟨old, hold, hdata⟩
    rw [← hdata]
    exact h.known txHash old hold

/-- Every call keeps owners, where it meets the condition and carries only
    contents that satisfy `K`. -/
theorem step_keepsOwned {K : TxData → Prop} {op : TxPool.Op} {call : Op}
    (hcall : TxPool.NodeCall cfg op call) (s : MemoryStorage)
    (hcarries : ∀ data, op.Carries cfg data → K data)
    (hK : ∀ data data', K data → K data' → nonceToHash data.nonce ≠ data'.hash)
    (hkeeps : KeepsOwned cfg s call) (h : Owned K s) : Owned K (step cfg s call) := by
  rcases step_effect cfg fixed_toTxData hcall s with hsame |
    ⟨tx, callback, enforceImport, rfl, hdata, hadmits, hbrings⟩ |
    ⟨order, txsLimit, avoidTxs, rfl⟩ | rfl | ⟨batchId, txsResult, rfl⟩
  · exact h.sameUpTo hsame
  · refine h.bringsIn cfg hadmits hbrings (entering_toTxData cfg tx.1 callback enforceImport)
      (hcarries _ hdata) (fun hnormal => ?_)
    subst hnormal
    exact hkeeps hadmits
  · exact h.batchFetchTxs cfg hK order txsLimit avoidTxs true
  · exact h.removeInvalidTxs cfg
  · exact h.batchRemove cfg batchId txsResult

end MemoryStorage

namespace TxPool

open MemoryStorage

/-- What a seal returns, normal and system transactions together, has distinct
    nonces, after every run in which no call brings an open transaction in
    beside an open one with its nonce. -/
theorem sealed_nonces_nodup (cfg : TxPoolConfig) (ledger : LedgerNonceChecker) (ops : List Op)
    (hkeeps : Along (MemoryStorage.step cfg) (KeepsApart cfg) { ledgerNonceChecker := ledger }
      (runCalls cfg { ledgerNonceChecker := ledger } ops))
    (order : HashList) (txsLimit : Nat) (avoidTxs : HashList) :
    let s := run (step cfg) { ledgerNonceChecker := ledger } ops
    ((asyncSealTxs cfg s order txsLimit avoidTxs).2.hashes.map
      (fun txHash => (s.txsTable.find? txHash).map (fun tx => tx.nonce))).Nodup := by
  intro s
  have hempty : Apart { ledgerNonceChecker := ledger } := by
    intro txHash txHash' tx tx' hfind
    exact absurd hfind.symm (Option.some_ne_none tx)
  -- The invariant is carried along the calls of the run.
  have hapart : Apart s := run_invariant_of_calls cfg _ Apart
    (fun t op call _ hcall hmeets ht => step_apart cfg hcall t hmeets ht) hkeeps hempty
  exact hapart.nodup_nonces cfg order txsLimit avoidTxs

/-- Two transactions with different nonces come in, one by each path, and are
    unsealed. The seal that follows returns both. -/
theorem sealed_nonces_nodup_exampleRun :
    let s := run (step exampleConfig) examplePool
      [.importDownloadedTxs 1 [exampleTx 1 7 1] none,
        .importDownloadedTxs 1 [exampleTx 2 8 1] (exampleBlock [0, 2]), .asyncResetTxPool]
    (asyncSealTxs exampleConfig s [1, 2] 2 []).2.hashes = [1, 2] ∧
    ((asyncSealTxs exampleConfig s [1, 2] 2 []).2.hashes.map
      (fun txHash => (s.txsTable.find? txHash).map (fun tx => tx.nonce))).Nodup := by
  intro s
  have hkeeps : Along (MemoryStorage.step exampleConfig) (KeepsApart exampleConfig) examplePool
      [.submitTransaction (downloaded exampleConfig examplePool 1 none (exampleTx 1 7 1)) none
          false,
        .submitTransaction (downloaded exampleConfig examplePool 1 (some ⟨1, 9⟩)
          (exampleTx 2 8 1)) none true,
        .batchMarkAllTxs false] := by
    refine ⟨?_, ?_, trivial, trivial⟩
    · intro _ _ txHash entry hfind
      exact absurd hfind.symm (Option.some_ne_none entry)
    · intro _ _ txHash entry hfind _
      have hother : ∀ tx ∈ (MemoryStorage.step exampleConfig examplePool
          (.submitTransaction (downloaded exampleConfig examplePool 1 none (exampleTx 1 7 1)) none
            false)).txsTable.entries,
          tx.nonce ≠ 8 := by decide
      exact hother entry ((KeyedTable.find?_eq_some_iff _ _ _).mp hfind).1
  exact ⟨by decide, sealed_nonces_nodup exampleConfig examplePool.ledgerNonceChecker
    [.importDownloadedTxs 1 [exampleTx 1 7 1] none,
      .importDownloadedTxs 1 [exampleTx 2 8 1] (exampleBlock [0, 2]), .asyncResetTxPool]
    hkeeps [1, 2] 2 []⟩

/-- A proposal brings in a transaction with the nonce of a pending one. Once
    both are unsealed, one seal returns both. -/
theorem sealed_nonces_nodup_counterexample :
    let s := run (step exampleConfig) examplePool
      [.importDownloadedTxs 1 [exampleTx 1 7 1] none,
        .importDownloadedTxs 1 [exampleTx 2 7 1] (exampleBlock [0, 2]), .asyncResetTxPool]
    (asyncSealTxs exampleConfig s [1, 2] 2 []).2.hashes.map
      (fun txHash => (s.txsTable.find? txHash).map (fun tx => tx.nonce)) = [some 7, some 7] := by
  decide

/-- The nonce of a transaction that was accepted, has been in the pool since and
    is still open is in one of the two caches, after every run whose calls meet
    `KeepsReserved`. So no second transaction with this nonce is accepted. -/
theorem nonce_reserved (cfg : TxPoolConfig) (ledger : LedgerNonceChecker) (ops : List Op)
    (hkeeps : Throughout (KeepsReserved cfg { ledgerNonceChecker := ledger })
      (runCalls cfg { ledgerNonceChecker := ledger } ops))
    (txHash : HashType) (tx : Transaction)
    (hacc : AcceptedSince cfg { ledgerNonceChecker := ledger }
      (runCalls cfg { ledgerNonceChecker := ledger } ops) txHash)
    (hfind : (run (step cfg) { ledgerNonceChecker := ledger } ops).txsTable.find? txHash = some tx)
    (hopen : (run (step cfg) { ledgerNonceChecker := ledger } ops).ledgerNonceChecker.blockNumber
      < tx.blockLimit) :
    let s := run (step cfg) { ledgerNonceChecker := ledger } ops
    (tx.nonce ∈ s.txPoolNonceChecker.nonceCache ∨ tx.nonce ∈ s.ledgerNonceChecker.nonceCache) ∧
    ∀ (other : Transaction) (txSubmitCallback : Option TxSubmitCallback), other.nonce = tx.nonce →
      (s.verifyAndSubmitTransaction cfg other txSubmitCallback).2 ≠ .none := by
  intro s
  have hreserved : Reserved (AcceptedSince cfg { ledgerNonceChecker := ledger }
      (runCalls cfg { ledgerNonceChecker := ledger } ops)) s := by
    simp only [s, run_eq_run_runCalls]
    refine (runCalls_throughout cfg _ (fun pre => Reserved (AcceptedSince cfg _ pre)
      (run (MemoryStorage.step cfg) _ pre)) ?_ ?_ hkeeps).1
    · intro txHash tx hacc
      exact absurd hacc (not_since_nil _ _ _ _)
    · exact fun pre op call _ hcall hmeets hpre => step_reserved cfg hcall _ pre hmeets hpre
  have hheld := (hreserved txHash tx hacc hfind hopen).1
  refine ⟨hheld, fun other callback hnonce => ?_⟩
  rw [ne_eq, verifyAndSubmitTransaction_snd_eq_none_iff]
  intro hyes
  -- An accepted transaction has its nonce in neither cache.
  rcases hheld with htxPool | hledger
  · exact hyes.accepted.nonce (hnonce ▸ htxPool)
  · exact ((TxValidator.submittedToChain_eq_none_iff _ _).mp hyes.accepted.onChain).1
      (hnonce ▸ hledger)

/-- An accepted transaction, sealed and unsealed again, keeps its nonce. -/
theorem nonce_reserved_exampleRun :
    let s := run (step exampleConfig) examplePool
      [.importDownloadedTxs 1 [exampleTx 1 7 1] none, .asyncMarkTxs [1] true 1 9, .asyncResetTxPool]
    7 ∈ s.txPoolNonceChecker.nonceCache ∨ 7 ∈ s.ledgerNonceChecker.nonceCache := by
  intro s
  let accepted : MemoryStorage.Op :=
    .submitTransaction (downloaded exampleConfig examplePool 1 none (exampleTx 1 7 1)) none false
  have hkeeps : Throughout (KeepsReserved exampleConfig examplePool)
      [accepted, .batchMarkTxs [1] 1 9 true, .batchMarkAllTxs false] := by
    refine (throughout_concat _ [accepted, .batchMarkTxs [1] 1 9 true] _).mpr ⟨?_, trivial⟩
    refine (throughout_concat _ [accepted] _).mpr ⟨?_, trivial⟩
    refine (throughout_concat _ [] accepted).mpr ⟨throughout_nil _, fun _ haside => ?_⟩
    exact absurd haside (SortedSet.mem_empty _)
  have hacc : AcceptedSince exampleConfig examplePool
      [accepted, .batchMarkTxs [1] 1 9 true, .batchMarkAllTxs false] 1 := by
    refine ⟨[], accepted, _, rfl, ⟨_, none, rfl, rfl, ?_⟩, fun mid hmid => ?_⟩
    · exact (verifyAndSubmitTransaction_snd_eq_none_iff _ _ _ none).mp (by decide)
    · have hall : ∀ mid ∈ [.batchMarkTxs [1] 1 9 true, .batchMarkAllTxs false].inits,
          (run (MemoryStorage.step exampleConfig) examplePool (accepted :: mid)).txsTable.find? 1
            ≠ none := by decide
      exact hall mid ((List.mem_inits mid _).mpr hmid)
  cases hfind : s.txsTable.find? 1 with
  | none => exact absurd hfind (by decide)
  | some tx =>
      have hentry : (s.txsTable.find? 1).map (fun tx => (tx.nonce, tx.blockLimit))
          = some (7, 1) := by
        decide
      rw [hfind, Option.map_some, Option.some.injEq, Prod.mk.injEq] at hentry
      have hheld := (nonce_reserved exampleConfig examplePool.ledgerNonceChecker
        [.importDownloadedTxs 1 [exampleTx 1 7 1] none, .asyncMarkTxs [1] true 1 9,
          .asyncResetTxPool] hkeeps 1 tx hacc hfind (by rw [hentry.2]; decide)).1
      rw [hentry.1] at hheld
      exact hheld

/-- A proposal brings in a second transaction with the nonce of an accepted one,
    already expired. Unsealed again it is set aside, its nonce with it. The same
    walk hands the first one out, and the cleanup releases its nonce, so a third
    transaction with this nonce is accepted. -/
theorem nonce_reserved_counterexample :
    let ops : List Op := [.importDownloadedTxs 1 [exampleTx 1 7 1] none,
      .importDownloadedTxs 1 [exampleTx 2 7 0] (exampleBlock [0, 2]), .asyncResetTxPool,
      .asyncSealTxs [2, 1] 2 [], .removeInvalidTxs]
    let s := run (step exampleConfig) examplePool ops
    AcceptedSince exampleConfig examplePool (runCalls exampleConfig examplePool ops) 1 ∧
    (s.txsTable.find? 1).map (fun tx => (tx.nonce, decide (Open s tx))) = some (7, true) ∧
    ¬ 7 ∈ s.txPoolNonceChecker.nonceCache ∧ ¬ 7 ∈ s.ledgerNonceChecker.nonceCache ∧
    (s.verifyAndSubmitTransaction exampleConfig (createTransaction (exampleTx 3 7 1)) none).2
      = .none := by
  intro ops s
  refine ⟨⟨[], _, _, rfl, ⟨_, none, rfl, rfl, ?_⟩, fun mid hmid => ?_⟩, by decide⟩
  · exact (verifyAndSubmitTransaction_snd_eq_none_iff _ _ _ none).mp (by decide)
  · have hall : ∀ mid ∈ (runCalls exampleConfig examplePool ops).tail.inits,
        (run (MemoryStorage.step exampleConfig) examplePool
          ((runCalls exampleConfig examplePool ops).take 1 ++ mid)).txsTable.find? 1 ≠ none := by
      decide
    exact hall mid ((List.mem_inits mid _).mpr hmid)

/-- The reserved nonces are off the ledger, and each is the nonce of a pooled
    transaction, after every run in which no nonce is a hash and in which no
    call accepts a transaction whose hash awaits its removal, unless its nonce
    awaits its release. -/
theorem no_nonce_leak (cfg : TxPoolConfig) (ledger : LedgerNonceChecker) (ops : List Op)
    (hapart : ∀ op ∈ ops, ∀ op' ∈ ops, ∀ data data', op.Carries cfg data → op'.Carries cfg data' →
      nonceToHash data.nonce ≠ data'.hash)
    (hkeeps : Along (MemoryStorage.step cfg) (KeepsOwned cfg) { ledgerNonceChecker := ledger }
      (runCalls cfg { ledgerNonceChecker := ledger } ops)) :
    let s := run (step cfg) { ledgerNonceChecker := ledger } ops
    (∀ nonce ∈ s.txPoolNonceChecker.nonceCache, ¬ nonce ∈ s.ledgerNonceChecker.nonceCache) ∧
    ∀ nonce ∈ s.txPoolNonceChecker.nonceCache, ∃ txHash tx,
      s.txsTable.find? txHash = some tx ∧ tx.nonce = nonce := by
  intro s
  -- What is pooled was carried by an operation of the run.
  let K : TxData → Prop := fun data => ∃ op ∈ ops, op.Carries cfg data
  have hK : ∀ data data', K data → K data' → nonceToHash data.nonce ≠ data'.hash := by
    intro data data' hdata hdata'
    rcases hdata with ⟨op, hop, hcarries⟩
    rcases hdata' with ⟨op', hop', hcarries'⟩
    exact hapart op hop op' hop' data data' hcarries hcarries'
  have hempty : Owned K { ledgerNonceChecker := ledger } :=
    ⟨fun nonce h => absurd h (Finset.notMem_empty nonce),
      fun nonce h => absurd h (Finset.notMem_empty nonce),
      fun txHash tx h => absurd h.symm (Option.some_ne_none tx)⟩
  have howned : Owned K s := run_invariant_of_calls cfg _ (Owned K)
    (fun t op call hop hcall hmeets ht =>
      step_keepsOwned cfg hcall t (fun data hdata => ⟨op, hop, hdata⟩) hK hmeets ht) hkeeps hempty
  refine ⟨howned.offLedger, fun nonce hmem => ?_⟩
  rcases howned.owner nonce hmem with ⟨txHash, tx, hfind, hnonce, _⟩
  exact ⟨txHash, tx, hfind, hnonce⟩

/-- Two transactions come in, one by each path, and one of them is committed. -/
theorem no_nonce_leak_exampleRun :
    let s := run (step exampleConfig) examplePool
      [.importDownloadedTxs 1 [exampleTx 1 7 1] none,
        .importDownloadedTxs 1 [exampleTx 2 8 1] (exampleBlock [0, 2]),
        .asyncNotifyBlockResult 1 [{ txHash := 2, status := .none }]]
    7 ∈ s.txPoolNonceChecker.nonceCache ∧
    (∀ nonce ∈ s.txPoolNonceChecker.nonceCache, ¬ nonce ∈ s.ledgerNonceChecker.nonceCache) ∧
    ∀ nonce ∈ s.txPoolNonceChecker.nonceCache, ∃ txHash tx,
      s.txsTable.find? txHash = some tx ∧ tx.nonce = nonce := by
  have hapart : ∀ data ∈ [exampleTx 1 7 1, exampleTx 2 8 1],
      ∀ data' ∈ [exampleTx 1 7 1, exampleTx 2 8 1], nonceToHash data.nonce ≠ data'.hash := by
    decide
  have hcarried : ∀ op ∈ ([.importDownloadedTxs 1 [exampleTx 1 7 1] none,
      .importDownloadedTxs 1 [exampleTx 2 8 1] (exampleBlock [0, 2]),
      .asyncNotifyBlockResult 1 [{ txHash := 2, status := .none }]] : List Op),
      ∀ data, op.Carries exampleConfig data → data ∈ [exampleTx 1 7 1, exampleTx 2 8 1] := by
    intro op hop data hdata
    simp only [List.mem_cons, List.not_mem_nil, or_false] at hop
    rcases hop with rfl | rfl | rfl
    · rw [List.mem_singleton.mp hdata]
      exact List.mem_cons_self
    · rw [List.mem_singleton.mp hdata]
      exact List.mem_cons_of_mem _ List.mem_cons_self
    · exact hdata.elim
  refine ⟨by decide, no_nonce_leak exampleConfig examplePool.ledgerNonceChecker
    [.importDownloadedTxs 1 [exampleTx 1 7 1] none,
      .importDownloadedTxs 1 [exampleTx 2 8 1] (exampleBlock [0, 2]),
      .asyncNotifyBlockResult 1 [{ txHash := 2, status := .none }]]
    (fun op hop op' hop' data data' hdata hdata' =>
      hapart data (hcarried op hop data hdata) data' (hcarried op' hop' data' hdata')) ?_⟩
  -- The one accepted submission meets a pool where nothing awaits removal.
  exact ⟨fun _ haside => absurd haside (SortedSet.mem_empty _), trivial, trivial, trivial⟩

/-- A sealed transaction is set aside for its nonce on the ledger and committed
    by a later block, while its hash stays set aside. When both blocks have left
    the window it is accepted once more, and the cleanup removes it and leaves
    its nonce reserved. -/
theorem no_nonce_leak_counterexample :
    let s := run (step exampleConfig) examplePool
      [.importDownloadedTxs 1 [exampleTx 1 7 5] (some ⟨some ⟨1, 9⟩, [1], [exampleTx 1 7 5]⟩),
        .asyncNotifyBlockResult 1 [{ txHash := 8, status := .none, nonce := 7 }],
        .asyncSealTxs [1] 1 [], .asyncNotifyBlockResult 2 [],
        .asyncNotifyBlockResult 3 [{ txHash := 1, status := .none }], .asyncNotifyBlockResult 4 [],
        .importDownloadedTxs 1 [exampleTx 1 7 5] none, .removeInvalidTxs]
    7 ∈ s.txPoolNonceChecker.nonceCache ∧ ∀ txHash, s.txsTable.find? txHash = none := by
  intro s
  have hempty : s.txsTable.entries = [] := by decide
  refine ⟨by decide, fun txHash => ?_⟩
  rw [KeyedTable.find?_eq_none, hempty]
  exact fun tx htx => absurd htx List.not_mem_nil

end TxPool

end BcosTxPool
