import BcosTxPool.Core.Concurrency
import BcosTxPool.Core.Pool
import BcosTxPool.Library.History

/-!
# Granting a Nonce

`TxValidator::verify` on many workers, for transactions with one nonce between
them. A verification that returns no error has reserved the nonce, and the
nonce is meant to be reserved once. The lock it holds from the lookup to the
insertion is a shared one, so another verification may look the nonce up in
between, find it free as well, and insert it a second time, which changes
nothing and is not noticed.

Which verifications are granted the nonce can be read off the schedule: those
that pass the other checks and look the nonce up before anyone has inserted
it. So it is granted once exactly if at most one of them does.

## Main definitions

* `Contender`: A verification that only another one can make fail.
* `Claimed`: A contender has inserted the nonce.
* `Early`: A verification looks the nonce up before it is claimed.
* `Place`: Where a verification is after its share of a schedule.
* `Granted`: A verification has returned no error.
* `LooksUpFirst`: A contender that is early and runs to its end.

## Theorems

* `run_verify_alone`: The program alone is the call.
* `run_place`: The invariant of every schedule.
* `granted_iff`: Which verifications are granted the nonce.
* `granted_once_iff`: When it is granted once.
-/

namespace BcosTxPool

open Library

namespace TxValidator

variable (cfg : TxPoolConfig) (ledger : LedgerNonceChecker)

/-! ### The program and the call -/

/-- The last move marks a system transaction, and returns without error in any
    case. -/
theorem verifyMove_setSystemTx (pool : TxPoolNonceChecker) (tx : Transaction) :
    verifyMove cfg ledger pool (.setSystemTx tx)
      = (pool, .returned .none (marked cfg.framework tx)) := by
  rw [verifyMove, marked]
  split
  · rfl
  · rfl

/-- Only the insertion writes to the cache. So between two insertions every
    verification that looks the nonce up finds the same. -/
theorem verifyMove_cache (pool : TxPoolNonceChecker) {v : VerifyState}
    (h : ∀ tx, v ≠ .insert tx) : (verifyMove cfg ledger pool v).1 = pool := by
  cases v with
  | checkTx tx =>
      rw [verifyMove]
      split
      · rfl
      split
      · rfl
      split
      · rfl
      · rfl
  | submittedToChain tx =>
      rw [verifyMove]
      split
      · rfl
      · rfl
  | verify tx =>
      rw [verifyMove]
      split
      · rfl
      · rfl
  | count tx =>
      rw [verifyMove]
      split
      · rfl
      · rfl
  -- The one move that is left out.
  | insert tx => exact absurd rfl (h tx)
  | setSystemTx tx => rw [verifyMove_setSystemTx]
  | returned status tx => rfl

/-- Left alone, the moves of a verification make the call. There are six of them
    at most, and a verification that is rejected has returned before. -/
theorem iterate_verifyMove (pool : TxPoolNonceChecker) (tx : Transaction) :
    (fun p => verifyMove cfg ledger p.1 p.2)^[6] (pool, .checkTx tx)
      = ((verify cfg ledger pool tx).2.1,
        .returned (verify cfg ledger pool tx).1 (verify cfg ledger pool tx).2.2) := by
  have hreturned : ∀ (n : Nat) (pool : TxPoolNonceChecker) (status : TransactionStatus)
      (tx : Transaction), (fun p => verifyMove cfg ledger p.1 p.2)^[n] (pool, .returned status tx)
        = (pool, .returned status tx) :=
    fun n pool status tx => Function.iterate_fixed rfl n
  unfold verify
  -- The first move makes three checks, and each of the others one.
  rw [Function.iterate_succ_apply, verifyMove]
  by_cases hinv : tx.invalid = true
  · rw [if_pos hinv, if_pos hinv, hreturned]
  rw [if_neg hinv, if_neg hinv]
  by_cases hgroup : tx.groupId ≠ cfg.groupId
  · rw [if_pos hgroup, if_pos hgroup, hreturned]
  rw [if_neg hgroup, if_neg hgroup]
  by_cases hchain : tx.chainId ≠ cfg.chainId
  · rw [if_pos hchain, if_pos hchain, hreturned]
  rw [if_neg hchain, if_neg hchain, Function.iterate_succ_apply, verifyMove]
  by_cases honchain : submittedToChain ledger tx ≠ .none
  · rw [if_pos honchain, if_pos honchain, hreturned]
  rw [if_neg honchain, if_neg honchain, Function.iterate_succ_apply, verifyMove]
  by_cases hsig : (!cfg.framework.verify tx.toTxData) = true
  · rw [if_pos hsig, if_pos hsig, hreturned]
  rw [if_neg hsig, if_neg hsig, Function.iterate_succ_apply, verifyMove,
    TxPoolNonceChecker.checkNonce]
  -- Nobody has written to the cache since the start, so the lookup is that of the
  -- call.
  by_cases hmem : tx.nonce ∈ pool.nonceCache
  · rw [if_pos hmem, if_pos hmem, hreturned]
  rw [if_neg hmem, if_neg hmem, Function.iterate_succ_apply, verifyMove,
    Function.iterate_succ_apply]
  simp only [if_true, Function.iterate_zero, id, verifyMove]
  split
  · rfl
  · rfl

/-- Scheduled without others, a verification makes the call. So the program is
    the call cut into pieces, and not another one. -/
theorem run_verify_alone {ι : Type} [DecidableEq ι] (pool : TxPoolNonceChecker)
    (txs : ι → Transaction) (i : ι) :
    ((run (Threads.move (fun _ => verifyMove cfg ledger)) (verifyStart pool txs)
        (List.replicate 6 i)).shared,
      (run (Threads.move (fun _ => verifyMove cfg ledger)) (verifyStart pool txs)
        (List.replicate 6 i)).own i)
      = ((verify cfg ledger pool (txs i)).2.1,
        .returned (verify cfg ledger pool (txs i)).1 (verify cfg ledger pool (txs i)).2.2) := by
  rw [Threads.run_replicate]
  exact iterate_verifyMove cfg ledger pool (txs i)

/-! ### Where a verification is -/

/-- Where a verification of a transaction can be after `n` moves. It is `early`
    if it has found the nonce free, and it can be late only when the nonce is
    `claimed`. Each place keeps what has been checked on the way to it, since
    the transaction may not be read again. -/
inductive Place (pool : TxPoolNonceChecker) (early claimed : Prop) (tx : Transaction) :
    Nat → VerifyState → Prop
  | checkTx : Place pool early claimed tx 0 (.checkTx tx)
  | submittedToChain (hvalid : tx.invalid = false) (hgroup : tx.groupId = cfg.groupId)
      (hchain : tx.chainId = cfg.chainId) :
      Place pool early claimed tx 1 (.submittedToChain tx)
  | verify (hvalid : tx.invalid = false) (hgroup : tx.groupId = cfg.groupId)
      (hchain : tx.chainId = cfg.chainId)
      (honchain : TxValidator.submittedToChain ledger tx = .none) :
      Place pool early claimed tx 2 (.verify tx)
  | count (h : Accepted cfg ledger pool tx) : Place pool early claimed tx 3 (.count tx)
  | insert (h : Accepted cfg ledger pool tx) (hearly : early) :
      Place pool early claimed tx 4 (.insert tx)
  | setSystemTx (h : Accepted cfg ledger pool tx) (hearly : early) :
      Place pool early claimed tx 5 (.setSystemTx tx)
  | granted {n : Nat} (h : Accepted cfg ledger pool tx) (hearly : early) (hn : 6 ≤ n) :
      Place pool early claimed tx n (.returned .none (marked cfg.framework tx))
  | rejected {n : Nat} {status : TransactionStatus} (h : ¬ Accepted cfg ledger pool tx)
      (hstatus : status ≠ .none) : Place pool early claimed tx n (.returned status tx)
  | late {n : Nat} (hlate : ¬ early) (hclaimed : claimed) (hn : 4 ≤ n) :
      Place pool early claimed tx n (.returned .nonceCheckFail tx)

section Moves

variable {cfg ledger} {pool : TxPoolNonceChecker} {early early' claimed claimed' : Prop}
    {tx : Transaction} {n : Nat} {v : VerifyState}

/-- A move of another verification changes nothing here but the state of the
    cache, and that only from free to claimed. -/
theorem Place.other (h : Place cfg ledger pool early claimed tx n v) (hearly : early' ↔ early)
    (hclaimed : claimed → claimed') : Place cfg ledger pool early' claimed' tx n v := by
  cases h with
  | checkTx => exact .checkTx
  | submittedToChain hvalid hgroup hchain => exact .submittedToChain hvalid hgroup hchain
  | verify hvalid hgroup hchain honchain => exact .verify hvalid hgroup hchain honchain
  | count h => exact .count h
  | insert h hfirst => exact .insert h (hearly.mpr hfirst)
  | setSystemTx h hfirst => exact .setSystemTx h (hearly.mpr hfirst)
  | granted h hfirst hn => exact .granted h (hearly.mpr hfirst) hn
  | rejected h hstatus => exact .rejected h hstatus
  | late hlate hc hn => exact .late (fun hfirst => hlate (hearly.mp hfirst)) (hclaimed hc) hn

/-- A move of the verification itself. Its fourth move makes it early or late,
    and no move after that changes which of the two it is. -/
theorem Place.self {cache : TxPoolNonceChecker} (hfree : ¬ tx.nonce ∈ pool.nonceCache)
    (hcache : tx.nonce ∈ cache.nonceCache ↔ claimed) (hbefore : early → 4 ≤ n)
    (h : Place cfg ledger pool early claimed tx n v)
    (hearly : early' ↔ early ∨ (n = 3 ∧ ¬ claimed)) (hclaimed : claimed → claimed') :
    Place cfg ledger pool early' claimed' tx (n + 1) (verifyMove cfg ledger cache v).2 := by
  -- The places are followed in order, one case for each.
  cases h with
  | checkTx =>
      rw [verifyMove]
      by_cases hinv : tx.invalid = true
      · rw [if_pos hinv]
        exact .rejected (fun h => absurd (hinv.symm.trans h.valid) (by decide)) (by decide)
      rw [if_neg hinv]
      by_cases hgroup : tx.groupId ≠ cfg.groupId
      · rw [if_pos hgroup]
        exact .rejected (fun h => hgroup h.group) (by decide)
      rw [if_neg hgroup]
      by_cases hchain : tx.chainId ≠ cfg.chainId
      · rw [if_pos hchain]
        exact .rejected (fun h => hchain h.chain) (by decide)
      · rw [if_neg hchain]
        exact .submittedToChain (Bool.not_eq_true _ |>.mp hinv) (not_not.mp hgroup)
          (not_not.mp hchain)
  | submittedToChain hvalid hgroup hchain =>
      rw [verifyMove]
      by_cases honchain : TxValidator.submittedToChain ledger tx ≠ .none
      · rw [if_pos honchain]
        exact .rejected (fun h => honchain h.onChain) honchain
      · rw [if_neg honchain]
        exact .verify hvalid hgroup hchain (not_not.mp honchain)
  | verify hvalid hgroup hchain honchain =>
      rw [verifyMove]
      by_cases hsig : cfg.framework.verify tx.toTxData = true
      · rw [hsig, Bool.not_true, if_neg Bool.false_ne_true]
        exact .count ⟨hvalid, hgroup, hchain, honchain, hsig, hfree⟩
      · rw [Bool.not_eq_true _ |>.mp hsig, Bool.not_false, if_pos rfl]
        exact .rejected (fun h => hsig h.signature) (by decide)
  | count h =>
      -- The lookup decides: from here on the verification is early or late for good.
      rw [verifyMove]
      by_cases hmem : tx.nonce ∈ cache.nonceCache
      · rw [if_pos hmem]
        refine .late (fun hfirst => ?_) (hclaimed (hcache.mp hmem)) (by omega)
        rcases hearly.mp hfirst with hfirst | ⟨_, hfirst⟩
        · have hcount := hbefore hfirst
          omega
        · exact hfirst (hcache.mp hmem)
      · rw [if_neg hmem]
        exact .insert h (hearly.mpr (Or.inr ⟨rfl, fun hc => hmem (hcache.mpr hc)⟩))
  -- It inserts without looking again, so an early one stays early whatever others
  -- did.
  | insert h hfirst => exact .setSystemTx h (hearly.mpr (Or.inl hfirst))
  | setSystemTx h hfirst =>
      rw [verifyMove_setSystemTx]
      exact .granted h (hearly.mpr (Or.inl hfirst)) (by omega)
  | granted h hfirst hn => exact .granted h (hearly.mpr (Or.inl hfirst)) (by omega)
  | rejected h hstatus => exact .rejected h hstatus
  | late hlate hc hn =>
      refine .late (fun hfirst => ?_) (hclaimed hc) (by omega)
      rcases hearly.mp hfirst with hfirst | ⟨hn', _⟩
      · exact hlate hfirst
      · omega

end Moves

/-! ### Schedules -/

section Schedule

variable {ι : Type} [DecidableEq ι] (pool : TxPoolNonceChecker) (txs : ι → Transaction)

/-- A verification that passes every check if the nonce is free. Only another
    verification can make it fail. -/
def Contender (i : ι) : Prop := Accepted cfg ledger pool (txs i)

/-- A contender has made its insertion, which is its fifth move. From then on
    the nonce is in the cache. -/
def Claimed (l : List ι) : Prop := ∃ k, Contender cfg ledger pool txs k ∧ 5 ≤ l.count k

/-- The lookup of a verification, which is its fourth move, comes before the
    nonce is claimed. This is a property of the schedule, and the state is not
    needed for it. -/
def Early (l : List ι) (i : ι) : Prop :=
  ∃ pre rest, l = pre ++ i :: rest ∧ pre.count i = 3 ∧ ¬ Claimed cfg ledger pool txs pre

/-- The claim stays, whoever moves next. -/
theorem Claimed.concat {l : List ι} (h : Claimed cfg ledger pool txs l) (j : ι) :
    Claimed cfg ledger pool txs (l ++ [j]) := by
  rcases h with ⟨k, hk, hcount⟩
  refine ⟨k, hk, hcount.trans ?_⟩
  rw [List.count_append]
  exact Nat.le_add_right _ _

/-- A move that is not the fifth of a contender claims nothing. -/
theorem claimed_of_concat {l : List ι} {j : ι} (h : Claimed cfg ledger pool txs (l ++ [j]))
    (hj : Contender cfg ledger pool txs j → l.count j ≠ 4) : Claimed cfg ledger pool txs l := by
  rcases h with ⟨k, hk, hcount⟩
  refine ⟨k, hk, ?_⟩
  -- If the last mover is the claimant, it has claimed earlier, by what is assumed
  -- of it.
  by_cases hjk : j = k
  · subst hjk
    have hne := hj hk
    rw [count_concat_self] at hcount
    omega
  · rw [count_concat_of_ne l hjk] at hcount
    exact hcount

/-- Whether a verification is early is not changed by a move of another one. -/
theorem early_concat_of_ne (l : List ι) {i j : ι} (hij : j ≠ i) :
    Early cfg ledger pool txs (l ++ [j]) i ↔ Early cfg ledger pool txs l i := by
  constructor
  · rintro ⟨pre, post, hl, hcount, hfirst⟩
    rcases concat_eq_append_cons hl with ⟨_, hji, _⟩ | ⟨rest, _, hrest⟩
    · -- The lookup cannot be the last move, which is another's.
      exact absurd hji hij
    · exact ⟨pre, rest, hrest, hcount, hfirst⟩
  · rintro ⟨pre, rest, rfl, hcount, hfirst⟩
    refine ⟨pre, rest ++ [j], ?_, hcount, hfirst⟩
    rw [List.append_assoc, List.cons_append]

/-- A verification becomes early with its fourth move, if the nonce is not
    claimed then. -/
theorem early_concat_self (l : List ι) (i : ι) :
    Early cfg ledger pool txs (l ++ [i]) i ↔
      Early cfg ledger pool txs l i ∨ (l.count i = 3 ∧ ¬ Claimed cfg ledger pool txs l) := by
  constructor
  · rintro ⟨pre, post, hl, hcount, hfirst⟩
    rcases concat_eq_append_cons hl with ⟨rfl, _, _⟩ | ⟨rest, _, hrest⟩
    · -- The lookup is the move just made, or it was made before.
      exact Or.inr ⟨hcount, hfirst⟩
    · exact Or.inl ⟨pre, rest, hrest, hcount, hfirst⟩
  · rintro (⟨pre, rest, rfl, hcount, hfirst⟩ | ⟨hcount, hfirst⟩)
    · refine ⟨pre, rest ++ [i], ?_, hcount, hfirst⟩
      rw [List.append_assoc, List.cons_append]
    · exact ⟨l, [], rfl, hcount, hfirst⟩

/-- An early verification has made four moves. -/
theorem Early.four_le_count {l : List ι} {i : ι} (h : Early cfg ledger pool txs l i) :
    4 ≤ l.count i := by
  rcases h with ⟨pre, rest, rfl, hcount, _⟩
  rw [List.count_append, List.count_cons_self]
  omega

/-- Where every verification is after a schedule, and whether the nonce is in
    the cache. It is there exactly if it is claimed: nobody but a contender
    inserts it, and nothing takes it away while they verify. -/
structure Placed (nonce : NonceType) (l : List ι)
    (t : Threads TxPoolNonceChecker (fun _ : ι => VerifyState)) : Prop where
  cache : nonce ∈ t.shared.nonceCache ↔ Claimed cfg ledger pool txs l
  place : ∀ i, Place cfg ledger pool (Early cfg ledger pool txs l i)
    (Claimed cfg ledger pool txs l) (txs i) (l.count i) (t.own i)

/-- The moves that leave the cache alone are those that claim nothing, and the
    fifth move of a contender does both. -/
theorem cache_move {nonce : NonceType} {l : List ι}
    {t : Threads TxPoolNonceChecker (fun _ : ι => VerifyState)}
    (hnonce : ∀ i, (txs i).nonce = nonce) (h : Placed cfg ledger pool txs nonce l t) (j : ι) :
    nonce ∈ (verifyMove cfg ledger t.shared (t.own j)).1.nonceCache ↔
      Claimed cfg ledger pool txs (l ++ [j]) := by
  have hplace := h.place j
  -- Either the mover inserts, or the cache stays as it is.
  by_cases hinsert : ∃ tx, t.own j = .insert tx
  · rcases hinsert with ⟨tx, hown⟩
    rw [hown] at hplace ⊢
    generalize hn : l.count j = n at hplace
    cases hplace with
    | insert hj _ =>
        refine iff_of_true ?_ ⟨j, hj, ?_⟩
        · rw [verifyMove, TxPoolNonceChecker.mem_insert]
          exact Or.inl (hnonce j).symm
        · rw [count_concat_self, hn]
  · rw [verifyMove_cache cfg ledger t.shared (fun tx hown => hinsert ⟨tx, hown⟩), h.cache]
    refine ⟨fun hclaimed => hclaimed.concat cfg ledger pool txs j, fun hclaimed => ?_⟩
    by_contra hfree
    refine hfree (claimed_of_concat cfg ledger pool txs hclaimed (fun hj hfour => ?_))
    -- After four moves a contender is to insert, or it has come too late.
    rw [hfour] at hplace
    generalize t.own j = v at hplace hinsert
    cases hplace with
    | insert => exact hinsert ⟨_, rfl⟩
    | granted _ _ hle => omega
    | rejected hno => exact hno hj
    | late _ hclaimed => exact hfree hclaimed

variable {txs} {nonce : NonceType}

/-- What every schedule preserves. The induction adds one move at the end, since
    what a verification finds depends on the moves before it. -/
theorem run_place (hnonce : ∀ i, (txs i).nonce = nonce) (hfree : ¬ nonce ∈ pool.nonceCache)
    (l : List ι) : Placed cfg ledger pool txs nonce l
      (run (Threads.move (fun _ => verifyMove cfg ledger)) (verifyStart pool txs) l) := by
  induction l using List.reverseRecOn with
  | nil =>
      -- Before the first move nobody has claimed the nonce, and it is free.
      refine ⟨iff_of_false hfree ?_, fun i => Place.checkTx⟩
      rintro ⟨k, _, hcount⟩
      rw [List.count_nil] at hcount
      omega
  | append_singleton l j ih =>
      rw [run_concat]
      generalize run (Threads.move (fun _ => verifyMove cfg ledger)) (verifyStart pool txs) l = t
        at ih ⊢
      have hclaimed : Claimed cfg ledger pool txs l → Claimed cfg ledger pool txs (l ++ [j]) :=
        fun h => h.concat cfg ledger pool txs j
      refine ⟨cache_move cfg ledger pool txs hnonce ih j, fun i => ?_⟩
      -- The mover advances by one place, and every other verification keeps its own.
      by_cases hji : j = i
      · subst hji
        rw [Threads.move_own_self, count_concat_self]
        rw [← hnonce j] at hfree
        have hcache := ih.cache
        rw [← hnonce j] at hcache
        exact (ih.place j).self hfree hcache (Early.four_le_count cfg ledger pool txs)
          (early_concat_self cfg ledger pool txs l j) hclaimed
      · rw [Threads.move_own_of_ne _ t (Ne.symm hji), count_concat_of_ne l hji]
        exact (ih.place i).other (early_concat_of_ne cfg ledger pool txs l hji) hclaimed

end Schedule

/-! ### Grants -/

variable {ι : Type} [DecidableEq ι]

/-- A verification has returned no error, by which its caller knows the nonce
    reserved. -/
def Granted (t : Threads TxPoolNonceChecker (fun _ : ι => VerifyState)) (i : ι) : Prop :=
  ∃ tx, t.own i = .returned .none tx

/-- No two verifications have returned no error. This is what the reservation is
    for. -/
def GrantedOnce (t : Threads TxPoolNonceChecker (fun _ : ι => VerifyState)) : Prop :=
  ∀ i j, Granted t i → Granted t j → i = j

/-- A contender that is early and runs to its end. All three are read off the
    start and the schedule, and none mentions what the verification returns. -/
structure LooksUpFirst (pool : TxPoolNonceChecker) (txs : ι → Transaction) (schedule : List ι)
    (i : ι) : Prop where
  contender : Contender cfg ledger pool txs i
  early : Early cfg ledger pool txs schedule i
  returns : 6 ≤ schedule.count i

/-- The nonce is granted to the contenders that look it up first, to all of them
    and to nobody else. -/
theorem granted_iff {pool : TxPoolNonceChecker} {txs : ι → Transaction} {nonce : NonceType}
    (hnonce : ∀ i, (txs i).nonce = nonce) (hfree : ¬ nonce ∈ pool.nonceCache)
    (schedule : List ι) (i : ι) :
    Granted (run (Threads.move (fun _ => verifyMove cfg ledger)) (verifyStart pool txs)
      schedule) i ↔ LooksUpFirst cfg ledger pool txs schedule i := by
  have hplace := (run_place cfg ledger pool hnonce hfree schedule).place i
  unfold Granted
  constructor
  · -- Of the places only the one of a grant has returned without error.
    rintro ⟨tx, hown⟩
    rw [hown] at hplace
    generalize hn : schedule.count i = n at hplace
    cases hplace with
    | granted hj hearly hle => exact ⟨hj, hearly, hn ▸ hle⟩
    | rejected _ hstatus => exact absurd rfl hstatus
  · rintro ⟨hj, hearly, hle⟩
    generalize run (Threads.move (fun _ => verifyMove cfg ledger)) (verifyStart pool txs)
      schedule = t at hplace ⊢
    generalize t.own i = v at hplace ⊢
    generalize schedule.count i = n at hplace hle
    -- After six moves it has returned, and an early contender only without error.
    cases hplace with
    | granted => exact ⟨_, rfl⟩
    | rejected hno => exact absurd hj hno
    | late hlate => exact absurd hearly hlate
    | _ => omega

/-- Any number of verifications of transactions with one nonce run side by side,
    from a cache without it and in any interleaving. It is granted at most once
    exactly if at most one of them looks it up first. -/
theorem granted_once_iff (cfg : TxPoolConfig) (ledger : LedgerNonceChecker)
    (pool : TxPoolNonceChecker) (txs : ι → Transaction) (nonce : NonceType)
    (hnonce : ∀ i, (txs i).nonce = nonce) (hfree : ¬ nonce ∈ pool.nonceCache)
    (schedule : List ι) :
    GrantedOnce (run (Threads.move (fun _ => verifyMove cfg ledger)) (verifyStart pool txs)
      schedule) ↔
      ∀ i j, LooksUpFirst cfg ledger pool txs schedule i →
        LooksUpFirst cfg ledger pool txs schedule j → i = j := by
  unfold GrantedOnce
  simp only [granted_iff cfg ledger hnonce hfree schedule]

/-- Two transactions with one nonce and different hashes. -/
def rivals (second : Bool) : Transaction :=
  createTransaction (TxPool.exampleTx (if second then 2 else 1) 7 1)

/-- One verification after the other: only the first looks the nonce up first. -/
theorem granted_once_iff_inTurn :
    GrantedOnce (run (Threads.move (fun _ => verifyMove TxPool.exampleConfig
      TxPool.examplePool.ledgerNonceChecker)) (verifyStart {} rivals)
      (List.replicate 6 false ++ List.replicate 6 true)) := by
  have hsecond : ¬ LooksUpFirst TxPool.exampleConfig TxPool.examplePool.ledgerNonceChecker {}
      rivals (List.replicate 6 false ++ List.replicate 6 true) true := by
    intro hfirst
    have hnonce : ∀ i, (rivals i).nonce = 7 := fun _ => rfl
    have hfree : ¬ 7 ∈ ({} : TxPoolNonceChecker).nonceCache := by decide
    rcases (granted_iff TxPool.exampleConfig TxPool.examplePool.ledgerNonceChecker
      hnonce hfree _ true).mpr hfirst with ⟨tx, hown⟩
    have hstatus : VerifyState.returned .nonceCheckFail (rivals true) = .returned .none tx := hown
    cases hstatus
  refine (granted_once_iff TxPool.exampleConfig TxPool.examplePool.ledgerNonceChecker {} rivals 7
    (fun _ => rfl) (by decide) _).mpr ?_
  intro i j hi hj
  cases i with
  | false =>
      cases j with
      | false => rfl
      | true => exact absurd hj hsecond
  | true => exact absurd hi hsecond

/-- Both look the nonce up before either inserts it, and it is granted to both. -/
theorem granted_once_counterexample :
    (∀ i, (rivals i).nonce = 7) ∧ ¬ 7 ∈ ({} : TxPoolNonceChecker).nonceCache ∧
    ¬ GrantedOnce (run (Threads.move (fun _ => verifyMove TxPool.exampleConfig
      TxPool.examplePool.ledgerNonceChecker)) (verifyStart {} rivals)
      (List.replicate 4 false ++ List.replicate 4 true ++ List.replicate 2 false ++
        List.replicate 2 true)) :=
  ⟨fun _ => rfl, by decide,
    fun h => Bool.false_ne_true (h false true ⟨rivals false, rfl⟩ ⟨rivals true, rfl⟩)⟩

end TxValidator

end BcosTxPool
