import BcosTxPool.Theory.Walk

/-!
# Seals

The seal of an entry is its flag together with the batch it was sealed for.
Two things are shown about it, over any run of a node.

A seal is exclusive. Between two calls of the sealer that hand out the same
hash, the transaction must have lost its seal, since the sealer passes over
what is sealed. It lost it by leaving the pool and being imported again, by a
reset, or by an unsealing mark whose batch hash does not contradict the
entry's.

A seal with a non-zero batch hash is owned. As long as the transaction stays
in the pool, only a reset, an unsealing mark that carries the very hash, or a
sealing mark changes it. Everything else passes it by: a submission never
touches an entry, an import for another proposal is rejected, the sealer skips
it, and an unsealing mark with another hash is blocked.

Both are read off from the permissions of one write. A write keeps an entry
sealed unless it may unseal it, and it keeps an owned seal unless its operation
releases it; an operation is a run of its writes, and a run one of operations.

## Main definitions

* `sealState`: The seal of an entry.
* `Unseals`: An operation that may unseal an entry.
* `Releases`: An operation that may change an owned seal.
* `SealsOpen`: What a walk has handed out so far was open and is sealed.

## Theorems

* `step_sealed`: An entry stays sealed unless the operation unseals it.
* `step_owned`: An owned seal stays unless the operation releases it.
* `mem_hashes_asyncSealTxs`: What the sealer hands out was unsealed and is
  sealed.
* `seal_exclusive_and_owned`: Both results over runs.
-/

namespace BcosTxPool

open Library

namespace TxPool

/-- The seal of an entry: its flag, and the number and the hash of the batch
    that it was sealed for. The three are set together, by a seal, an import or
    a mark, so they are compared together. -/
def sealState (tx : Transaction) : Bool × Int × HashType := (tx.sealed, tx.batchId, tx.batchHash)

/-- An operation that may unseal an entry: the reset, which does so to all of
    them, and an unsealing mark that names the hash and whose batch hash does
    not contradict the entry's. -/
def Unseals (op : Op) (txHash : HashType) (tx : Transaction) : Prop :=
  op = .asyncResetTxPool ∨ MayUnseal op txHash tx

/-- An operation that may change a seal with the given batch hash. A sealing
    mark is among them, since it overwrites the batch of whoever sealed the
    entry before. -/
def Releases (op : Op) (txHash : HashType) (batchHash : HashType) : Prop :=
  op = .asyncResetTxPool ∨
  (∃ txsHash batchId, op = .asyncMarkTxs txsHash false batchId batchHash ∧ txHash ∈ txsHash) ∨
  (∃ txsHash batchId newHash, op = .asyncMarkTxs txsHash true batchId newHash ∧ txHash ∈ txsHash)

variable (cfg : TxPoolConfig)

/-- An entry that a run of an operation's writes keeps: the entry satisfies
    `P` after every write, or it has left and the operation enters nothing.
    Only a change of that very entry can spoil it. -/
theorem step_keeps_or_leaves (P : Transaction → Prop) {op : Op} {txHash : HashType}
    (hreset : op ≠ .asyncResetTxPool)
    (hchange : ∀ (s : MemoryStorage) tx c, s.txsTable.find? txHash = some tx → P tx →
      MayWrite cfg op s (.change txHash c) → P (c.apply tx))
    {s : MemoryStorage} {tx : Transaction} (hfind : s.txsTable.find? txHash = some tx) (hP : P tx) :
    ((step cfg s op).txsTable.find? txHash = none ∧ ¬ op.Enters) ∨
      ∃ tx', (step cfg s op).txsTable.find? txHash = some tx' ∧ P tx' := by
  refine (step_reaches cfg s op).invariant
    (fun s' => (s'.txsTable.find? txHash = none ∧ ¬ op.Enters) ∨
      ∃ tx', s'.txsTable.find? txHash = some tx' ∧ P tx') ?_ (Or.inr ⟨tx, hfind, hP⟩)
  intro t w hw ht
  rw [t.find?_write]
  cases w with
  | change changed c =>
      simp only [MemoryStorage.entryAfter]
      by_cases heq : changed = txHash
      · rw [if_pos heq]
        rcases ht with ⟨hnone, henters⟩ | ⟨u, hu, hPu⟩
        · exact Or.inl ⟨by rw [hnone, Option.map_none], henters⟩
        · exact Or.inr ⟨c.apply u, by rw [hu, Option.map_some],
            hchange t u c hu hPu (heq ▸ hw)⟩
      · rw [if_neg heq]
        exact ht
  | markAll sealFlag => exact absurd hw.1 hreset
  | enter u =>
      simp only [MemoryStorage.entryAfter]
      rcases ht with ⟨_, henters⟩ | ⟨v, hv, hPv⟩
      · exact absurd hw.1 henters
      · -- The hash that enters is free, so it is not this one.
        have hne : ¬ (t.txsTable.find? u.hash = none ∧ u.hash = txHash) := by
          intro hnew
          rcases hnew with ⟨hnone, heq⟩
          rw [heq, hv] at hnone
          exact Option.some_ne_none v hnone
        rw [if_neg hne]
        exact Or.inr ⟨v, hv, hPv⟩
  | leave left =>
      simp only [MemoryStorage.entryAfter]
      by_cases heq : left = txHash
      · rw [if_pos heq]
        -- A block result and a cleanup remove entries, and neither brings one in.
        refine Or.inl ⟨rfl, ?_⟩
        rcases hw with ⟨_, _, rfl⟩ | rfl
        · exact fun h => h
        · exact fun h => h
      · rw [if_neg heq]
        exact ht
  | _ => exact ht

/-- The same where it does not matter whether an operation that removes the
    entry could also bring it back, which is how the results on one step use
    it. -/
theorem step_keeps (P : Transaction → Prop) {op : Op} {txHash : HashType}
    (hreset : op ≠ .asyncResetTxPool)
    (hchange : ∀ (s : MemoryStorage) tx c, s.txsTable.find? txHash = some tx → P tx →
      MayWrite cfg op s (.change txHash c) → P (c.apply tx))
    {s : MemoryStorage} {tx : Transaction} (hfind : s.txsTable.find? txHash = some tx) (hP : P tx) :
    (step cfg s op).txsTable.find? txHash = none ∨
      ∃ tx', (step cfg s op).txsTable.find? txHash = some tx' ∧ P tx' :=
  (step_keeps_or_leaves cfg P hreset hchange hfind hP).imp_left And.left

/-- An entry stays sealed unless the operation unseals it. That the batch hash
    stays along the way is carried with it, since a mark is judged by the hash
    that the entry has when the mark reaches it. -/
theorem step_sealed {s : MemoryStorage} {op : Op} {txHash : HashType} {tx : Transaction}
    (hfind : s.txsTable.find? txHash = some tx) (hsealed : tx.sealed = true)
    (hop : ¬ Unseals op txHash tx) :
    (step cfg s op).txsTable.find? txHash = none ∨
      ∃ tx', (step cfg s op).txsTable.find? txHash = some tx' ∧ tx'.sealed = true := by
  have hreset : op ≠ .asyncResetTxPool := fun h => hop (Or.inl h)
  -- While an unsealing mark is at work the batch hash does not change.
  have hkeeps := step_keeps cfg (fun tx' => tx'.sealed = true ∧
      ((∃ txsHash batchId batchHash, op = .asyncMarkTxs txsHash false batchId batchHash) →
        tx'.batchHash = tx.batchHash)) hreset ?_ hfind ⟨hsealed, fun _ => rfl⟩
  · rcases hkeeps with hnone | ⟨tx', hfind', hsealed', _⟩
    · exact Or.inl hnone
    · exact Or.inr ⟨tx', hfind', hsealed'⟩
  · intro t u c hu hP hw
    cases c with
    | setSeal batchId batchHash =>
        -- What seals is a seal, an import or a sealing mark, no unsealing one.
        refine ⟨rfl, ?_⟩
        rintro ⟨txsHash, k, H, rfl⟩
        rcases hw with ⟨_, _, ⟨⟨_, _, _, hc⟩, _⟩ | ⟨⟨_, _, ⟨_, _, _, hc, _⟩, _⟩, _⟩ | ⟨_, hc, _⟩⟩
        · exact absurd hc (fun hc => by cases hc)
        · exact absurd hc (fun hc => by cases hc)
        · exact absurd hc (fun hc => by cases hc)
    | clearSeal =>
        -- The mark fits the batch hash now, which is the one it had before.
        rcases hw with ⟨v, hv, txsHash, batchId, batchHash, hmark, hmem, howner⟩
        rw [hu, Option.some.injEq] at hv
        rw [← hv, hP.2 ⟨txsHash, batchId, batchHash, hmark⟩] at howner
        exact absurd (Or.inr ⟨txsHash, batchId, batchHash, hmark, hmem, howner⟩) hop
    | _ => exact hP

/-- An owned seal stays unless the operation releases it. What makes it owned is
    that its batch hash is not zero: an import for a second proposal takes over
    a sealed entry only when nobody's hash is on it. -/
theorem step_owned {s : MemoryStorage} {op : Op} {txHash : HashType} {tx : Transaction}
    (hfind : s.txsTable.find? txHash = some tx) (hsealed : tx.sealed = true)
    (howned : tx.batchHash ≠ 0) (hop : ¬ Releases op txHash tx.batchHash) :
    (step cfg s op).txsTable.find? txHash = none ∨
      ∃ tx', (step cfg s op).txsTable.find? txHash = some tx' ∧ sealState tx' = sealState tx := by
  refine step_keeps cfg (fun tx' => sealState tx' = sealState tx) (fun h => hop (Or.inl h)) ?_
    hfind rfl
  intro t u c hu hP hw
  have hflag : u.sealed = true := (congrArg (fun x => x.1) hP).trans hsealed
  have hhash : u.batchHash = tx.batchHash := congrArg (fun x => x.2.2) hP
  cases c with
  | setSeal batchId batchHash =>
      rcases hw with ⟨v, hv, hseal⟩
      rw [hu, Option.some.injEq] at hv
      subst hv
      -- A seal and an import take free entries only, and this one is owned.
      rcases hseal with ⟨_, hopen, _⟩ | ⟨_, hopen | hzero⟩ | ⟨txsHash, hmark, hmem⟩
      · exact absurd (hopen.symm.trans hflag) (by decide)
      · exact absurd (hopen.symm.trans hflag) (by decide)
      · exact absurd (hhash.symm.trans hzero) howned
      · exact absurd (Or.inr (Or.inr ⟨txsHash, batchId, batchHash, hmark, hmem⟩)) hop
  | clearSeal =>
      -- An unsealing mark needs the zero hash or the owner's.
      rcases hw with ⟨v, hv, txsHash, batchId, batchHash, hmark, hmem, hzero | hsame⟩
      · rw [hu, Option.some.injEq] at hv
        rw [← hv, hhash] at hzero
        exact absurd hzero howned
      · rw [hu, Option.some.injEq] at hv
        rw [← hv, hhash] at hsame
        exact absurd (Or.inr (Or.inl ⟨txsHash, batchId, hsame ▸ hmark, hmem⟩)) hop
  | _ => exact hP

/-- A hash that was free is taken only by an operation that brings
    transactions in. -/
theorem step_enters {s : MemoryStorage} {op : Op} {txHash : HashType}
    (hfree : s.txsTable.find? txHash = none)
    (htaken : (step cfg s op).txsTable.find? txHash ≠ none) : op.Enters := by
  by_contra henters
  refine htaken ((step_reaches cfg s op).invariant
    (fun s' => s'.txsTable.find? txHash = none) ?_ hfree)
  -- No write of such an operation makes an entry under a hash that is free.
  intro t w hw ht
  rw [t.find?_write]
  cases w with
  | change changed c =>
      simp only [MemoryStorage.entryAfter, ht, Option.map_none, ite_self]
  | markAll sealFlag => simp only [MemoryStorage.entryAfter, ht, Option.map_none]
  | enter u => exact absurd hw.1 henters
  | leave left => simp only [MemoryStorage.entryAfter, ht, ite_self]
  | _ => exact ht

/-! ### What the sealer hands out -/

/-- In a walk from `s`, what has been handed out so far was unsealed in `s` and is
    sealed by now. What is unsealed still was so in `s`. -/
structure SealsOpen (s : MemoryStorage) (acc : MemoryStorage × MemoryStorage.FetchedTxs) :
    Prop where
  before : ∀ txHash ∈ acc.2.hashes, ∃ tx, s.txsTable.find? txHash = some tx ∧ tx.sealed = false
  after : ∀ txHash ∈ acc.2.hashes, ∃ tx, acc.1.txsTable.find? txHash = some tx ∧
    tx.sealed = true
  still : ∀ txHash tx, acc.1.txsTable.find? txHash = some tx → tx.sealed = false →
    ∃ tx', s.txsTable.find? txHash = some tx' ∧ tx'.sealed = false

/-- Dropping a callback leaves the flag of the entry alone, so a turn that meets
    a transaction already on the chain changes nothing in this account. -/
theorem SealsOpen.setAsideOnChain {s s' : MemoryStorage} {f : MemoryStorage.FetchedTxs}
    (h : SealsOpen s (s', f)) (txHash : HashType) (tx : Transaction) :
    SealsOpen s (s'.setAsideOnChain txHash tx, f) := by
  refine ⟨h.before, fun k hk => ?_, fun k u hu hopen => ?_⟩
  · rcases h.after k hk with ⟨u, hu, hsealed⟩
    rw [MemoryStorage.setAsideOnChain, KeyedTable.find?_modify, hu]
    split
    · exact ⟨_, rfl, hsealed⟩
    · exact ⟨u, rfl, hsealed⟩
  · rw [MemoryStorage.setAsideOnChain, KeyedTable.find?_modify] at hu
    split at hu
    · rcases Option.map_eq_some_iff.mp hu with ⟨v, hv, rfl⟩
      exact h.still k v hv hopen
    · exact h.still k u hu hopen

/-- A turn hands out an entry that was open and is sealed from here on. It was
    open at the start too, because nothing in the walk unseals. -/
theorem SealsOpen.handOut {s s' : MemoryStorage} {f : MemoryStorage.FetchedTxs}
    (h : SealsOpen s (s', f)) {txHash : HashType} {tx : Transaction}
    (hfind : s'.txsTable.find? txHash = some tx) (hopen : tx.sealed = false) :
    SealsOpen s (s'.handOut txHash tx, f.append tx) := by
  have hkey : tx.hash = txHash := ((s'.txsTable.find?_eq_some_iff txHash tx).mp hfind).2
  refine ⟨fun k hk => ?_, fun k hk => ?_, fun k u hu hstill => ?_⟩
  · rcases (MemoryStorage.mem_hashes_append f tx k).mp hk with rfl | hbefore
    · -- The hash of this turn was open in `s'`, hence in `s`.
      rw [hkey]
      exact h.still txHash tx hfind hopen
    · exact h.before k hbefore
  · rw [MemoryStorage.handOut, KeyedTable.find?_modify]
    rcases (MemoryStorage.mem_hashes_append f tx k).mp hk with rfl | hbefore
    · rw [hkey, if_pos rfl, hfind]
      exact ⟨_, rfl, rfl⟩
    · rcases h.after k hbefore with ⟨u, hu, hsealed⟩
      rw [hu]
      split
      · exact ⟨_, rfl, rfl⟩
      · exact ⟨u, rfl, hsealed⟩
  · rw [MemoryStorage.handOut, KeyedTable.find?_modify] at hu
    split at hu
    · -- The entry that this turn sealed is not unsealed after it.
      rcases Option.map_eq_some_iff.mp hu with ⟨v, _, rfl⟩
      cases hstill
    · exact h.still k u hu hstill

/-- What the sealer hands out was unsealed before and is sealed after. This is
    the link between two calls: the first leaves the entry sealed, and the
    second finds it unsealed. -/
theorem mem_hashes_asyncSealTxs {s : MemoryStorage} {order : HashList} {txsLimit : Nat}
    {avoidTxs : HashList} {txHash : HashType}
    (h : txHash ∈ (asyncSealTxs cfg s order txsLimit avoidTxs).2.hashes) :
    (∃ tx, s.txsTable.find? txHash = some tx ∧ tx.sealed = false) ∧
      ∃ tx, (asyncSealTxs cfg s order txsLimit avoidTxs).1.txsTable.find? txHash = some tx ∧
        tx.sealed = true := by
  have hloop : SealsOpen s (MemoryStorage.fetchLoop txsLimit avoidTxs true order s {}) := by
    refine MemoryStorage.fetchLoop_invariant (SealsOpen s) ?_ ?_ ?_ ?_
    · exact fun s' f k tx _ _ hs' => hs'.setAsideOnChain k tx
    · exact fun s' f k tx _ _ hs' => ⟨hs'.before, hs'.after, hs'.still⟩
    · exact fun s' f k tx hvisits hfetch hs' =>
        hs'.handOut hvisits.find (MemoryStorage.sealed_of_fetchDecision_fetch hfetch)
    · exact ⟨fun _ hk => absurd hk List.not_mem_nil, fun _ hk => absurd hk List.not_mem_nil,
        fun _ tx hfind hopen => ⟨tx, hfind, hopen⟩⟩
  -- The notification that follows the loop reads the table and does not write it.
  rcases hloop.after txHash h with ⟨tx, ha, hs⟩
  refine ⟨hloop.before txHash h, tx, ?_, hs⟩
  unfold asyncSealTxs MemoryStorage.batchFetchTxs
  simp only [MemoryStorage.notifyUnsealedTxsSize_txsTable]
  exact ha

/-! ### Over runs -/

/-- A sealed transaction that is later in the pool unsealed was unsealed by an
    operation that may, or it left and came back. -/
theorem run_unsealed (txHash : HashType) (ops : List Op) (s : MemoryStorage)
    (hbefore : ∃ tx, s.txsTable.find? txHash = some tx ∧ tx.sealed = true)
    (hafter : ∃ tx, (run (step cfg) s ops).txsTable.find? txHash = some tx ∧ tx.sealed = false) :
    ∃ pre op post tx, ops = pre ++ op :: post ∧
      (run (step cfg) s pre).txsTable.find? txHash = some tx ∧
      (Unseals op txHash tx ∨
        ((run (step cfg) s (pre ++ [op])).txsTable.find? txHash = none ∧
          ∃ pre' op' post', post = pre' ++ op' :: post' ∧ op'.Enters ∧
            (run (step cfg) s (pre ++ op :: pre')).txsTable.find? txHash = none ∧
            (run (step cfg) s (pre ++ op :: pre' ++ [op'])).txsTable.find? txHash ≠ none)) := by
  rcases hafter with ⟨u, hu, hopen⟩
  have hlost : ¬ ∃ tx, (run (step cfg) s ops).txsTable.find? txHash = some tx ∧
      tx.sealed = true := by
    intro hstill
    rcases hstill with ⟨v, hv, hsealed⟩
    rw [hu, Option.some.injEq] at hv
    exact absurd (hopen.symm.trans (hv ▸ hsealed)) (by decide)
  -- Some operation of the run is the first after which it is no longer there and
  -- sealed.
  rcases exists_flip (step cfg)
      (fun s => ∃ tx, s.txsTable.find? txHash = some tx ∧ tx.sealed = true) ops s hbefore hlost with
    ⟨pre, op, post, rfl, ⟨tx, hfind, hsealed⟩, hflip⟩
  refine ⟨pre, op, post, tx, rfl, hfind, ?_⟩
  by_cases hop : Unseals op txHash tx
  · exact Or.inl hop
  rcases step_sealed cfg hfind hsealed hop with hnone | hstill
  · refine Or.inr ⟨by rw [run_append]; exact hnone, ?_⟩
    -- It is in the pool at the end, so some later operation brought it back.
    rw [run_append, run_cons] at hu
    have hback : ¬ (run (step cfg) (step cfg (run (step cfg) s pre) op) post).txsTable.find? txHash
        = none := by
      rw [hu]
      exact Option.some_ne_none u
    rcases exists_flip (step cfg) (fun s => s.txsTable.find? txHash = none) post _ hnone hback with
      ⟨pre', op', post', rfl, hfree, htaken⟩
    refine ⟨pre', op', post', rfl, step_enters cfg hfree htaken, ?_, ?_⟩
    · rw [run_append, run_cons]
      exact hfree
    · rw [List.append_assoc, run_append, List.cons_append, run_cons, run_append]
      exact htaken
  · exact absurd hstill hflip

/-- An owned seal stays through a run in which the transaction stays and no
    operation releases it. -/
theorem run_owned (txHash : HashType) (ops : List Op) :
    ∀ (s : MemoryStorage) (tx : Transaction), s.txsTable.find? txHash = some tx →
      tx.sealed = true → tx.batchHash ≠ 0 →
      (∀ pre, pre <+: ops → (run (step cfg) s pre).txsTable.find? txHash ≠ none) →
      (∀ op ∈ ops, ¬ Releases op txHash tx.batchHash) →
      ∃ tx', (run (step cfg) s ops).txsTable.find? txHash = some tx' ∧
        sealState tx' = sealState tx := by
  -- By induction on the run, for every state it can start from.
  induction ops with
  | nil => exact fun s tx hfind _ _ _ _ => ⟨tx, hfind, rfl⟩
  | cons op ops ih =>
      intro s tx hfind hsealed howned hstays hops
      have hhere : (step cfg s op).txsTable.find? txHash ≠ none :=
        hstays [op] ⟨ops, rfl⟩
      rcases step_owned cfg hfind hsealed howned (hops op List.mem_cons_self) with
        hnone | ⟨tx', hfind', hsame⟩
      · exact absurd hnone hhere
      · -- The owner is the same after the step, so the rest of the run is judged by
        -- the same batch hash.
        have hhash : tx'.batchHash = tx.batchHash := congrArg (fun x => x.2.2) hsame
        rcases ih (step cfg s op) tx' hfind' ((congrArg (fun x => x.1) hsame).trans hsealed)
            (by rw [hhash]; exact howned)
            (fun pre hpre => hstays (op :: pre) (List.prefix_cons_inj op |>.mpr hpre))
            (fun o ho => by rw [hhash]; exact hops o (List.mem_cons_of_mem op ho)) with
          ⟨tx'', hfind'', hsame'⟩
        exact ⟨tx'', hfind'', hsame'.trans hsame⟩

/-- A seal is exclusive and, with a non-zero batch hash, owned. Between two
    seals that hand out the same hash the transaction left and came back, was
    reset, or was unsealed by a mark whose batch hash is its own or meets none;
    and while it stays in the pool, only a reset, an unsealing mark with its
    batch hash and a sealing mark change an owned seal. -/
theorem seal_exclusive_and_owned (s : MemoryStorage) :
    (∀ order txsLimit avoidTxs mid order' txsLimit' avoidTxs' txHash,
      txHash ∈ (asyncSealTxs cfg s order txsLimit avoidTxs).2.hashes →
      txHash ∈ (asyncSealTxs cfg (run (step cfg) (asyncSealTxs cfg s order txsLimit avoidTxs).1 mid)
        order' txsLimit' avoidTxs').2.hashes →
      let sealed := (asyncSealTxs cfg s order txsLimit avoidTxs).1
      ∃ pre op post tx, mid = pre ++ op :: post ∧
        (run (step cfg) sealed pre).txsTable.find? txHash = some tx ∧
        (op = .asyncResetTxPool ∨
          (∃ txsHash batchId batchHash, op = .asyncMarkTxs txsHash false batchId batchHash ∧
            txHash ∈ txsHash ∧ (tx.batchHash = 0 ∨ tx.batchHash = batchHash)) ∨
          ((run (step cfg) sealed (pre ++ [op])).txsTable.find? txHash = none ∧
            ∃ pre' op' post', post = pre' ++ op' :: post' ∧ op'.Enters ∧
              (run (step cfg) sealed (pre ++ op :: pre')).txsTable.find? txHash = none ∧
              (run (step cfg) sealed (pre ++ op :: pre' ++ [op'])).txsTable.find? txHash ≠ none))) ∧
    (∀ txHash ops tx, s.txsTable.find? txHash = some tx → tx.sealed = true → tx.batchHash ≠ 0 →
      (∀ pre, pre <+: ops → (run (step cfg) s pre).txsTable.find? txHash ≠ none) →
      (∀ op ∈ ops, op ≠ .asyncResetTxPool ∧
        (∀ txsHash batchId, op = .asyncMarkTxs txsHash false batchId tx.batchHash →
          ¬ txHash ∈ txsHash) ∧
        (∀ txsHash batchId batchHash, op = .asyncMarkTxs txsHash true batchId batchHash →
          ¬ txHash ∈ txsHash)) →
      ∃ tx', (run (step cfg) s ops).txsTable.find? txHash = some tx' ∧ tx'.sealed = tx.sealed ∧
        tx'.batchId = tx.batchId ∧ tx'.batchHash = tx.batchHash) := by
  constructor
  · intro order txsLimit avoidTxs mid order' txsLimit' avoidTxs' txHash hfirst hsecond
    -- Sealed by the first call and unsealed before the second, it was unsealed between.
    have hbefore := (mem_hashes_asyncSealTxs cfg hfirst).2
    have hafter := (mem_hashes_asyncSealTxs cfg hsecond).1
    rcases run_unsealed cfg txHash mid _ hbefore hafter with
      ⟨pre, op, post, tx, hmid, hfind, (hreset | hmark) | hback⟩
    · exact ⟨pre, op, post, tx, hmid, hfind, Or.inl hreset⟩
    · exact ⟨pre, op, post, tx, hmid, hfind, Or.inr (Or.inl hmark)⟩
    · exact ⟨pre, op, post, tx, hmid, hfind, Or.inr (Or.inr hback)⟩
  · intro txHash ops tx hfind hsealed howned hstays hops
    -- The three ways to release an owned seal are the three that are excluded.
    have hkept : ∀ op ∈ ops, ¬ Releases op txHash tx.batchHash := by
      rintro op hmem (hreset | ⟨txsHash, batchId, hmark, hin⟩ | ⟨txsHash, batchId, H, hmark, hin⟩)
      · exact (hops op hmem).1 hreset
      · exact (hops op hmem).2.1 txsHash batchId hmark hin
      · exact (hops op hmem).2.2 txsHash batchId H hmark hin
    rcases run_owned cfg txHash ops s tx hfind hsealed howned hstays hkept with
      ⟨tx', hfind', hsame⟩
    exact ⟨tx', hfind', congrArg (fun x => x.1) hsame, congrArg (fun x => x.2.1) hsame,
      congrArg (fun x => x.2.2) hsame⟩

/-- A transaction that is sealed twice, with a reset in between, and one whose
    seal an unsealing mark with another hash leaves alone. -/
theorem seal_exclusive_and_owned_exampleRun :
    let pooled := run (step exampleConfig) examplePool
      [.importDownloadedTxs 1 [exampleTx 5 7 1] none]
    let owned := run (step exampleConfig) pooled [.asyncMarkTxs [5] true 1 9]
    (∃ pre op post tx, [Op.asyncResetTxPool] = pre ++ op :: post ∧
      (run (step exampleConfig) (asyncSealTxs exampleConfig pooled [5] 1 []).1 pre).txsTable.find? 5
        = some tx) ∧
    ∃ tx, (run (step exampleConfig) owned [.asyncMarkTxs [5] false 1 8]).txsTable.find? 5
      = some tx ∧ tx.sealed = true ∧ tx.batchId = 1 ∧ tx.batchHash = 9 := by
  intro pooled owned
  constructor
  · -- The reset is what lets the second call hand out the same hash.
    rcases (seal_exclusive_and_owned exampleConfig pooled).1 [5] 1 [] [.asyncResetTxPool] [5] 1 []
      5 (by decide) (by decide) with ⟨pre, op, post, tx, hmid, hfind, _⟩
    exact ⟨pre, op, post, tx, hmid, hfind⟩
  · -- The mark carries 8 where the entry carries 9, and is blocked.
    refine (seal_exclusive_and_owned exampleConfig owned).2 5 [.asyncMarkTxs [5] false 1 8]
      { toTxData := exampleTx 5 7 1
        sealed := true
        batchId := 1
        batchHash := 9
        knownNodes := {1} } (by decide) rfl (by decide) (fun pre hpre => ?_) (fun op hop => ?_)
    · rcases List.prefix_cons_iff.mp hpre with rfl | ⟨rest, rfl, hrest⟩
      · decide
      · rw [List.prefix_nil.mp hrest]
        decide
    · rw [List.mem_singleton.mp hop]
      refine ⟨(fun hc => by cases hc), fun txsHash batchId hmark => ?_,
        fun txsHash batchId batchHash hmark => ?_⟩
      · rw [Op.asyncMarkTxs.injEq] at hmark
        exact absurd hmark.2.2.2 (by decide)
      · rw [Op.asyncMarkTxs.injEq] at hmark
        exact absurd hmark.2.1 (by decide)

end TxPool

end BcosTxPool
