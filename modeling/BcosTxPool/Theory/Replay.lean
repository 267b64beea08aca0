import BcosTxPool.Theory.Node
import BcosTxPool.Theory.NonceWindow

/-!
# Replay

Whether a committed transaction can come back. A run of a node is followed
together with the chain it records: every block result has the next number,
and the chain holds under that number the nonces the result contributed. Then
the ledger checker represents that chain in every state of the run.

On the normal path it cannot come back. Its nonce stays in the checker for
`blockLimit` heights from its block on, and its block limit, which was open
when it was accepted, is closed after them. The two windows meet without a
gap: the height at which the nonce is evicted is the first at which the block
limit has passed.

On the path of proposals it can. An enforced submission asks the same checker
but acts on the nonce alone, so once the nonce is evicted nothing is left to
reject the transaction, unless another proposal holds it. The theorem gives
the exact condition.

## Main definitions

* `startPool`: The pool a node starts with.
* `Extends`: A block result is the next block of the chain.
* `Committed`: A block result commits a transaction.
* `NoNearRepeat`: No nonce occurs in two blocks at most a window apart.

## Theorems

* `Committed.nonce_mem`: A committed transaction leaves its nonce.
* `run_represents`: The checker represents the chain along a run.
* `no_replay_normal`: A committed transaction is never accepted again.
* `enforced_replay_iff`: When an enforced submission rejects it.
* `enforced_replay_counterexample`: A run in which it does not.
-/

namespace BcosTxPool

open Library

namespace MemoryStorage

/-! ### The nonces of a block result -/

/-- A block result commits a transaction: it names it while the table holds an
    entry with its nonce, or it carries the nonce for a transaction the table
    does not hold. -/
def Committed (s : MemoryStorage) (txsResult : List TransactionSubmitResult) (data : TxData) :
    Prop :=
  ∃ r ∈ txsResult, r.txHash = data.hash ∧
    ((∃ entry, s.txsTable.find? data.hash = some entry ∧ entry.nonce = data.nonce) ∨
      (s.txsTable.find? data.hash = none ∧ r.carriesNonce = true ∧ r.nonce = data.nonce))

/-- One turn of the loop, by what the table holds. A pooled transaction leaves,
    and its own nonce is collected, whatever the result carries. -/
theorem batchRemoveTx_of_find?_some {acc : MemoryStorage × NonceList} {tx : Transaction}
    (r : TransactionSubmitResult) (hfind : acc.1.txsTable.find? r.txHash = some tx) :
    (batchRemoveTx acc r).1.txsTable = acc.1.txsTable.erase r.txHash ∧
      (batchRemoveTx acc r).2 = acc.2 ++ [tx.nonce] := by
  simp only [batchRemoveTx, removeSubmittedTxWithoutLock, removeWithoutLock, hfind, notifyTxResult,
    and_true]
  split
  · rfl
  · rfl

/-- Of a hash that is not pooled the nonce in the result is collected, if it
    carries one. -/
theorem batchRemoveTx_of_find?_none {acc : MemoryStorage × NonceList}
    (r : TransactionSubmitResult) (hfind : acc.1.txsTable.find? r.txHash = none) :
    (batchRemoveTx acc r).1 = acc.1 ∧
      (batchRemoveTx acc r).2
        = if r.carriesNonce then acc.2 ++ [r.nonce] else acc.2 := by
  simp only [batchRemoveTx, removeSubmittedTxWithoutLock, removeWithoutLock, hfind, and_self]

/-- The loop only adds to the list, so what has been collected is recorded with
    the block. -/
theorem mem_foldl_batchRemoveTx (rs : List TransactionSubmitResult) (nonce : NonceType) :
    ∀ acc : MemoryStorage × NonceList, nonce ∈ acc.2 → nonce ∈ (rs.foldl batchRemoveTx acc).2 := by
  induction rs with
  | nil => exact fun _ h => h
  | cons r rs ih =>
      intro acc h
      -- A turn appends to the list or leaves it.
      refine ih _ ?_
      cases hfind : acc.1.txsTable.find? r.txHash with
      | some tx =>
          rw [(batchRemoveTx_of_find?_some r hfind).2]
          exact List.mem_append_left _ h
      | none =>
          rw [(batchRemoveTx_of_find?_none r hfind).2]
          split
          · exact List.mem_append_left _ h
          · exact h

/-- A pooled transaction that a result names leaves its nonce: the first result
    that names it finds it, since none before has removed it. -/
theorem nonce_mem_of_pooled (rs : List TransactionSubmitResult) (txHash : HashType)
    (nonce : NonceType) (hnamed : ∃ r ∈ rs, r.txHash = txHash) :
    ∀ acc : MemoryStorage × NonceList,
      (∃ entry, acc.1.txsTable.find? txHash = some entry ∧ entry.nonce = nonce) →
      nonce ∈ (rs.foldl batchRemoveTx acc).2 := by
  induction rs with
  | nil =>
      rcases hnamed with ⟨r, hr, _⟩
      exact absurd hr List.not_mem_nil
  | cons r rs ih =>
      rintro acc ⟨entry, hfind, hnonce⟩
      rw [List.foldl_cons]
      -- This result names it and takes its nonce; later results only add.
      by_cases heq : r.txHash = txHash
      · refine mem_foldl_batchRemoveTx rs nonce _ ?_
        rw [← heq] at hfind
        rw [(batchRemoveTx_of_find?_some r hfind).2, ← hnonce]
        exact List.mem_append_right _ (List.mem_singleton.mpr rfl)
      · have hrest : ∃ r' ∈ rs, r'.txHash = txHash := by
          rcases hnamed with ⟨r', hr', hname⟩
          rcases List.mem_cons.mp hr' with rfl | hr'
          · exact absurd hname heq
          · exact ⟨r', hr', hname⟩
        -- Another hash is removed, so the entry is still there for the rest.
        refine ih hrest _ ⟨entry, ?_, hnonce⟩
        cases hhead : acc.1.txsTable.find? r.txHash with
        | some tx =>
            rw [(batchRemoveTx_of_find?_some r hhead).1, KeyedTable.find?_erase, if_neg heq]
            exact hfind
        | none =>
            rw [(batchRemoveTx_of_find?_none r hhead).1]
            exact hfind

/-- A result that carries the nonce of a transaction the table does not hold
    leaves it. -/
theorem nonce_mem_of_carried (rs : List TransactionSubmitResult) (txHash : HashType)
    (nonce : NonceType)
    (hnamed : ∃ r ∈ rs, r.txHash = txHash ∧ r.carriesNonce = true ∧ r.nonce = nonce) :
    ∀ acc : MemoryStorage × NonceList, acc.1.txsTable.find? txHash = none →
      nonce ∈ (rs.foldl batchRemoveTx acc).2 := by
  induction rs with
  | nil =>
      rcases hnamed with ⟨r, hr, _⟩
      exact absurd hr List.not_mem_nil
  | cons r rs ih =>
      intro acc hfind
      rw [List.foldl_cons]
      -- No result puts a transaction into the table.
      have hkept : (batchRemoveTx acc r).1.txsTable.find? txHash = none := by
        cases hhead : acc.1.txsTable.find? r.txHash with
        | some tx =>
            rw [(batchRemoveTx_of_find?_some r hhead).1, KeyedTable.find?_erase, hfind, ite_self]
        | none =>
            rw [(batchRemoveTx_of_find?_none r hhead).1]
            exact hfind
      rcases hnamed with ⟨r', hr', hname, hcarries, hnonce⟩
      rcases List.mem_cons.mp hr' with rfl | hr'
      · refine mem_foldl_batchRemoveTx rs nonce _ ?_
        rw [← hname] at hfind
        rw [(batchRemoveTx_of_find?_none r' hfind).2, if_pos hcarries, hnonce]
        exact List.mem_append_right _ (List.mem_singleton.mpr rfl)
      · exact ih ⟨r', hr', hname, hcarries, hnonce⟩ _ hkept

/-- A committed transaction leaves its nonce with the block. -/
theorem Committed.nonce_mem {s : MemoryStorage} {txsResult : List TransactionSubmitResult}
    {data : TxData} (h : s.Committed txsResult data) : data.nonce ∈ s.blockNonces txsResult := by
  rcases h with ⟨r, hr, hname, hpooled | ⟨hfree, hcarries, hnonce⟩⟩
  · exact nonce_mem_of_pooled txsResult data.hash data.nonce ⟨r, hr, hname⟩ (s, []) hpooled
  · exact nonce_mem_of_carried txsResult data.hash data.nonce ⟨r, hr, hname, hcarries, hnonce⟩
      (s, []) hfree

end MemoryStorage

namespace TxPool

variable (cfg : TxPoolConfig)

/-! ### A run and its chain -/

/-- The pool a node starts with at a height of the ledger: empty, with the
    checker that was built from the ledger. -/
def startPool (N : Int) (fetchNonceList : Int → Int → BlockNonceCache) : MemoryStorage :=
  { ledgerNonceChecker := init cfg N fetchNonceList }

/-- A block result is the next block of the chain: it has the next number, and
    the chain carries the nonces it contributes. -/
def Extends (chain : Int → NonceList) (s : MemoryStorage) : Op → Prop
  | .asyncNotifyBlockResult blockNumber txsResult =>
      blockNumber = s.ledgerNonceChecker.blockNumber + 1 ∧
        chain blockNumber = s.blockNonces txsResult
  | _ => True

/-- The ledger checker represents the chain at some height from `N` on. -/
def Follows (N : Int) (chain : Int → NonceList) (s : MemoryStorage) : Prop :=
  N ≤ s.ledgerNonceChecker.blockNumber ∧
    s.ledgerNonceChecker.Represents cfg.blockLimit (firstBlock N cfg.blockLimit)
      s.ledgerNonceChecker.blockNumber chain

variable {cfg} {N : Int} {chain : Int → NonceList}

/-- A node starts with a checker that represents the chain. -/
theorem startPool_follows {fetchNonceList : Int → Int → BlockNonceCache}
    (hfetch : Delivers fetchNonceList chain N) :
    Follows cfg N chain (startPool cfg N fetchNonceList) := by
  have hinit := init_represents cfg hfetch
  have hnumber : (startPool cfg N fetchNonceList).ledgerNonceChecker.blockNumber = N :=
    hinit.blockNumber
  unfold Follows
  rw [hnumber]
  exact ⟨le_refl N, hinit⟩

/-- And a step that extends the chain keeps it so. Only block results touch the
    checker. -/
theorem step_follows (hL : 1 ≤ cfg.blockLimit) (hN : 0 ≤ N) (s : MemoryStorage) (op : Op)
    (hop : Extends chain s op) (h : Follows cfg N chain s) :
    Follows cfg N chain (step cfg s op) := by
  have hledger := step_ledgerNonceChecker cfg s op
  cases op with
  | asyncNotifyBlockResult blockNumber txsResult =>
      -- The result has the next number, so the height of the checker goes up by
      -- one.
      rcases hop with ⟨rfl, hchain⟩
      simp only at hledger
      rw [← hchain] at hledger
      have hfirst := firstBlock_le N hL
      have hnext := h.2.batchInsert hL (firstBlock_pos hN cfg.blockLimit)
        (by have := h.1; omega)
      unfold Follows
      rw [hledger, hnext.blockNumber]
      exact ⟨by have := h.1; omega, hnext⟩
  | _ =>
      unfold Follows
      rw [hledger]
      exact h

/-- The ledger checker represents the chain in every state of a run that
    extends it block by block. -/
theorem run_represents (hL : 1 ≤ cfg.blockLimit) (hN : 0 ≤ N)
    {s : MemoryStorage} (ops : List Op) (hops : Along (step cfg) (Extends chain) s ops)
    (h : Follows cfg N chain s) : Follows cfg N chain (run (step cfg) s ops) :=
  along_invariant (step cfg) (Extends chain) (Follows cfg N chain)
    (fun s op hop hs => step_follows hL hN s op hop hs) ops s hops h

/-- The height never falls along such a run. -/
theorem run_blockNumber_le (ops : List Op) :
    ∀ s : MemoryStorage, Along (step cfg) (Extends chain) s ops →
      s.ledgerNonceChecker.blockNumber
        ≤ (run (step cfg) s ops).ledgerNonceChecker.blockNumber := by
  intro s hops
  refine along_invariant (step cfg) (Extends chain) (fun t => s.ledgerNonceChecker.blockNumber
    ≤ t.ledgerNonceChecker.blockNumber) (fun t op _ ht => ht.trans ?_) ops s hops (le_refl _)
  have hledger := step_ledgerNonceChecker cfg t op
  cases op with
  -- A block that is not above the height leaves it where it is.
  | asyncNotifyBlockResult blockNumber txsResult =>
      simp only at hledger
      rw [hledger, LedgerNonceChecker.batchInsert_eq]
      simp only
      split
      · omega
      · omega
  | _ => rw [hledger]

/-- No nonce occurs in two blocks up to height `h` that are at most a window
    apart. The eviction goes by value, and would take the later one as well. -/
def NoNearRepeat (L h : Int) (chain : Int → NonceList) : Prop :=
  ∀ b b' nonce, 1 ≤ b → b < b' → b' ≤ h → nonce ∈ chain b → nonce ∈ chain b' → b + L < b'

/-- In a state that follows the chain, a nonce of a block of the window is in
    the flat set. -/
theorem Follows.nonce_mem {s : MemoryStorage} (h : Follows cfg N chain s) (hL : 1 ≤ cfg.blockLimit)
    (hN : 0 ≤ N)
    (hspaced : NoNearRepeat cfg.blockLimit s.ledgerNonceChecker.blockNumber chain) {c : Int}
    {nonce : NonceType} (hfirst : firstBlock N cfg.blockLimit ≤ c) (hnonce : nonce ∈ chain c)
    (hc : c ≤ s.ledgerNonceChecker.blockNumber)
    (hwindow : s.ledgerNonceChecker.blockNumber < c + cfg.blockLimit) :
    nonce ∈ s.ledgerNonceChecker.nonceCache := by
  have hpos := firstBlock_pos hN cfg.blockLimit
  rw [h.2.flat]
  -- Only blocks up to the height matter, and those do not repeat too soon.
  rw [held_iff_past hL, held_iff_inWindow hL]
  · exact ⟨c, by omega, hc, ⟨hfirst, hnonce⟩, hc⟩
  · rintro b b' a ⟨⟨hb, ha⟩, _⟩ ⟨⟨_, ha'⟩, hb'⟩ hlt
    exact hspaced b b' a (by omega) hlt hb' ha ha'

/-- A transaction that the normal path accepts in some state of the run has a
    block limit in the window of that state. -/
theorem blockLimit_le_of_accepted {s : MemoryStorage} {tx : Transaction}
    {txSubmitCallback : Option TxSubmitCallback}
    (h : (s.verifyAndSubmitTransaction cfg tx txSubmitCallback).2 = .none) :
    ¬ tx.nonce ∈ s.ledgerNonceChecker.nonceCache ∧
      s.ledgerNonceChecker.blockNumber < tx.blockLimit ∧
      tx.blockLimit ≤ s.ledgerNonceChecker.blockNumber + s.ledgerNonceChecker.blockLimit := by
  have haccepted := ((s.verifyAndSubmitTransaction_snd_eq_none_iff cfg tx txSubmitCallback).mp
    h).accepted
  exact (TxValidator.submittedToChain_eq_none_iff _ tx).mp haccepted.onChain

/-- The window of the checker is that of the configuration in every state of a
    run. -/
theorem run_blockLimit (ops : List Op) :
    ∀ s : MemoryStorage, (run (step cfg) s ops).ledgerNonceChecker.blockLimit
      = s.ledgerNonceChecker.blockLimit := by
  intro s
  refine run_invariant (step cfg) (fun t => t.ledgerNonceChecker.blockLimit
    = s.ledgerNonceChecker.blockLimit) (fun _ => True) (fun t op _ ht => ?_) ops s
    (fun _ _ => trivial) rfl
  have hledger := step_ledgerNonceChecker cfg t op
  cases op with
  | asyncNotifyBlockResult blockNumber txsResult =>
      simp only at hledger
      rw [hledger, LedgerNonceChecker.batchInsert_eq]
      exact ht
  | _ => rwa [hledger]

/-- What a run that commits a transaction in block `c` leaves: the block is in
    the chain with the nonce, the checker was told of it, and the run has
    reached its height. -/
structure CommittedAt (cfg : TxPoolConfig) (N : Int) (chain : Int → NonceList) (c : Int)
    (nonce : NonceType) (s : MemoryStorage) : Prop where
  follows : Follows cfg N chain s
  first : firstBlock N cfg.blockLimit ≤ c
  nonce_mem : nonce ∈ chain c
  height : c ≤ s.ledgerNonceChecker.blockNumber

/-- A block result that extends the chain and commits a transaction leaves all
    this behind, in every state of the run after it. -/
theorem run_committedAt (hL : 1 ≤ cfg.blockLimit) (hN : 0 ≤ N) {s : MemoryStorage}
    (hs : Follows cfg N chain s) {pre post : List Op} {c : Int}
    {txsResult : List TransactionSubmitResult} {data : TxData}
    (hops : Along (step cfg) (Extends chain) s (pre ++ .asyncNotifyBlockResult c txsResult :: post))
    (hcommitted : (run (step cfg) s pre).Committed txsResult data) :
    CommittedAt cfg N chain c data.nonce
      (run (step cfg) s (pre ++ .asyncNotifyBlockResult c txsResult :: post)) ∧
    c = (run (step cfg) s pre).ledgerNonceChecker.blockNumber + 1 := by
  -- The run up to the block, the block itself, and what comes after it.
  rcases (along_append (step cfg) (Extends chain) pre _ s).mp hops with
    ⟨hpre, ⟨hnumber, hchain⟩, hpost⟩
  have hbefore := run_represents hL hN pre hpre hs
  have hlater := run_blockNumber_le post _ hpost
  have hledger := step_ledgerNonceChecker cfg (run (step cfg) s pre)
    (.asyncNotifyBlockResult c txsResult)
  have hreached : (step cfg (run (step cfg) s pre)
      (.asyncNotifyBlockResult c txsResult)).ledgerNonceChecker.blockNumber = c := by
    simp only at hledger
    rw [hledger, LedgerNonceChecker.batchInsert_eq]
    simp only
    rw [if_pos (by omega)]
  -- That the checker was told of the block, that it carries the nonce, and the
  -- height.
  refine ⟨⟨run_represents hL hN _ hops hs, ?_, ?_, ?_⟩, hnumber⟩
  · have := firstBlock_le N hL
    have := hbefore.1
    omega
  · rw [hchain]
    exact hcommitted.nonce_mem
  · rw [run_append, run_cons]
    exact le_trans (le_of_eq hreached.symm) hlater

/-- No replay through the normal path. Once a transaction has been committed in
    block `c`, with a block limit of at most `c` plus the window or after being
    accepted at a lower height, every later state holds its nonce or has passed
    its block limit, and never accepts it again. -/
theorem no_replay_normal (cfg : TxPoolConfig) (hL : 1 ≤ cfg.blockLimit) (N : Int) (hN : 0 ≤ N)
    (fetchNonceList : Int → Int → BlockNonceCache) (chain : Int → NonceList)
    (hfetch : Delivers fetchNonceList chain N) (pre post : List Op) (c : Int)
    (txsResult : List TransactionSubmitResult) (data : TxData)
    (hops : Along (step cfg) (Extends chain) (startPool cfg N fetchNonceList)
      (pre ++ .asyncNotifyBlockResult c txsResult :: post))
    (hspaced : NoNearRepeat cfg.blockLimit
      (run (step cfg) (startPool cfg N fetchNonceList)
        (pre ++ .asyncNotifyBlockResult c txsResult :: post)).ledgerNonceChecker.blockNumber chain)
    (hcommitted : (run (step cfg) (startPool cfg N fetchNonceList) pre).Committed txsResult data)
    (hlimit : data.blockLimit ≤ c + cfg.blockLimit ∨
      ∃ pre₁ pre₂ tx txSubmitCallback, pre = pre₁ ++ pre₂ ∧ tx.toTxData = data ∧
        ((run (step cfg) (startPool cfg N fetchNonceList) pre₁).verifyAndSubmitTransaction cfg tx
          txSubmitCallback).2 = .none) :
    let s := run (step cfg) (startPool cfg N fetchNonceList)
      (pre ++ .asyncNotifyBlockResult c txsResult :: post)
    (data.nonce ∈ s.ledgerNonceChecker.nonceCache ∨
      data.blockLimit ≤ s.ledgerNonceChecker.blockNumber) ∧
    ∀ tx txSubmitCallback, tx.toTxData = data →
      (s.verifyAndSubmitTransaction cfg tx txSubmitCallback).2 ≠ .none := by
  intro s
  have hstart : Follows cfg N chain (startPool cfg N fetchNonceList) := startPool_follows hfetch
  rcases run_committedAt hL hN hstart hops hcommitted with ⟨hat, hc⟩
  have hwindow : data.blockLimit ≤ c + cfg.blockLimit := by
    rcases hlimit with hlimit | ⟨pre₁, pre₂, tx, txSubmitCallback, rfl, rfl, haccepted⟩
    · exact hlimit
    · -- Accepted at a lower height, so the limit was in a lower window.
      have hopen := blockLimit_le_of_accepted haccepted
      have hpre := ((along_append (step cfg) (Extends chain) _ _ _).mp hops).1
      have hpre₂ := ((along_append (step cfg) (Extends chain) _ _ _).mp hpre).2
      have hrise := run_blockNumber_le pre₂ _ hpre₂
      rw [run_blockLimit, hstart.2.blockLimit] at hopen
      rw [run_append] at hc
      omega
  have hgone : data.nonce ∈ s.ledgerNonceChecker.nonceCache ∨
      data.blockLimit ≤ s.ledgerNonceChecker.blockNumber := by
    -- The two windows meet: the nonce is held up to the height `c + L - 1`, and
    -- from `c + L` on the block limit has passed.
    by_cases hheld : s.ledgerNonceChecker.blockNumber < c + cfg.blockLimit
    · exact Or.inl (hat.follows.nonce_mem hL hN hspaced hat.first hat.nonce_mem hat.height hheld)
    · exact Or.inr (by omega)
  refine ⟨hgone, ?_⟩
  -- An acceptance would need the nonce free and the limit open.
  rintro tx txSubmitCallback rfl haccepted
  have hopen := blockLimit_le_of_accepted haccepted
  rcases hgone with hmem | hpassed
  · exact hopen.1 hmem
  · omega

/-- The first block commits a gossiped transaction and the second is empty, with
    a window of one block. -/
theorem exampleRun_extends :
    Along (step exampleConfig) (Extends exampleChain)
      (startPool exampleConfig 0 (ledgerNonces exampleChain))
      ([.importDownloadedTxs 1 [exampleTx 1 7 1] none] ++
        .asyncNotifyBlockResult 1 [{ txHash := 1, status := .none }] ::
          [.asyncNotifyBlockResult 2 []]) :=
  ⟨trivial, ⟨by decide, by decide⟩, ⟨by decide, by decide⟩, trivial⟩

/-- The block result names the gossiped transaction, which is in the pool by
    then. -/
theorem exampleRun_committed :
    (run (step exampleConfig) (startPool exampleConfig 0 (ledgerNonces exampleChain))
      [.importDownloadedTxs 1 [exampleTx 1 7 1] none]).Committed
      [{ txHash := 1, status := .none }] (exampleTx 1 7 1) :=
  ⟨{ txHash := 1, status := .none }, List.mem_singleton.mpr rfl, rfl,
    Or.inl ⟨{ toTxData := exampleTx 1 7 1, knownNodes := {1} }, by decide, rfl⟩⟩

theorem no_replay_normal_exampleRun :
    let s := run (step exampleConfig) (startPool exampleConfig 0 (ledgerNonces exampleChain))
      ([.importDownloadedTxs 1 [exampleTx 1 7 1] none] ++
        .asyncNotifyBlockResult 1 [{ txHash := 1, status := .none }] ::
          [.asyncNotifyBlockResult 2 []])
    (7 ∈ s.ledgerNonceChecker.nonceCache ∨ 1 ≤ s.ledgerNonceChecker.blockNumber) ∧
    ∀ tx txSubmitCallback, tx.toTxData = exampleTx 1 7 1 →
      (s.verifyAndSubmitTransaction exampleConfig tx txSubmitCallback).2 ≠ .none := by
  refine no_replay_normal exampleConfig (by decide) 0 (by decide) (ledgerNonces exampleChain)
    exampleChain (ledgerNonces_delivers exampleChain 0) _ _ 1 _ (exampleTx 1 7 1)
    exampleRun_extends ?_ exampleRun_committed (Or.inl (by decide))
  intro b b' nonce hb hlt hb' hn hn'
  -- Only block one carries a nonce.
  have hlate : ¬ b' = 1 := by omega
  rw [exampleChain, if_neg hlate] at hn'
  exact absurd hn' List.not_mem_nil

/-- When an enforced submission rejects a committed transaction. The
    transaction was accepted by the normal path and then committed in block
    `c`. A later enforced submission rejects it exactly while its nonce is
    held, that is while some block that carries it has come and none of the
    blocks that carry it has been evicted since, or while the pool has it
    sealed for another proposal. -/
theorem enforced_replay_iff (cfg : TxPoolConfig) (N : Int) (hN : 0 ≤ N)
    (fetchNonceList : Int → Int → BlockNonceCache) (chain : Int → NonceList)
    (hfetch : Delivers fetchNonceList chain N) (pre mid post : List Op) (c : Int)
    (txsResult : List TransactionSubmitResult) (accepted : Transaction)
    (txSubmitCallback : Option TxSubmitCallback)
    (hops : Along (step cfg) (Extends chain) (startPool cfg N fetchNonceList)
      (pre ++ mid ++ .asyncNotifyBlockResult c txsResult :: post))
    (haccepted : ((run (step cfg) (startPool cfg N fetchNonceList) pre).verifyAndSubmitTransaction
      cfg accepted txSubmitCallback).2 = .none)
    (hcommitted : (run (step cfg) (startPool cfg N fetchNonceList) (pre ++ mid)).Committed txsResult
      accepted.toTxData) :
    let s := run (step cfg) (startPool cfg N fetchNonceList)
      (pre ++ mid ++ .asyncNotifyBlockResult c txsResult :: post)
    accepted.nonce ∈ chain c ∧ c ≤ s.ledgerNonceChecker.blockNumber ∧
    ∀ tx, tx.toTxData = accepted.toTxData →
      ((s.enforceSubmitTransaction cfg tx).2 ≠ .none ↔
        Held cfg.blockLimit (carries (firstBlock N cfg.blockLimit) chain)
            s.ledgerNonceChecker.blockNumber accepted.nonce ∨
          ∃ entry, s.txsTable.find? tx.hash = some entry ∧
            MemoryStorage.SealedElsewhere tx entry) := by
  intro s
  have hstart : Follows cfg N chain (startPool cfg N fetchNonceList) := startPool_follows hfetch
  -- Nothing is ever accepted with an empty window.
  have hL : 1 ≤ cfg.blockLimit := by
    have hopen := blockLimit_le_of_accepted haccepted
    rw [run_blockLimit, hstart.2.blockLimit] at hopen
    omega
  rcases run_committedAt hL hN hstart hops hcommitted with ⟨hat, _⟩
  refine ⟨hat.nonce_mem, hat.height, fun tx htx => ?_⟩
  -- The block limit is not asked, so the flat set alone decides.
  rw [MemoryStorage.enforceSubmitTransaction_snd_ne_none_iff, htx, ← hat.follows.2.flat]

theorem enforced_replay_iff_exampleRun :
    let s := run (step exampleConfig) (startPool exampleConfig 0 (ledgerNonces exampleChain))
      ([] ++ [.importDownloadedTxs 1 [exampleTx 1 7 1] none] ++
        .asyncNotifyBlockResult 1 [{ txHash := 1, status := .none }] ::
          [.asyncNotifyBlockResult 2 []])
    7 ∈ exampleChain 1 ∧ 1 ≤ s.ledgerNonceChecker.blockNumber ∧
    ∀ tx, tx.toTxData = exampleTx 1 7 1 →
      ((s.enforceSubmitTransaction exampleConfig tx).2 ≠ .none ↔
        Held 1 (carries (firstBlock 0 1) exampleChain) s.ledgerNonceChecker.blockNumber 7 ∨
          ∃ entry, s.txsTable.find? tx.hash = some entry ∧
            MemoryStorage.SealedElsewhere tx entry) :=
  enforced_replay_iff exampleConfig 0 (by decide) (ledgerNonces exampleChain) exampleChain
    (ledgerNonces_delivers exampleChain 0) [] [.importDownloadedTxs 1 [exampleTx 1 7 1] none]
    [.asyncNotifyBlockResult 2 []] 1 [{ txHash := 1, status := .none }]
    (createTransaction (exampleTx 1 7 1)) none exampleRun_extends (by decide) exampleRun_committed

/-- A transaction that was accepted at height zero and committed in block one is
    taken back by an enforced submission after block two, which evicted its
    nonce. -/
theorem enforced_replay_counterexample :
    let start := startPool exampleConfig 0 (ledgerNonces exampleChain)
    let pooled := run (step exampleConfig) start
      [.importDownloadedTxs 1 [exampleTx 1 7 1] none]
    let s := run (step exampleConfig) pooled
      [.asyncNotifyBlockResult 1 [{ txHash := 1, status := .none }], .asyncNotifyBlockResult 2 []]
    (start.verifyAndSubmitTransaction exampleConfig (createTransaction (exampleTx 1 7 1))
        none).2 = .none ∧
      pooled.txsTable.contains 1 = true ∧ s.txsTable.contains 1 = false ∧
      s.ledgerNonceChecker.blockNumber = 2 ∧
      (s.enforceSubmitTransaction exampleConfig (createTransaction (exampleTx 1 7 1))).2 = .none ∧
      ((s.enforceSubmitTransaction exampleConfig
        (createTransaction (exampleTx 1 7 1))).1.txsTable.find? 1).map (fun tx => tx.sealed)
        = some true := by
  decide

end TxPool

end BcosTxPool
