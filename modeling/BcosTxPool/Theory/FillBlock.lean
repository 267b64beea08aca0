import BcosTxPool.Core.Requests
import BcosTxPool.Theory.Downloads
import BcosTxPool.Theory.Proposal

/-!
# Filling a Block

What the executor gets for a list of hashes. `asyncFillBlock` looks into the
pool, and if something is missing it has the ledger asked and looks again. All
that happens in between is one normal import, so whatever the ledger answers,
the call amounts to one last look into the pool that it leaves
(`asyncFillBlock_eq`). That last look answers once, with the transactions in
the order of the request or with an error, which makes the call sound.

It is not complete. The ledger's answer goes through a normal import, and that
has reasons of its own to pass a transaction over: the pool is full, the block
limit has passed, the nonce is reserved. The transactions are at hand and are
not in the pool. `HasRoom` lists the three, and each of them makes the call
fail.

## Main definitions

* `Filled`: A success with the requested transactions.
* `afterLedger`: The pool that the call leaves.
* `Delivers`: The ledger has what the pool misses.
* `HasRoom`: What an import asks for besides.
* `Plain`: The ledger returns what it is asked for.
* `FitsAll`: All that was missing fits into the pool.

## Theorems

* `asyncFillBlock_eq`: The call is a look into the pool it leaves.
* `asyncFillBlock_sound`: What the call answers.
* `asyncFillBlock_complete_iff`: When it succeeds.
* `asyncFillBlock_incomplete`: A call that fails.
-/

namespace BcosTxPool

open Library

namespace TxPool

open MemoryStorage TransactionSync

/-- One answer, with a transaction for each requested hash and in the order of
    the request. -/
def Filled (txsHash : HashList) (responses : List FillResponse) : Prop :=
  ∃ txs, responses = [⟨none, some txs⟩] ∧ txs.map (fun tx => tx.hash) = txsHash

/-- A look into the pool answers once: with the transactions if all are there,
    and with an error otherwise. -/
theorem fillBlock_none (s : MemoryStorage) (txsHash : HashList) :
    fillBlock s txsHash none =
      if (s.fetchTxs txsHash).2 = [] then (s, [⟨none, some (s.fetchTxs txsHash).1⟩])
      else (s, [fillMissing]) := by
  unfold fillBlock
  simp only
  by_cases hall : (s.fetchTxs txsHash).2 = []
  · rw [if_pos hall, hall, if_neg (by decide)]
  · -- The source compares the number of missed hashes with zero.
    rw [if_neg hall, if_pos (List.length_pos_iff.mpr hall)]

/-- The answer is a success exactly if the pool holds every hash. -/
theorem filled_fillBlock_iff (s : MemoryStorage) (txsHash : HashList) :
    Filled txsHash (fillBlock s txsHash none).2 ↔ ∀ txHash ∈ txsHash, s.exist txHash = true := by
  rw [fillBlock_none, ← fetchTxs_missed_eq_nil_iff]
  by_cases hall : (s.fetchTxs txsHash).2 = []
  · rw [if_pos hall]
    refine iff_of_true ⟨_, rfl, s.fetchTxs_hashes txsHash ?_⟩ hall
    exact (s.fetchTxs_missed_eq_nil_iff txsHash).mp hall
  · rw [if_neg hall]
    refine iff_of_false ?_ hall
    -- An error answer is not a success, whatever list comes with it.
    rintro ⟨txs, heq, _⟩
    have herror : fillMissing.error = none :=
      congrArg FillResponse.error (List.singleton_inj.mp heq)
    exact absurd herror (by decide)

/-! ### The call -/

variable (cfg : TxPoolConfig)

/-- The pool that the call leaves: unless nothing is missing or the ledger
    fails, what the ledger returned has been imported. -/
def afterLedger (s : MemoryStorage) (txsHash : HashList) (ledger : HashList → LedgerResponse) :
    MemoryStorage :=
  let missedTxs := (s.fetchTxs txsHash).2
  if missedTxs = [] ∨ (ledger missedTxs).error.isSome then s
  else (importDownloadedTxs cfg s cfg.nodeID (ledger missedTxs).fetchedTxs none).1

/-- A request without a peer and without a proposal calls back once. It reports
    a success if the ledger returned all that was missing, whether the import took
    it in or not. -/
theorem requestMissedTxs_fromLedger (s : MemoryStorage) {missedTxs : HashList}
    (hmissed : missedTxs ≠ []) (ledger : HashList → LedgerResponse)
    (frontService : NodeID → HashList → FrontResponse) :
    ∃ s' response, requestMissedTxs cfg s none missedTxs none true ledger frontService
        = (s', [response]) ∧
      response.pool = s' ∧
      (s' = if (ledger missedTxs).error.isSome then s
        else (importDownloadedTxs cfg s cfg.nodeID (ledger missedTxs).fetchedTxs none).1) ∧
      ((response.error = none ∧ response.result = true) ∨
        (response.error.isSome = true ∧ ∃ txHash ∈ missedTxs,
          (ledger missedTxs).error.isSome = true ∨
            ∀ data ∈ (ledger missedTxs).fetchedTxs, data.hash ≠ txHash)) := by
  unfold requestMissedTxs onGetMissedTxsFromLedger
  rcases List.exists_mem_of_ne_nil missedTxs hmissed with ⟨txHash, htxHash⟩
  -- The ledger fails, or its answer is imported and crosses off what it brings.
  cases herror : (ledger missedTxs).error with
  | some error =>
      -- Nothing is crossed off, and no peer is named.
      have hsize : ¬ (SortedSet.ofList missedTxs).size = 0 := by
        rw [SortedSet.size_eq_zero_iff]
        exact fun hall => hall txHash ((SortedSet.mem_ofList txHash missedTxs).mpr htxHash)
      simp only [hsize, if_false, Option.isSome_some, if_true, List.nil_append]
      exact ⟨_, _, rfl, rfl, rfl, Or.inr ⟨rfl, txHash, htxHash, Or.inl trivial⟩⟩
  | none =>
      have hret := (importDownloadedTxs_normal cfg s cfg.nodeID (ledger missedTxs).fetchedTxs
        proposalHeader_none).1
      simp only [hret, Bool.not_true, Bool.false_eq_true, if_false, Option.isSome_none,
        Bool.and_true, decide_eq_true_eq]
      -- With nothing left the ledger stage calls back. Otherwise the request does,
      -- without a peer to ask.
      by_cases hall : ((ledger missedTxs).fetchedTxs.foldl eraseFetched
          (SortedSet.ofList missedTxs)).size = 0
      · simp only [hall, if_true]
        exact ⟨_, _, rfl, rfl, rfl, Or.inl ⟨rfl, rfl⟩⟩
      · simp only [hall, if_false, if_true, List.nil_append]
        refine ⟨_, _, rfl, rfl, rfl, Or.inr ⟨rfl, ?_⟩⟩
        rw [SortedSet.size_eq_zero_iff] at hall
        rcases not_forall_not.mp hall with ⟨k, hk⟩
        rw [mem_foldl_eraseFetched, SortedSet.mem_ofList] at hk
        exact ⟨k, hk.1, Or.inr hk.2⟩

/-- Whatever the ledger answers, the call is a look into the pool it leaves.
    When the request reports an error, the code answers without a second look,
    and the second look would have found something missing too. -/
theorem asyncFillBlock_eq (s : MemoryStorage) (txsHash : HashList)
    (ledger : HashList → LedgerResponse) (frontService : NodeID → HashList → FrontResponse) :
    asyncFillBlock cfg s txsHash ledger frontService
      = fillBlock (afterLedger cfg s txsHash ledger) txsHash none := by
  unfold asyncFillBlock afterLedger
  by_cases hall : (s.fetchTxs txsHash).2 = []
  · simp only [hall, true_or, if_true, fillBlock, List.length_nil, Nat.lt_irrefl, if_false]
  have hcall : fillBlock s txsHash (some (getTxsFromLocalLedger cfg s txsHash ledger frontService))
      = getTxsFromLocalLedger cfg s txsHash ledger frontService (s.fetchTxs txsHash).2 := by
    unfold fillBlock
    simp only [if_pos (List.length_pos_iff.mpr hall)]
  rcases requestMissedTxs_fromLedger cfg s hall ledger frontService with
    ⟨s', response, heq, hpool, hs', hresponse⟩
  simp only [hall, false_or]
  rw [hcall, getTxsFromLocalLedger, heq, ← hs']
  simp only [List.flatMap_cons, List.flatMap_nil, List.append_nil, onRequested, hpool]
  have hstate : (fillBlock s' txsHash none).1 = s' := by
    rw [fillBlock_none]
    split
    · rfl
    · rfl
  -- The second look is made after a success, and after an error it is not.
  rcases hresponse with ⟨herror, hresult⟩ | ⟨herror, txHash, hmem, hleft⟩
  · simp only [herror, hresult, Option.isSome_none, Bool.not_true, Bool.or_self,
      Bool.false_eq_true, if_false]
    exact Prod.ext hstate.symm rfl
  · -- What the ledger did not return is not in the pool it leaves either.
    rw [herror, Bool.true_or, if_pos rfl, fillBlock_none, if_neg]
    rw [fetchTxs_missed_eq_nil_iff]
    intro hin
    rcases (s.fetchTxs_missed_iff txsHash txHash).mp hmem with ⟨hnamed, hfree⟩
    have hthere := hin txHash hnamed
    rw [hs'] at hthere
    -- Either the ledger failed and the pool is as before, or the hash was not among
    -- what it returned.
    rcases hleft with hfailed | hother
    · rw [if_pos hfailed, hfree] at hthere
      exact Bool.false_ne_true hthere
    · split at hthere
      · rw [hfree] at hthere
        exact Bool.false_ne_true hthere
      · rcases import_taken cfg s cfg.nodeID (ledger (s.fetchTxs txsHash).2).fetchedTxs with
          ⟨taken, hsub, htaken⟩
        rcases (htaken.exist txHash).mp hthere with hold | hnew
        · rw [hfree] at hold
          exact Bool.false_ne_true hold
        · rcases List.mem_map.mp hnew with ⟨data, hdata, heq⟩
          exact hother data (hsub data hdata) heq

/-- The call answers exactly once. It returns one transaction for each
    requested hash, in the order of the request, or it reports
    `TransactionsMissing` without a list, and then some requested hash is not in
    the pool that it leaves. -/
theorem asyncFillBlock_sound (cfg : TxPoolConfig) (s : MemoryStorage) (txsHash : HashList)
    (ledger : HashList → LedgerResponse) (frontService : NodeID → HashList → FrontResponse) :
    ∃ response, (asyncFillBlock cfg s txsHash ledger frontService).2 = [response] ∧
      ((response.error = none ∧ ∃ txs, response.txs = some txs ∧ txs.length = txsHash.length ∧
          txs.map (fun tx => tx.hash) = txsHash) ∨
        (response.error.map (fun e => e.errorCode) = some .transactionsMissing ∧
          response.txs = none ∧ ∃ txHash ∈ txsHash,
            (asyncFillBlock cfg s txsHash ledger frontService).1.exist txHash = false)) := by
  rw [asyncFillBlock_eq]
  generalize afterLedger cfg s txsHash ledger = s'
  rw [fillBlock_none]
  -- There is one look left, and it has two outcomes.
  by_cases hall : (s'.fetchTxs txsHash).2 = []
  · rw [if_pos hall]
    have hhashes := s'.fetchTxs_hashes txsHash ((s'.fetchTxs_missed_eq_nil_iff txsHash).mp hall)
    refine ⟨_, rfl, Or.inl ⟨rfl, _, rfl, ?_, hhashes⟩⟩
    rw [← List.length_map (fun tx : Transaction => tx.hash), hhashes]
  · rw [if_neg hall]
    rcases List.exists_mem_of_ne_nil _ hall with ⟨txHash, hmem⟩
    rcases (s'.fetchTxs_missed_iff txsHash txHash).mp hmem with ⟨hnamed, hfree⟩
    exact ⟨_, rfl, Or.inr ⟨rfl, rfl, txHash, hnamed, hfree⟩⟩

/-! ### Completeness -/

/-- A transaction of this group and chain, correctly signed, whose nonce is not
    on the ledger. These are properties that the requester of a block has reason
    to expect. -/
structure Genuine (s : MemoryStorage) (data : TxData) : Prop where
  signature : cfg.framework.verify data = true
  group : data.groupId = cfg.groupId
  chain : data.chainId = cfg.chainId
  nonce : ¬ data.nonce ∈ s.ledgerNonceChecker.nonceCache

/-- What a normal import asks for besides: the pool is below its limit, the
    block limit is open, and the nonce is not reserved. None of them has to do
    with whether the transaction is the one that was asked for. -/
structure HasRoom (s : MemoryStorage) (data : TxData) : Prop where
  size : s.size < cfg.poolLimit
  limit : s.ledgerNonceChecker.blockNumber < data.blockLimit ∧
    data.blockLimit ≤ s.ledgerNonceChecker.blockNumber + s.ledgerNonceChecker.blockLimit
  nonce : ¬ data.nonce ∈ s.txPoolNonceChecker.nonceCache

/-- A normal import takes a transaction exactly if it is genuine and there is
    room for it. -/
theorem takes_iff (s : MemoryStorage) (data : TxData) :
    Takes cfg s data ↔ Genuine cfg s data ∧ HasRoom cfg s data := by
  have honChain := TxValidator.submittedToChain_eq_none_iff s.ledgerNonceChecker
    (createTransaction data)
  constructor
  · rintro ⟨hroom, _, hgroup, hchain, hpassed, hsignature, hnonce⟩
    rw [honChain] at hpassed
    exact ⟨⟨hsignature, hgroup, hchain, hpassed.1⟩, hroom, hpassed.2, hnonce⟩
  · rintro ⟨⟨hsignature, hgroup, hchain, honLedger⟩, hroom, hlimit, hnonce⟩
    exact ⟨hroom, rfl, hgroup, hchain, honChain.mpr ⟨honLedger, hlimit⟩, hsignature, hnonce⟩

/-- The ledger returns a genuine transaction for every hash that the pool
    misses. -/
def Delivers (s : MemoryStorage) (txsHash : HashList) (ledger : HashList → LedgerResponse) :
    Prop :=
  ∀ txHash ∈ (s.fetchTxs txsHash).2, (ledger (s.fetchTxs txsHash).2).error = none ∧
    ∃ data ∈ (ledger (s.fetchTxs txsHash).2).fetchedTxs, data.hash = txHash ∧ Genuine cfg s data

/-- The ledger returns only what it is asked for, and a hash stands for one
    transaction. With this the list may be judged as a whole. -/
structure Plain (missedTxs : HashList) (txs : List TxData) : Prop where
  asked : ∀ data ∈ txs, data.hash ∈ missedTxs
  content : ∀ data ∈ txs, ∀ data' ∈ txs, data.hash = data'.hash → data = data'

/-- All that is missing fits into the pool: there is room for each, and the block
    limits are open and the nonces free and distinct. -/
structure FitsAll (s : MemoryStorage) (missedTxs : HashList) (txs : List TxData) : Prop where
  size : missedTxs ≠ [] → s.size + missedTxs.dedup.length ≤ cfg.poolLimit
  limit : ∀ data ∈ txs, s.ledgerNonceChecker.blockNumber < data.blockLimit ∧
    data.blockLimit ≤ s.ledgerNonceChecker.blockNumber + s.ledgerNonceChecker.blockLimit
  nonce : ∀ data ∈ txs, ¬ data.nonce ∈ s.txPoolNonceChecker.nonceCache
  apart : ∀ data ∈ txs, ∀ data' ∈ txs, data.nonce = data'.nonce → data = data'

variable {cfg}

/-- If the ledger delivers, the call succeeds exactly if the import takes in
    whatever was missing. -/
theorem filled_iff_imported {s : MemoryStorage} {txsHash : HashList}
    {ledger : HashList → LedgerResponse} (hdelivers : Delivers cfg s txsHash ledger)
    (frontService : NodeID → HashList → FrontResponse) :
    Filled txsHash (asyncFillBlock cfg s txsHash ledger frontService).2 ↔
      ∀ txHash ∈ (s.fetchTxs txsHash).2,
        (importDownloadedTxs cfg s cfg.nodeID (ledger (s.fetchTxs txsHash).2).fetchedTxs
          none).1.exist txHash = true := by
  rw [asyncFillBlock_eq, filled_fillBlock_iff]
  unfold afterLedger
  by_cases hall : (s.fetchTxs txsHash).2 = []
  · rw [if_pos (Or.inl hall)]
    refine iff_of_true ((s.fetchTxs_missed_eq_nil_iff txsHash).mp hall) (fun txHash hmem => ?_)
    rw [hall] at hmem
    exact absurd hmem List.not_mem_nil
  rcases List.exists_mem_of_ne_nil _ hall with ⟨some, hsome⟩
  have herror := (hdelivers some hsome).1
  -- The ledger has answered, so its transactions are imported.
  rw [if_neg (by simp only [hall, herror, Option.isSome_none, Bool.false_eq_true, or_self,
    not_false_eq_true])]
  constructor
  · intro hin txHash hmem
    exact hin txHash ((s.fetchTxs_missed_iff txsHash txHash).mp hmem).1
  · intro hin txHash hnamed
    rcases import_taken cfg s cfg.nodeID (ledger (s.fetchTxs txsHash).2).fetchedTxs with
      ⟨taken, _, htaken⟩
    -- What was hit before the import is hit after it.
    cases hexist : s.exist txHash with
    | true => exact (htaken.exist txHash).mpr (Or.inl hexist)
    | false => exact hin txHash ((s.fetchTxs_missed_iff txsHash txHash).mpr ⟨hnamed, hexist⟩)

/-- An import that takes in everything had room for everything. Its transactions
    have found their places one after the other, and together they fit as
    well. -/
theorem fitsAll_of_imported {s : MemoryStorage} {missedTxs : HashList} {txs : List TxData}
    (hplain : Plain missedTxs txs) (hfree : ∀ txHash ∈ missedTxs, s.exist txHash = false)
    (hin : ∀ txHash ∈ missedTxs,
      (importDownloadedTxs cfg s cfg.nodeID txs none).1.exist txHash = true) :
    FitsAll cfg s missedTxs txs := by
  rcases import_taken cfg s cfg.nodeID txs with ⟨taken, hsub, htaken⟩
  have hhash : ∀ txHash ∈ missedTxs, txHash ∈ taken.map (fun data => data.hash) := by
    intro txHash hmem
    refine ((htaken.exist txHash).mp (hin txHash hmem)).resolve_left (fun hold => ?_)
    rw [hfree txHash hmem] at hold
    exact Bool.false_ne_true hold
  -- A hash stands for one transaction, so what was taken is what was returned.
  have hall : ∀ data ∈ txs, data ∈ taken := by
    intro data hdata
    rcases List.mem_map.mp (hhash data.hash (hplain.asked data hdata)) with ⟨d, hd, heq⟩
    rw [← hplain.content d (hsub d hd) data hdata heq]
    exact hd
  refine ⟨fun hmissed => ?_, fun data hdata => ?_, fun data hdata => ?_,
    fun data hdata data' hdata' hnonce => ?_⟩
  · -- The hashes that were missing are among those taken, and the pool has held
    -- that many.
    have hle : missedTxs.dedup.length ≤ taken.length := by
      rw [← List.length_map (fun data : TxData => data.hash)]
      refine ((List.nodup_dedup missedTxs).subperm (fun txHash hmem => ?_)).length_le
      exact hhash txHash (List.mem_dedup.mp hmem)
    have hsize := htaken.size
    rcases htaken.room with hnone | hroom
    · rcases List.exists_mem_of_ne_nil _ hmissed with ⟨txHash, hmem⟩
      have hmem' := hhash txHash hmem
      rw [hnone] at hmem'
      exact absurd hmem' List.not_mem_nil
    · omega
  · -- The block limits and the nonces are those that the checks have passed.
    have honChain := (htaken.accepted data (hall data hdata)).onChain
    exact ((TxValidator.submittedToChain_eq_none_iff _ _).mp honChain).2
  · exact (htaken.accepted data (hall data hdata)).nonce
  · exact List.inj_on_of_nodup_map htaken.nonces (hall data hdata) (hall data' hdata') hnonce

/-- If everything fits, each transaction meets a pool that has room for it. What
    was imported before it takes up no more than the places and nonces that are
    accounted for. -/
theorem imported_of_fitsAll {s : MemoryStorage} {missedTxs : HashList} {txs : List TxData}
    (hplain : Plain missedTxs txs) (hfree : ∀ txHash ∈ missedTxs, s.exist txHash = false)
    (hfits : FitsAll cfg s missedTxs txs) {data : TxData} (hdata : data ∈ txs)
    (hgenuine : Genuine cfg s data) :
    (importDownloadedTxs cfg s cfg.nodeID txs none).1.exist data.hash = true := by
  have hasked := hplain.asked data hdata
  rw [exist_import_iff cfg s cfg.nodeID txs (hfree data.hash hasked)]
  -- The ones before its first occurrence have other hashes and other nonces.
  rcases List.eq_append_cons_of_mem hdata with ⟨pre, post, rfl, hfirst⟩
  rcases import_taken cfg s cfg.nodeID pre with ⟨taken, hsub, htaken⟩
  have hbefore : ∀ d ∈ taken, d ∈ pre ++ data :: post ∧ d ≠ data := by
    intro d hd
    refine ⟨List.mem_append_left _ (hsub d hd), ?_⟩
    rintro rfl
    exact hfirst (hsub d hd)
  refine ⟨pre, data, post, rfl, rfl, (takes_iff cfg _ data).mpr ⟨?_, ?_, ?_, ?_⟩⟩
  · exact ⟨hgenuine.signature, hgenuine.group, hgenuine.chain, by
      rw [htaken.ledger]; exact hgenuine.nonce⟩
  · -- Those taken before it and it itself are hashes that were missing, all
    -- different.
    have hlt : taken.length + 1 ≤ missedTxs.dedup.length := by
      rw [← List.length_map (fun d : TxData => d.hash),
        ← List.length_cons (a := data.hash)]
      refine (List.Nodup.subperm (List.nodup_cons.mpr ⟨fun hmem => ?_, htaken.hashes⟩)
        (fun txHash hmem => ?_)).length_le
      · rcases List.mem_map.mp hmem with ⟨d, hd, heq⟩
        exact (hbefore d hd).2 (hplain.content d (hbefore d hd).1 data hdata heq)
      · rcases List.mem_cons.mp hmem with rfl | hmem
        · exact List.mem_dedup.mpr hasked
        · rcases List.mem_map.mp hmem with ⟨d, hd, rfl⟩
          exact List.mem_dedup.mpr (hplain.asked d (hbefore d hd).1)
    have hsize := htaken.size
    have hroom := hfits.size (List.ne_nil_of_mem hasked)
    omega
  · rw [htaken.ledger]
    exact hfits.limit data hdata
  · -- The nonces that are reserved were reserved before, or belong to others in the
    -- list.
    rw [htaken.cache]
    rintro (hold | hnew)
    · exact hfits.nonce data hdata hold
    · rcases List.mem_map.mp hnew with ⟨d, hd, heq⟩
      exact (hbefore d hd).2 (hfits.apart d (hbefore d hd).1 data hdata heq)

/-- If the ledger returns a genuine transaction for every hash that the pool
    misses, the call succeeds exactly if each of these hashes has a returned
    transaction that meets, in its turn, a pool with room for it. When the ledger
    returns just what it was asked for, this says that all of it fits into the
    pool at once. -/
theorem asyncFillBlock_complete_iff (cfg : TxPoolConfig) (s : MemoryStorage) (txsHash : HashList)
    (ledger : HashList → LedgerResponse) (frontService : NodeID → HashList → FrontResponse)
    (hdelivers : Delivers cfg s txsHash ledger) :
    (Filled txsHash (asyncFillBlock cfg s txsHash ledger frontService).2 ↔
      ∀ txHash ∈ (s.fetchTxs txsHash).2, ∃ pre data post,
        (ledger (s.fetchTxs txsHash).2).fetchedTxs = pre ++ data :: post ∧
        data.hash = txHash ∧ Genuine cfg s data ∧
        HasRoom cfg (importDownloadedTxs cfg s cfg.nodeID pre none).1 data) ∧
    (Plain (s.fetchTxs txsHash).2 (ledger (s.fetchTxs txsHash).2).fetchedTxs →
      (Filled txsHash (asyncFillBlock cfg s txsHash ledger frontService).2 ↔
        FitsAll cfg s (s.fetchTxs txsHash).2 (ledger (s.fetchTxs txsHash).2).fetchedTxs)) := by
  rw [filled_iff_imported hdelivers]
  have hfree : ∀ txHash ∈ (s.fetchTxs txsHash).2, s.exist txHash = false :=
    fun txHash hmem => ((s.fetchTxs_missed_iff txsHash txHash).mp hmem).2
  constructor
  · refine forall₂_congr (fun txHash hmem => ?_)
    rw [exist_import_iff cfg s cfg.nodeID _ (hfree txHash hmem)]
    refine exists_congr (fun pre => exists_congr (fun data => exists_congr (fun post => ?_)))
    -- The ledger checker is the same all along.
    rcases import_taken cfg s cfg.nodeID pre with ⟨taken, _, htaken⟩
    have hgenuine : Genuine cfg (importDownloadedTxs cfg s cfg.nodeID pre none).1 data ↔
        Genuine cfg s data := by
      constructor
      · rintro ⟨hsignature, hgroup, hchain, hnonce⟩
        exact ⟨hsignature, hgroup, hchain, htaken.ledger ▸ hnonce⟩
      · rintro ⟨hsignature, hgroup, hchain, hnonce⟩
        exact ⟨hsignature, hgroup, hchain, htaken.ledger.symm ▸ hnonce⟩
    rw [takes_iff, hgenuine]
  · intro hplain
    constructor
    · exact fun hin => fitsAll_of_imported hplain hfree hin
    · intro hfits txHash hmem
      rcases (hdelivers txHash hmem).2 with ⟨data, hdata, rfl, hgenuine⟩
      exact imported_of_fitsAll hplain hfree hfits hdata hgenuine

/-- A ledger that has a transaction with the given block limit, and returns it
    whatever it is asked for. -/
def exampleLedger (blockLimit : Int) (_ : HashList) : LedgerResponse :=
  ⟨none, [exampleTx 1 7 blockLimit]⟩

/-- It delivers to the empty pool, whether the block limit is open or not. -/
theorem exampleLedger_delivers (blockLimit : Int) :
    Delivers exampleConfig examplePool [1] (exampleLedger blockLimit) := by
  have hmissed : (examplePool.fetchTxs [1]).2 = [1] := by decide
  intro txHash hmem
  rw [hmissed, List.mem_singleton] at hmem
  subst hmem
  exact ⟨rfl, exampleTx 1 7 blockLimit, List.mem_singleton.mpr rfl, rfl, rfl, rfl, rfl,
    Finset.notMem_empty _⟩

/-- With an open block limit everything fits into the empty pool, and the call
    succeeds. -/
theorem asyncFillBlock_complete_iff_examplePool :
    Filled [1] (asyncFillBlock exampleConfig examplePool [1] (exampleLedger 1) examplePeer).2 := by
  have hmissed : (examplePool.fetchTxs [1]).2 = [1] := by decide
  have hiff := asyncFillBlock_complete_iff exampleConfig examplePool [1] (exampleLedger 1)
    examplePeer (exampleLedger_delivers 1)
  rw [hmissed] at hiff
  refine (hiff.2 ⟨?_, ?_⟩).mpr ⟨?_, ?_, ?_, ?_⟩
  · decide
  · decide
  · decide
  · decide
  · decide
  · decide

/-- A ledger delivers the only transaction that an empty pool misses, and the
    call reports it missing, since its block limit has passed. -/
theorem asyncFillBlock_incomplete :
    Delivers exampleConfig examplePool [1] (exampleLedger 0) ∧
      ¬ Filled [1] (asyncFillBlock exampleConfig examplePool [1] (exampleLedger 0)
        examplePeer).2 := by
  refine ⟨exampleLedger_delivers 0, ?_⟩
  rw [asyncFillBlock_eq, filled_fillBlock_iff]
  exact fun h => absurd (h 1 (List.mem_singleton.mpr rfl)) (by decide)

end TxPool

end BcosTxPool
