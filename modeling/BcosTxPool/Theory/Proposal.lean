import BcosTxPool.Theory.Import

/-!
# Proposals

What a positive verdict on a proposal is worth.

A request for missed transactions has two stages. The ledger's answer is
imported, and what it brought is crossed off the list; if the import fails
nothing is. Then the peer is asked for the rest. `LedgerStage` lists the three
outcomes of the first stage, and `requestMissedTxs_response` says where each
invocation of the callback comes from, so that a result about the verdict
needs to look only at imports.

With a header both imports are enforced. Each seals all it was given or fails,
and the second does not undo the first, so after a success every hash that was
missed is sealed for the proposal. Without a header an import always
succeeds, and what it could not take is missing all the same: the verdict
then covers transactions that are not in the pool.

The verdict also depends on what was in the pool before. A transaction that
was there is accepted by its hash alone. One that was not is submitted, and
then its nonce is compared with the ledger's. For a transaction whose nonce
has come on chain the two disagree.

## Main definitions

* `LedgerStage`: The outcomes of asking the ledger.
* `leftByLedger`: The hashes that a peer is asked for after the ledger.
* `Returned`: A content came from the ledger, or from the peer that was asked for the rest.
* `without`: Entries are deleted.
* `Serves`: A peer that returns what it is asked for.
* `verdict`: What the verify callback is told.
* `MissesOnChain`: A missed transaction has its nonce on chain.

## Theorems

* `requestMissedTxs_response`: Where a response comes from.
* `requestMissedTxs_seals`: A success leaves every missed hash sealed.
* `verified_contains`: A positive verdict and the pool.
* `verdict_of_serves`: The verdict with an honest peer.
* `verdict_without_iff`: When the verdict does not depend on the pool.
-/

namespace BcosTxPool

open Library TxPool

namespace TransactionSync

open MemoryStorage

variable (cfg : TxPoolConfig)

/-! ### The two stages -/

/-- The outcomes of asking the ledger: the pool, and the hashes still missed. A
    failed import may have changed the pool, and still no hash is crossed
    off. -/
inductive LedgerStage (s : MemoryStorage) (missedTxs : HashList) (response : LedgerResponse)
    (verifiedProposal : Option Block) : MemoryStorage → SortedSet HashType → Prop where
  | failed (herror : ¬ response.error = none) :
      LedgerStage s missedTxs response verifiedProposal s (SortedSet.ofList missedTxs)
  | rejected (herror : response.error = none)
      (h : (importDownloadedTxs cfg s cfg.nodeID response.fetchedTxs verifiedProposal).2 = false) :
      LedgerStage s missedTxs response verifiedProposal
        (importDownloadedTxs cfg s cfg.nodeID response.fetchedTxs verifiedProposal).1
        (SortedSet.ofList missedTxs)
  | imported (herror : response.error = none)
      (h : (importDownloadedTxs cfg s cfg.nodeID response.fetchedTxs verifiedProposal).2 = true) :
      LedgerStage s missedTxs response verifiedProposal
        (importDownloadedTxs cfg s cfg.nodeID response.fetchedTxs verifiedProposal).1
        (response.fetchedTxs.foldl eraseFetched (SortedSet.ofList missedTxs))

/-- Of the hashes missed those stay that the answer does not contain. -/
theorem mem_foldl_eraseFetched (txs : List TxData) (txHash : HashType) :
    ∀ missedTxs : SortedSet HashType, txHash ∈ txs.foldl eraseFetched missedTxs ↔
      txHash ∈ missedTxs ∧ ∀ tx ∈ txs, tx.hash ≠ txHash := by
  -- The induction is on what was returned, for all sets of missed hashes.
  induction txs with
  | nil => exact fun _ => ⟨fun h => ⟨h, fun _ ht => absurd ht List.not_mem_nil⟩, fun h => h.1⟩
  | cons tx txs ih =>
      intro missedTxs
      -- A hash that was not missed is not erased, which erasing it would not show.
      have herase : txHash ∈ eraseFetched missedTxs tx ↔ txHash ∈ missedTxs ∧ tx.hash ≠ txHash := by
        unfold eraseFetched
        by_cases hmem : tx.hash ∈ missedTxs
        · rw [if_pos hmem, SortedSet.mem_erase, ne_comm]
        · rw [if_neg hmem]
          refine ⟨fun h => ⟨h, ?_⟩, fun h => h.1⟩
          rintro rfl
          exact hmem h
      rw [List.foldl_cons, ih, herase, List.forall_mem_cons, and_assoc]

/-- A hash is still missed, or the ledger brought it in and the import has
    succeeded. -/
theorem LedgerStage.missed {s s' : MemoryStorage} {missedTxs : HashList}
    {response : LedgerResponse} {verifiedProposal : Option Block} {rest : SortedSet HashType}
    (h : LedgerStage cfg s missedTxs response verifiedProposal s' rest) {txHash : HashType}
    (hmem : txHash ∈ missedTxs) :
    txHash ∈ rest ∨
      (importDownloadedTxs cfg s cfg.nodeID response.fetchedTxs verifiedProposal).2 = true ∧
      s' = (importDownloadedTxs cfg s cfg.nodeID response.fetchedTxs verifiedProposal).1 ∧
      ∃ tx ∈ response.fetchedTxs, tx.hash = txHash := by
  cases h with
  | failed herror => exact Or.inl ((SortedSet.mem_ofList txHash missedTxs).mpr hmem)
  | rejected herror h => exact Or.inl ((SortedSet.mem_ofList txHash missedTxs).mpr hmem)
  | imported herror h =>
      rw [mem_foldl_eraseFetched, SortedSet.mem_ofList]
      -- Only what the ledger returned has been crossed off.
      by_cases hfetched : ∃ tx ∈ response.fetchedTxs, tx.hash = txHash
      · exact Or.inr ⟨h, rfl, hfetched⟩
      · exact Or.inl ⟨hmem, fun tx htx heq => hfetched ⟨tx, htx, heq⟩⟩

/-- The ledger stage calls back only when nothing is missed any more. -/
theorem onGetMissedTxsFromLedger_stage (s : MemoryStorage) (missedTxs : HashList)
    (response : LedgerResponse) (verifiedProposal : Option Block) (onVerifyFinished : Bool) :
    LedgerStage cfg s missedTxs response verifiedProposal
        (onGetMissedTxsFromLedger cfg s (SortedSet.ofList missedTxs) response verifiedProposal
          onVerifyFinished).1
        (onGetMissedTxsFromLedger cfg s (SortedSet.ofList missedTxs) response verifiedProposal
          onVerifyFinished).2.1 ∧
      ∀ r ∈ (onGetMissedTxsFromLedger cfg s (SortedSet.ofList missedTxs) response verifiedProposal
          onVerifyFinished).2.2,
        (onGetMissedTxsFromLedger cfg s (SortedSet.ofList missedTxs) response verifiedProposal
          onVerifyFinished).2.1.size = 0 ∧
        r = ⟨none, true, (onGetMissedTxsFromLedger cfg s (SortedSet.ofList missedTxs) response
          verifiedProposal onVerifyFinished).1⟩ := by
  unfold onGetMissedTxsFromLedger
  -- The three outcomes in the order of the source: an error, a failed import, a
  -- success.
  cases herror : response.error with
  | some error =>
      refine ⟨LedgerStage.failed ?_, fun _ h => absurd h List.not_mem_nil⟩
      rw [herror]
      exact Option.some_ne_none error
  | none =>
      simp only
      cases hret : (importDownloadedTxs cfg s cfg.nodeID response.fetchedTxs
          verifiedProposal).2 with
      | false =>
          -- A failed import crosses nothing off.
          rw [Bool.not_false, if_pos rfl]
          exact ⟨LedgerStage.rejected herror hret, fun _ h => absurd h List.not_mem_nil⟩
      | true =>
          rw [Bool.not_true, if_neg Bool.false_ne_true]
          split
          · rename_i hall
            rw [Bool.and_eq_true, decide_eq_true_eq] at hall
            exact ⟨LedgerStage.imported herror hret, fun r hr => ⟨hall.1, List.mem_singleton.mp hr⟩⟩
          · exact ⟨LedgerStage.imported herror hret, fun _ h => absurd h List.not_mem_nil⟩

/-- The peer stage fails before the answer has any effect that the response
    could see, or the response is the verdict on the answer. -/
theorem requestMissedTxsFromPeer_response (s : MemoryStorage) (node : NodeID)
    {missedTxs : HashList} (hmissed : ¬ missedTxs.length = 0) (verifiedProposal : Option Block)
    (onVerifyFinished : Bool) (frontService : NodeID → HashList → FrontResponse)
    {response : VerifyResponse}
    (hresponse : response ∈ (requestMissedTxsFromPeer cfg s node missedTxs verifiedProposal
      onVerifyFinished frontService).2) :
    (∃ error, response = ⟨some error, false, s⟩) ∨
      ∃ txs, Answers cfg (frontService node missedTxs) txs ∧
        response = answered missedTxs txs (importDownloadedTxs cfg s
          (frontService node missedTxs).nodeID txs verifiedProposal) ∧
        (requestMissedTxsFromPeer cfg s node missedTxs verifiedProposal onVerifyFinished
          frontService).1 = (importDownloadedTxs cfg s (frontService node missedTxs).nodeID txs
          verifiedProposal).1 := by
  have hnonempty : ¬ (decide (missedTxs.length = 0) && onVerifyFinished) = true := by
    rw [decide_eq_false hmissed, Bool.false_and]
    exact Bool.false_ne_true
  -- What the callback is told is what the verification of the answer returns.
  have hanswered : ∀ s' responses, verifyFetchedTxs cfg s (frontService node missedTxs) missedTxs
      verifiedProposal = some (s', responses) →
      requestMissedTxsFromPeer cfg s node missedTxs verifiedProposal onVerifyFinished frontService
        = (s', if onVerifyFinished then responses else []) := by
    intro s' responses h
    unfold requestMissedTxsFromPeer
    rw [if_neg hnonempty, h]
  -- Without a callback there is no response at all.
  have hsingle : ∀ {r : VerifyResponse},
      response ∈ (if onVerifyFinished then [r] else []) → response = r := by
    intro r hr
    cases onVerifyFinished with
    | false => exact absurd hr List.not_mem_nil
    | true => exact List.mem_singleton.mp hr
  by_cases hanswers : ∃ txs, Answers cfg (frontService node missedTxs) txs
  · rcases hanswers with ⟨txs, hanswers⟩
    have hfetched := verifyFetchedTxs_of_answers cfg s hanswers missedTxs verifiedProposal
    -- The verdict on a wrong size goes out before the import.
    by_cases hlen : missedTxs.length ≠ txs.length
    · rw [if_pos hlen] at hfetched
      rw [hanswered _ _ hfetched] at hresponse
      exact Or.inl ⟨_, hsingle hresponse⟩
    · rw [if_neg hlen] at hfetched
      rw [hanswered _ _ hfetched] at hresponse ⊢
      exact Or.inr ⟨txs, hanswers, hsingle hresponse, rfl⟩
  · have hno : ∀ txs, ¬ Answers cfg (frontService node missedTxs) txs :=
      fun txs h => hanswers ⟨txs, h⟩
    rcases verifyFetchedTxs_of_not_answers cfg s hno missedTxs verifiedProposal with
      h | ⟨error, h⟩
    · -- The exception is swallowed, and nobody is called back.
      unfold requestMissedTxsFromPeer at hresponse
      rw [if_neg hnonempty, h] at hresponse
      exact absurd hresponse List.not_mem_nil
    · rw [hanswered _ _ h] at hresponse
      exact Or.inl ⟨error, hsingle hresponse⟩

/-- Where a response comes from, and the pool that the request leaves behind.
    The ledger brought in all that was missed; or the request failed before the
    peer's answer had any effect; or it is the verdict on that answer. -/
theorem requestMissedTxs_response (s : MemoryStorage) (generatedNodeID : Option NodeID)
    (missedTxs : HashList) (verifiedProposal : Option Block) (onVerifyFinished : Bool)
    (ledger : HashList → LedgerResponse) (frontService : NodeID → HashList → FrontResponse)
    {response : VerifyResponse}
    (hresponse : response ∈ (requestMissedTxs cfg s generatedNodeID missedTxs verifiedProposal
      onVerifyFinished ledger frontService).2) :
    ∃ s₁ rest, LedgerStage cfg s missedTxs (ledger missedTxs) verifiedProposal s₁ rest ∧
      (((∀ txHash, ¬ txHash ∈ rest) ∧ response = ⟨none, true, s₁⟩ ∧
          (requestMissedTxs cfg s generatedNodeID missedTxs verifiedProposal onVerifyFinished
            ledger frontService).1 = s₁) ∨
        (∃ error, response = ⟨some error, false, s₁⟩) ∨
        ∃ node txs, generatedNodeID = some node ∧
          Answers cfg (frontService node rest.toList) txs ∧
          response = answered rest.toList txs (importDownloadedTxs cfg s₁
            (frontService node rest.toList).nodeID txs verifiedProposal) ∧
          (requestMissedTxs cfg s generatedNodeID missedTxs verifiedProposal onVerifyFinished
            ledger frontService).1 = (importDownloadedTxs cfg s₁
            (frontService node rest.toList).nodeID txs verifiedProposal).1) := by
  have hstage := onGetMissedTxsFromLedger_stage cfg s missedTxs (ledger missedTxs)
    verifiedProposal onVerifyFinished
  unfold requestMissedTxs at hresponse ⊢
  simp only at hresponse ⊢
  -- Of the first stage only its outcome matters from here on.
  generalize onGetMissedTxsFromLedger cfg s (SortedSet.ofList missedTxs) (ledger missedTxs)
    verifiedProposal onVerifyFinished = stage at hstage hresponse ⊢
  rcases stage with ⟨s₁, rest, responses⟩
  simp only at hstage hresponse ⊢
  rcases hstage with ⟨hstage, hfirst⟩
  refine ⟨s₁, rest, hstage, ?_⟩
  by_cases hsize : rest.size = 0
  · -- Nothing is missed any more, and the ledger stage has said so.
    rw [if_pos hsize] at hresponse ⊢
    exact Or.inl ⟨(SortedSet.size_eq_zero_iff rest).mp hsize, (hfirst response hresponse).2, rfl⟩
  · rw [if_neg hsize] at hresponse ⊢
    -- The ledger stage has not called back, so the response is from the second stage.
    have hsecond : ∀ {more : List VerifyResponse}, response ∈ responses ++ more →
        response ∈ more := by
      intro more h
      exact (List.mem_append.mp h).resolve_left (fun hc => hsize (hfirst response hc).1)
    refine Or.inr ?_
    cases generatedNodeID with
    | none =>
        have hmissing := hsecond hresponse
        cases onVerifyFinished with
        | false => exact absurd hmissing List.not_mem_nil
        | true => exact Or.inl ⟨_, List.mem_singleton.mp hmissing⟩
    | some node =>
        rcases requestMissedTxsFromPeer_response cfg s₁ node hsize verifiedProposal
          onVerifyFinished frontService (hsecond hresponse) with
          herror | ⟨txs, hanswers, heq, hpool⟩
        · exact Or.inl herror
        · exact Or.inr ⟨node, txs, rfl, hanswers, heq, hpool⟩

/-- A verdict on an answer is positive when the import succeeded and the answer
    is what was asked for. The hashes are compared in their order. -/
theorem answered_result_iff (missedTxs : HashList) (txs : List TxData)
    (imported : MemoryStorage × Bool) :
    (answered missedTxs txs imported).result = true ↔
      imported.2 = true ∧ missedTxs = txs.map (fun tx => tx.hash) := by
  unfold answered
  cases imported.2 with
  | false =>
      rw [Bool.not_false, if_pos rfl]
      exact iff_of_false Bool.false_ne_true (fun h => Bool.false_ne_true h.1)
  | true =>
      rw [Bool.not_true, if_neg Bool.false_ne_true]
      by_cases hsame : missedTxs = txs.map (fun tx => tx.hash)
      · rw [if_neg (not_not.mpr hsame)]
        exact iff_of_true rfl ⟨rfl, hsame⟩
      · rw [if_pos hsame]
        exact iff_of_false Bool.false_ne_true (fun h => hsame h.2)

/-- The pool that a verdict is given with is the one after the import, whatever
    the verdict. -/
@[simp] theorem answered_pool (missedTxs : HashList) (txs : List TxData)
    (imported : MemoryStorage × Bool) : (answered missedTxs txs imported).pool = imported.1 := by
  unfold answered
  split
  · rfl
  · split
    · rfl
    · rfl

/-! ### Requests for a proposal with a header -/

/-- With a header the ledger stage seals what it takes off the list. What it has
    sealed in an import that failed is sealed too, but stays on the list. -/
theorem LedgerStage.sealsFor {s s' : MemoryStorage} {missedTxs : HashList}
    {response : LedgerResponse} {verifiedProposal : Option Block} {rest : SortedSet HashType}
    (h : LedgerStage cfg s missedTxs response verifiedProposal s' rest) {header : BlockHeader}
    (hheader : proposalHeader verifiedProposal = some header) :
    ∃ hashes, SealsFor header hashes s s' ∧
      ∀ txHash ∈ missedTxs, txHash ∈ rest ∨ txHash ∈ hashes := by
  rcases importDownloadedTxs_sealsFor cfg s cfg.nodeID response.fetchedTxs hheader with
    ⟨hashes, hseals, hall⟩
  have hchain : ∀ txHash ∈ missedTxs, txHash ∈ rest ∨ txHash ∈ hashes := by
    intro txHash hmem
    rcases h.missed cfg hmem with hrest | ⟨hsuccess, _, tx, htx, rfl⟩
    · exact Or.inl hrest
    · rw [hall hsuccess]
      exact Or.inr (List.mem_map_of_mem htx)
  cases h with
  | failed _ =>
      exact ⟨[], SealsFor.refl header s, fun txHash hmem =>
        Or.inl ((SortedSet.mem_ofList txHash missedTxs).mpr hmem)⟩
  | rejected _ _ => exact ⟨hashes, hseals, hchain⟩
  | imported _ _ => exact ⟨hashes, hseals, hchain⟩

/-- A request that succeeds for a proposal with a header has sealed every hash
    that was missed, and it is done with the pool when it says so. -/
theorem requestMissedTxs_sealsFor (s : MemoryStorage) (generatedNodeID : Option NodeID)
    (missedTxs : HashList) {verifiedProposal : Option Block} {header : BlockHeader}
    (hheader : proposalHeader verifiedProposal = some header) (onVerifyFinished : Bool)
    (ledger : HashList → LedgerResponse) (frontService : NodeID → HashList → FrontResponse)
    {response : VerifyResponse}
    (hresponse : response ∈ (requestMissedTxs cfg s generatedNodeID missedTxs verifiedProposal
      onVerifyFinished ledger frontService).2) :
    ∃ hashes, SealsFor header hashes s response.pool ∧
      (response.result = true → (∀ txHash ∈ missedTxs, txHash ∈ hashes) ∧
        (requestMissedTxs cfg s generatedNodeID missedTxs verifiedProposal onVerifyFinished ledger
          frontService).1 = response.pool) := by
  rcases requestMissedTxs_response cfg s generatedNodeID missedTxs verifiedProposal
    onVerifyFinished ledger frontService hresponse with ⟨s₁, rest, hstage, hcases⟩
  rcases hstage.sealsFor cfg hheader with ⟨hashes, hseals, hmissed⟩
  rcases hcases with ⟨hnone, rfl, hpool⟩ | ⟨error, rfl⟩ | ⟨node, txs, _, _, rfl, hpool⟩
  · -- The ledger brought in everything, or the request failed, or the peer
    -- answered.
    refine ⟨hashes, hseals, fun _ => ⟨fun txHash hmem => ?_, hpool⟩⟩
    exact (hmissed txHash hmem).resolve_left (hnone txHash)
  · exact ⟨hashes, hseals, fun h => absurd h Bool.false_ne_true⟩
  · rw [answered_pool, answered_result_iff]
    rcases importDownloadedTxs_sealsFor cfg s₁ (frontService node rest.toList).nodeID txs
      hheader with ⟨more, hmore, hall⟩
    -- The second import does not undo the first, so both sets of hashes hold.
    refine ⟨hashes ++ more, hseals.trans hmore, fun hresult => ⟨fun txHash hmem => ?_, hpool⟩⟩
    rw [List.mem_append]
    rcases hmissed txHash hmem with hrest | hfirst
    · rw [hall hresult.1, ← hresult.2]
      exact Or.inr hrest
    · exact Or.inl hfirst

/-- A fetched proposal leaves its transactions sealed for it. When the request
    reports success, every hash that was missed is in the pool under the seal
    of the proposal, and no entry that another proposal holds has changed. -/
theorem requestMissedTxs_seals (cfg : TxPoolConfig) (s : MemoryStorage)
    (generatedNodeID : Option NodeID) (missedTxs : HashList) (block : Block)
    (header : BlockHeader) (hheader : block.blockHeader = some header) (onVerifyFinished : Bool)
    (ledger : HashList → LedgerResponse) (frontService : NodeID → HashList → FrontResponse)
    (response : VerifyResponse)
    (hresponse : response ∈ (requestMissedTxs cfg s generatedNodeID missedTxs (some block)
      onVerifyFinished ledger frontService).2)
    (hverdict : response.error = none ∧ response.result = true) :
    (∀ txHash ∈ missedTxs, ∃ entry, response.pool.txsTable.find? txHash = some entry ∧
      entry.sealed = true ∧ entry.batchId = header.number ∧ entry.batchHash = header.hash) ∧
    (∀ txHash entry, s.txsTable.find? txHash = some entry → entry.sealed = true →
      entry.batchHash ≠ 0 → entry.batchHash ≠ header.hash →
      response.pool.txsTable.find? txHash = some entry) ∧
    (requestMissedTxs cfg s generatedNodeID missedTxs (some block) onVerifyFinished ledger
      frontService).1 = response.pool := by
  have hproposal : proposalHeader (some block) = some header := hheader
  rcases requestMissedTxs_sealsFor cfg s generatedNodeID missedTxs hproposal onVerifyFinished
    ledger frontService hresponse with ⟨hashes, hseals, hsuccess⟩
  rcases hsuccess hverdict.2 with ⟨hmissed, hpool⟩
  -- The seal is that of the proposal, and what another proposal holds is left to
  -- it.
  refine ⟨fun txHash hmem => ?_, fun txHash entry hfind hsealed hzero hother => ?_, hpool⟩
  · rcases hseals.holds txHash (hmissed txHash hmem) with ⟨entry, hfind, hseal⟩
    exact ⟨entry, hfind, congrArg (fun x => x.1) hseal, congrArg (fun x => x.2.1) hseal,
      congrArg (fun x => x.2.2) hseal⟩
  · exact hseals.find?_of_sealedForOther hfind ⟨hsealed, hzero, fun hsame => hother hsame.2⟩

/-- The ledger has the transactions asked for, and leaves the rest to the peer. -/
theorem requestMissedTxs_seals_exampleRequest :
    let request := requestMissedTxs clearConfig examplePool (some 1) [5, 3]
      (some (exampleBlock [0, 5, 3])) true (fun _ => ⟨none, [exampleTx 3 7 1]⟩) examplePeer
    ∃ response ∈ request.2, ∀ txHash ∈ ([5, 3] : HashList), ∃ entry,
      response.pool.txsTable.find? txHash = some entry ∧
        entry.sealed = true ∧ entry.batchId = 1 ∧ entry.batchHash = 9 := by
  intro request
  have hverdicts : request.2.map (fun response => (response.error, response.result))
      = [(none, true)] := by decide
  cases hrequest : request.2 with
  | nil =>
      rw [hrequest] at hverdicts
      exact absurd hverdicts (by decide)
  | cons response more =>
      have hmem : response ∈ request.2 := by
        rw [hrequest]
        exact List.mem_cons_self
      rw [hrequest, List.map_cons, List.cons_eq_cons, Prod.mk.injEq] at hverdicts
      exact ⟨response, List.mem_cons_self, (requestMissedTxs_seals clearConfig examplePool (some 1)
        [5, 3] (exampleBlock [0, 5, 3]) ⟨1, 9⟩ (by decide) true
        (fun _ => ⟨none, [exampleTx 3 7 1]⟩) examplePeer response hmem hverdicts.1).1⟩

/-! ### Requests without a header -/

/-- The hashes that the ledger's answer leaves for a peer: those that were
    missed, in ascending order, without what it has returned. After an error it
    has returned nothing, whatever list comes with the error. -/
def leftByLedger (missedTxs : HashList) (response : LedgerResponse) : SortedSet HashType :=
  match response.error with
  | some _ => SortedSet.ofList missedTxs
  | none => response.fetchedTxs.foldl eraseFetched (SortedSet.ofList missedTxs)

/-- The content came from the ledger, which was asked for all that was missed,
    or in the peer's answer to the request for what the ledger left. -/
def Returned (generatedNodeID : Option NodeID) (missedTxs : HashList)
    (ledger : HashList → LedgerResponse) (frontService : NodeID → HashList → FrontResponse)
    (tx : TxData) : Prop :=
  ((ledger missedTxs).error = none ∧ tx ∈ (ledger missedTxs).fetchedTxs) ∨
    ∃ node txs, generatedNodeID = some node ∧
      Answers cfg (frontService node (leftByLedger missedTxs (ledger missedTxs)).toList) txs ∧
      tx ∈ txs

/-- Without a header the ledger stage refuses whatever it takes off the list.
    Its import does not fail then, so what it leaves can be told from the answer
    alone. -/
theorem LedgerStage.grows {s s' : MemoryStorage} {missedTxs : HashList}
    {response : LedgerResponse} {verifiedProposal : Option Block} {rest : SortedSet HashType}
    (h : LedgerStage cfg s missedTxs response verifiedProposal s' rest)
    (hheader : proposalHeader verifiedProposal = none) :
    Grows s s' ∧ rest = leftByLedger missedTxs response ∧
      ∀ txHash ∈ missedTxs, txHash ∈ rest ∨
        (response.error = none ∧
          ∃ tx ∈ response.fetchedTxs, tx.hash = txHash ∧ Refused cfg s' tx) := by
  rcases importDownloadedTxs_normal cfg s cfg.nodeID response.fetchedTxs hheader with
    ⟨hsucceeds, hgrows, hrefused⟩
  have hmissed := fun txHash (hmem : txHash ∈ missedTxs) => h.missed cfg hmem
  cases h with
  | failed herror =>
      rcases Option.ne_none_iff_exists'.mp herror with ⟨error, hsome⟩
      refine ⟨Grows.refl s, by rw [leftByLedger, hsome], fun txHash hmem => Or.inl ?_⟩
      exact (SortedSet.mem_ofList txHash missedTxs).mpr hmem
  -- Without a header no import fails.
  | rejected herror hfails =>
      rw [hsucceeds] at hfails
      exact absurd hfails.symm Bool.false_ne_true
  | imported herror _ =>
      refine ⟨hgrows, by rw [leftByLedger, herror], fun txHash hmem => ?_⟩
      rcases hmissed txHash hmem with hrest | ⟨_, _, tx, htx, hhash⟩
      · exact Or.inl hrest
      · exact Or.inr ⟨herror, tx, htx, hhash, hrefused tx htx⟩

/-- A request that succeeds for a proposal without a header has been returned
    every transaction that was missed, and each is refused now: it is in the
    pool, or it could not be imported. -/
theorem requestMissedTxs_grows (s : MemoryStorage) (generatedNodeID : Option NodeID)
    (missedTxs : HashList) {verifiedProposal : Option Block}
    (hheader : proposalHeader verifiedProposal = none) (onVerifyFinished : Bool)
    (ledger : HashList → LedgerResponse) (frontService : NodeID → HashList → FrontResponse)
    {response : VerifyResponse}
    (hresponse : response ∈ (requestMissedTxs cfg s generatedNodeID missedTxs verifiedProposal
      onVerifyFinished ledger frontService).2) :
    Grows s response.pool ∧
      (response.result = true → ∀ txHash ∈ missedTxs, ∃ tx, tx.hash = txHash ∧
        Returned cfg generatedNodeID missedTxs ledger frontService tx ∧
        Refused cfg response.pool tx) := by
  rcases requestMissedTxs_response cfg s generatedNodeID missedTxs verifiedProposal
    onVerifyFinished ledger frontService hresponse with ⟨s₁, rest, hstage, hcases⟩
  rcases hstage.grows cfg hheader with ⟨hgrows, rfl, hmissed⟩
  rcases hcases with ⟨hnone, rfl, _⟩ | ⟨error, rfl⟩ | ⟨node, txs, hnode, hanswers, rfl, _⟩
  · -- The ledger has returned all of it, and the pool has had its chance to take it
    -- in.
    refine ⟨hgrows, fun _ txHash hmem => ?_⟩
    rcases (hmissed txHash hmem).resolve_left (hnone txHash) with
      ⟨herror, tx, htx, hhash, hrefused⟩
    exact ⟨tx, hhash, Or.inl ⟨herror, htx⟩, hrefused⟩
  · exact ⟨hgrows, fun h => absurd h Bool.false_ne_true⟩
  · rw [answered_pool, answered_result_iff]
    rcases importDownloadedTxs_normal cfg s₁ (frontService node
      (leftByLedger missedTxs (ledger missedTxs)).toList).nodeID txs hheader with
      ⟨_, hmore, hrefused⟩
    -- What the ledger did not return, the peer did: its answer is the request.
    refine ⟨hgrows.trans hmore, fun hresult txHash hmem => ?_⟩
    rcases hmissed txHash hmem with hrest | ⟨herror, tx, htx, hhash, hfirst⟩
    · have hreturned : txHash ∈ txs.map (fun tx => tx.hash) := by
        rw [← hresult.2]
        exact hrest
      rcases List.mem_map.mp hreturned with ⟨tx, htx, hhash⟩
      exact ⟨tx, hhash, Or.inr ⟨node, txs, hnode, hanswers, htx⟩, hrefused tx htx⟩
    · exact ⟨tx, hhash, Or.inl ⟨herror, htx⟩, hfirst.grows cfg hmore⟩

end TransactionSync

namespace TxPool

open MemoryStorage TransactionSync

/-! ### A positive verdict -/

/-- What was in the pool when the request began is there when it responds. -/
theorem contains_of_response (cfg : TxPoolConfig) (s : MemoryStorage)
    (generatedNodeID : Option NodeID) (missedTxs : HashList) (verifiedProposal : Option Block)
    (onVerifyFinished : Bool) (ledger : HashList → LedgerResponse)
    (frontService : NodeID → HashList → FrontResponse) {response : VerifyResponse}
    (hresponse : response ∈ (requestMissedTxs cfg s generatedNodeID missedTxs verifiedProposal
      onVerifyFinished ledger frontService).2) {txHash : HashType}
    (hmem : s.txsTable.contains txHash = true) :
    response.pool.txsTable.contains txHash = true := by
  -- Entries are added or sealed on the way, and none leaves.
  cases hheader : proposalHeader verifiedProposal with
  | none =>
      exact (requestMissedTxs_grows cfg s generatedNodeID missedTxs hheader onVerifyFinished ledger
        frontService hresponse).1.contains hmem
  | some header =>
      rcases requestMissedTxs_sealsFor cfg s generatedNodeID missedTxs hheader onVerifyFinished
        ledger frontService hresponse with ⟨hashes, hseals, _⟩
      exact hseals.contains (Or.inr hmem)

/-- The hashes that a proposal misses are those of its transactions that are not
    pooled. -/
theorem mem_batchVerifyProposal (s : MemoryStorage) (block : Block) (txHash : HashType) :
    txHash ∈ s.batchVerifyProposal block ↔
      txHash ∈ block.transactionsHash ∧ s.txsTable.contains txHash = false := by
  rw [batchVerifyProposal, List.mem_filter, Bool.not_eq_true']

/-- All transactions were in the pool, or the verdict is a response to the
    request for the others. -/
theorem verifyBlock_response (cfg : TxPoolConfig) (s : MemoryStorage)
    (generatedNodeID : Option NodeID) (block : Block) (ledger : HashList → LedgerResponse)
    (frontService : NodeID → HashList → FrontResponse) {response : VerifyResponse}
    (hresponse : response ∈ (verifyBlock cfg s generatedNodeID block ledger frontService).2) :
    (s.batchVerifyProposal block = [] ∧ response = ⟨none, true, s⟩) ∨
      ∃ r ∈ (requestMissedTxs cfg s generatedNodeID (s.batchVerifyProposal block) (some block) true
          ledger frontService).2,
        response = onVerifyFinishedWrapper (s.batchVerifyProposal block) r := by
  unfold verifyBlock at hresponse
  simp only at hresponse
  by_cases hall : (s.batchVerifyProposal block).length = 0
  · -- With nothing missed the callback is called at once.
    have hnil := List.length_eq_zero_iff.mp hall
    rw [if_pos hall, List.mem_singleton, hnil] at hresponse
    exact Or.inl ⟨hnil, hresponse⟩
  · rw [if_neg hall] at hresponse
    rcases List.mem_map.mp hresponse with ⟨r, hr, heq⟩
    exact Or.inr ⟨r, hr, heq.symm⟩

/-- The wrapper turns a verdict positive only when the pool has all that was
    missed. It looks a second time where the verdict is that transactions are
    missing. -/
theorem onVerifyFinishedWrapper_result {missedTxs : HashList} {response : VerifyResponse}
    (h : (onVerifyFinishedWrapper missedTxs response).result = true) :
    response.result = true ∨
      ∀ txHash ∈ missedTxs, response.pool.txsTable.contains txHash = true := by
  unfold onVerifyFinishedWrapper at h
  split at h
  · simp only at h
    split at h
    · exact Or.inr (List.all_eq_true.mp h)
    · exact Or.inl h
  · exact Or.inl h

/-- The pool is the one that the verdict was given with. -/
@[simp] theorem onVerifyFinishedWrapper_pool (missedTxs : HashList) (response : VerifyResponse) :
    (onVerifyFinishedWrapper missedTxs response).pool = response.pool := by
  unfold onVerifyFinishedWrapper
  split
  · rfl
  · rfl

/-- A positive verdict means the transactions are there, unless the block has
    no header. Then a transaction may be missing that the ledger or the peer
    did return, but that the pool refuses. -/
theorem verified_contains (cfg : TxPoolConfig) (s : MemoryStorage)
    (generatedNodeID : Option NodeID) (data : Bytes) (block : Block)
    (hblock : cfg.framework.createBlock data = some block) (ledger : HashList → LedgerResponse)
    (frontService : NodeID → HashList → FrontResponse)
    (result : MemoryStorage × List VerifyResponse)
    (hverify : asyncVerifyBlock cfg s generatedNodeID data ledger frontService = some result)
    (response : VerifyResponse) (hresponse : response ∈ result.2)
    (hverdict : response.error = none ∧ response.result = true) (txHash : HashType)
    (hmem : txHash ∈ block.transactionsHash) :
    response.pool.txsTable.contains txHash = true ∨
      (block.blockHeader = none ∧ ∃ tx, tx.hash = txHash ∧
        Returned cfg generatedNodeID (s.batchVerifyProposal block) ledger frontService tx ∧
        Refused cfg response.pool tx) := by
  rw [asyncVerifyBlock, hblock, Option.map_some, Option.some.injEq] at hverify
  have hfrom : response ∈ (verifyBlock cfg s generatedNodeID block ledger frontService).2 := by
    rw [hverify]
    exact hresponse
  rcases verifyBlock_response cfg s generatedNodeID block ledger frontService hfrom with
    ⟨hall, rfl⟩ | ⟨r, hr, rfl⟩
  · -- Nothing was missed.
    refine Or.inl ?_
    by_contra hmissing
    have hmissed := (mem_batchVerifyProposal s block txHash).mpr
      ⟨hmem, Bool.not_eq_true _ |>.mp hmissing⟩
    rw [hall] at hmissed
    exact absurd hmissed List.not_mem_nil
  · rw [onVerifyFinishedWrapper_pool]
    by_cases hpooled : s.txsTable.contains txHash = true
    · exact Or.inl (contains_of_response cfg s generatedNodeID _ _ _ ledger frontService hr hpooled)
    · have hmissed := (mem_batchVerifyProposal s block txHash).mpr
        ⟨hmem, Bool.not_eq_true _ |>.mp hpooled⟩
      rcases onVerifyFinishedWrapper_result hverdict.2 with hresult | hrechecked
      · cases hheader : block.blockHeader with
        | none =>
            have hproposal : proposalHeader (some block) = none := hheader
            have hgrows := requestMissedTxs_grows cfg s generatedNodeID
              (s.batchVerifyProposal block) hproposal true ledger frontService hr
            exact Or.inr ⟨rfl, hgrows.2 hresult txHash hmissed⟩
        -- With a header the request has sealed it, so it is in the pool.
        | some header =>
            have hproposal : proposalHeader (some block) = some header := hheader
            rcases requestMissedTxs_sealsFor cfg s generatedNodeID (s.batchVerifyProposal block)
              hproposal true ledger frontService hr with ⟨hashes, hseals, hsuccess⟩
            exact Or.inl (hseals.contains (Or.inl ((hsuccess hresult).1 txHash hmissed)))
      · -- The second look into the pool found it.
        exact Or.inl (hrechecked txHash hmissed)

/-- What the verify callback is told, in the order of its invocations. -/
def verdict (result : Option (MemoryStorage × List VerifyResponse)) :
    Option (List (Option Error × Bool)) :=
  result.map (fun r => r.2.map (fun response => (response.error, response.result)))

/-- With a header, the transaction is there. -/
theorem verified_contains_exampleBlock :
    ∃ result, asyncVerifyBlock clearConfig examplePool (some 1) [0, 5] (fun _ => ⟨none, []⟩)
        examplePeer = some result ∧
      ∃ response ∈ result.2, response.pool.txsTable.contains 5 = true := by
  have hverdict : verdict (asyncVerifyBlock clearConfig examplePool (some 1) [0, 5]
      (fun _ => ⟨none, []⟩) examplePeer) = some [(none, true)] := by decide
  cases hverify : asyncVerifyBlock clearConfig examplePool (some 1) [0, 5] (fun _ => ⟨none, []⟩)
      examplePeer with
  | none =>
      rw [hverify] at hverdict
      exact absurd hverdict (by decide)
  | some result =>
      rw [hverify, verdict, Option.map_some, Option.some.injEq] at hverdict
      rcases List.map_eq_singleton_iff.mp hverdict with ⟨response, hresponses, hpositive⟩
      have hmem : response ∈ result.2 := by
        rw [hresponses]
        exact List.mem_singleton.mpr rfl
      rcases verified_contains clearConfig examplePool (some 1) [0, 5] (exampleBlock [0, 5]) rfl
        (fun _ => ⟨none, []⟩) examplePeer result hverify response hmem
        ⟨congrArg (fun x => x.1) hpositive, congrArg (fun x => x.2) hpositive⟩ 5 (by decide) with
        hpooled | ⟨hheader, _⟩
      · exact ⟨result, rfl, response, hmem, hpooled⟩
      · exact absurd hheader (by decide)

/-- Without a header, a transaction with a bad signature is not imported, and
    the block is accepted all the same. -/
theorem verified_contains_counterexample :
    (asyncVerifyBlock
        { clearConfig with framework := { clearConfig.framework with verify := fun _ => false } }
        examplePool (some 1) [5] (fun _ => ⟨none, []⟩) examplePeer).map
      (fun result => result.2.map (fun response =>
        (response.error, response.result, response.pool.txsTable.contains 5)))
      = some [(none, true, false)] ∧
    (exampleBlock [5]).transactionsHash = [5] := by
  decide

/-! ### The verdict and the pool -/

/-- The pool without some of its entries. Their nonces stay reserved, and
    besides the table only the counter of sealed transactions changes. -/
def without (s : MemoryStorage) (hashes : HashList) : MemoryStorage :=
  hashes.foldl (fun s txHash => (s.removeWithoutLock txHash).1) s

/-- A peer that answers every request for some of the hashes with their
    transactions. -/
def Serves (cfg : TxPoolConfig) (frontService : NodeID → HashList → FrontResponse)
    (node : NodeID) (content : HashType → TxData) (hashes : HashList) : Prop :=
  ∀ requested, (∀ txHash ∈ requested, txHash ∈ hashes) →
    Answers cfg (frontService node requested) (requested.map content)

/-- Some transaction that the pool misses has its nonce on chain. It will be
    fetched and submitted, and then rejected. -/
def MissesOnChain (s : MemoryStorage) (content : HashType → TxData) (hashes : HashList) : Prop :=
  ∃ txHash ∈ hashes, s.txsTable.contains txHash = false ∧
    (content txHash).nonce ∈ s.ledgerNonceChecker.nonceCache

instance (s : MemoryStorage) (content : HashType → TxData) (hashes : HashList) :
    Decidable (MissesOnChain s content hashes) :=
  inferInstanceAs (Decidable (∃ txHash ∈ hashes, _ ∧ _))

/-- A removal takes one hash out and leaves the ledger checker alone. -/
theorem removeWithoutLock_fst (s : MemoryStorage) (left txHash : HashType) :
    ((s.removeWithoutLock left).1.txsTable.contains txHash = true ↔
      s.txsTable.contains txHash = true ∧ left ≠ txHash) ∧
    (s.removeWithoutLock left).1.ledgerNonceChecker = s.ledgerNonceChecker := by
  unfold removeWithoutLock
  cases hfind : s.txsTable.find? left with
  | none =>
      refine ⟨⟨fun h => ⟨h, ?_⟩, fun h => h.1⟩, rfl⟩
      -- A hash that is not pooled is not there afterwards either.
      rintro rfl
      rw [(s.txsTable.contains_eq_false_iff left).mpr hfind] at h
      exact Bool.false_ne_true h
  | some tx =>
      refine ⟨?_, rfl⟩
      simp only [KeyedTable.contains, KeyedTable.find?_erase]
      by_cases heq : left = txHash
      · rw [if_pos heq]
        exact iff_of_false Bool.false_ne_true (fun h => h.2 heq)
      · rw [if_neg heq]
        exact ⟨fun h => ⟨h, heq⟩, fun h => h.1⟩

/-- So of the entries those stay that are not deleted. -/
theorem without_contains (hashes : HashList) (txHash : HashType) :
    ∀ s : MemoryStorage, ((without s hashes).txsTable.contains txHash = true ↔
        s.txsTable.contains txHash = true ∧ ¬ txHash ∈ hashes) ∧
      (without s hashes).ledgerNonceChecker = s.ledgerNonceChecker := by
  unfold without
  induction hashes with
  | nil => exact fun s => ⟨⟨fun h => ⟨h, List.not_mem_nil⟩, fun h => h.1⟩, rfl⟩
  | cons left hashes ih =>
      intro s
      have hleft := removeWithoutLock_fst s left txHash
      rcases ih (s.removeWithoutLock left).1 with ⟨htable, hledger⟩
      rw [List.foldl_cons, htable, hledger, hleft.1, hleft.2, List.mem_cons, not_or, and_assoc,
        ne_comm]
      exact ⟨Iff.rfl, rfl⟩

/-- An answer of the transactions asked for: the verdict is that of the import,
    and the comparison of the hashes has nothing to find. -/
theorem answered_of_same {missedTxs : HashList} {txs : List TxData}
    (hsame : missedTxs = txs.map (fun tx => tx.hash)) (imported : MemoryStorage × Bool) :
    answered missedTxs txs imported =
      if imported.2 then ⟨none, true, imported.1⟩
      else ⟨some ⟨.txsSignatureVerifyFailed,
        "invalid transaction for invalid signature or nonce or blockLimit"⟩, false,
        imported.1⟩ := by
  unfold answered
  rw [if_neg (not_not.mpr hsame)]
  cases imported.2 with
  | false => rfl
  | true => rfl

/-- With an empty answer of the ledger, a request is the peer's answer to all
    that is missed. -/
theorem requestMissedTxs_of_answers (cfg : TxPoolConfig) (s : MemoryStorage) (node : NodeID)
    {missedTxs : HashList} (hmissed : missedTxs ≠ []) (verifiedProposal : Option Block)
    (frontService : NodeID → HashList → FrontResponse) {txs : List TxData}
    (hanswers : Answers cfg (frontService node (SortedSet.ofList missedTxs).toList) txs)
    (hlen : (SortedSet.ofList missedTxs).toList.length = txs.length) :
    (requestMissedTxs cfg s (some node) missedTxs verifiedProposal true
        (fun _ => ⟨none, []⟩) frontService).2
      = [answered (SortedSet.ofList missedTxs).toList txs (importDownloadedTxs cfg s
          (frontService node (SortedSet.ofList missedTxs).toList).nodeID txs
          verifiedProposal)] := by
  have hsize : ¬ (SortedSet.ofList missedTxs).size = 0 := by
    intro hzero
    rw [SortedSet.size_eq_zero_iff] at hzero
    rcases List.exists_mem_of_ne_nil missedTxs hmissed with ⟨txHash, hmem⟩
    exact hzero txHash ((SortedSet.mem_ofList txHash missedTxs).mpr hmem)
  -- The empty answer imports nothing and crosses nothing off.
  have hledger : onGetMissedTxsFromLedger cfg s (SortedSet.ofList missedTxs) ⟨none, []⟩
      verifiedProposal true = (s, SortedSet.ofList missedTxs, []) := by
    simp only [onGetMissedTxsFromLedger, importDownloadedTxs, List.length_nil, if_true,
      Bool.not_true, Bool.false_eq_true, if_false, List.foldl_nil, hsize, decide_false,
      Bool.false_and]
  -- The early return for a request without hashes does not apply.
  have hpeer : ¬ (decide ((SortedSet.ofList missedTxs).toList.length = 0) && true) = true := by
    rw [Bool.and_true, decide_eq_true_eq]
    exact hsize
  unfold requestMissedTxs requestMissedTxsFromPeer
  simp only [hledger, if_neg hsize, if_neg hpeer, List.nil_append]
  rw [verifyFetchedTxs_of_answers cfg s hanswers, if_neg (not_not.mpr hlen)]
  rfl

/-- The transactions of a list of hashes have these hashes. -/
theorem map_hash_map_content {content : HashType → TxData} {requested : HashList}
    (hcontent : ∀ txHash ∈ requested, (content txHash).hash = txHash) :
    (requested.map content).map (fun tx => tx.hash) = requested := by
  rw [List.map_map]
  exact (List.map_congr_left hcontent).trans (List.map_id requested)

/-- An enforced import of transactions that the pool misses fails only for a
    nonce that is on chain. -/
theorem importDownloadedTxs_missing_iff (cfg : TxPoolConfig) (s : MemoryStorage)
    (fromNode : NodeID) {txs : List TxData} {verifiedProposal : Option Block}
    {header : BlockHeader} (hheader : proposalHeader verifiedProposal = some header)
    (hmissing : ∀ tx ∈ txs, s.txsTable.contains tx.hash = false)
    (hverify : ∀ tx ∈ txs, cfg.framework.verify tx = true) :
    (importDownloadedTxs cfg s fromNode txs verifiedProposal).2 = true ↔
      ∀ tx ∈ txs, ¬ tx.nonce ∈ s.ledgerNonceChecker.nonceCache := by
  have hverified : Verified cfg s txs := fun tx htx => Or.inr (hverify tx htx)
  have himport := (importDownloadedTxs_enforced cfg s fromNode txs hheader hverified).1
  rw [himport, List.all_eq_true]
  simp only [decide_eq_true_eq]
  refine forall₂_congr (fun tx htx => ⟨fun haccepted => haccepted.1, fun hfree => ⟨hfree, ?_⟩⟩)
  -- A transaction that the pool misses is in no other proposal's hands.
  intro entry hentry
  rw [(s.txsTable.contains_eq_false_iff tx.hash).mp (hmissing tx htx)] at hentry
  exact absurd hentry (Option.not_mem_none entry)

/-- With an empty answer of the ledger and an honest peer, a request succeeds
    unless a transaction that the pool misses has its nonce on chain. -/
theorem requestMissedTxs_of_serves (cfg : TxPoolConfig) (s : MemoryStorage) (node : NodeID)
    {block : Block} {header : BlockHeader} (content : HashType → TxData)
    (frontService : NodeID → HashList → FrontResponse)
    (hheader : block.blockHeader = some header)
    (hcontent : ∀ txHash ∈ block.transactionsHash,
      (content txHash).hash = txHash ∧ cfg.framework.verify (content txHash) = true)
    (hserves : Serves cfg frontService node content block.transactionsHash)
    (hmissed : s.batchVerifyProposal block ≠ []) :
    ∃ pool, (requestMissedTxs cfg s (some node) (s.batchVerifyProposal block) (some block) true
        (fun _ => ⟨none, []⟩) frontService).2
      = [if MissesOnChain s content block.transactionsHash then
          ⟨some ⟨.txsSignatureVerifyFailed,
            "invalid transaction for invalid signature or nonce or blockLimit"⟩, false, pool⟩
        else ⟨none, true, pool⟩] := by
  generalize hrequested : (SortedSet.ofList (s.batchVerifyProposal block)).toList = requested
  -- The peer is asked for the missed hashes, each once and in ascending order.
  have hmem : ∀ txHash, txHash ∈ requested ↔
      txHash ∈ block.transactionsHash ∧ s.txsTable.contains txHash = false := by
    intro txHash
    rw [← hrequested, ← mem_batchVerifyProposal s block txHash]
    exact SortedSet.mem_ofList txHash _
  have hcontent' : ∀ txHash ∈ requested,
      (content txHash).hash = txHash ∧ cfg.framework.verify (content txHash) = true :=
    fun txHash h => hcontent txHash ((hmem txHash).mp h).1
  have hanswers := hserves requested (fun txHash h => ((hmem txHash).mp h).1)
  have hsame := map_hash_map_content (fun txHash h => (hcontent' txHash h).1)
  have hrequest := requestMissedTxs_of_answers cfg s node hmissed (some block) frontService
    (by rw [hrequested]; exact hanswers) (by rw [hrequested, List.length_map])
  rw [hrequested, answered_of_same hsame.symm] at hrequest
  have hproposal : proposalHeader (some block) = some header := hheader
  have hmissing : ∀ tx ∈ requested.map content, s.txsTable.contains tx.hash = false := by
    refine List.forall_mem_map.mpr (fun txHash h => ?_)
    rw [(hcontent' txHash h).1]
    exact ((hmem txHash).mp h).2
  have hverdict := importDownloadedTxs_missing_iff cfg s (frontService node requested).nodeID
    hproposal hmissing (List.forall_mem_map.mpr (fun txHash h => (hcontent' txHash h).2))
  rw [List.forall_mem_map] at hverdict
  rw [hrequest]
  -- The request is for one list, and its import is judged as a whole.
  by_cases honchain : MissesOnChain s content block.transactionsHash
  · simp only [if_pos honchain]
    rcases honchain with ⟨txHash, hblock, hfree, hnonce⟩
    have hfails : ¬ (importDownloadedTxs cfg s (frontService node requested).nodeID
        (requested.map content) (some block)).2 = true :=
      fun h => hverdict.mp h txHash ((hmem txHash).mpr ⟨hblock, hfree⟩) hnonce
    rw [if_neg hfails]
    exact ⟨_, rfl⟩
  · have hclean := hverdict.mpr (fun txHash h hnonce =>
      honchain ⟨txHash, ((hmem txHash).mp h).1, ((hmem txHash).mp h).2, hnonce⟩)
    simp only [if_neg honchain]
    rw [if_pos hclean]
    exact ⟨_, rfl⟩

/-- The verdict with an empty answer of the ledger and an honest peer: the
    proposal is rejected exactly when a transaction that the pool misses has
    its nonce on chain. -/
theorem verdict_of_serves (cfg : TxPoolConfig) (s : MemoryStorage) (node : NodeID) (data : Bytes)
    {block : Block} {header : BlockHeader} (content : HashType → TxData)
    (frontService : NodeID → HashList → FrontResponse)
    (hblock : cfg.framework.createBlock data = some block)
    (hheader : block.blockHeader = some header)
    (hcontent : ∀ txHash ∈ block.transactionsHash,
      (content txHash).hash = txHash ∧ cfg.framework.verify (content txHash) = true)
    (hserves : Serves cfg frontService node content block.transactionsHash) :
    verdict (asyncVerifyBlock cfg s (some node) data (fun _ => ⟨none, []⟩) frontService)
      = some [if MissesOnChain s content block.transactionsHash then
          (some ⟨.txsSignatureVerifyFailed,
            "invalid transaction for invalid signature or nonce or blockLimit"⟩, false)
        else (none, true)] := by
  rw [asyncVerifyBlock, hblock, Option.map_some, verdict, Option.map_some, verifyBlock]
  simp only
  -- Nothing is missed, or the verdict is the one on the request.
  by_cases hnil : s.batchVerifyProposal block = []
  · have hnone : ¬ MissesOnChain s content block.transactionsHash := by
      intro honchain
      rcases honchain with ⟨txHash, hmem, hmissing, _⟩
      have hmissed := (mem_batchVerifyProposal s block txHash).mpr ⟨hmem, hmissing⟩
      rw [hnil] at hmissed
      exact List.not_mem_nil hmissed
    rw [hnil, if_neg hnone]
    rfl
  · have hlen : ¬ (s.batchVerifyProposal block).length = 0 :=
      fun h => hnil (List.length_eq_zero_iff.mp h)
    have hpos : (s.batchVerifyProposal block).length > 0 := Nat.pos_of_ne_zero hlen
    rcases requestMissedTxs_of_serves cfg s node content frontService hheader hcontent hserves
      hnil with ⟨pool, hrequest⟩
    rw [if_neg hlen]
    simp only [hrequest, List.map_cons, List.map_nil, onVerifyFinishedWrapper, if_pos hpos]
    -- Neither answer is `TransactionsMissing`, so the wrapper passes it on.
    by_cases honchain : MissesOnChain s content block.transactionsHash
    · rw [if_pos honchain, if_pos honchain]
      rfl
    · rw [if_neg honchain, if_neg honchain]
      rfl

/-- After a deletion the pool misses what it missed before, and what was
    deleted. -/
theorem missesOnChain_without (s : MemoryStorage) (content : HashType → TxData)
    {hashes deleted : HashList}
    (hdeleted : ∀ txHash ∈ deleted, txHash ∈ hashes) :
    MissesOnChain (without s deleted) content hashes ↔
      MissesOnChain s content hashes ∨
        ∃ txHash ∈ deleted, (content txHash).nonce ∈ s.ledgerNonceChecker.nonceCache := by
  have hmissing : ∀ txHash, (without s deleted).txsTable.contains txHash = false ↔
      s.txsTable.contains txHash = false ∨ txHash ∈ deleted := by
    intro txHash
    rw [← Bool.not_eq_true, (without_contains deleted txHash s).1, ← Bool.not_eq_true]
    tauto
  have hledger := (without_contains deleted 0 s).2
  simp only [MissesOnChain, hmissing, hledger]
  constructor
  · intro hmisses
    rcases hmisses with ⟨txHash, hmem, hfree | hgone, honchain⟩
    · exact Or.inl ⟨txHash, hmem, hfree, honchain⟩
    · exact Or.inr ⟨txHash, hgone, honchain⟩
  · intro hcause
    rcases hcause with ⟨txHash, hmem, hfree, honchain⟩ | ⟨txHash, hgone, honchain⟩
    · exact ⟨txHash, hmem, Or.inl hfree, honchain⟩
    · exact ⟨txHash, hdeleted txHash hgone, Or.inr hgone, honchain⟩

/-- When the verdict does not depend on which of the proposal's transactions
    were in the pool: some transaction that the pool misses is rejected for its
    nonce anyway, or none of those deleted has its nonce on chain. -/
theorem verdict_without_iff (cfg : TxPoolConfig) (s : MemoryStorage) (node : NodeID)
    (data : Bytes) (block : Block) (header : BlockHeader) (content : HashType → TxData)
    (frontService : NodeID → HashList → FrontResponse) (deleted : HashList)
    (hblock : cfg.framework.createBlock data = some block)
    (hheader : block.blockHeader = some header)
    (hcontent : ∀ txHash ∈ block.transactionsHash,
      (content txHash).hash = txHash ∧ cfg.framework.verify (content txHash) = true)
    (hserves : Serves cfg frontService node content block.transactionsHash)
    (hdeleted : ∀ txHash ∈ deleted,
      txHash ∈ block.transactionsHash ∧ s.txsTable.contains txHash = true) :
    verdict (asyncVerifyBlock cfg s (some node) data (fun _ => ⟨none, []⟩) frontService)
        = verdict (asyncVerifyBlock cfg (without s deleted) (some node) data
            (fun _ => ⟨none, []⟩) frontService) ↔
      (∃ txHash ∈ block.transactionsHash, s.txsTable.contains txHash = false ∧
        (content txHash).nonce ∈ s.ledgerNonceChecker.nonceCache) ∨
      ∀ txHash ∈ deleted, ¬ (content txHash).nonce ∈ s.ledgerNonceChecker.nonceCache := by
  rw [verdict_of_serves cfg s node data content frontService hblock hheader hcontent hserves,
    verdict_of_serves cfg (without s deleted) node data content frontService hblock hheader
      hcontent hserves]
  have hwithout := missesOnChain_without s content (fun txHash hmem => (hdeleted txHash hmem).1)
  -- Deleting can only turn an acceptance into a rejection.
  change _ ↔ MissesOnChain s content block.transactionsHash ∨ _
  by_cases hbefore : MissesOnChain s content block.transactionsHash
  · rw [if_pos hbefore, if_pos (hwithout.mpr (Or.inl hbefore))]
    exact iff_of_true rfl (Or.inl hbefore)
  · by_cases hdel : ∃ txHash ∈ deleted, (content txHash).nonce ∈ s.ledgerNonceChecker.nonceCache
    · rw [if_neg hbefore, if_pos (hwithout.mpr (Or.inr hdel))]
      -- Accepted before and rejected afterwards: here the two verdicts differ.
      refine iff_of_false (fun h => by cases h) ?_
      intro hcond
      rcases hcond with h | h
      · exact hbefore h
      · rcases hdel with ⟨txHash, hmem, honchain⟩
        exact h txHash hmem honchain
    · have hafter : ¬ MissesOnChain (without s deleted) content block.transactionsHash :=
        fun h => (hwithout.mp h).elim hbefore hdel
      rw [if_neg hbefore, if_neg hafter]
      exact iff_of_true rfl (Or.inr (fun txHash hmem honchain => hdel ⟨txHash, hmem, honchain⟩))

/-- The peer of the examples serves requests for transaction five. -/
theorem examplePeer_serves :
    Serves clearConfig examplePeer 1 (fun txHash => exampleTx txHash 7 1) [5] := by
  intro requested hrequested
  rw [List.eq_replicate_of_mem (fun txHash hmem => List.mem_singleton.mp (hrequested txHash hmem))]
  refine ⟨rfl, _, _, rfl, rfl, rfl, ?_⟩
  have hbyte : decide (UInt8.ofNat (5 : HashType).val ≠ 0) = true := by decide
  simp only [exampleBlock, examplePeer, List.map_replicate, List.filter_replicate, hbyte, if_true]
  rfl

/-- The verdict does not change when a pending transaction is deleted. -/
theorem verdict_without_iff_pending :
    let s := run (step clearConfig) examplePool [.importDownloadedTxs 1 [exampleTx 5 7 1] none]
    verdict (asyncVerifyBlock clearConfig s (some 1) [0, 5] (fun _ => ⟨none, []⟩) examplePeer)
      = verdict (asyncVerifyBlock clearConfig (without s [5]) (some 1) [0, 5]
          (fun _ => ⟨none, []⟩) examplePeer) := by
  intro s
  refine (verdict_without_iff clearConfig s 1 [0, 5] (exampleBlock [0, 5]) ⟨1, 9⟩
    (fun txHash => exampleTx txHash 7 1) examplePeer [5] rfl (by decide) ?_ examplePeer_serves
    ?_).mpr (Or.inr ?_)
  · exact fun txHash _ => ⟨rfl, rfl⟩
  · intro txHash hmem
    rw [List.mem_singleton.mp hmem]
    decide
  · have hfree : ¬ (7 : NonceType) ∈ s.ledgerNonceChecker.nonceCache := by decide
    exact fun txHash _ => hfree

/-- Block one carries the nonce of transaction five under another hash, and
    transaction five stays in the pool. A proposal of it is accepted, but once
    it is deleted it is fetched again, and rejected. -/
theorem verdict_without_counterexample :
    let s := run (step clearConfig) examplePool
      [.importDownloadedTxs 1 [exampleTx 5 7 1] none,
        .asyncNotifyBlockResult 1 [{ txHash := 8, status := .none, nonce := 7 }]]
    s.txsTable.contains 5 = true ∧
    Serves clearConfig examplePeer 1 (fun txHash => exampleTx txHash 7 1) [5] ∧
    verdict (asyncVerifyBlock clearConfig s (some 1) [0, 5] (fun _ => ⟨none, []⟩) examplePeer)
      ≠ verdict (asyncVerifyBlock clearConfig (without s [5]) (some 1) [0, 5]
          (fun _ => ⟨none, []⟩) examplePeer) :=
  ⟨by decide, examplePeer_serves, by decide⟩

end TxPool

end BcosTxPool
