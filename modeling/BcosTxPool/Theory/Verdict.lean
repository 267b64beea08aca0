import BcosTxPool.Theory.Proposal

/-!
# One Verdict per Verification

How often the callback of a verification is invoked. The callback travels
through four functions and two lambdas, and every path that finds out what is
wrong with a proposal tells it. One path does not: decoding the peer's answer
may throw, the lambda that received the answer catches the exception and logs
it, and the callback is gone.

It is never invoked twice. The ledger stage calls it only when nothing is left
to ask for, and then the peer is not asked. So the number of invocations is
one, unless a peer is asked and its answer cannot be read, and then it is
zero. What the peer is asked for depends on the ledger's answer alone: the
missed hashes, without those of an answer that is taken.

## Main definitions

* `Readable`: An answer that can be read as far as it is looked at.
* `Taken`: The ledger's answer is imported.
* `Asks`: The hashes that the peer is asked for.

## Theorems

* `verifyFetchedTxs_of_readable`: A readable answer gets one verdict.
* `requestMissedTxs_length`: The verdicts on a request.
* `verified_once_iff`: When a verification has exactly one verdict.
* `verified_once_counterexample`: A verification without one.
-/

namespace BcosTxPool

open Library TxPool

namespace TransactionSync

open MemoryStorage

variable (cfg : TxPoolConfig)

/-! ### The peer's answer -/

/-- What the front service delivered can be read as far as it is looked at: it
    is an error, or a message of another type, or a response whose payload is a
    block. -/
def Readable (response : FrontResponse) : Prop :=
  response.error ≠ none ∨
    ∃ txsResponse, cfg.framework.createTxsSyncMsg response.data = some txsResponse ∧
      (txsResponse.type ≠ .txsResponsePacket ∨
        ∃ transactions, cfg.framework.createBlock txsResponse.txsData = some transactions)

/-- A readable answer gets one verdict: an error or a message of another type is
    reported as such, and a block is compared with the request and imported. -/
theorem verifyFetchedTxs_of_readable (s : MemoryStorage) {response : FrontResponse}
    (h : Readable cfg response) (missedTxs : HashList) (verifiedProposal : Option Block) :
    ∃ s' r, verifyFetchedTxs cfg s response missedTxs verifiedProposal = some (s', [r]) := by
  by_cases hanswers : ∃ txs, Answers cfg response txs
  · rcases hanswers with ⟨txs, hanswers⟩
    rw [verifyFetchedTxs_of_answers cfg s hanswers]
    -- The size of the answer decides which verdict it is.
    by_cases hlen : missedTxs.length ≠ txs.length
    · exact ⟨_, _, if_pos hlen⟩
    · exact ⟨_, _, if_neg hlen⟩
  · have hno : ∀ txs, ¬ Answers cfg response txs := fun txs ha => hanswers ⟨txs, ha⟩
    rcases verifyFetchedTxs_of_not_answers cfg s hno missedTxs verifiedProposal with
      hthrows | ⟨error, herror⟩
    · -- Only a decoder throws, and what is readable has passed both.
      exfalso
      unfold verifyFetchedTxs at hthrows
      rcases h with herror | ⟨txsResponse, hmsg, hrest⟩
      · rcases Option.ne_none_iff_exists'.mp herror with ⟨error, herror⟩
        rw [herror] at hthrows
        exact Option.some_ne_none _ hthrows
      · -- An error is reported before anything is decoded.
        cases herror : response.error with
        | some error =>
            rw [herror] at hthrows
            exact Option.some_ne_none _ hthrows
        | none =>
            rcases hrest with htype | ⟨transactions, hblock⟩
            · simp only [herror, hmsg, if_pos htype] at hthrows
              exact Option.some_ne_none _ hthrows
            · by_cases htype : txsResponse.type = .txsResponsePacket
              · exact hno transactions.transactions
                  ⟨herror, txsResponse, transactions, hmsg, htype, hblock, rfl⟩
              · simp only [herror, hmsg, if_pos htype] at hthrows
                exact Option.some_ne_none _ hthrows
    · exact ⟨s, ⟨some error, false, s⟩, herror⟩

/-- An answer that cannot be read makes a decoder throw, the one of messages or
    the one of blocks. Nobody has been called back by then. -/
theorem verifyFetchedTxs_of_not_readable (s : MemoryStorage) {response : FrontResponse}
    (h : ¬ Readable cfg response) (missedTxs : HashList) (verifiedProposal : Option Block) :
    verifyFetchedTxs cfg s response missedTxs verifiedProposal = none := by
  rw [Readable, not_or, not_not] at h
  rcases h with ⟨herror, hmsg⟩
  unfold verifyFetchedTxs
  rw [herror]
  simp only
  -- The two decoders, in the order of the code.
  cases hdecoded : cfg.framework.createTxsSyncMsg response.data with
  | none => rfl
  | some txsResponse =>
      have hrest := fun hread => hmsg ⟨txsResponse, hdecoded, hread⟩
      rcases not_or.mp hrest with ⟨htype, hblock⟩
      rw [not_not] at htype
      simp only [htype, ne_eq, not_true_eq_false, if_false]
      cases hpayload : cfg.framework.createBlock txsResponse.txsData with
      | none => rfl
      | some transactions => exact absurd ⟨transactions, hpayload⟩ hblock

/-- The callback of a request to a peer is invoked once if the answer can be
    read, and not at all otherwise. -/
theorem requestMissedTxsFromPeer_length (s : MemoryStorage) (node : NodeID)
    (missedTxs : HashList) (hmissed : ¬ missedTxs.length = 0) (verifiedProposal : Option Block)
    (frontService : NodeID → HashList → FrontResponse) :
    let responses :=
      (requestMissedTxsFromPeer cfg s node missedTxs verifiedProposal true frontService).2
    responses.length ≤ 1 ∧
      (responses.length = 1 ↔ Readable cfg (frontService node missedTxs)) := by
  intro responses
  -- The early return with a verdict is for a request without hashes.
  have hnonempty : ¬ (decide (missedTxs.length = 0) && true) = true := by
    rw [Bool.and_true, decide_eq_true_eq]
    exact hmissed
  by_cases hread : Readable cfg (frontService node missedTxs)
  · rcases verifyFetchedTxs_of_readable cfg s hread missedTxs verifiedProposal with ⟨s', r, hone⟩
    have hresponses : responses = [r] := by
      simp only [responses, requestMissedTxsFromPeer, if_neg hnonempty, hone, if_true]
    rw [hresponses]
    exact ⟨le_refl 1, iff_of_true rfl hread⟩
  · have hnone := verifyFetchedTxs_of_not_readable cfg s hread missedTxs verifiedProposal
    have hresponses : responses = [] := by
      simp only [responses, requestMissedTxsFromPeer, if_neg hnonempty, hnone]
    rw [hresponses]
    exact ⟨Nat.zero_le 1, iff_of_false Nat.zero_ne_one hread⟩

/-! ### The ledger's answer -/

/-- The ledger's answer is imported for the proposal: it is no error, and with a
    header all signatures are good and every transaction is acceptable. -/
def Taken (s : MemoryStorage) (block : Block) (response : LedgerResponse) : Prop :=
  response.error = none ∧ ∀ header, block.blockHeader = some header →
    Verified cfg s response.fetchedTxs ∧ ∀ tx ∈ response.fetchedTxs, s.Acceptable header tx

/-- The hashes that a peer is asked for, in ascending order: those of the
    proposal that neither the pool nor an answer that is taken holds. An answer
    that is not taken crosses nothing off, even if it holds all of them. -/
structure Asks (s : MemoryStorage) (block : Block) (response : LedgerResponse)
    (requested : HashList) : Prop where
  sorted : requested.Pairwise (· < ·)
  mem_iff : ∀ txHash, txHash ∈ requested ↔
    (txHash ∈ block.transactionsHash ∧ s.txsTable.contains txHash = false) ∧
      ¬ (Taken cfg s block response ∧ ∃ tx ∈ response.fetchedTxs, tx.hash = txHash)

/-- What the peer is asked for is determined: two sorted lists of the same
    hashes are equal. -/
theorem Asks.unique {s : MemoryStorage} {block : Block} {response : LedgerResponse}
    {requested requested' : HashList} (h : Asks cfg s block response requested)
    (h' : Asks cfg s block response requested') : requested = requested' :=
  h.sorted.eq_of_mem_iff h'.sorted (fun txHash => (h.mem_iff txHash).trans (h'.mem_iff txHash).symm)

/-- An import for a proposal succeeds unless a header makes it an enforced one
    that rejects something. -/
theorem importDownloadedTxs_snd_iff (s : MemoryStorage) (fromNode : NodeID) (txs : List TxData)
    (block : Block) :
    (importDownloadedTxs cfg s fromNode txs (some block)).2 = true ↔
      ∀ header, block.blockHeader = some header →
        Verified cfg s txs ∧ ∀ tx ∈ txs, s.Acceptable header tx := by
  -- Without a header it is a normal import, which passes over what it rejects.
  cases hheader : block.blockHeader with
  | none =>
      have hnormal := (importDownloadedTxs_normal cfg s fromNode txs
        (show proposalHeader (some block) = none from hheader)).1
      exact iff_of_true hnormal (fun _ hc => by cases hc)
  | some header =>
      have hproposal : proposalHeader (some block) = some header := hheader
      simp only [Option.some.injEq, forall_eq']
      by_cases hverified : Verified cfg s txs
      · rw [(importDownloadedTxs_enforced cfg s fromNode txs hproposal hverified).1,
          List.all_eq_true]
        simp only [decide_eq_true_eq, hverified, true_and]
      · rw [importDownloadedTxs_unverified cfg s fromNode txs hproposal hverified]
        exact iff_of_false Bool.false_ne_true (fun h => hverified h.1)

/-- The ledger stage leaves what the peer is asked for, and it has called back
    once if that is nothing. -/
theorem onGetMissedTxsFromLedger_asks (s : MemoryStorage) (block : Block)
    (response : LedgerResponse) (hmissed : s.batchVerifyProposal block ≠ []) :
    let stage := onGetMissedTxsFromLedger cfg s (SortedSet.ofList (s.batchVerifyProposal block))
      response (some block) true
    Asks cfg s block response stage.2.1.toList ∧
      stage.2.2.length = if stage.2.1.size = 0 then 1 else 0 := by
  intro stage
  have hsome : ¬ (SortedSet.ofList (s.batchVerifyProposal block)).size = 0 := by
    intro hsize
    rcases List.exists_mem_of_ne_nil _ hmissed with ⟨txHash, hmem⟩
    exact (SortedSet.size_eq_zero_iff _).mp hsize txHash
      ((SortedSet.mem_ofList txHash _).mpr hmem)
  -- An answer that is not taken crosses nothing off, and there is something to ask.
  have huntaken : ¬ Taken cfg s block response →
      stage.2.1 = SortedSet.ofList (s.batchVerifyProposal block) → stage.2.2 = [] →
      Asks cfg s block response stage.2.1.toList ∧
        stage.2.2.length = if stage.2.1.size = 0 then 1 else 0 := by
    intro hno hrest hquiet
    rw [hrest, hquiet, if_neg hsome]
    refine ⟨⟨SortedSet.sorted _, fun txHash => ?_⟩, rfl⟩
    rw [← mem_batchVerifyProposal s block txHash, ← SortedSet.mem_def, SortedSet.mem_ofList]
    exact ⟨fun h => ⟨h, fun hc => hno hc.1⟩, fun h => h.1⟩
  -- The ledger's error and a failed import leave the missed hashes as they were.
  cases herror : response.error with
  | some error =>
      refine huntaken (fun h => ?_) ?_ ?_
      · rw [h.1] at herror
        exact absurd herror (Option.some_ne_none error).symm
      · simp only [stage, onGetMissedTxsFromLedger, herror]
      · simp only [stage, onGetMissedTxsFromLedger, herror]
  | none =>
      have htaken := importDownloadedTxs_snd_iff cfg s cfg.nodeID response.fetchedTxs block
      cases hret : (importDownloadedTxs cfg s cfg.nodeID response.fetchedTxs (some block)).2 with
      | false =>
          refine huntaken (fun h => ?_) ?_ ?_
          · rw [htaken.mpr h.2] at hret
            exact absurd hret.symm Bool.false_ne_true
          · simp only [stage, onGetMissedTxsFromLedger, herror, hret, Bool.not_false, if_true]
          · simp only [stage, onGetMissedTxsFromLedger, herror, hret, Bool.not_false, if_true]
      | true =>
          -- The answer is taken, and its hashes are crossed off one after the
          -- other.
          have hyes : Taken cfg s block response := ⟨herror, htaken.mp hret⟩
          have hrest : stage.2.1 = response.fetchedTxs.foldl eraseFetched
              (SortedSet.ofList (s.batchVerifyProposal block)) := by
            simp only [stage, onGetMissedTxsFromLedger, herror, hret, Bool.not_true,
              Bool.false_eq_true, if_false, Bool.and_true]
            split
            · rfl
            · rfl
          refine ⟨⟨SortedSet.sorted _, fun txHash => ?_⟩, ?_⟩
          · rw [hrest, ← SortedSet.mem_def, mem_foldl_eraseFetched, SortedSet.mem_ofList,
              mem_batchVerifyProposal]
            simp only [hyes, true_and, not_exists, not_and, ne_eq]
          · rw [hrest]
            simp only [stage, onGetMissedTxsFromLedger, herror, hret, Bool.not_true,
              Bool.false_eq_true, if_false, Bool.and_true, decide_eq_true_eq]
            split
            · rfl
            · rfl

/-! ### The verification -/

/-- The verdicts on a request: one, unless a peer is asked and its answer cannot
    be read. The ledger stage calls back only where nothing is left, and with
    nothing left the function returns. -/
theorem requestMissedTxs_length (s : MemoryStorage) (generatedNodeID : Option NodeID)
    (block : Block) (ledger : HashList → LedgerResponse)
    (frontService : NodeID → HashList → FrontResponse)
    (hmissed : s.batchVerifyProposal block ≠ []) :
    let responses := (requestMissedTxs cfg s generatedNodeID (s.batchVerifyProposal block)
      (some block) true ledger frontService).2
    responses.length ≤ 1 ∧
      (responses.length = 1 ↔ ∀ node requested, generatedNodeID = some node →
        Asks cfg s block (ledger (s.batchVerifyProposal block)) requested → requested ≠ [] →
        Readable cfg (frontService node requested)) := by
  intro responses
  have hstage := onGetMissedTxsFromLedger_asks cfg s block (ledger (s.batchVerifyProposal block))
    hmissed
  simp only at hstage
  simp only [responses, requestMissedTxs]
  generalize onGetMissedTxsFromLedger cfg s (SortedSet.ofList (s.batchVerifyProposal block))
    (ledger (s.batchVerifyProposal block)) (some block) true = stage at hstage ⊢
  rcases stage with ⟨s₁, rest, first⟩
  rcases hstage with ⟨hasks, hfirst⟩
  simp only at hasks hfirst ⊢
  by_cases hsize : rest.size = 0
  · rw [if_pos hsize] at hfirst ⊢
    simp only [hfirst, le_refl, true_and, true_iff]
    -- There is nothing to ask a peer for.
    intro node requested _ hrequested hne
    rw [hrequested.unique cfg hasks] at hne
    exact absurd (List.length_eq_zero_iff.mp hsize) hne
  · rw [if_neg hsize] at hfirst ⊢
    have hnil : first = [] := List.length_eq_zero_iff.mp hfirst
    -- Something is left. Without a peer the verdict is an error, at once.
    cases generatedNodeID with
    | none =>
        simp only [hnil, if_true, List.nil_append, List.length_singleton, le_refl, true_and,
          true_iff]
        exact fun _ _ hc => by cases hc
    | some node =>
        have hpeer := requestMissedTxsFromPeer_length cfg s₁ node rest.toList hsize
          (some block) frontService
        simp only [hnil, List.nil_append]
        refine ⟨hpeer.1, hpeer.2.trans ⟨fun hread => ?_, fun hread => ?_⟩⟩
        · intro n requested hn hrequested _
          rw [← Option.some.inj hn, hrequested.unique cfg hasks]
          exact hread
        · refine hread node rest.toList rfl hasks (fun hc => hsize ?_)
          exact List.length_eq_zero_iff.mpr hc

/-- When a verification has exactly one verdict: whenever a peer is asked, its
    answer can be read. There are never two. The condition is on the proposal,
    the pool and what ledger and peer answer. -/
theorem verified_once_iff (cfg : TxPoolConfig) (s : MemoryStorage)
    (generatedNodeID : Option NodeID) (data : Bytes) (block : Block)
    (hblock : cfg.framework.createBlock data = some block) (ledger : HashList → LedgerResponse)
    (frontService : NodeID → HashList → FrontResponse) :
    ∃ result, asyncVerifyBlock cfg s generatedNodeID data ledger frontService = some result ∧
      result.2.length ≤ 1 ∧
      (result.2.length = 1 ↔ ∀ node requested, generatedNodeID = some node →
        Asks cfg s block (ledger (s.batchVerifyProposal block)) requested → requested ≠ [] →
        Readable cfg (frontService node requested)) := by
  refine ⟨verifyBlock cfg s generatedNodeID block ledger frontService, ?_, ?_⟩
  · rw [asyncVerifyBlock, hblock, Option.map_some]
  · unfold verifyBlock
    simp only
    by_cases hall : (s.batchVerifyProposal block).length = 0
    · rw [if_pos hall]
      refine ⟨le_refl 1, iff_of_true rfl ?_⟩
      -- Nothing is missed, so nothing is asked for.
      intro node requested _ hrequested hne
      rcases List.exists_mem_of_ne_nil _ hne with ⟨txHash, hmem⟩
      have hmissed := (mem_batchVerifyProposal s block txHash).mpr
        ((hrequested.mem_iff txHash).mp hmem).1
      rw [List.length_eq_zero_iff.mp hall] at hmissed
      exact absurd hmissed List.not_mem_nil
    · rw [if_neg hall]
      simp only [List.length_map]
      exact requestMissedTxs_length cfg s generatedNodeID block ledger frontService
        (fun hnil => hall (List.length_eq_zero_iff.mpr hnil))

/-- A pool like `clearConfig` whose message decoder throws on no bytes at all. -/
def strictConfig : TxPoolConfig :=
  { clearConfig with
    framework :=
      { clearConfig.framework with
        createTxsSyncMsg := fun data =>
          if data = [] then none else some ⟨.txsResponsePacket, [], data⟩ } }

/-- A peer that answers at all gets its verdict. -/
theorem verified_once_iff_examplePeer :
    ∃ result, asyncVerifyBlock strictConfig examplePool (some 1) [0, 5] (fun _ => ⟨none, []⟩)
      examplePeer = some result ∧ result.2.length = 1 := by
  rcases verified_once_iff strictConfig examplePool (some 1) [0, 5] (exampleBlock [0, 5]) rfl
    (fun _ => ⟨none, []⟩) examplePeer with ⟨result, hresult, _, honce⟩
  refine ⟨result, hresult, honce.mpr (fun node requested _ _ hne => ?_)⟩
  have hbytes : requested.map (fun txHash => UInt8.ofNat txHash.val) ≠ [] :=
    fun hc => hne (List.map_eq_nil_iff.mp hc)
  exact Or.inr ⟨_, if_neg hbytes, Or.inr ⟨_, rfl⟩⟩

/-- A peer is asked for transaction five and answers with bytes that do not
    decode. The callback is never invoked. -/
theorem verified_once_counterexample :
    examplePool.batchVerifyProposal (exampleBlock [0, 5]) = [5] ∧
    (asyncVerifyBlock strictConfig examplePool (some 1) [0, 5] (fun _ => ⟨none, []⟩)
      (fun node _ => ⟨none, node, []⟩)).map (fun result => result.2.length) = some 0 := by
  decide

end TransactionSync

end BcosTxPool
