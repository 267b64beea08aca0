import BcosTxPool.Theory.Network
import BcosTxPool.Theory.Proposal

/-!
# A Verdict and What Happens Meanwhile

A proposal is verified in stages. Its hashes are looked up when the question comes,
the ledger brings some of the missing ones in and a peer the others, and while the
node waits for them its pool goes on: clients submit, blocks are committed, the
cleanup removes. A positive verdict does not look at the pool as a whole again.

What it still means is a statement about the time between the question and the
verdict. For a proposal with a header each of its transactions has been in the pool
at some moment of that time: the ones that were not missed at its beginning, the
others when the answer with them was imported. Only a block result and the cleanup
take a transaction out of a pool. So at the verdict each transaction is there, or one
of these two has removed it since the question.

The invariant is about the hashes that a request still has outstanding. Whatever the
proposal missed is outstanding, or it has been in the pool since.

## Main definitions

* `Op.Removes`: The operations that remove transactions.
* `Node.Waits`: The hashes that a request still misses.
* `Node.Seen`: A hash was in the pool at a moment since the question.
* `Node.Pursued`: The question behind a request, and what has become of its hashes.

## Theorems

* `nodeNext_contains`: What takes a transaction out of the pool of a node.
* `waits_next`: Where a request comes from.
* `run_pursued`: What is not outstanding has been seen.
* `verified_meanwhile`: What a positive verdict means.
-/

namespace BcosTxPool

open Library

namespace TxPool

/-- The operations that remove transactions: a block result, and the cleanup.
    Both are calls from outside the sync module. -/
def Op.Removes : Op → Prop
  | .asyncNotifyBlockResult _ _ => True
  | .removeInvalidTxs => True
  | _ => False

variable (cfg : TxPoolConfig)

/-- No other operation takes a transaction out of the pool. They set flags, or
    they bring something in. -/
theorem step_contains {op : Op} (hop : ¬ op.Removes) {s : MemoryStorage} {txHash : HashType}
    (h : s.txsTable.contains txHash = true) : (step cfg s op).txsTable.contains txHash = true := by
  -- Write by write: an entry is lost by a write that lets it leave, and only a
  -- removal makes such a write.
  refine (step_reaches cfg s op).invariant (fun s => s.txsTable.contains txHash = true) ?_ h
  intro t w hw ht
  rw [KeyedTable.contains_iff] at ht ⊢
  rw [← Option.ne_none_iff_exists'] at ht ⊢
  refine fun hnone => ht (t.find?_write_eq_none cfg txHash w (fun left heq => hop ?_) hnone)
  rw [heq] at hw
  rcases hw with ⟨blockNumber, txsResult, rfl⟩ | rfl
  · trivial
  · trivial

theorem run_contains {ops : List Op} (hops : ∀ op ∈ ops, ¬ op.Removes) {s : MemoryStorage}
    {txHash : HashType} (h : s.txsTable.contains txHash = true) :
    (run (step cfg) s ops).txsTable.contains txHash = true :=
  run_invariant (step cfg) (fun s => s.txsTable.contains txHash = true) (fun op => ¬ op.Removes)
    (fun _ _ hop hs => step_contains cfg hop hs) ops s hops h

theorem Op.Removes.isCall {op : Op} (h : op.Removes) : op.isCall = true := by
  cases op with
  | asyncNotifyBlockResult blockNumber txsResult => rfl
  | removeInvalidTxs => rfl
  | _ => exact h.elim

end TxPool

namespace Node

open TransactionSync

variable (cfg : TxPoolConfig) (codec : Codec) (forwardPercent : Nat)

/-- What takes a transaction out of the pool of a node was called. A packet, an
    answer or a turn of a thread never does. -/
theorem nodeNext_contains {n : Node} (hn : n.Consistent) {input : Input} {txHash : HashType}
    (h : n.storage.txsTable.contains txHash = true)
    (hlost : ¬ (nodeNext cfg codec forwardPercent n input).storage.txsTable.contains txHash
      = true) : ∃ op : PoolCall, input = .call op ∧ op.1.Removes := by
  by_contra hnone
  -- What the step does to the pool is a run of operations, of which one removes.
  rcases nodeStep_refines cfg codec forwardPercent hn input with ⟨ops, hrefines⟩
  refine hlost ?_
  rcases hrefines.pool with ⟨flag, hflag⟩
  rw [hflag]
  refine TxPool.run_contains cfg (fun op hop hremoves => hnone ?_) h
  -- The operation is a call of the step, so it is the input.
  have hcall : op ∈ ops.filter TxPool.Op.isCall := List.mem_filter.mpr ⟨hop, hremoves.isCall⟩
  rw [hrefines.calls] at hcall
  cases input with
  | call call =>
      rw [Input.calls, List.mem_singleton] at hcall
      exact ⟨call, rfl, hcall ▸ hremoves⟩
  | _ => exact absurd hcall List.not_mem_nil

/-! ### What an answer brings -/

/-- An import for a proposal that succeeds has all it was given in the pool:
    what it could not bring in it has sealed there. -/
theorem importDownloadedTxs_contains (s : MemoryStorage) (fromNode : NodeID) (txs : List TxData)
    {verifiedProposal : Option Block} {header : BlockHeader}
    (hheader : proposalHeader verifiedProposal = some header)
    (hsuccess : (importDownloadedTxs cfg s fromNode txs verifiedProposal).2 = true) {tx : TxData}
    (htx : tx ∈ txs) :
    (importDownloadedTxs cfg s fromNode txs verifiedProposal).1.txsTable.contains tx.hash
      = true := by
  rcases importDownloadedTxs_sealsFor cfg s fromNode txs hheader with ⟨hashes, hseals, hall⟩
  refine hseals.contains (Or.inl ?_)
  rw [hall hsuccess]
  exact List.mem_map_of_mem htx

/-- What the ledger's answer does not leave is in the pool, since the hash is
    taken off the list only after the import has succeeded. -/
theorem LedgerBrings.contains {s s' : MemoryStorage} {missedTxs left : HashList}
    {response : LedgerResponse} {verifiedProposal : Option Block}
    (h : LedgerBrings cfg s missedTxs response verifiedProposal s' left) {header : BlockHeader}
    (hheader : proposalHeader verifiedProposal = some header) {txHash : HashType}
    (hmem : txHash ∈ missedTxs) : txHash ∈ left ∨ s'.txsTable.contains txHash = true := by
  by_cases hleft : LeavesOut cfg s response verifiedProposal txHash
  · exact Or.inl ((h.mem_left txHash).mpr ⟨hmem, hleft⟩)
  · -- The answer is no error, its import has succeeded, and the hash is in it.
    unfold LeavesOut at hleft
    simp only [not_or, Bool.not_eq_true, Bool.not_eq_false, not_forall, ne_eq, not_not] at hleft
    rcases hleft with ⟨herror, hsuccess, tx, htx, rfl⟩
    have hpool := h.pool
    simp only [herror, Bool.false_eq_true, if_false] at hpool
    rw [hpool]
    exact Or.inr
      (importDownloadedTxs_contains cfg s cfg.nodeID response.fetchedTxs hheader hsuccess htx)

/-- What a peer was asked for is in the pool after a positive verdict on its
    answer. -/
theorem verifyFetchedTxs_contains {s s' : MemoryStorage} {response : FrontResponse}
    {missedTxs : HashList} {verifiedProposal : Option Block} {verdict : VerifyResponse}
    (h : verifyFetchedTxs cfg s response missedTxs verifiedProposal = some (s', [verdict]))
    (hverdict : verdict.result = true) {header : BlockHeader}
    (hheader : proposalHeader verifiedProposal = some header) {txHash : HashType}
    (hmem : txHash ∈ missedTxs) : s'.txsTable.contains txHash = true := by
  -- The answer carries transactions, or it is an error or of another type.
  by_cases hanswers : ∃ txs, Answers cfg response txs
  · rcases hanswers with ⟨txs, hanswers⟩
    rw [verifyFetchedTxs_of_answers cfg s hanswers] at h
    split at h
    · injection h with h
      injection h with _ h
      injection h with h _
      rw [← h] at hverdict
      exact absurd hverdict Bool.false_ne_true
    · injection h with h
      injection h with hs h
      injection h with h _
      rw [← h, answered_result_iff] at hverdict
      -- The verdict is positive, so the hashes are those of the transactions
      -- imported.
      rw [hverdict.2] at hmem
      rcases List.mem_map.mp hmem with ⟨tx, htx, rfl⟩
      rw [← hs]
      exact importDownloadedTxs_contains cfg s response.nodeID txs hheader hverdict.1 htx
  · rcases verifyFetchedTxs_of_not_answers cfg s (not_exists.mp hanswers) missedTxs
      verifiedProposal with hnone | ⟨error, heq⟩
    · rw [hnone] at h
      exact absurd h (Option.some_ne_none _).symm
    · rw [heq] at h
      injection h with h
      injection h with _ h
      injection h with h _
      rw [← h] at hverdict
      exact absurd hverdict Bool.false_ne_true

/-! ### Where a request comes from -/

/-- A request under way has captured this, and these hashes are still missed. It
    waits for the ledger first and for a peer later. -/
def Waits (n : Node) (f : OnVerifyFinished) (outstanding : HashList) : Prop :=
  (∃ r ∈ n.ledgerRequests, r.onVerifyFinished = some f ∧ r.missedTxs = outstanding) ∨
    ∃ r ∈ n.peerRequests, r.onVerifyFinished = some f ∧ r.missedTxs = outstanding

/-- A request that has captured a proposal with a header is for that header. -/
theorem exists_proposalHeader {onVerifyFinished : Option OnVerifyFinished} {callback : Nat}
    {block : Block} {missedTxs : HashList}
    (h : onVerifyFinished = some (.verifyBlock callback block missedTxs))
    (hheader : block.blockHeader.isSome = true) :
    ∃ header, proposalHeader (OnVerifyFinished.verifiedProposal onVerifyFinished)
      = some header := by
  rw [h]
  exact Option.isSome_iff_exists.mp hheader

/-- A request to the ledger that carries a proposal is old, or the proposal has
    just come and this is what is missing of it. -/
theorem mem_ledgerRequests_next {n : Node} (h : n.Consistent) {input : Input} {r : LedgerRequest}
    (hr : r ∈ (nodeNext cfg codec forwardPercent n input).ledgerRequests) {callback : Nat}
    {block : Block} {missedTxs : HashList}
    (hcaptured : r.onVerifyFinished = some (.verifyBlock callback block missedTxs)) :
    r ∈ n.ledgerRequests ∨ ∃ generatedNodeID data,
      input = .asyncVerifyBlock callback generatedNodeID data ∧
        cfg.framework.createBlock data = some block ∧
        missedTxs = n.storage.batchVerifyProposal block ∧ r.missedTxs = missedTxs := by
  unfold nodeNext at hr
  have hstep := nodeStep_cases cfg codec forwardPercent h.missed input
  generalize nodeStep cfg codec forwardPercent n input = after at hstep hr
  -- Input by input: three of them add a request, one kind of them for a proposal.
  cases hstep with
  | announced hrequester hfiltered =>
      rcases List.mem_append.mp hr with hr | hr
      · exact Or.inl hr
      · -- A request for an announcement carries no proposal.
        split at hr
        · exact absurd hr List.not_mem_nil
        · rw [List.mem_singleton.mp hr] at hcaptured
          exact absurd hcaptured (Option.some_ne_none _).symm
  | @verifying callback' generatedNodeID data block' hblock hmissed =>
      rcases List.mem_append.mp hr with hr | hr
      · exact Or.inl hr
      · rw [List.mem_singleton.mp hr] at hcaptured ⊢
        simp only [Option.some.injEq, OnVerifyFinished.verifyBlock.injEq] at hcaptured
        rcases hcaptured with ⟨rfl, rfl, rfl⟩
        exact Or.inr ⟨generatedNodeID, data, rfl, hblock, rfl, rfl⟩
  | filling hmissed =>
      rcases List.mem_append.mp hr with hr | hr
      · exact Or.inl hr
      · rw [List.mem_singleton.mp hr] at hcaptured
        simp only [Option.some.injEq, reduceCtorEq] at hcaptured
  | ledgerVerdict hrequest hbrings hverdict => exact Or.inl (List.mem_of_mem_eraseIdx hr)
  | ledgerPassedOn hrequest hbrings hleft hpeer => exact Or.inl (List.mem_of_mem_eraseIdx hr)
  | _ => exact Or.inl hr

/-- A request to a peer is old, or it goes on with what the ledger has left of
    another. The rest of that is in the pool, if it is for a proposal with a
    header. -/
theorem mem_peerRequests_next {n : Node} (h : n.Consistent) {input : Input} {r : PeerRequest}
    (hr : r ∈ (nodeNext cfg codec forwardPercent n input).peerRequests) :
    r ∈ n.peerRequests ∨ ∃ r₀ ∈ n.ledgerRequests, r.onVerifyFinished = r₀.onVerifyFinished ∧
      ∀ header, proposalHeader (OnVerifyFinished.verifiedProposal r₀.onVerifyFinished)
          = some header →
        ∀ txHash ∈ r₀.missedTxs, txHash ∈ r.missedTxs ∨
          (nodeNext cfg codec forwardPercent n input).storage.txsTable.contains txHash = true := by
  unfold nodeNext at hr ⊢
  have hstep := nodeStep_cases cfg codec forwardPercent h.missed input
  generalize nodeStep cfg codec forwardPercent n input = after at hstep hr ⊢
  -- A peer is asked by the ledger's answer alone.
  cases hstep with
  | @ledgerPassedOn index response r₀ s left generatedNodeID hrequest hbrings hleft hpeer =>
      rcases List.mem_append.mp hr with hr | hr
      · exact Or.inl hr
      · rw [List.mem_singleton.mp hr]
        refine Or.inr ⟨r₀, List.mem_of_getElem? hrequest, rfl, ?_⟩
        exact fun header hheader txHash hmem => hbrings.contains cfg hheader hmem
  | peerThrew hrequest hthrew => exact Or.inl (List.mem_of_mem_filter hr)
  | peerVerdict hrequest hverify => exact Or.inl (List.mem_of_mem_filter hr)
  | _ => exact Or.inl hr

/-- What a proposal waits for it waited for before, as far as it is not in the
    pool now; or the proposal has just come. This is the step of the
    invariant. -/
theorem waits_next {n : Node} (h : n.Consistent) {input : Input} {callback : Nat} {block : Block}
    {missedTxs outstanding : HashList}
    (hwaits : (nodeNext cfg codec forwardPercent n input).Waits
      (.verifyBlock callback block missedTxs) outstanding) :
    (∃ before, n.Waits (.verifyBlock callback block missedTxs) before ∧
      (block.blockHeader.isSome = true → ∀ txHash ∈ before, txHash ∈ outstanding ∨
        (nodeNext cfg codec forwardPercent n input).storage.txsTable.contains txHash = true)) ∨
    ∃ generatedNodeID data, input = .asyncVerifyBlock callback generatedNodeID data ∧
      cfg.framework.createBlock data = some block ∧
      missedTxs = n.storage.batchVerifyProposal block ∧ outstanding = missedTxs := by
  rcases hwaits with ⟨r, hr, hcaptured, rfl⟩ | ⟨r, hr, hcaptured, rfl⟩
  · -- A request to the ledger keeps all its hashes until the answer.
    refine (mem_ledgerRequests_next cfg codec forwardPercent h hr hcaptured).imp (fun hold => ?_) id
    exact ⟨r.missedTxs, Or.inl ⟨r, hold, hcaptured, rfl⟩, fun _ _ hmem => Or.inl hmem⟩
  · refine Or.inl ?_
    -- One to a peer has those that the ledger has left.
    rcases mem_peerRequests_next cfg codec forwardPercent h hr with hold | ⟨r₀, hr₀, hsame, hleft⟩
    · exact ⟨r.missedTxs, Or.inr ⟨r, hold, hcaptured, rfl⟩, fun _ _ hmem => Or.inl hmem⟩
    · rw [hsame] at hcaptured
      refine ⟨r₀.missedTxs, Or.inl ⟨r₀, hr₀, hcaptured, rfl⟩, fun hheader => ?_⟩
      rcases exists_proposalHeader hcaptured hheader with ⟨header, hproposal⟩
      exact hleft header hproposal

/-! ### Since the question -/

/-- A hash was in the pool at a moment since the inputs `pre`. The moment is
    given by the inputs up to it. -/
def Seen (s : MemoryStorage) (pre inputs : List Input) (txHash : HashType) : Prop :=
  ∃ moment, pre <+: moment ∧ moment <+: inputs ∧
    (run (nodeNext cfg codec forwardPercent) { storage := s } moment).storage.txsTable.contains
      txHash = true

/-- The question that a request goes back to. If the proposal has a header, what
    it missed is outstanding or has been in the pool since. -/
def Pursued (s : MemoryStorage) (inputs : List Input) (callback : Nat) (block : Block)
    (missedTxs outstanding : HashList) : Prop :=
  ∃ pre generatedNodeID data,
    pre ++ [.asyncVerifyBlock callback generatedNodeID data] <+: inputs ∧
    cfg.framework.createBlock data = some block ∧
    missedTxs = (run (nodeNext cfg codec forwardPercent) { storage := s }
      pre).storage.batchVerifyProposal block ∧
    (block.blockHeader.isSome = true → ∀ txHash ∈ missedTxs,
      txHash ∈ outstanding ∨ Seen cfg codec forwardPercent s pre inputs txHash)

variable {cfg codec forwardPercent}

/-- What was seen before is seen before any later moment too. -/
theorem Seen.later {s : MemoryStorage} {pre inputs more : List Input} {txHash : HashType}
    (h : Seen cfg codec forwardPercent s pre inputs txHash) :
    Seen cfg codec forwardPercent s pre (inputs ++ more) txHash := by
  rcases h with ⟨moment, hpre, hmoment, hcontains⟩
  exact ⟨moment, hpre, hmoment.trans (List.prefix_append inputs more), hcontains⟩

/-- What was outstanding may be seen later, and what has been seen stays so. -/
theorem Pursued.later {s : MemoryStorage} {inputs more : List Input} {callback : Nat}
    {block : Block} {missedTxs outstanding outstanding' : HashList}
    (h : Pursued cfg codec forwardPercent s inputs callback block missedTxs outstanding)
    (hleft : block.blockHeader.isSome = true → ∀ txHash ∈ outstanding, txHash ∈ outstanding' ∨
      (run (nodeNext cfg codec forwardPercent) { storage := s }
        (inputs ++ more)).storage.txsTable.contains txHash = true) :
    Pursued cfg codec forwardPercent s (inputs ++ more) callback block missedTxs
      outstanding' := by
  rcases h with ⟨pre, generatedNodeID, data, hpre, hblock, hmissed, hseen⟩
  have hlater := hpre.trans (List.prefix_append inputs more)
  refine ⟨pre, generatedNodeID, data, hlater, hblock, hmissed, fun hheader txHash hmem => ?_⟩
  rcases hseen hheader txHash hmem with houtstanding | hseen
  · refine (hleft hheader txHash houtstanding).imp_right (fun hcontains => ?_)
    exact ⟨inputs ++ more, (List.prefix_append _ _).trans hlater, List.prefix_refl _, hcontains⟩
  · exact Or.inr hseen.later

variable (cfg codec forwardPercent)

/-- Whatever a proposal missed is outstanding, or it has been in the pool since.
    The invariant is about every request under way, so the list varies. -/
theorem run_pursued (s : MemoryStorage) (inputs : List Input) {callback : Nat} {block : Block}
    {missedTxs outstanding : HashList}
    (hwaits : (run (nodeNext cfg codec forwardPercent) { storage := s } inputs).Waits
      (.verifyBlock callback block missedTxs) outstanding) :
    Pursued cfg codec forwardPercent s inputs callback block missedTxs outstanding := by
  -- At the end of the run: the last input has changed the request or made it.
  induction inputs using List.reverseRecOn generalizing outstanding with
  | nil =>
      rcases hwaits with ⟨r, hr, _⟩ | ⟨r, hr, _⟩
      · exact absurd hr List.not_mem_nil
      · exact absurd hr List.not_mem_nil
  | append_singleton inputs input ih =>
      have hrun : run (nodeNext cfg codec forwardPercent) { storage := s } (inputs ++ [input])
          = nodeNext cfg codec forwardPercent
            (run (nodeNext cfg codec forwardPercent) { storage := s } inputs) input := by
        rw [run_concat]
      rw [hrun] at hwaits
      rcases waits_next cfg codec forwardPercent (run_consistent cfg codec forwardPercent s inputs)
        hwaits with ⟨before, hbefore, hleft⟩ | ⟨generatedNodeID, data, rfl, hblock, hmissed, rfl⟩
      · refine (ih hbefore).later ?_
        rw [hrun]
        exact hleft
      · -- At the question everything missed is outstanding.
        exact ⟨inputs, generatedNodeID, data, List.prefix_refl _, hblock, hmissed,
          fun _ _ hmem => Or.inl hmem⟩

/-- What has been seen is there, or a block result or the cleanup has removed it
    since. -/
theorem Seen.removed {s : MemoryStorage} {pre inputs : List Input} {txHash : HashType}
    (h : Seen cfg codec forwardPercent s pre inputs txHash) :
    (run (nodeNext cfg codec forwardPercent) { storage := s } inputs).storage.txsTable.contains
        txHash = true ∨
      ∃ moment, ∃ op : PoolCall, pre <+: moment ∧ moment ++ [.call op] <+: inputs ∧
        op.1.Removes ∧
        (run (nodeNext cfg codec forwardPercent) { storage := s }
          moment).storage.txsTable.contains txHash = true ∧
        (run (nodeNext cfg codec forwardPercent) { storage := s }
          (moment ++ [.call op])).storage.txsTable.contains txHash = false := by
  rcases h with ⟨moment, hpre, ⟨rest, rfl⟩, hcontains⟩
  by_cases hnow : (run (nodeNext cfg codec forwardPercent) { storage := s }
      (moment ++ rest)).storage.txsTable.contains txHash = true
  · exact Or.inl hnow
  · refine Or.inr ?_
    rw [run_append] at hnow
    -- It was there and is not there now, so some input in between has taken it out.
    rcases exists_flip (nodeNext cfg codec forwardPercent)
      (fun n : Node => n.storage.txsTable.contains txHash = true) rest _ hcontains hnow with
      ⟨before, input, after, rfl, hbefore, hlost⟩
    have hn := run_consistent cfg codec forwardPercent s (moment ++ before)
    rw [run_append] at hn
    rcases nodeNext_contains cfg codec forwardPercent hn hbefore hlost with ⟨op, rfl, hremoves⟩
    rw [← run_append] at hbefore hlost
    refine ⟨moment ++ before, op, hpre.trans (List.prefix_append _ _), ?_, hremoves, hbefore, ?_⟩
    · refine ⟨after, ?_⟩
      rw [List.append_assoc, List.append_assoc, List.singleton_append]
    · rw [run_append _ _ (moment ++ before), run_cons, run_nil]
      exact Bool.not_eq_true _ ▸ hlost

/-! ### The verdict -/

/-- What an invocation says to a callback is about the proposal captured. It
    is positive if the response is, or if the pool holds all that had been
    missed. -/
theorem verdict_of_mem_invoke {f : OnVerifyFinished} {response verdict : VerifyResponse}
    {callback : Nat} (h : .onVerifyFinished callback verdict ∈ f.invoke response)
    (hverdict : verdict.result = true) :
    ∃ block missedTxs, f = .verifyBlock callback block missedTxs ∧
      (response.result = true ∨
        ∀ txHash ∈ missedTxs, response.pool.txsTable.contains txHash = true) := by
  -- A fill calls its own callback and no other.
  cases f with
  | verifyBlock callback' block missedTxs =>
      have heq := List.mem_singleton.mp h
      injection heq with hcallback heq
      rw [heq] at hverdict
      exact ⟨block, missedTxs, hcallback ▸ rfl, TxPool.onVerifyFinishedWrapper_result hverdict⟩
  | fillBlock callback' txsHash =>
      rcases List.mem_map.mp h with ⟨filled, _, heq⟩
      cases heq

/-- A positive verdict goes out at once, or what the proposal waited for is in
    the pool now, or a look at the pool found all that had been missed. -/
theorem verdict_of_mem_output {n : Node} (h : n.Consistent) {input : Input} {callback : Nat}
    {verdict : VerifyResponse}
    (hout : .onVerifyFinished callback verdict ∈ nodeOutput cfg codec forwardPercent n input)
    (hverdict : verdict.result = true) :
    (∃ generatedNodeID data block, input = .asyncVerifyBlock callback generatedNodeID data ∧
      cfg.framework.createBlock data = some block ∧ n.storage.batchVerifyProposal block = []) ∨
    ∃ block missedTxs outstanding, n.Waits (.verifyBlock callback block missedTxs) outstanding ∧
      (block.blockHeader.isSome = true →
        (∀ txHash ∈ outstanding, (nodeNext cfg codec forwardPercent n
          input).storage.txsTable.contains txHash = true) ∨
        (∀ txHash ∈ missedTxs, n.storage.txsTable.contains txHash = true) ∨
        ∀ txHash ∈ missedTxs, (nodeNext cfg codec forwardPercent n
          input).storage.txsTable.contains txHash = true) := by
  unfold nodeOutput at hout
  unfold nodeNext
  have hstep := nodeStep_cases cfg codec forwardPercent h.missed input
  generalize nodeStep cfg codec forwardPercent n input = after at hstep hout ⊢
  -- Input by input: only three of them call the callback of a verification.
  cases hstep with
  | gossiped hgossips =>
      rcases List.mem_map.mp hout with ⟨sent, _, hsent⟩
      cases hsent
  | served hworker =>
      have hsent := List.mem_singleton.mp hout
      cases hsent
  | @verified callback' generatedNodeID data block hblock hmissed =>
      rcases verdict_of_mem_invoke (f := .verifyBlock callback' block []) hout hverdict with
        ⟨block', missedTxs, heq, _⟩
      injection heq with hcallback _ _
      rw [hcallback]
      exact Or.inl ⟨generatedNodeID, data, block, rfl, hblock, hmissed⟩
  | filled hmissed =>
      have hfilled := List.mem_singleton.mp hout
      cases hfilled
  | @ledgerVerdict index response r s left response' hrequest hbrings hresponse =>
      rcases mem_invokeAll hout with ⟨f, hf, hmem⟩
      rcases verdict_of_mem_invoke hmem hverdict with ⟨block, missedTxs, rfl, hresult⟩
      refine Or.inr ⟨block, missedTxs, r.missedTxs,
        Or.inl ⟨r, List.mem_of_getElem? hrequest, hf, rfl⟩, fun hheader => ?_⟩
      rcases exists_proposalHeader hf hheader with ⟨header, hproposal⟩
      rcases hresponse with ⟨rfl, _⟩ | ⟨_, _, rfl⟩
      · -- The ledger has left nothing.
        exact Or.inl (fun txHash hmem =>
          (hbrings.contains cfg hproposal hmem).resolve_left List.not_mem_nil)
      · exact Or.inr (Or.inr (hresult.resolve_left Bool.false_ne_true))
  | ledgerPassedOn hrequest hbrings hleft hpeer =>
      -- The rest is asked of a peer, and there is no verdict yet.
      have hsent := List.mem_singleton.mp hout
      cases hsent
  | @peerVerdict uuid response r s response' hrequest hverify =>
      rcases mem_invokeAll hout with ⟨f, hf, hmem⟩
      rcases verdict_of_mem_invoke hmem hverdict with ⟨block, missedTxs, rfl, hresult⟩
      refine Or.inr ⟨block, missedTxs, r.missedTxs,
        Or.inr ⟨r, List.mem_of_find?_eq_some hrequest, hf, rfl⟩, fun hheader => ?_⟩
      rcases exists_proposalHeader hf hheader with ⟨header, hproposal⟩
      rcases hresult with hresult | hfound
      · exact Or.inl (fun txHash hmem =>
          verifyFetchedTxs_contains cfg hverify hresult hproposal hmem)
      · -- An answer of the wrong size is judged by the pool before its import.
        rcases (verifyFetchedTxs_verdict cfg hverify).1 with hpool | hpool
        · rw [hpool] at hfound
          exact Or.inr (Or.inl hfound)
        · rw [hpool] at hfound
          exact Or.inr (Or.inr hfound)
  | _ => exact absurd hout List.not_mem_nil

/-- A node that reports a proposal as verified was asked to, and if the proposal
    has a header each of its transactions was in the pool at some moment since.
    It is there now, or a block result or the cleanup has removed it since the
    question. -/
theorem verified_meanwhile (s : MemoryStorage) (inputs : List Input) (input : Input)
    {callback : Nat} {verdict : VerifyResponse}
    (hout : .onVerifyFinished callback verdict ∈ nodeOutput cfg codec forwardPercent
      (run (nodeNext cfg codec forwardPercent) { storage := s } inputs) input)
    (hverdict : verdict.result = true) :
    ∃ pre generatedNodeID data block,
      pre ++ [.asyncVerifyBlock callback generatedNodeID data] <+: inputs ++ [input] ∧
      cfg.framework.createBlock data = some block ∧
      (block.blockHeader.isSome = true → ∀ txHash ∈ block.transactionsHash,
        (run (nodeNext cfg codec forwardPercent) { storage := s }
          (inputs ++ [input])).storage.txsTable.contains txHash = true ∨
        ∃ moment, ∃ op : PoolCall, pre <+: moment ∧ moment ++ [.call op] <+: inputs ++ [input] ∧
          op.1.Removes ∧
          (run (nodeNext cfg codec forwardPercent) { storage := s }
            moment).storage.txsTable.contains txHash = true ∧
          (run (nodeNext cfg codec forwardPercent) { storage := s }
            (moment ++ [.call op])).storage.txsTable.contains txHash = false) := by
  have hrun : run (nodeNext cfg codec forwardPercent) { storage := s } (inputs ++ [input])
      = nodeNext cfg codec forwardPercent
        (run (nodeNext cfg codec forwardPercent) { storage := s } inputs) input := by
    rw [run_concat]
  rcases verdict_of_mem_output cfg codec forwardPercent
    (run_consistent cfg codec forwardPercent s inputs) hout hverdict with
    ⟨generatedNodeID, data, block, rfl, hblock, hnone⟩ |
    ⟨block, missedTxs, outstanding, hwaits, hfound⟩
  · -- All transactions were there when the question came.
    refine ⟨inputs, generatedNodeID, data, block, List.prefix_refl _, hblock, ?_⟩
    refine fun _ txHash hmem => Seen.removed cfg codec forwardPercent
      ⟨inputs, List.prefix_refl _, List.prefix_append _ _, ?_⟩
    by_contra hfree
    have hmissed := (TxPool.mem_batchVerifyProposal _ block txHash).mpr
      ⟨hmem, Bool.not_eq_true _ ▸ hfree⟩
    rw [hnone] at hmissed
    exact absurd hmissed List.not_mem_nil
  · -- Something was missed, and the request for it goes back to the question.
    rcases run_pursued cfg codec forwardPercent s inputs hwaits with
      ⟨pre, generatedNodeID, data, hpre, hblock, rfl, hseen⟩
    have hbefore := (List.prefix_append pre [_]).trans hpre
    refine ⟨pre, generatedNodeID, data, block, hpre.trans (List.prefix_append _ _), hblock, ?_⟩
    intro hheader txHash hmem
    refine Seen.removed cfg codec forwardPercent ?_
    have hnow : (nodeNext cfg codec forwardPercent
        (run (nodeNext cfg codec forwardPercent) { storage := s } inputs)
        input).storage.txsTable.contains txHash = true →
        Seen cfg codec forwardPercent s pre (inputs ++ [input]) txHash := by
      intro hcontains
      rw [← hrun] at hcontains
      exact ⟨inputs ++ [input], hbefore.trans (List.prefix_append _ _), List.prefix_refl _,
        hcontains⟩
    -- What was not missed was there when the question came.
    cases hthen : (run (nodeNext cfg codec forwardPercent) { storage := s }
        pre).storage.txsTable.contains txHash with
    | true => exact ⟨pre, List.prefix_refl _, hbefore.trans (List.prefix_append _ _), hthen⟩
    | false =>
        have hmissed := (TxPool.mem_batchVerifyProposal _ block txHash).mpr ⟨hmem, hthen⟩
        rcases hseen hheader txHash hmissed with houtstanding | hseen
        · -- Still outstanding: the last answer has brought it, or a look at the
          -- pool before or after the import of that answer has found it.
          rcases hfound hheader with hall | hall | hall
          · exact hnow (hall txHash houtstanding)
          · exact Seen.later ⟨inputs, hbefore, List.prefix_refl _, hall txHash hmissed⟩
          · exact hnow (hall txHash hmissed)
        · exact hseen.later

/-- A positive answer to a question. -/
def verifies (callback : Nat) : Output → Bool
  | .onVerifyFinished callback' verdict => decide (callback' = callback) && verdict.result
  | _ => false

/-- The ledger brings one of two transactions, and a block result takes it out
    before the peer answers with the other. The request goes on regardless. -/
def overtaken : List Input :=
  [.asyncVerifyBlock 7 (some 2) [0, 1, 3],
    .onLedgerResponse 0 ⟨none, [TxPool.exampleTx 1 8 1]⟩,
    .call ⟨.asyncNotifyBlockResult 1 [{ txHash := 1, status := .none }], rfl⟩]

/-- The proposal is verified and its first transaction is not there any more. -/
theorem verified_meanwhile_overtaken :
    let input := Input.onPeerResponse 0 (TxPool.examplePeer 2 [3])
    let after := run (nodeNext TxPool.clearConfig emptyCodec 25) { storage := TxPool.examplePool }
    (after (overtaken ++ [input])).storage.txsTable.contains 1 = false ∧
      ∃ pre generatedNodeID data block,
        pre ++ [.asyncVerifyBlock 7 generatedNodeID data] <+: overtaken ++ [input] ∧
        TxPool.clearConfig.framework.createBlock data = some block ∧
        (block.blockHeader.isSome = true → ∀ txHash ∈ block.transactionsHash,
          (after (overtaken ++ [input])).storage.txsTable.contains txHash = true ∨
          ∃ moment, ∃ op : PoolCall, pre <+: moment ∧
            moment ++ [.call op] <+: overtaken ++ [input] ∧ op.1.Removes ∧
            (after moment).storage.txsTable.contains txHash = true ∧
            (after (moment ++ [.call op])).storage.txsTable.contains txHash = false) := by
  intro input after
  have hverifies : (nodeOutput TxPool.clearConfig emptyCodec 25 (after overtaken) input).any
      (verifies 7) = true := by decide
  rcases List.any_eq_true.mp hverifies with ⟨out, hout, hpositive⟩
  cases out with
  | onVerifyFinished callback verdict =>
      rw [verifies, Bool.and_eq_true, decide_eq_true_eq] at hpositive
      rcases hpositive with ⟨rfl, hverdict⟩
      exact ⟨by decide, verified_meanwhile TxPool.clearConfig emptyCodec 25 TxPool.examplePool
        overtaken input hout hverdict⟩
  | _ => exact absurd hpositive Bool.false_ne_true

end Node

end BcosTxPool
