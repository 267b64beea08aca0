import BcosTxPool.Theory.Downloads

/-!
# The Same Delivery Again

A payload that arrives twice. Objects are decoded anew from the payload each
time, whoever sends it.

On the normal path every reason to reject is monotone. The pool does not get
smaller while an import runs, hashes and nonces are only taken, and the ledger
checker stands still. So what was turned down on the way is turned down at the
end, and what was taken in is there. A second import finds nothing to do.

On the enforced path a success leaves every hash in the pool with the seal of
the proposal. A second submission recognises its own seal, or, if the proposal
has the zero hash, writes it once more over itself.

## Theorems

* `importOne_refused`: A turn of a normal import that is refused.
* `enforceSubmitTransaction_of_seals`: A submission that meets its own seal.
* `importDownloadedTxs_twice`: A second import changes nothing.
-/

namespace BcosTxPool

open Library TxPool

namespace MemoryStorage

variable (cfg : TxPoolConfig)

/-- A seal written over itself changes nothing: the flag is up already, and
    identifier and hash are those of the proposal. -/
theorem sealedFor_eq_self (s : MemoryStorage) {header : BlockHeader} {tx entry : Transaction}
    (hfind : s.txsTable.find? tx.hash = some entry) (hseals : sealState entry = header.seals)
    (htx : StampedFor header tx) : s.sealedFor tx entry = s := by
  have hsealed : entry.sealed = true := congrArg (fun x => x.1) hseals
  have hbatchId : tx.batchId = entry.batchId :=
    htx.1.trans (congrArg (fun x => x.2.1) hseals).symm
  have hbatchHash : tx.batchHash = entry.batchHash :=
    htx.2.trans (congrArg (fun x => x.2.2) hseals).symm
  have hsame : sealFor tx entry = entry := by
    rw [sealFor, hbatchId, hbatchHash, ← hsealed]
  rw [sealedFor, if_pos hsealed, KeyedTable.modify_eq_self hfind _ _ hsame]

/-- A submission for a proposal that finds the seal of the proposal is accepted
    and changes nothing. -/
theorem enforceSubmitTransaction_of_seals (s : MemoryStorage) {header : BlockHeader}
    {tx entry : Transaction} (hnonce : ¬ tx.nonce ∈ s.ledgerNonceChecker.nonceCache)
    (hfind : s.txsTable.find? tx.hash = some entry) (hseals : sealState entry = header.seals)
    (htx : StampedFor header tx) : s.enforceSubmitTransaction cfg tx = (s, .none) := by
  -- Of the five outcomes two are left: the seal is recognised, or written once
  -- more.
  rcases s.enforceSubmitTransaction_cases cfg tx with
    ⟨hn, _⟩ | ⟨_, e, hf, helsewhere, _⟩ | ⟨_, _, _, _, h⟩ | ⟨_, e, hf, _, h⟩ | ⟨_, hf, _⟩
  · exact absurd hn hnonce
  · -- The entry is sealed for this proposal, so for no other.
    rw [hfind, Option.some.injEq] at hf
    subst hf
    rw [SealedElsewhere, htx.1, htx.2] at helsewhere
    exact absurd helsewhere (not_sealedForOther_of_seals hseals)
  · exact h
  · rw [hfind, Option.some.injEq] at hf
    subst hf
    rw [h, s.sealedFor_eq_self hfind hseals htx]
  · exact absurd (hfind.symm.trans hf) (Option.some_ne_none entry)

end MemoryStorage

namespace TransactionSync

open MemoryStorage

variable (cfg : TxPoolConfig)

/-- A turn of a normal import whose content is refused changes nothing. The
    object is new at each delivery, but what is checked is its content. -/
theorem importOne_refused (s₀ : MemoryStorage) (fromNode : NodeID) {s : MemoryStorage}
    {data : TxData} (h : Refused cfg s data) : importOne cfg s₀ fromNode s data = s := by
  rcases importOne_cases cfg s₀ s fromNode data with ⟨_, hsame⟩ | ⟨hfree, htakes, _⟩
  · exact hsame
  · refine absurd ((s.verifyAndSubmitTransaction_snd_eq_none_iff cfg _ none).mpr ?_) h
    exact ⟨htakes.room, (s.exist_eq_false_iff _).mp hfree, htakes.accepted⟩

/-- A normal import of what is refused changes nothing, and it succeeds like
    every normal import. -/
theorem importDownloadedTxs_refused (s : MemoryStorage) (fromNode : NodeID) (txs : List TxData)
    {verifiedProposal : Option Block} (hheader : proposalHeader verifiedProposal = none)
    (h : ∀ data ∈ txs, Refused cfg s data) :
    importDownloadedTxs cfg s fromNode txs verifiedProposal = (s, true) := by
  rw [importDownloadedTxs_eq_run_importOne cfg s fromNode txs hheader,
    run_eq_self _ (fun data hdata => importOne_refused cfg s fromNode (h data hdata))]

/-- The loop of an enforced import over transactions that all have the seal of the
    proposal already changes nothing and succeeds. -/
theorem importLoop_of_seals (header : BlockHeader) (s : MemoryStorage) (txs : List Transaction)
    (htxs : ∀ tx ∈ txs, tx.invalid = false ∧ StampedFor header tx)
    (hnonce : ∀ tx ∈ txs, ¬ tx.nonce ∈ s.ledgerNonceChecker.nonceCache)
    (hseals : ∀ tx ∈ txs, ∃ entry, s.txsTable.find? tx.hash = some entry ∧
      sealState entry = header.seals) : importLoop cfg true txs s = (s, true) := by
  -- The pool stays the same from turn to turn, so the induction needs no other one.
  induction txs with
  | nil => rfl
  | cons tx txs ih =>
      rcases htxs tx List.mem_cons_self with ⟨hvalid, hstamped⟩
      rcases hseals tx List.mem_cons_self with ⟨entry, hfind, hentry⟩
      have hsubmit := s.enforceSubmitTransaction_of_seals cfg (hnonce tx List.mem_cons_self) hfind
        hentry hstamped
      rw [importLoop_enforced_cons cfg s hvalid, hsubmit, if_neg (not_not.mpr rfl)]
      exact ih (fun t ht => htxs t (List.mem_cons_of_mem tx ht))
        (fun t ht => hnonce t (List.mem_cons_of_mem tx ht))
        (fun t ht => hseals t (List.mem_cons_of_mem tx ht))

/-- A second import for a proposal, after one that succeeded. No signature is
    looked at a second time, and every submission meets the seal that was left
    by the first. -/
theorem importDownloadedTxs_enforced_twice (s : MemoryStorage) (fromNode fromNode' : NodeID)
    (txs : List TxData) {verifiedProposal : Option Block} {header : BlockHeader}
    (hheader : proposalHeader verifiedProposal = some header)
    (hsuccess : (importDownloadedTxs cfg s fromNode txs verifiedProposal).2 = true) :
    importDownloadedTxs cfg (importDownloadedTxs cfg s fromNode txs verifiedProposal).1 fromNode'
      txs verifiedProposal
      = ((importDownloadedTxs cfg s fromNode txs verifiedProposal).1, true) := by
  by_cases hverified : Verified cfg s txs
  · rcases importDownloadedTxs_enforced cfg s fromNode txs hheader hverified with
      ⟨hverdict, hprefix⟩
    rw [hsuccess, eq_comm, List.all_eq_true] at hverdict
    rw [List.takeWhile_eq_self_iff.mpr hverdict] at hprefix
    generalize (importDownloadedTxs cfg s fromNode txs verifiedProposal).1 = s' at hprefix
    -- Every transaction is pooled now, so no signature is asked for.
    have hpooled : ∀ data ∈ txs, s'.exist data.hash = true :=
      fun data hdata => hprefix.contains (Or.inl (List.mem_map_of_mem hdata))
    have hnow : Verified cfg s' txs := fun data hdata => Or.inl (hpooled data hdata)
    rw [importDownloadedTxs_eq_importLoop cfg s' fromNode' txs hheader hnow]
    -- Stamped for the proposal, with no nonce on the ledger, and sealed already.
    refine importLoop_of_seals cfg header s' _ ?_ ?_ ?_
    · intro tx htx
      rcases List.mem_map.mp htx with ⟨data, hdata, rfl⟩
      exact verifyDownloaded_stamped cfg s' fromNode' header (hnow data hdata)
    · intro tx htx
      rcases List.mem_map.mp htx with ⟨data, hdata, rfl⟩
      rw [verifyDownloaded_toTxData, hprefix.ledger]
      exact (of_decide_eq_true (hverdict data hdata)).1
    · intro tx htx
      rcases List.mem_map.mp htx with ⟨data, hdata, rfl⟩
      rw [verifyDownloaded_toTxData]
      exact hprefix.holds data.hash (List.mem_map_of_mem hdata)
  · rw [importDownloadedTxs_unverified cfg s fromNode txs hheader hverified] at hsuccess
    exact absurd hsuccess Bool.false_ne_true

/-- The same payload a second time, from the same node or another. Without a
    proposal the second import leaves the pool as the first has left it, and so it
    does for a proposal if the first succeeded. -/
theorem importDownloadedTxs_twice (cfg : TxPoolConfig) (s : MemoryStorage)
    (fromNode fromNode' : NodeID) (txs : List TxData) :
    importDownloadedTxs cfg (importDownloadedTxs cfg s fromNode txs none).1 fromNode' txs none
        = ((importDownloadedTxs cfg s fromNode txs none).1, true) ∧
    ∀ block, (importDownloadedTxs cfg s fromNode txs (some block)).2 = true →
      importDownloadedTxs cfg (importDownloadedTxs cfg s fromNode txs (some block)).1 fromNode' txs
          (some block)
        = ((importDownloadedTxs cfg s fromNode txs (some block)).1, true) := by
  refine ⟨?_, fun block hsuccess => ?_⟩
  · exact importDownloadedTxs_refused cfg _ fromNode' txs proposalHeader_none
      (importDownloadedTxs_normal cfg s fromNode txs proposalHeader_none).2.2
  · cases hheader : proposalHeader (some block) with
    | none =>
        -- A proposal without a header makes a normal import.
        exact importDownloadedTxs_refused cfg _ fromNode' txs hheader
          (importDownloadedTxs_normal cfg s fromNode txs hheader).2.2
    | some header =>
        exact importDownloadedTxs_enforced_twice cfg s fromNode fromNode' txs hheader hsuccess

/-- A proposal whose only transaction is fetched twice over, from two peers. -/
theorem importDownloadedTxs_twice_fetched :
    importDownloadedTxs exampleConfig
        (importDownloadedTxs exampleConfig examplePool 1 [exampleTx 6 7 1, exampleTx 6 7 1]
          (some ⟨some ⟨1, 9⟩, [6], []⟩)).1 2 [exampleTx 6 7 1, exampleTx 6 7 1]
        (some ⟨some ⟨1, 9⟩, [6], []⟩)
      = ((importDownloadedTxs exampleConfig examplePool 1 [exampleTx 6 7 1, exampleTx 6 7 1]
          (some ⟨some ⟨1, 9⟩, [6], []⟩)).1, true) :=
  (importDownloadedTxs_twice exampleConfig examplePool 1 2
    [exampleTx 6 7 1, exampleTx 6 7 1]).2 ⟨some ⟨1, 9⟩, [6], []⟩ (by decide)

end TransactionSync

end BcosTxPool
