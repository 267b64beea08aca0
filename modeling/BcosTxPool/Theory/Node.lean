import BcosTxPool.Theory.Writes

/-!
# What a Node May Write

The operations of a node taken apart into writes. `MayWrite` is the table of
permissions: for each kind of write it says which operations make it and what
holds of the entry when they do. Later results about runs of a node never look
at an operation again, they look up its permissions.

The rows that matter most are these. A transaction enters the table from a
client or a gossiped list only after every check, and from a proposal only
after its signature was checked. An entry is sealed by the sealer when it was
not, by an import for a proposal when it was not or carried no batch hash, and
by a mark. It is unsealed by a mark whose batch hash does not contradict its
own, or by a reset. It leaves with a block or a cleanup. Only a block writes
the ledger checker.

The import is the one operation that is itself a loop over calls. Its
transactions are objects made from decoded content, stamped and, if their
signature was wrong, marked invalid; `Downloaded` says so, and the loop is
taken apart under that assumption.

## Main definitions

* `Admitted`: Group, chain and signature are right.
* `ImportsFor`: The operation imports a content for a proposal with a header.
* `MayWrite`: Which operation makes which write.

## Theorems

* `step_reaches`: An operation makes only the writes it may.
* `step_ledgerNonceChecker`: Only a block result reaches the ledger checker.
-/

namespace BcosTxPool

open Library

namespace TxPool

/-- Group, chain and signature are right. These are the checks that a content
    keeps whatever the pool holds; the nonce and the block limit are right only
    at a moment. -/
structure Admitted (cfg : TxPoolConfig) (data : TxData) : Prop where
  group : data.groupId = cfg.groupId
  chain : data.chainId = cfg.chainId
  signature : cfg.framework.verify data = true

/-- The operation imports the content for a proposal with the given header.
    Without a header each transaction of the list is submitted like a client's,
    and no more than that is allowed. -/
def ImportsFor (op : Op) (header : BlockHeader) (data : TxData) : Prop :=
  ∃ fromNode txs block, op = .importDownloadedTxs fromNode txs (some block) ∧
    block.blockHeader = some header ∧ data ∈ txs

/-- Who may set the seal of an entry to a batch: the sealer, which leaves no
    batch on what it takes, an import for a proposal, which puts the proposal's
    on it unless another one's hash is there, and a sealing mark, which asks
    nothing. -/
def MaySeal (op : Op) (txHash : HashType) (tx : Transaction) (batchId : Int)
    (batchHash : HashType) : Prop :=
  ((∃ order txsLimit avoidTxs, op = .asyncSealTxs order txsLimit avoidTxs) ∧
    tx.sealed = false ∧ batchId = -1 ∧ batchHash = 0) ∨
  ((∃ header data, ImportsFor op header data ∧ data.hash = txHash ∧
      batchId = header.number ∧ batchHash = header.hash) ∧
    (tx.sealed = false ∨ tx.batchHash = 0)) ∨
  (∃ txsHash, op = .asyncMarkTxs txsHash true batchId batchHash ∧ txHash ∈ txsHash)

/-- Who may unseal an entry other than a reset: a mark that names the hash and
    whose batch hash is the entry's, or any if the entry has none. -/
def MayUnseal (op : Op) (txHash : HashType) (tx : Transaction) : Prop :=
  ∃ txsHash batchId batchHash, op = .asyncMarkTxs txsHash false batchId batchHash ∧
    txHash ∈ txsHash ∧ (tx.batchHash = 0 ∨ tx.batchHash = batchHash)

/-- The operations that bring transactions in. All others change or remove what
    is there. -/
def Op.Enters : Op → Prop
  | .asyncSubmit _ _ _ => True
  | .importDownloadedTxs _ _ _ => True
  | _ => False

/-- Which operation makes which write, and on what entry. A write that is not
    listed, such as one to a counter, to the pool's nonces or to a callback, is
    open to every operation, and no later result needs to know whose it was. -/
def MayWrite (cfg : TxPoolConfig) (op : Op) (s : MemoryStorage) : Write → Prop
  | .change txHash (.setSeal batchId batchHash) =>
      ∃ tx, s.txsTable.find? txHash = some tx ∧ MaySeal op txHash tx batchId batchHash
  | .change txHash .clearSeal =>
      ∃ tx, s.txsTable.find? txHash = some tx ∧ MayUnseal op txHash tx
  | .markAll sealFlag => op = .asyncResetTxPool ∧ sealFlag = false
  | .enter tx => op.Enters ∧ s.txsTable.find? tx.hash = none ∧
      (Admitted cfg tx.toTxData ∨
        (cfg.framework.verify tx.toTxData = true ∧ ∃ header, ImportsFor op header tx.toTxData))
  | .leave _ => (∃ blockNumber txsResult, op = .asyncNotifyBlockResult blockNumber txsResult) ∨
      op = .removeInvalidTxs
  | .record _ _ => ∃ blockNumber txsResult, op = .asyncNotifyBlockResult blockNumber txsResult
  | _ => True

variable (cfg : TxPoolConfig)

/-- A quiet write is permitted to every operation, so the lemmas on functions
    that make no other kind apply as they are. -/
theorem mayWrite_quiet (op : Op) (s : MemoryStorage) (w : Write) (hw : w.Quiet) :
    MayWrite cfg op s w := by
  cases w with
  | change txHash c =>
      cases c with
      | setSeal batchId batchHash => exact hw.elim
      | clearSeal => exact hw.elim
      | _ => trivial
  | markAll sealFlag => exact hw.elim
  | enter tx => exact hw.elim
  | leave txHash => exact hw.elim
  | record batchId nonceList => exact hw.elim
  | _ => trivial

/-! ### Submissions -/

/-- A normal submission enters a transaction only when every check was passed,
    whichever operation it is a part of. What enters has the content of the
    object that was submitted, also after the checks have marked it. -/
theorem verifyAndSubmitTransaction_mayWrite (op : Op) (hop : op.Enters) (s : MemoryStorage)
    (tx : Transaction) (htx : tx.sealed = false) (txSubmitCallback : Option TxSubmitCallback) :
    Reaches (MemoryStorage.write cfg) (MayWrite cfg op) s
      (s.verifyAndSubmitTransaction cfg tx txSubmitCallback).1 := by
  refine s.verifyAndSubmitTransaction_reaches cfg (mayWrite_quiet cfg op) tx htx txSubmitCallback
    (fun _ => trivial) (fun hyes => ?_)
  -- Neither the callback nor the marks are part of the content.
  have hdata : (TxValidator.marked cfg.framework
      (MemoryStorage.withCallback tx txSubmitCallback)).toTxData = tx.toTxData := by
    rw [TxValidator.marked_toTxData, MemoryStorage.withCallback_toTxData]
  refine ⟨hop, by rw [hdata]; exact hyes.free, Or.inl ?_⟩
  rw [hdata]
  exact ⟨hyes.accepted.group, hyes.accepted.chain, hyes.accepted.signature⟩

/-- A client's submission is a normal one, or it is answered with a receipt
    before it comes to that. -/
theorem asyncSubmit_mayWrite (op : Op) (hop : op.Enters) (s : MemoryStorage)
    (existsInGroup : Bool) (txData : Bytes) (txSubmitCallback : Option TxSubmitCallback) :
    Reaches (MemoryStorage.write cfg) (MayWrite cfg op) s
      (asyncSubmit cfg s existsInGroup txData txSubmitCallback) := by
  have hq := mayWrite_quiet cfg op
  unfold asyncSubmit checkExistsInGroup
  by_cases h : (txSubmitCallback.isNone || existsInGroup) = true
  · rw [if_pos h]
    -- What does not decode is malformed, and only a receipt is sent.
    simp only [MemoryStorage.submitTransactionData]
    cases cfg.framework.decodeTransaction txData with
    | none => exact s.notifyInvalidReceipt_reaches cfg hq 0 .malform txSubmitCallback
    | some data =>
        have hsub := verifyAndSubmitTransaction_mayWrite cfg op hop s (createTransaction data)
          (createTransaction_sealed data) txSubmitCallback
        simp only [MemoryStorage.submitTransaction, Bool.not_false, if_true]
        split
        · exact hsub.trans (MemoryStorage.notifyInvalidReceipt_reaches cfg hq _ _ _ _)
        · exact hsub
  · rw [if_neg h]
    exact s.notifyInvalidReceipt_reaches cfg hq 0 .requestNotBelongToTheGroup txSubmitCallback

/-! ### Imports -/

/-- The transaction objects of an import: unsealed, made from the list, stamped
    with the header, and invalid unless the signature is right or the pool has
    the transaction. -/
structure Downloaded (s : MemoryStorage) (txs : List TxData) (header : Option BlockHeader)
    (tx : Transaction) : Prop where
  unsealed : tx.sealed = false
  content : tx.toTxData ∈ txs
  batch : ∀ h, header = some h → tx.batchId = h.number ∧ tx.batchHash = h.hash
  signature : tx.invalid = false → s.txsTable.find? tx.hash = none →
    cfg.framework.verify tx.toTxData = true

/-- The stamp of an import is the known node and the batch of the proposal, and
    the content stays as it was decoded. -/
theorem stamp_toTxData (fromNode : NodeID) (header : Option BlockHeader) (tx : Transaction) :
    (TransactionSync.stamp fromNode header tx).toTxData = tx.toTxData := by
  cases header with
  | none => rfl
  | some header => rfl

/-- Nor does the verification of a downloaded transaction touch its content; it
    can only mark it. -/
theorem verifyDownloaded_toTxData (s : MemoryStorage) (fromNode : NodeID)
    (header : Option BlockHeader) (data : TxData) :
    (TransactionSync.verifyDownloaded cfg s fromNode header data).1.toTxData = data := by
  have hstamp := stamp_toTxData fromNode header (createTransaction data)
  unfold TransactionSync.verifyDownloaded
  simp only
  split
  · exact hstamp
  · split
    · exact hstamp
    · exact hstamp

/-- Under a header the object that comes out carries the number and the hash of
    the proposal, whether its signature was right or not. -/
theorem verifyDownloaded_batch (s : MemoryStorage) (fromNode : NodeID) (header : BlockHeader)
    (data : TxData) :
    (TransactionSync.verifyDownloaded cfg s fromNode (some header) data).1.batchId
        = header.number ∧
      (TransactionSync.verifyDownloaded cfg s fromNode (some header) data).1.batchHash
        = header.hash := by
  unfold TransactionSync.verifyDownloaded
  simp only
  split
  · exact ⟨rfl, rfl⟩
  · split
    · exact ⟨rfl, rfl⟩
    · exact ⟨rfl, rfl⟩

/-- The verification of a downloaded transaction fails for a wrong signature of
    one that the pool does not hold, and then it marks the object. -/
theorem verifyDownloaded_verdict (s : MemoryStorage) (fromNode : NodeID)
    (header : Option BlockHeader) (data : TxData) :
    (TransactionSync.verifyDownloaded cfg s fromNode header data).2
        = (s.exist data.hash || cfg.framework.verify data) ∧
      (TransactionSync.verifyDownloaded cfg s fromNode header data).1.invalid
        = !(s.exist data.hash || cfg.framework.verify data) := by
  have hstamp : (TransactionSync.stamp fromNode header (createTransaction data)).toTxData = data :=
    stamp_toTxData fromNode header (createTransaction data)
  have hvalid : (TransactionSync.stamp fromNode header (createTransaction data)).invalid
      = false := by
    cases header with
    | none => rfl
    | some header => rfl
  unfold TransactionSync.verifyDownloaded
  simp only [hstamp]
  -- A transaction in the pool passes without a look at the signature.
  by_cases hexist : s.exist data.hash = true
  · rw [if_pos hexist, hexist]
    exact ⟨rfl, hvalid⟩
  · rw [if_neg hexist, Bool.not_eq_true _ |>.mp hexist]
    by_cases hverify : cfg.framework.verify data = true
    · rw [if_pos hverify, hverify]
      exact ⟨rfl, hvalid⟩
    · rw [if_neg hverify, Bool.not_eq_true _ |>.mp hverify]
      exact ⟨rfl, rfl⟩

/-- What the first loop of an import makes from a content of the list is an
    object of the kind that the second loop expects. -/
theorem verifyDownloaded_downloaded (s : MemoryStorage) (fromNode : NodeID)
    (header : Option BlockHeader) (txs : List TxData) (data : TxData) (hdata : data ∈ txs) :
    Downloaded cfg s txs header
      (TransactionSync.verifyDownloaded cfg s fromNode header data).1 where
  unsealed := TransactionSync.verifyDownloaded_sealed cfg s fromNode header data
  content := by
    rw [verifyDownloaded_toTxData]
    exact hdata
  batch := by
    rintro h rfl
    exact verifyDownloaded_batch cfg s fromNode h data
  signature := by
    intro hvalid hfind
    rw [verifyDownloaded_toTxData] at hfind ⊢
    have hmissing : s.exist data.hash = false := (s.txsTable.contains_eq_false_iff _).mpr hfind
    rw [(verifyDownloaded_verdict cfg s fromNode header data).2, hmissing, Bool.false_or,
      Bool.not_eq_false'] at hvalid
    exact hvalid

/-- The operations of an import never remove an entry, so what is missing now
    was missing when the signatures were checked. -/
theorem find?_none_of_reaches {op : Op} {s s' : MemoryStorage} {fromNode : NodeID}
    {txs : List TxData} {verifiedProposal : Option Block}
    (hop : op = .importDownloadedTxs fromNode txs verifiedProposal)
    (h : Reaches (MemoryStorage.write cfg) (MayWrite cfg op) s s') (txHash : HashType)
    (hfind : s'.txsTable.find? txHash = none) : s.txsTable.find? txHash = none := by
  refine h.invariant (fun s' => s'.txsTable.find? txHash = none →
    s.txsTable.find? txHash = none) ?_ (fun hs => hs) hfind
  -- An import may not make the one write after which a lookup fails anew.
  intro t w hw hs ht
  refine hs (t.find?_write_eq_none cfg txHash w ?_ ht)
  rintro left rfl
  rcases hw with ⟨_, _, hw⟩ | hw
  · exact absurd (hop.symm.trans hw) (fun hc => by cases hc)
  · exact absurd (hop.symm.trans hw) (fun hc => by cases hc)

/-- One submission of an import. Without a header it is a normal one; with a
    header it is enforced, and the signature is what was checked when the import
    began: the transaction was missing then, since nothing has left in the
    meantime. -/
theorem submitTransaction_mayWrite {op : Op} {s₀ : MemoryStorage} {fromNode : NodeID}
    {txs : List TxData} {verifiedProposal : Option Block}
    (hop : op = .importDownloadedTxs fromNode txs verifiedProposal) (s : MemoryStorage)
    (hgrow : ∀ txHash, s.txsTable.find? txHash = none → s₀.txsTable.find? txHash = none)
    (tx : Transaction)
    (htx : Downloaded cfg s₀ txs (TransactionSync.proposalHeader verifiedProposal) tx)
    (hvalid : tx.invalid = false) :
    Reaches (MemoryStorage.write cfg) (MayWrite cfg op) s
      (s.submitTransaction cfg tx none
        (TransactionSync.proposalHeader verifiedProposal).isSome).1 := by
  have henters : op.Enters := by
    rw [hop]
    trivial
  cases hheader : TransactionSync.proposalHeader verifiedProposal with
  | none => exact verifyAndSubmitTransaction_mayWrite cfg op henters s tx htx.unsealed none
  | some header =>
      -- The proposal of the import is what allows the seal and the entry.
      have himports : ImportsFor op header tx.toTxData := by
        rcases Option.bind_eq_some_iff.mp hheader with ⟨block, hblock, hh⟩
        exact ⟨fromNode, txs, block, by rw [hop, hblock], hh, htx.content⟩
      have hbatch := htx.batch header hheader
      refine s.enforceSubmitTransaction_reaches cfg (mayWrite_quiet cfg op) tx htx.unsealed
        (fun entry hfind hfree => ?_) (fun hfind => ?_)
      · exact ⟨entry, hfind, Or.inr (Or.inl
          ⟨⟨header, tx.toTxData, himports, rfl, hbatch.1, hbatch.2⟩, hfree⟩)⟩
      · exact ⟨henters, hfind, Or.inr ⟨htx.signature hvalid (hgrow _ hfind), header, himports⟩⟩

/-- The second loop of an import, from any state in which nothing has left since
    the first. -/
theorem importLoop_mayWrite {op : Op} {s₀ : MemoryStorage} {fromNode : NodeID}
    {txs : List TxData} {verifiedProposal : Option Block}
    (hop : op = .importDownloadedTxs fromNode txs verifiedProposal) (l : List Transaction)
    (hl : ∀ tx ∈ l, Downloaded cfg s₀ txs (TransactionSync.proposalHeader verifiedProposal) tx) :
    ∀ s : MemoryStorage,
      (∀ txHash, s.txsTable.find? txHash = none → s₀.txsTable.find? txHash = none) →
      Reaches (MemoryStorage.write cfg) (MayWrite cfg op) s
        (TransactionSync.importLoop cfg (TransactionSync.proposalHeader verifiedProposal).isSome
          l s).1 := by
  -- By induction on the list, for every state that has lost nothing.
  induction l with
  | nil => exact fun s _ => reaches_refl _ s
  | cons tx l ih =>
      intro s hgrow
      have ih := ih (fun t ht => hl t (List.mem_cons_of_mem tx ht))
      unfold TransactionSync.importLoop
      -- What is invalid is skipped; the rest of the loop is the induction.
      by_cases hinv : tx.invalid = true
      · rw [if_pos hinv]
        exact ih s hgrow
      · rw [if_neg hinv]
        have hsub := submitTransaction_mayWrite cfg hop s hgrow tx (hl tx List.mem_cons_self)
          (by simpa only [Bool.not_eq_true] using hinv)
        -- The submission removes nothing, so the loop goes on from a state in which
        -- a missing hash was missing from the start.
        have hrest := hsub.trans (ih _ (fun txHash hfind =>
          hgrow txHash (find?_none_of_reaches cfg hop hsub txHash hfind)))
        simp only
        split
        · split
          · exact hsub
          · exact hrest
        · exact hrest

/-- An import makes only the writes it may. If a signature in an import for a
    proposal is wrong, it stops before the second loop and writes nothing. -/
theorem importDownloadedTxs_mayWrite (s : MemoryStorage) (fromNode : NodeID) (txs : List TxData)
    (verifiedProposal : Option Block) :
    Reaches (MemoryStorage.write cfg)
      (MayWrite cfg (.importDownloadedTxs fromNode txs verifiedProposal)) s
      (TransactionSync.importDownloadedTxs cfg s fromNode txs verifiedProposal).1 := by
  unfold TransactionSync.importDownloadedTxs
  simp only
  split
  · exact reaches_refl _ s
  · split
    · exact reaches_refl _ s
    · refine importLoop_mayWrite cfg rfl _ (fun tx htx => ?_) s (fun _ h => h)
      rw [List.map_map, List.mem_map] at htx
      rcases htx with ⟨data, hdata, rfl⟩
      exact verifyDownloaded_downloaded cfg s fromNode _ txs data hdata

/-! ### Every operation -/

/-- An operation of a node makes only the writes it may. Every invariant over
    runs is derived from this one statement: it has to be checked against a
    write that is permitted, and never against the text of an operation. -/
theorem step_reaches (s : MemoryStorage) (op : Op) :
    Reaches (MemoryStorage.write cfg) (MayWrite cfg op) s (step cfg s op) := by
  have hq := mayWrite_quiet cfg op
  cases op with
  | asyncSubmit existsInGroup txData txSubmitCallback =>
      exact asyncSubmit_mayWrite cfg (.asyncSubmit existsInGroup txData txSubmitCallback) trivial s
        existsInGroup txData txSubmitCallback
  | importDownloadedTxs fromNode txs verifiedProposal =>
      exact importDownloadedTxs_mayWrite cfg s fromNode txs verifiedProposal
  | asyncSealTxs order txsLimit avoidTxs =>
      refine (MemoryStorage.fetchLoop_reaches cfg hq txsLimit avoidTxs true ?_ ?_ ?_ order s
        {}).trans (MemoryStorage.notify_reaches cfg hq _)
      · exact fun _ _ _ _ _ => trivial
      · exact fun _ _ _ _ _ => trivial
      -- A seal avoids duplicates, so it takes unsealed entries only.
      · intro s txHash tx hfind hfetch
        refine ⟨tx, hfind, Or.inl ⟨⟨order, txsLimit, avoidTxs, rfl⟩, ?_, rfl, rfl⟩⟩
        exact s.sealed_of_fetchDecision_fetch hfetch
  | removeInvalidTxs =>
      refine s.removeInvalidTxs_reaches cfg hq ?_ ?_ ?_
      · exact fun _ _ _ => Or.inr rfl
      · exact fun _ => trivial
      · exact fun _ => trivial
  | asyncNotifyBlockResult blockNumber txsResult =>
      refine s.batchRemove_reaches cfg hq blockNumber txsResult ?_ ?_ ?_
      · exact fun _ _ _ => Or.inl ⟨blockNumber, txsResult, rfl⟩
      · exact fun _ => ⟨blockNumber, txsResult, rfl⟩
      · exact fun _ => trivial
  | asyncMarkTxs txsHash sealedFlag batchId batchHash =>
      refine s.batchMarkTxs_reaches cfg txsHash batchId batchHash sealedFlag
        (fun s txHash hmem tx hfind hopen => ?_)
      cases sealedFlag with
      | true => exact ⟨tx, hfind, Or.inr (Or.inr ⟨txsHash, rfl, hmem⟩)⟩
      | false =>
          refine ⟨tx, hfind, txsHash, batchId, batchHash, rfl, hmem, ?_⟩
          -- Neither unassigned nor its own, the batch hash would have blocked it.
          by_contra hc
          rw [not_or] at hc
          exact hopen ⟨hc.1, hc.2, rfl⟩
  | asyncResetTxPool => exact s.batchMarkAllTxs_reaches cfg hq false ⟨rfl, rfl⟩
  | filterUnknownTxs txsHashList peer => exact s.filterUnknownTxs_reaches cfg hq txsHashList peer
  | fetchNewTxs order txsLimit => exact MemoryStorage.fetchNewTxs_reaches cfg hq txsLimit order s []
  | appendKnownNode txHash node => exact s.appendKnownNode_reaches cfg hq txHash node

/-! ### The ledger checker -/

/-- The ledger checker is written by one kind of write only. -/
theorem write_ledgerNonceChecker (s : MemoryStorage) (w : Write)
    (hw : ∀ batchId nonceList, w ≠ .record batchId nonceList) :
    (s.write cfg w).ledgerNonceChecker = s.ledgerNonceChecker := by
  cases w with
  | notify => exact s.notifyUnsealedTxsSize_ledgerNonceChecker cfg
  | clamp =>
      rcases s.unSealedTxsSizeWithoutLock_eq with ⟨n, heq, _⟩
      simp only [MemoryStorage.write, MemoryStorage.unSealedTxsSize, heq]
  | leave txHash =>
      simp only [MemoryStorage.write, MemoryStorage.removeWithoutLock]
      cases s.txsTable.find? txHash with
      | none => rfl
      | some tx => rfl
  | record batchId nonceList => exact absurd rfl (hw batchId nonceList)
  | _ => rfl

/-- A block result puts the nonces it collected into the ledger checker under
    its number. -/
theorem batchRemove_ledgerNonceChecker (s : MemoryStorage) (batchId : Int)
    (txsResult : List TransactionSubmitResult) :
    (s.batchRemove cfg batchId txsResult).ledgerNonceChecker
      = s.ledgerNonceChecker.batchInsert batchId (s.blockNonces txsResult) := by
  have hledger : (s.batchRemoveTxs batchId txsResult).1.ledgerNonceChecker
      = s.ledgerNonceChecker := by
    refine (s.batchRemoveTxs_reaches cfg
      (C := fun _ w => ∀ batchId nonceList, w ≠ .record batchId nonceList) ?_ batchId txsResult
      ?_).invariant (fun s' => s'.ledgerNonceChecker = s.ledgerNonceChecker)
      (fun t w hw ht => (write_ledgerNonceChecker cfg t w hw).trans ht) rfl
    · rintro _ _ hw _ _ rfl
      exact hw
    · exact fun _ _ _ _ _ hc => by cases hc
  -- The removals come first and leave the checker alone; the record follows them.
  unfold MemoryStorage.batchRemove
  simp only [MemoryStorage.notifyUnsealedTxsSize_ledgerNonceChecker, hledger]
  rfl

/-- Only a block result reaches the ledger checker. The pool has no other way to
    learn what is on the chain, and what a block carried is known from its
    results alone. -/
theorem step_ledgerNonceChecker (s : MemoryStorage) (op : Op) :
    (step cfg s op).ledgerNonceChecker = match op with
      | .asyncNotifyBlockResult blockNumber txsResult =>
          s.ledgerNonceChecker.batchInsert blockNumber (s.blockNonces txsResult)
      | _ => s.ledgerNonceChecker := by
  -- No other operation may make the write that records a block.
  have hkeep : (∀ blockNumber txsResult, op ≠ .asyncNotifyBlockResult blockNumber txsResult) →
      (step cfg s op).ledgerNonceChecker = s.ledgerNonceChecker := by
    intro hop
    refine (step_reaches cfg s op).invariant
      (fun s' => s'.ledgerNonceChecker = s.ledgerNonceChecker) (fun t w hw ht => ?_) rfl
    refine (write_ledgerNonceChecker cfg t w ?_).trans ht
    rintro batchId nonceList rfl
    rcases hw with ⟨blockNumber, txsResult, hc⟩
    exact hop blockNumber txsResult hc
  cases op with
  | asyncNotifyBlockResult blockNumber txsResult =>
      exact batchRemove_ledgerNonceChecker cfg s blockNumber txsResult
  | _ => exact hkeep (fun _ _ hc => by cases hc)

end TxPool

end BcosTxPool
