import BcosTxPool.Core.Requests
import BcosTxPool.Theory.Import

/-!
# Request and Response

The two sides of a request for transactions, on two nodes. The one that is
asked looks the hashes up and returns what it finds, in the order of the
request and with its repetitions; a hash it does not have is left out without
a word. The one that asked compares the number of transactions first and the
hashes one by one after the import.

The two agree because an entry's key is the hash of its transaction. If every
hash is found, the answer has the length of the request and its hashes are
those of the request. If one is left out the answer is shorter, and the first
comparison fails.

The bytes in between are the framework's business. `RoundTrips` says of the
two objects of an answer, the block and the message, that decoding gives back
what was encoded.

## Main definitions

* `answerOf`: The answer of a peer that has a given pool.
* `RoundTrips`: The answer survives the wire.

## Theorems

* `answers_answerOf`: What the requester reads in the answer.
* `exchange_agrees`: The verdict on an honest answer.
* `requestMissedTxsFromPeer_agrees`: The callback of a request to that peer.
-/

namespace BcosTxPool

open Library

namespace TransactionSync

open MemoryStorage

/-- The answer of a peer with the pool `t` to a request for the given hashes.
    The front service delivers it without an error. -/
def answerOf (codec : Codec) (t : MemoryStorage) (nodeID : NodeID) (txsHash : HashList) :
    FrontResponse where
  error := none
  nodeID := nodeID
  data := onReceiveTxsRequest codec t ⟨.txsRequestPacket, txsHash, []⟩

variable (cfg : TxPoolConfig) {codec : Codec} {t : MemoryStorage}

/-- The message and the block of an answer are decoded as they were encoded.
    Nothing is asked of other messages and blocks. -/
structure RoundTrips (codec : Codec) (t : MemoryStorage) (txsHash : HashList) : Prop where
  message : cfg.framework.createTxsSyncMsg (codec.encodeTxsSyncMsg (txsResponse codec t txsHash))
    = some (txsResponse codec t txsHash)
  block : cfg.framework.createBlock (codec.encodeBlock (responseBlock t txsHash))
    = some (responseBlock t txsHash)

/-- The requester reads the transactions that the peer found: the message
    decodes, it is a response, and its payload is a block. -/
theorem answers_answerOf {txsHash : HashList} (h : RoundTrips cfg codec t txsHash)
    (nodeID : NodeID) :
    Answers cfg (answerOf codec t nodeID txsHash) (responseBlock t txsHash).transactions :=
  ⟨rfl, _, _, h.message, rfl, h.block, rfl⟩

/-- A complete answer has the length and the hashes of the request, repetitions
    included. -/
theorem responseBlock_complete {txsHash : HashList}
    (hall : ∀ k ∈ txsHash, t.exist k = true) :
    (responseBlock t txsHash).transactions.length = txsHash.length ∧
      (responseBlock t txsHash).transactions.map (fun data => data.hash) = txsHash := by
  have hhashes := t.fetchTxs_hashes txsHash hall
  have hmap : (responseBlock t txsHash).transactions.map (fun data => data.hash) = txsHash := by
    rw [responseBlock, List.map_map]
    exact hhashes
  refine ⟨?_, hmap⟩
  rw [← List.length_map (fun data : TxData => data.hash), hmap]

/-- An answer is too short as soon as one hash is missed. What stands in it
    twice cannot make up for that. -/
theorem length_responseBlock_lt {txsHash : HashList}
    (hmissed : ∃ k ∈ txsHash, t.exist k = false) :
    (responseBlock t txsHash).transactions.length < txsHash.length := by
  have hlength := t.length_fetchTxs txsHash
  rcases hmissed with ⟨k, hk, hfree⟩
  -- What is fetched and what is missed make up the request.
  have hpos := List.length_pos_of_mem ((t.fetchTxs_missed_iff txsHash k).mpr ⟨hk, hfree⟩)
  rw [responseBlock, List.length_map]
  omega

/-- An honest answer and the requester agree, whatever the two pools hold and
    whether or not the request is for a proposal. If the peer has every hash,
    the answer passes the comparison of the lengths and that of the hashes, and
    the verdict is that of the import. If it lacks one, the verdict is
    `TransactionsMissing`. -/
theorem exchange_agrees (cfg : TxPoolConfig) (codec : Codec) (s t : MemoryStorage)
    (nodeID : NodeID) (missedTxs : HashList) (verifiedProposal : Option Block)
    (hround : RoundTrips cfg codec t missedTxs) :
    ((∀ k ∈ missedTxs, t.exist k = true) →
      (responseBlock t missedTxs).transactions.length = missedTxs.length ∧
      (responseBlock t missedTxs).transactions.map (fun data => data.hash) = missedTxs ∧
      ∃ s' imported, importDownloadedTxs cfg s nodeID (responseBlock t missedTxs).transactions
          verifiedProposal = (s', imported) ∧
        verifyFetchedTxs cfg s (answerOf codec t nodeID missedTxs) missedTxs verifiedProposal
          = some (s', [if imported then ⟨none, true, s'⟩
            else ⟨some ⟨.txsSignatureVerifyFailed,
              "invalid transaction for invalid signature or nonce or blockLimit"⟩, false, s'⟩])) ∧
    ((∃ k ∈ missedTxs, t.exist k = false) →
      ∃ s', verifyFetchedTxs cfg s (answerOf codec t nodeID missedTxs) missedTxs verifiedProposal
        = some (s', [⟨some ⟨.transactionsMissing, "TransactionsMissing"⟩, false, s⟩])) := by
  -- The answer decodes, so what is left are the comparisons and the import.
  have hverify := verifyFetchedTxs_of_answers cfg s (answers_answerOf cfg hround nodeID) missedTxs
    verifiedProposal
  have hnode : (answerOf codec t nodeID missedTxs).nodeID = nodeID := rfl
  constructor
  · intro hall
    rcases responseBlock_complete hall with ⟨hlength, hhashes⟩
    -- After the two comparisons only the verdict of the import is left.
    rcases himport : importDownloadedTxs cfg s nodeID (responseBlock t missedTxs).transactions
      verifiedProposal with ⟨s', imported⟩
    refine ⟨hlength, hhashes, s', imported, rfl, ?_⟩
    rw [hverify, if_neg (fun hne => hne hlength.symm)]
    unfold answered
    rw [hhashes, if_neg (fun hne : missedTxs ≠ missedTxs => hne rfl), hnode, himport]
    cases imported with
    | true => rfl
    | false => rfl
  · intro hmissed
    exact ⟨_, hverify.trans (if_pos (Nat.ne_of_gt (length_responseBlock_lt hmissed)))⟩

/-- A request to an honest peer calls back once, with that verdict. For nothing
    no peer is asked, and that is a success. -/
theorem requestMissedTxsFromPeer_agrees (s : MemoryStorage) (nodeID : NodeID)
    (missedTxs : HashList) (verifiedProposal : Option Block)
    (hround : RoundTrips cfg codec t missedTxs) :
    ∃ s' response, requestMissedTxsFromPeer cfg s nodeID missedTxs verifiedProposal true
        (answerOf codec t) = (s', [response]) ∧
      (response.error.map (fun e => e.errorCode) = some .transactionsMissing ↔
        ∃ k ∈ missedTxs, t.exist k = false) ∧
      response.error.map (fun e => e.errorCode) ≠ some .inconsistentTransactions := by
  rcases exchange_agrees cfg codec s t nodeID missedTxs verifiedProposal hround with
    ⟨hcomplete, hshort⟩
  unfold requestMissedTxsFromPeer
  -- A request for nothing is a success before any peer is asked.
  by_cases hempty : missedTxs = []
  · subst hempty
    refine ⟨_, _, rfl, iff_of_false (fun h => by cases h) ?_, (fun h => by cases h)⟩
    rintro ⟨k, hk, _⟩
    exact List.not_mem_nil hk
  have hlength : ¬ (decide (missedTxs.length = 0) && true) = true := by
    rw [Bool.and_true, decide_eq_true_eq, List.length_eq_zero_iff]
    exact hempty
  rw [if_neg hlength]
  by_cases hmissed : ∃ k ∈ missedTxs, t.exist k = false
  · rcases hshort hmissed with ⟨s', heq⟩
    rw [heq]
    exact ⟨_, _, rfl, iff_of_true rfl hmissed, (fun h => by cases h)⟩
  · -- The answer is complete; whether its import succeeds is another matter.
    have hall : ∀ k ∈ missedTxs, t.exist k = true := by
      intro k hk
      rw [← Bool.not_eq_false]
      exact fun hfree => hmissed ⟨k, hk, hfree⟩
    rcases hcomplete hall with ⟨_, _, s', imported, _, heq⟩
    rw [heq]
    refine ⟨_, _, rfl, iff_of_false (fun h => ?_) hmissed, fun h => ?_⟩
    · cases imported with
      | true => cases h
      | false => cases h
    · cases imported with
      | true => cases h
      | false => cases h

/-- A framework whose blocks are the hashes of their transactions, a byte
    each. -/
def hashConfig : TxPoolConfig :=
  { TxPool.clearConfig with
    framework :=
      { TxPool.clearConfig.framework with
        createBlock := fun data => some ⟨none, [], data.map (fun b =>
          TxPool.exampleTx (Fin.ofNat (2 ^ 256) b.toNat) 7 1)⟩ } }

/-- Its encoders. They write one byte for each transaction. -/
def hashCodec : Codec where
  encodeBlock block := block.transactions.map (fun tx => UInt8.ofNat tx.hash.val)
  encodeTxsSyncMsg msg := msg.txsData

/-- A pool with the transaction 1. -/
def onePool : MemoryStorage :=
  (TxPool.examplePool.insert hashConfig (createTransaction (TxPool.exampleTx 1 7 1))).1

/-- A request that names its only transaction twice is answered in full, and one
    that names another as well is reported missing. -/
theorem exchange_agrees_onePool :
    (responseBlock onePool [1, 1]).transactions.map (fun data => data.hash) = [1, 1] ∧
      ∃ s', verifyFetchedTxs hashConfig TxPool.examplePool (answerOf hashCodec onePool 1 [1, 2])
        [1, 2] none = some (s', [⟨some ⟨.transactionsMissing, "TransactionsMissing"⟩, false,
          TxPool.examplePool⟩]) := by
  have hround : ∀ txsHash, txsHash = [1, 1] ∨ txsHash = [1, 2] →
      RoundTrips hashConfig hashCodec onePool txsHash := by
    rintro txsHash (rfl | rfl)
    · exact ⟨rfl, by decide⟩
    · exact ⟨rfl, by decide⟩
  have hone : onePool.exist 1 = true := rfl
  refine ⟨((exchange_agrees hashConfig hashCodec TxPool.examplePool onePool 1 [1, 1] none
    (hround _ (Or.inl rfl))).1 ?_).2.1, (exchange_agrees hashConfig hashCodec TxPool.examplePool
    onePool 1 [1, 2] none (hround _ (Or.inr rfl))).2 ⟨2, ?_, rfl⟩⟩
  · intro k hk
    rw [List.mem_cons, List.mem_singleton, or_self] at hk
    rw [hk]
    exact hone
  · exact List.mem_cons_of_mem 1 (List.mem_singleton.mpr rfl)

end TransactionSync

end BcosTxPool
