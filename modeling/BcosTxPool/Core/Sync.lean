import BcosTxPool.Core.Storage

/-!
# Transaction Sync

How transactions of other nodes and of the local ledger enter the pool, and
how the transactions a proposal misses are fetched.

`importDownloadedTxs` is the one gate. It first checks the signature of every
transaction that is not in the pool yet, and then submits them one by one. A
proposal with a header turns it into an enforced import: every transaction is
stamped with the number and hash of the header, one bad signature rejects the
whole list, and so does the first submission that is rejected. Without a
header whatever cannot be imported is skipped.

`requestMissedTxs` asks the ledger first and the peer that proposed second.
Each of the two answers is arbitrary here: the ledger may return anything,
and the peer's answer is a byte string that may not even decode. An exception
that decoding raises is swallowed by the caller's lambda, so `verifyFetchedTxs`
is `none` there.

A callback may run in the middle of a function, before later effects. Its
invocations are therefore recorded with the state of the pool at that moment,
which is all that a callback of this repository reads.

## Main definitions

* `VerifyResponse`: One invocation of a verify callback.
* `verifyDownloaded`: The verification loop's effect on one transaction.
* `importLoop`: The submission loop.
* `importDownloadedTxs`: Both of them.
* `onGetMissedTxsFromLedger`: The ledger has answered.
* `verifyFetchedTxs`: The peer has answered.
* `requestMissedTxsFromPeer`, `requestMissedTxs`: The whole request.
-/

namespace BcosTxPool

open Library

/-- One invocation of a verify callback, with the pool it could see: the wrapper
    of `asyncVerifyBlock` looks hashes up at the moment it is called. -/
structure VerifyResponse where
  error : Option Error
  result : Bool
  pool : MemoryStorage

/-- What the ledger hands to the callback of `asyncGetBatchTxsByHashList`.
    Nothing binds it to the hashes asked for. -/
structure LedgerResponse where
  error : Option Error
  fetchedTxs : List TxData

/-- What the front service hands to the callback of `asyncSendMessageByNodeID`:
    an error, such as a timeout, or bytes of a node that answered. -/
structure FrontResponse where
  error : Option Error
  nodeID : NodeID
  data : Bytes

namespace TransactionSync

/-- The header of a proposal, if there is a proposal and it has one. Its
    presence alone decides whether an import is enforced. -/
def proposalHeader (verifiedProposal : Option Block) : Option BlockHeader :=
  verifiedProposal.bind (fun block => block.blockHeader)

/-- A downloaded transaction with its sender noted and, for a proposal with a
    header, stamped with it. -/
def stamp (fromNode : NodeID) (header : Option BlockHeader) (tx : Transaction) : Transaction :=
  let tx := { tx with knownNodes := Insert.insert fromNode tx.knownNodes }
  match header with
  | some header => { tx with batchId := header.number, batchHash := header.hash }
  | none => tx

/-- One turn of the verification loop of `importDownloadedTxs`: the transaction
    and whether it leaves `verifySuccess` alone. -/
def verifyDownloaded (cfg : TxPoolConfig) (s : MemoryStorage) (fromNode : NodeID)
    (header : Option BlockHeader) (data : TxData) : Transaction × Bool :=
  let tx := stamp fromNode header (createTransaction data)
  -- What the pool holds already was verified when it came in.
  if s.exist tx.hash then (tx, true)
  else if cfg.framework.verify tx.toTxData then (tx, true)
  -- The bad signature is noted on the object, for the submission loop.
  else ({ tx with invalid := true }, false)

/-- The submission loop of `importDownloadedTxs`. The result is `false` only for
    an enforced import that met a rejection. -/
def importLoop (cfg : TxPoolConfig) (enforceImport : Bool) :
    List Transaction → MemoryStorage → MemoryStorage × Bool
  | [], s => (s, true)
  | tx :: txs, s =>
    if tx.invalid then importLoop cfg enforceImport txs s
    else
      let (s, result) := s.submitTransaction cfg tx none enforceImport
      if result ≠ .none then
        -- What was submitted before a rejected one stays in the pool.
        if enforceImport then (s, false) else importLoop cfg enforceImport txs s
      else importLoop cfg enforceImport txs s

/-- `TransactionSync::importDownloadedTxs`. All signatures are checked before
    the first submission, so a bad one keeps a whole proposal out, while a
    rejected submission comes too late for those before it. -/
def importDownloadedTxs (cfg : TxPoolConfig) (s : MemoryStorage) (fromNode : NodeID)
    (txs : List TxData) (verifiedProposal : Option Block) : MemoryStorage × Bool :=
  if txs.length = 0 then (s, true)
  else
    let header := proposalHeader verifiedProposal
    let verified := txs.map (verifyDownloaded cfg s fromNode header)
    let verifySuccess := verified.all (fun v => v.2)
    -- Without a header the invalid ones are passed over one by one.
    if header.isSome && !verifySuccess then (s, false)
    else importLoop cfg header.isSome (verified.map (fun v => v.1)) s

/-- One turn of the loop of `onGetMissedTxsFromLedger`. A transaction the ledger
    was not asked for is passed over here; it has been imported all the same. -/
def eraseFetched (missedTxs : SortedSet HashType) (tx : TxData) : SortedSet HashType :=
  if tx.hash ∈ missedTxs then missedTxs.erase tx.hash else missedTxs

/-- `TransactionSync::onGetMissedTxsFromLedger`: the pool, the hashes still
    missed, whose number the source returns, and the callbacks made. -/
def onGetMissedTxsFromLedger (cfg : TxPoolConfig) (s : MemoryStorage)
    (missedTxs : SortedSet HashType) (response : LedgerResponse)
    (verifiedProposal : Option Block) (onVerifyFinished : Bool) :
    MemoryStorage × SortedSet HashType × List VerifyResponse :=
  match response.error with
  | some _ => (s, missedTxs, [])
  | none =>
      let (s, ret) := importDownloadedTxs cfg s cfg.nodeID response.fetchedTxs verifiedProposal
      -- Where the import fails, all the hashes count as missed still.
      if !ret then (s, missedTxs, [])
      else
        let missedTxs := response.fetchedTxs.foldl eraseFetched missedTxs
        if missedTxs.size = 0 && onVerifyFinished then (s, missedTxs, [⟨none, true, s⟩])
        else (s, missedTxs, [])

/-- `TransactionSync::verifyFetchedTxs`, `none` where decoding throws. -/
def verifyFetchedTxs (cfg : TxPoolConfig) (s : MemoryStorage) (response : FrontResponse)
    (missedTxs : HashList) (verifiedProposal : Option Block) :
    Option (MemoryStorage × List VerifyResponse) :=
  match response.error with
  | some error => some (s, [⟨some error, false, s⟩])
  | none =>
    match cfg.framework.createTxsSyncMsg response.data with
    | none => none
    | some txsResponse =>
      -- A peer may answer with any packet.
      if txsResponse.type ≠ .txsResponsePacket then
        some (s, [⟨some ⟨.fetchTransactionsFailed, "FetchTransactionsFailed"⟩, false, s⟩])
      else
        match cfg.framework.createBlock txsResponse.txsData with
        | none => none
        | some transactions =>
          if missedTxs.length ≠ transactions.transactions.length then
            -- The verdict goes out first, then what came is imported anyway.
            some ((importDownloadedTxs cfg s response.nodeID transactions.transactions none).1,
              [⟨some ⟨.transactionsMissing, "TransactionsMissing"⟩, false, s⟩])
          else
            -- The number is right: the import is enforced if the proposal has a
            -- header.
            let (s, ret) := importDownloadedTxs cfg s response.nodeID transactions.transactions
              verifiedProposal
            if !ret then
              some (s, [⟨some ⟨.txsSignatureVerifyFailed,
                "invalid transaction for invalid signature or nonce or blockLimit"⟩, false, s⟩])
            -- The hashes are compared after the import, in order.
            else if missedTxs ≠ transactions.transactions.map (fun tx => tx.hash) then
              some (s, [⟨some ⟨.inconsistentTransactions, "InconsistentTransactions"⟩, false, s⟩])
            else
              some (s, [⟨none, true, s⟩])

/-- `TransactionSync::requestMissedTxsFromPeer`, up to and including the
    lambda that receives the answer and swallows its exceptions. -/
def requestMissedTxsFromPeer (cfg : TxPoolConfig) (s : MemoryStorage) (generatedNodeID : NodeID)
    (missedTxs : HashList) (verifiedProposal : Option Block) (onVerifyFinished : Bool)
    (frontService : NodeID → HashList → FrontResponse) : MemoryStorage × List VerifyResponse :=
  if missedTxs.length = 0 && onVerifyFinished then (s, [⟨none, true, s⟩])
  else
    match verifyFetchedTxs cfg s (frontService generatedNodeID missedTxs) missedTxs
      verifiedProposal with
    | none => (s, [])
    | some (s, responses) => (s, if onVerifyFinished then responses else [])

/-- `TransactionSync::requestMissedTxs`. The ledger is given the hashes missed,
    the peer those the ledger leaves, in ascending order. -/
def requestMissedTxs (cfg : TxPoolConfig) (s : MemoryStorage) (generatedNodeID : Option NodeID)
    (missedTxs : HashList) (verifiedProposal : Option Block) (onVerifyFinished : Bool)
    (ledger : HashList → LedgerResponse) (frontService : NodeID → HashList → FrontResponse) :
    MemoryStorage × List VerifyResponse :=
  let missedTxsSet := SortedSet.ofList missedTxs
  let (s, missedTxsSet, responses) := onGetMissedTxsFromLedger cfg s missedTxsSet
    (ledger missedTxs) verifiedProposal onVerifyFinished
  -- The ledger had all of them, and has answered the callback.
  if missedTxsSet.size = 0 then (s, responses)
  else
    match generatedNodeID with
    | none =>
        (s, responses ++ if onVerifyFinished then
          [⟨some ⟨.transactionsMissing,
            "requestMissedTxs failed from the ledger for Transaction missing"⟩, false, s⟩] else [])
    | some generatedNodeID =>
        let (s, more) := requestMissedTxsFromPeer cfg s generatedNodeID missedTxsSet.toList
          verifiedProposal onVerifyFinished frontService
        (s, responses ++ more)

end TransactionSync

end BcosTxPool
