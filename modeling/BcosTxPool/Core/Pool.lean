import BcosTxPool.Core.Sync

/-!
# The Transaction Pool

The interface that consensus, the sealer and the clients call, the
initialisation of a node, and the operations a running node performs on its
pool.

`asyncVerifyBlock` first looks which transactions of the proposal are not in
the pool. If there are none it reports success; otherwise it requests them,
and wraps the callback so that an answer of `TransactionsMissing` is checked
against the pool once more before it goes out.

`Op` lists what `TxPool` and `TransactionSync` do to the pool. The sync module
works on it only through `importDownloadedTxs`, `filterUnknownTxs`,
`fetchNewTxs` and the known-node marks, whatever message or answer it is
acting on, so these are the operations, and a run interleaves them freely
with those of `TxPool` and with the cleanup tasks.

## Main definitions

* `init`: The ledger checker a node starts with.
* `asyncSubmit`, `asyncSealTxs`, `asyncNotifyBlockResult`, `asyncMarkTxs`,
  `asyncResetTxPool`: The calls of clients, sealer and consensus.
* `asyncVerifyBlock`: A proposal is verified.
* `Op`, `step`: The operations of a node on its pool.
* `exampleConfig`, `clearConfig`, `examplePool`, `exampleTx`, `exampleBlock`,
  `examplePeer`: Configurations, a pool, transactions, blocks and a peer to run.
-/

namespace BcosTxPool

open Library

namespace TxPool

/-- `startNumber` of `TxPool::init`: the oldest block of the window that ends at
    the height, or zero when the window reaches past the first block. -/
def startNumber (blockNumber : Int) (blockLimit : Int) : Int :=
  if blockNumber > blockLimit then blockNumber - blockLimit + 1 else 0

/-- The part of `TxPool::init` that builds the ledger checker, from the height
    of the ledger and `LedgerConfigFetcher::fetchNonceList`. Below the window
    size nothing is fetched, and the checker starts without nonces. -/
def init (cfg : TxPoolConfig) (blockNumber : Int)
    (fetchNonceList : Int → Int → BlockNonceCache) : LedgerNonceChecker :=
  let startNumber := startNumber blockNumber cfg.blockLimit
  let nonceList :=
    if startNumber > 0 then
      let toNumber := blockNumber
      let fetchedSize := min cfg.blockLimit (toNumber - startNumber + 1)
      some (fetchNonceList startNumber fetchedSize)
    else none
  LedgerNonceChecker.create nonceList blockNumber cfg.blockLimit

/-- `TxPool::checkExistsInGroup`: only the nodes of the group take submissions
    of its clients. -/
def checkExistsInGroup (s : MemoryStorage) (existsInGroup : Bool)
    (txSubmitCallback : Option TxSubmitCallback) : MemoryStorage × Bool :=
  -- A transaction without a callback does not come from a client.
  if txSubmitCallback.isNone || existsInGroup then (s, true)
  else (s.notifyInvalidReceipt 0 .requestNotBelongToTheGroup txSubmitCallback, false)

/-- `TxPool::asyncSubmit`. A client learns of a refusal through its callback
    alone; nothing is returned here. -/
def asyncSubmit (cfg : TxPoolConfig) (s : MemoryStorage) (existsInGroup : Bool) (txData : Bytes)
    (txSubmitCallback : Option TxSubmitCallback) : MemoryStorage :=
  match checkExistsInGroup s existsInGroup txSubmitCallback with
  | (s, false) => s
  | (s, true) => (s.submitTransactionData cfg txData txSubmitCallback).1

/-- `TxPool::asyncSealTxs`: the pool and the two blocks handed out. The sealer
    never gets a transaction that is sealed already. -/
def asyncSealTxs (cfg : TxPoolConfig) (s : MemoryStorage) (order : HashList) (txsLimit : Nat)
    (avoidTxs : HashList) : MemoryStorage × MemoryStorage.FetchedTxs :=
  s.batchFetchTxs cfg order txsLimit avoidTxs true

/-- `TxPool::asyncNotifyBlockResult`: consensus reports a committed block with
    the results of its transactions. -/
def asyncNotifyBlockResult (cfg : TxPoolConfig) (s : MemoryStorage) (blockNumber : Int)
    (txsResult : List TransactionSubmitResult) : MemoryStorage :=
  s.batchRemove cfg blockNumber txsResult

/-- `TxPool::asyncMarkTxs`: consensus takes or returns the transactions of a
    proposal it is voting on. -/
def asyncMarkTxs (s : MemoryStorage) (txsHash : HashList) (sealedFlag : Bool) (batchId : Int)
    (batchHash : HashType) : MemoryStorage :=
  s.batchMarkTxs txsHash batchId batchHash sealedFlag

/-- `TxPool::asyncResetTxPool`: consensus gives every transaction back at once,
    whatever proposal it was sealed for. -/
def asyncResetTxPool (cfg : TxPoolConfig) (s : MemoryStorage) : MemoryStorage :=
  s.batchMarkAllTxs cfg false

/-- `onVerifyFinishedWrapper` of `asyncVerifyBlock`, applied to one invocation.
    It may turn a failure into success and never the other way round. -/
def onVerifyFinishedWrapper (missedTxs : HashList) (response : VerifyResponse) :
    VerifyResponse :=
  if missedTxs.length > 0 then
    let verifyRet :=
      -- Another request may have brought the transactions in meanwhile.
      if response.error.map (fun e => e.errorCode) = some .transactionsMissing then
        response.pool.batchVerifyHashes missedTxs
      else response.result
    { error := if verifyRet then none else response.error
      result := verifyRet
      pool := response.pool }
  -- Nothing was missed, so nothing is looked up again.
  else response

/-- The task that `TxPool::asyncVerifyBlock` enqueues, for a decoded block. What
    the pool holds already is not looked at any further; only what is missing is
    fetched and verified. -/
def verifyBlock (cfg : TxPoolConfig) (s : MemoryStorage) (generatedNodeID : Option NodeID)
    (block : Block) (ledger : HashList → LedgerResponse)
    (frontService : NodeID → HashList → FrontResponse) : MemoryStorage × List VerifyResponse :=
  let missedTxs := s.batchVerifyProposal block
  if missedTxs.length = 0 then
    (s, [onVerifyFinishedWrapper missedTxs ⟨none, true, s⟩])
  else
    let (s, responses) := TransactionSync.requestMissedTxs cfg s generatedNodeID missedTxs
      (some block) true ledger frontService
    (s, responses.map (onVerifyFinishedWrapper missedTxs))

/-- `TxPool::asyncVerifyBlock`; `none` where decoding the block throws. -/
def asyncVerifyBlock (cfg : TxPoolConfig) (s : MemoryStorage) (generatedNodeID : Option NodeID)
    (data : Bytes) (ledger : HashList → LedgerResponse)
    (frontService : NodeID → HashList → FrontResponse) :
    Option (MemoryStorage × List VerifyResponse) :=
  (cfg.framework.createBlock data).map
    (fun block => verifyBlock cfg s generatedNodeID block ledger frontService)

/-- What a running node does to its pool. The arguments are all that the outside
    decides: the bytes of a client, the content a peer sent, the results of a
    block, the order in which the hash map is walked. -/
inductive Op where
  | asyncSubmit (existsInGroup : Bool) (txData : Bytes)
      (txSubmitCallback : Option TxSubmitCallback)
  | importDownloadedTxs (fromNode : NodeID) (txs : List TxData) (verifiedProposal : Option Block)
  | asyncSealTxs (order : HashList) (txsLimit : Nat) (avoidTxs : HashList)
  | removeInvalidTxs
  | asyncNotifyBlockResult (blockNumber : Int) (txsResult : List TransactionSubmitResult)
  | asyncMarkTxs (txsHash : HashList) (sealedFlag : Bool) (batchId : Int) (batchHash : HashType)
  | asyncResetTxPool
  | filterUnknownTxs (txsHashList : HashList) (peer : NodeID)
  | fetchNewTxs (order : HashList) (txsLimit : Nat)
  | appendKnownNode (txHash : HashType) (node : NodeID)

/-- The effect of one operation on the pool. The receipts and reports that go
    out are recorded in the state; what else an operation returns is dropped
    here. -/
def step (cfg : TxPoolConfig) (s : MemoryStorage) : Op → MemoryStorage
  | .asyncSubmit existsInGroup txData txSubmitCallback =>
      asyncSubmit cfg s existsInGroup txData txSubmitCallback
  | .importDownloadedTxs fromNode txs verifiedProposal =>
      (TransactionSync.importDownloadedTxs cfg s fromNode txs verifiedProposal).1
  | .asyncSealTxs order txsLimit avoidTxs => (asyncSealTxs cfg s order txsLimit avoidTxs).1
  | .removeInvalidTxs => s.removeInvalidTxs cfg
  | .asyncNotifyBlockResult blockNumber txsResult =>
      asyncNotifyBlockResult cfg s blockNumber txsResult
  | .asyncMarkTxs txsHash sealedFlag batchId batchHash =>
      asyncMarkTxs s txsHash sealedFlag batchId batchHash
  | .asyncResetTxPool => asyncResetTxPool cfg s
  | .filterUnknownTxs txsHashList peer => (s.filterUnknownTxs cfg txsHashList peer).1
  | .fetchNewTxs order txsLimit => (s.fetchNewTxs txsLimit order []).1
  | .appendKnownNode txHash node => s.appendKnownNode txHash node

/-! ### A pool to run -/

/-- A pool whose framework accepts every signature and decodes nothing. The
    window is a single block, so that a nonce leaves it soon. -/
def exampleConfig : TxPoolConfig where
  framework :=
    { decodeTransaction := fun _ => none
      createBlock := fun _ => none
      createTxsSyncMsg := fun _ => none
      verify := fun _ => true
      sysConfigAddress := "1000"
      consensusAddress := "1003"
      workingSealerMgrAddress := "1010"
      sysConfigName := "/sys/status"
      consensusName := "/sys/consensus" }
  groupId := "group"
  chainId := "chain"
  nodeID := 0
  blockLimit := 1

/-- A transaction with the given hash, nonce and block limit. -/
def exampleTx (hash : HashType) (nonce : NonceType) (blockLimit : Int) : TxData where
  hash := hash
  nonce := nonce
  blockLimit := blockLimit
  groupId := "group"
  chainId := "chain"
  toAddress := "to"
  txAttribute := 0
  signatureData := []

/-- An empty pool at height zero, as a node has it after its first start. -/
def examplePool : MemoryStorage :=
  { ledgerNonceChecker := LedgerNonceChecker.create none 0 exampleConfig.blockLimit }

/-- A block whose bytes name its transactions by their hashes. It carries them
    too, all with the same nonce, and it has a header when a zero byte says so. -/
def exampleBlock (data : Bytes) : Block :=
  let hashes := (data.filter (fun b => b ≠ 0)).map (fun b => Fin.ofNat (2 ^ 256) b.toNat)
  { blockHeader := if 0 ∈ data then some ⟨1, 9⟩ else none
    transactionsHash := hashes
    transactions := hashes.map (fun txHash => exampleTx txHash 7 1) }

/-- A pool that decodes blocks in this way, and takes the bytes of any message
    for a response that carries such a block. -/
def clearConfig : TxPoolConfig :=
  { exampleConfig with
    framework :=
      { exampleConfig.framework with
        createBlock := fun data => some (exampleBlock data)
        createTxsSyncMsg := fun data => some ⟨.txsResponsePacket, [], data⟩ } }

/-- A peer that answers a request with the hashes it asks for. -/
def examplePeer (node : NodeID) (hashes : HashList) : FrontResponse :=
  ⟨none, node, hashes.map (fun txHash => UInt8.ofNat txHash.val)⟩

end TxPool

end BcosTxPool
