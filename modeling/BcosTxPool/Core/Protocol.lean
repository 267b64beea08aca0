import Mathlib.Algebra.GroupWithZero.Nat
import Mathlib.Data.Fin.Basic
import Mathlib.Data.Finset.Insert
import BcosTxPool.Library.KeyedTable
import BcosTxPool.Library.SortedSet

/-!
# Protocol Data

The transactions, blocks and messages the pool handles, and the framework
code it calls on them.

A `Transaction` object splits in two. Its content, `TxData`, is what a decoded
byte string holds, and nothing in the pool ever changes it; the hash belongs
to the content. Around it sit the flags that the pool writes into the shared
object: whether it is sealed and for which proposal, whether it was gossiped,
which peers know it, who waits for its result. `createTransaction` is a
freshly decoded object, so every flag starts at its default. The network, the
ledger and the clients hand over `TxData` only, which is how the model says that
each of them delivers newly decoded objects.

Hashes and nonces are 256-bit values. They are different types in the source,
but a nonce converts to a hash implicitly, and the pool does that once;
`nonceToHash` marks the place.

Block numbers and block limits are signed 64-bit values. No operation of the
pool leads a height out of that range, so they are integers here.

The framework is not part of this repository. What the pool takes from it is
the fields of `Framework`: the decoders, which throw on malformed bytes, the
signature check, which throws on a bad signature, and the addresses of the
system contracts. An exception is `none` or `false`.

## Main definitions

* `TxData`: The content of a transaction.
* `Transaction`: A transaction object with the flags the pool keeps on it.
* `TransactionStatus`: The outcome of a submission.
* `TransactionSubmitResult`: What became of a transaction in a block.
* `Error`: An error handed to a callback.
* `Block`: A proposal or a payload of transactions.
* `TxsSyncMsg`: A message between two sync modules.
* `Framework`: The framework code the pool calls.
* `TxPoolConfig`: The configuration of a pool.
* `TxsTable`: A table of transactions keyed by their hash.
-/

namespace BcosTxPool

open Library

/-- `HashType`: 256 bits, all zero while not assigned. The zero hash is how the
    pool says that a sealed transaction belongs to no proposal yet. -/
abbrev HashType := Fin (2 ^ 256)

/-- `NonceType`: an unsigned integer of 256 bits. -/
abbrev NonceType := Fin (2 ^ 256)

instance hashRange_neZero : NeZero (2 ^ 256 : Nat) := ⟨by decide⟩

/-- The public key of a node. Only equality of keys matters to the pool, so a
    number stands for one. -/
abbrev NodeID := Nat

/-- A `TxSubmitCallback`, by identity: what a call of it does belongs to the
    client, and the pool only has to keep track of which one it calls. -/
abbrev TxSubmitCallback := Nat

/-- A byte string. -/
abbrev Bytes := List UInt8

/-- A `NonceList`. -/
abbrev NonceList := List NonceType

/-- A `HashList`. -/
abbrev HashList := List HashType

/-- The conversion from `NonceType` to `HashType`: the same 256 bits. -/
def nonceToHash (nonce : NonceType) : HashType := nonce

/-- `NonceType(-1)`, which a submit result carries when it has no nonce. -/
def noNonce : NonceType := -1

/-- The content of a transaction, as decoded from bytes. Nothing in the pool
    changes it; of its fields the pool reads the hash, the nonce, the block
    limit, the two ids and the address, and hands the rest on. -/
structure TxData where
  hash : HashType
  nonce : NonceType
  blockLimit : Int
  groupId : String
  chainId : String
  toAddress : String
  txAttribute : UInt32
  signatureData : Bytes
deriving DecidableEq

/-- A transaction object: content and the flags the pool keeps on it. The object
    is shared between the table, the gossip loop and a proposal under import, so
    what one of them sets the others see. -/
structure Transaction extends TxData where
  sealed : Bool := false
  batchId : Int := -1
  batchHash : HashType := 0
  systemTx : Bool := false
  invalid : Bool := false
  synced : Bool := false
  submitCallback : Option TxSubmitCallback := none
  knownNodes : Finset NodeID := ∅
deriving DecidableEq

/-- `createTransaction`: a freshly decoded object. Every flag starts at its
    default, whatever the sender had set on its own object. -/
def createTransaction (data : TxData) : Transaction := { toTxData := data }

theorem createTransaction_sealed (data : TxData) : (createTransaction data).sealed = false := rfl

/-- `TransactionStatus`, the values the pool produces and those a block result
    may carry. -/
inductive TransactionStatus where
  | none
  | nonceCheckFail
  | blockLimitCheckFail
  | txPoolIsFull
  | malform
  | alreadyInTxPool
  | invalidChainId
  | invalidGroupId
  | invalidSignature
  | requestNotBelongToTheGroup
  | execution (code : Nat)
deriving DecidableEq

/-- `TransactionSubmitResult`: what became of a transaction. Consensus hands one
    over for each transaction of a committed block, and the pool makes its own
    for a transaction it rejects or drops. -/
structure TransactionSubmitResult where
  txHash : HashType
  status : TransactionStatus
  nonce : NonceType := noNonce
deriving DecidableEq

/-- A result carries a nonce unless it holds the sentinel. `batchRemove` asks
    this of a result whose transaction is not in the table. -/
def TransactionSubmitResult.carriesNonce (result : TransactionSubmitResult) : Bool :=
  result.nonce ≠ noNonce

/-- The error codes the pool tests or produces. A code that arrives over the
    network may be any, including `transactionsMissing`. -/
inductive ErrorCode where
  | transactionsMissing
  | inconsistentTransactions
  | txsSignatureVerifyFailed
  | fetchTransactionsFailed
  | transactionStatus (status : TransactionStatus)
  | other (code : Int)
deriving DecidableEq

/-- `Error`: a code and a message. The pool branches on the code alone and
    passes the message on. -/
structure Error where
  errorCode : ErrorCode
  errorMessage : String
deriving DecidableEq

/-- `BlockHeader`, as far as the pool reads it: the number and hash under which
    the transactions of a proposal are sealed. -/
structure BlockHeader where
  number : Int
  hash : HashType
deriving DecidableEq

/-- `Block`: a proposal names its transactions by hash, a payload carries
    them. -/
structure Block where
  blockHeader : Option BlockHeader
  transactionsHash : HashList
  transactions : List TxData
deriving DecidableEq

/-- `TransactionMetaData`: what a sealed block says of a transaction. The sealer
    gets these instead of the transactions themselves. -/
structure TransactionMetaData where
  hash : HashType
  toAddress : String
  txAttribute : UInt32
deriving DecidableEq

/-- `TxsSyncPacketType`; a type read off the wire may be none of them. -/
inductive TxsSyncPacketType where
  | txsPacket
  | txsStatusPacket
  | txsRequestPacket
  | txsResponsePacket
  | unknown (type : Int)
deriving DecidableEq

/-- `TxsSyncMsg`: a message between two sync modules. -/
structure TxsSyncMsg where
  type : TxsSyncPacketType
  txsHash : HashList
  txsData : Bytes
deriving DecidableEq

/-- The framework code the pool calls. A decoder returns `none` where the
    framework throws, and `verify` is `false` where `Transaction::verify`
    throws. -/
structure Framework where
  decodeTransaction : Bytes → Option TxData
  createBlock : Bytes → Option Block
  createTxsSyncMsg : Bytes → Option TxsSyncMsg
  verify : TxData → Bool
  sysConfigAddress : String
  consensusAddress : String
  workingSealerMgrAddress : String
  sysConfigName : String
  consensusName : String

/-- The configuration of a pool: `TxPoolConfig`, the group and chain the
    validator was built with, and the notifier of the sealer. The notifier
    sees every number reported so far, the last one included, and answers
    whether it returns an error. -/
structure TxPoolConfig where
  framework : Framework
  groupId : String
  chainId : String
  nodeID : NodeID
  poolLimit : Nat := 15000
  blockLimit : Int := 1000
  unsealedTxsNotifier : Option (List Nat → Bool) := none

/-- A table of transactions keyed by their hash. -/
abbrev TxsTable := KeyedTable (fun tx : Transaction => tx.hash)

end BcosTxPool
