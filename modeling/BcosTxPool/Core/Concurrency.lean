import BcosTxPool.Library.Threads
import BcosTxPool.Core.Storage

/-!
# Workers

Calls that the source makes on several workers at once, as programs of atomic
moves. A move is what happens under one lock that excludes the others, or one
access to a concurrent container or to an atomic.

`TxValidator::verify` looks the nonce up and inserts it under a `ReadGuard`,
which other readers hold at the same time. The lookup and the insertion are
moves of their own. The result of the insertion is not consulted.

`batchRemove` takes a block's transactions out of the table under the lock of
the table and gives the lock back. Then it calls the ledger checker, and after
that the txpool checker, each of which locks for itself. A submission can run
before each of these calls.

`insert` writes its entry and then runs the callback that sets
`m_newTransactions`. The sync worker loops through `executeWorker`: where the
flag is set it fetches the transactions not yet synced, and when there are none
it clears the flag, with no lock that the two would share.

## Main definitions

* `VerifyState`, `verifyMove`: `TxValidator::verify`.
* `verifyStart`: Any number of verifications that have not begun.
* `removeSection`, `ledgerSection`, `txPoolSection`: The sections of
  `batchRemove`.
* `Submission`, `submit`: A submission as one step.
* `InsertState`, `insertMove`: `MemoryStorage::insert`.
* `WorkerState`, `workerMove`: The loop of the sync worker.
* `GossipState`, `gossipMove`: Any number of insertions beside the loop.

## Theorems

* `batchRemove_eq_sections`: The sections in order are the call.
-/

namespace BcosTxPool

open Library

/-! ### Verification -/

/-- Where a call of `TxValidator::verify` is, with its transaction object. The
    constructors are named after the call that comes next. -/
inductive VerifyState where
  | checkTx (tx : Transaction)
  | submittedToChain (tx : Transaction)
  | verify (tx : Transaction)
  | count (tx : Transaction)
  | insert (tx : Transaction)
  | setSystemTx (tx : Transaction)
  | returned (status : TransactionStatus) (tx : Transaction)
deriving DecidableEq

namespace TxValidator

/-- One atomic move of `TxValidator::verify`. The ledger checker is only
    read. -/
def verifyMove (cfg : TxPoolConfig) (ledger : LedgerNonceChecker) (pool : TxPoolNonceChecker) :
    VerifyState → TxPoolNonceChecker × VerifyState
  | .checkTx tx =>
      if tx.invalid then (pool, .returned .invalidSignature tx)
      else if tx.groupId ≠ cfg.groupId then (pool, .returned .invalidGroupId tx)
      else if tx.chainId ≠ cfg.chainId then (pool, .returned .invalidChainId tx)
      else (pool, .submittedToChain tx)
  | .submittedToChain tx =>
      if submittedToChain ledger tx ≠ .none then
        (pool, .returned (submittedToChain ledger tx) tx)
      else (pool, .verify tx)
  | .verify tx =>
      if !cfg.framework.verify tx.toTxData then (pool, .returned .invalidSignature tx)
      else (pool, .count tx)
  | .count tx =>
      -- Others may look the same nonce up before this one inserts it.
      if tx.nonce ∈ pool.nonceCache then (pool, .returned .nonceCheckFail tx)
      else (pool, .insert tx)
  -- Whether the nonce was inserted is not asked.
  | .insert tx => (pool.insert tx.nonce, .setSystemTx tx)
  | .setSystemTx tx =>
      if isSystemTransaction cfg.framework tx then
        (pool, .returned .none { tx with systemTx := true })
      else (pool, .returned .none tx)
  | .returned status tx => (pool, .returned status tx)

/-- Verifications of the given transactions have been called, one on each
    worker, and none has done anything. -/
def verifyStart {ι : Type} (pool : TxPoolNonceChecker) (txs : ι → Transaction) :
    Threads TxPoolNonceChecker (fun _ : ι => VerifyState) where
  shared := pool
  own i := .checkTx (txs i)

end TxValidator

/-! ### A block is committed -/

/-- A submission on either route: with the checks of a client's transaction, or
    enforced for a proposal. -/
structure Submission where
  tx : Transaction
  txSubmitCallback : Option TxSubmitCallback
  enforceImport : Bool

namespace MemoryStorage

/-- The first section of `batchRemove`: the transactions leave the table and
    their nonces are collected. The checkers still know nothing of it. -/
def removeSection (cfg : TxPoolConfig) (s : MemoryStorage) (batchId : Int)
    (txsResult : List TransactionSubmitResult) : MemoryStorage × NonceList :=
  let (s, nonceList) := s.batchRemoveTxs batchId txsResult
  (s.notifyUnsealedTxsSize cfg, nonceList)

/-- The second section: the nonces collected enter the ledger cache. -/
def ledgerSection (s : MemoryStorage) (batchId : Int) (nonceList : NonceList) : MemoryStorage :=
  { s with ledgerNonceChecker := s.ledgerNonceChecker.batchInsert batchId nonceList }

/-- The third section: they leave the txpool cache, so nothing but the ledger
    cache rejects them from now on. -/
def txPoolSection (s : MemoryStorage) (nonceList : NonceList) : MemoryStorage :=
  { s with txPoolNonceChecker := s.txPoolNonceChecker.batchRemove nonceList }

theorem batchRemove_eq_sections (cfg : TxPoolConfig) (s : MemoryStorage) (batchId : Int)
    (txsResult : List TransactionSubmitResult) :
    s.batchRemove cfg batchId txsResult
      = ((s.removeSection cfg batchId txsResult).1.ledgerSection batchId
          (s.removeSection cfg batchId txsResult).2).txPoolSection
            (s.removeSection cfg batchId txsResult).2 :=
  rfl

/-- `submitTransaction` as one step. Between two sections of a commit it runs to
    its end. -/
def submit (cfg : TxPoolConfig) (s : MemoryStorage) (b : Submission) : MemoryStorage :=
  (s.submitTransaction cfg b.tx b.txSubmitCallback b.enforceImport).1

/-- The status a submission returns; `none` is the one that accepts. -/
def submitStatus (cfg : TxPoolConfig) (s : MemoryStorage) (b : Submission) : TransactionStatus :=
  (s.submitTransaction cfg b.tx b.txSubmitCallback b.enforceImport).2

end MemoryStorage

/-! ### Insertions and the gossip loop -/

/-- Where a call of `MemoryStorage::insert` is: before its write, between the
    write and the callback, or done. -/
inductive InsertState where
  | write (tx : Transaction)
  | onReady
  | returned (status : TransactionStatus)
deriving DecidableEq

/-- Where the sync worker is in its loop: at the test of the flag, before the
    walk over the table, or about to clear the flag after a walk that found
    nothing. -/
inductive WorkerState where
  | executeWorker
  | fetchNewTxs
  | clear
deriving DecidableEq

namespace MemoryStorage

/-- One of the two moves of `insert`: the entry, then `m_onReady` and what
    follows it. -/
def insertMove (cfg : TxPoolConfig) (s : MemoryStorage) :
    InsertState → MemoryStorage × InsertState
  | .write tx =>
      -- A rejected insertion wakes nobody.
      if s.txsTable.contains tx.hash then (s, .returned .alreadyInTxPool)
      else ({ s with txsTable := s.txsTable.insert tx }, .onReady)
  | .onReady =>
      (({ s with newTransactions := true } : MemoryStorage).notifyUnsealedTxsSize cfg,
        .returned .none)
  | .returned status => (s, .returned status)

end MemoryStorage

namespace TransactionSync

/-- `c_maxSendTransactions`: how many transactions one call of the worker passes
    on. -/
def maxSendTransactions : Nat := 1000

/-- One move of the loop of the sync worker. The node is `ready` when it is in
    the group and has no downloaded packets left, and `order` is the order of the
    walk over the table. What is fetched is sent to peers. -/
def workerMove (s : MemoryStorage) (ready : Bool) (order : HashList) :
    WorkerState → MemoryStorage × WorkerState
  | .executeWorker =>
      if ready && s.newTransactions then (s, .fetchNewTxs) else (s, .executeWorker)
  | .fetchNewTxs =>
      let (s, txs) := s.fetchNewTxs maxSendTransactions order []
      if txs.length = 0 then (s, .clear) else (s, .executeWorker)
  -- An insertion may have set the flag since the table was walked.
  | .clear => ({ s with newTransactions := false }, .executeWorker)

/-- The pool, the sync worker and the insertions. The flag that the two sides
    share is a field of the pool. -/
structure GossipState (ι : Type) where
  storage : MemoryStorage
  worker : WorkerState
  inserts : ι → InsertState

/-- A move of an insertion or of the sync worker. -/
inductive GossipMove (ι : Type) where
  | insert (i : ι)
  | worker (ready : Bool) (order : HashList)

/-- One move. An insertion and the worker share the pool and nothing else. -/
def gossipMove {ι : Type} [DecidableEq ι] (cfg : TxPoolConfig) (t : GossipState ι) :
    GossipMove ι → GossipState ι
  | .insert i =>
      let (s, v) := t.storage.insertMove cfg (t.inserts i)
      { t with storage := s, inserts := Function.update t.inserts i v }
  | .worker ready order =>
      let (s, w) := workerMove t.storage ready order t.worker
      { t with storage := s, worker := w }

/-- The worker is at the top of its loop and no insertion has begun. -/
def gossipStart {ι : Type} (s : MemoryStorage) (txs : ι → Transaction) : GossipState ι where
  storage := s
  worker := .executeWorker
  inserts i := .write (txs i)

end TransactionSync

end BcosTxPool
