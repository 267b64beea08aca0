import BcosTxPool.Core.Concurrency
import BcosTxPool.Core.Pool

/-!
# Submissions on Workers

`asyncSubmit` puts a task on the worker pool of the `TxPool`, and the tasks of many
clients run at once. Elsewhere a submission is one step. Here it is a program again,
down to the atomic moves of `TxValidator::verify`, with no lock around the whole.

The size of the pool is compared with the limit first, the hash is looked up, the
transaction is verified, and then it is inserted. `insert` looks the hash up once
more and then writes to the table, under a lock that other workers may hold with it.
So the second look is a move of its own, and what is written goes over what another
worker has written under the same hash in between.

A worker that has finished a task may be given another. Whatever else happens to the
pool happens in one step.

## Main definitions

* `SubmitTask`: The lambda of `asyncSubmitTransaction` with what it has captured.
* `SubmitterState`, `submitterMove`: Where a worker is, and its moves.
* `Submitters`, `SubmitEvent`, `submitStep`: Workers over one pool.
-/

namespace BcosTxPool

open Library

/-- A submission on the worker pool. Whether the node is in the group is what
    the task is told when it asks. -/
structure SubmitTask where
  existsInGroup : Bool
  txData : Bytes
  txSubmitCallback : Option TxSubmitCallback

/-- The operation on the pool that it stands for when nothing else runs beside
    it. -/
def SubmitTask.op (task : SubmitTask) : TxPool.Op :=
  .asyncSubmit task.existsInGroup task.txData task.txSubmitCallback

/-- Where a worker is. The callback stays at hand until the end, since a
    rejection is answered by the task and not by the transaction object. -/
inductive SubmitterState where
  | idle
  | checkExistsInGroup (task : SubmitTask)
  | size (tx : Transaction) (txSubmitCallback : Option TxSubmitCallback)
  | txpoolStorageCheck (tx : Transaction) (txSubmitCallback : Option TxSubmitCallback)
  | verify (v : VerifyState) (txSubmitCallback : Option TxSubmitCallback)
  | count (tx : Transaction) (txSubmitCallback : Option TxSubmitCallback)
  | insert (tx : Transaction) (txSubmitCallback : Option TxSubmitCallback)
  | onReady (tx : Transaction) (txSubmitCallback : Option TxSubmitCallback)
  | notifyUnsealedTxsSize (tx : Transaction) (txSubmitCallback : Option TxSubmitCallback)
  | eraseMissed (tx : Transaction) (result : TransactionStatus)
      (txSubmitCallback : Option TxSubmitCallback)
  | notifyInvalidReceipt (txHash : HashType) (status : TransactionStatus)
      (txSubmitCallback : Option TxSubmitCallback)

namespace MemoryStorage

/-- One atomic move of a worker. The moves of the validator are those of
    `verifyMove`, with the two checkers of the pool. -/
def submitterMove (cfg : TxPoolConfig) (s : MemoryStorage) :
    SubmitterState → MemoryStorage × SubmitterState
  | .idle => (s, .idle)
  -- The bytes are decoded on the worker; until then there is no object.
  | .checkExistsInGroup task =>
      if task.txSubmitCallback.isNone || task.existsInGroup then
        match cfg.framework.decodeTransaction task.txData with
        | some data => (s, .size (createTransaction data) task.txSubmitCallback)
        | none => (s, .notifyInvalidReceipt 0 .malform task.txSubmitCallback)
      else (s, .notifyInvalidReceipt 0 .requestNotBelongToTheGroup task.txSubmitCallback)
  -- The limit is compared here and not again at the insertion.
  | .size tx txSubmitCallback =>
      if s.size ≥ cfg.poolLimit then
        (s, .notifyInvalidReceipt tx.hash .txPoolIsFull txSubmitCallback)
      else (s, .txpoolStorageCheck (withCallback tx txSubmitCallback) txSubmitCallback)
  | .txpoolStorageCheck tx txSubmitCallback =>
      if s.txpoolStorageCheck tx ≠ .none then
        (s, .notifyInvalidReceipt tx.hash (s.txpoolStorageCheck tx) txSubmitCallback)
      else (s, .verify (.checkTx tx) txSubmitCallback)
  | .verify (.returned status tx) txSubmitCallback =>
      if status ≠ .none then (s, .notifyInvalidReceipt tx.hash status txSubmitCallback)
      else (s, .count tx txSubmitCallback)
  | .verify v txSubmitCallback =>
      let (pool, v) := TxValidator.verifyMove cfg s.ledgerNonceChecker s.txPoolNonceChecker v
      ({ s with txPoolNonceChecker := pool }, .verify v txSubmitCallback)
  -- `MemoryStorage::insert`, from its lookup to its report.
  | .count tx txSubmitCallback =>
      if s.txsTable.contains tx.hash then
        (s, .eraseMissed tx .alreadyInTxPool txSubmitCallback)
      else (s, .insert tx txSubmitCallback)
  -- What another worker has written under the hash is written over.
  | .insert tx txSubmitCallback =>
      ({ s with txsTable := s.txsTable.put tx }, .onReady tx txSubmitCallback)
  | .onReady tx txSubmitCallback =>
      ({ s with newTransactions := true }, .notifyUnsealedTxsSize tx txSubmitCallback)
  | .notifyUnsealedTxsSize tx txSubmitCallback =>
      (s.notifyUnsealedTxsSize cfg, .eraseMissed tx .none txSubmitCallback)
  -- The hash is not missed any more, whatever the insertion returned.
  | .eraseMissed tx result txSubmitCallback =>
      if result ≠ .none then
        (s.eraseMissed tx.hash, .notifyInvalidReceipt tx.hash result txSubmitCallback)
      else (s.eraseMissed tx.hash, .idle)
  | .notifyInvalidReceipt txHash status txSubmitCallback =>
      (s.notifyInvalidReceipt txHash status txSubmitCallback, .idle)

end MemoryStorage

/-- The workers and the pool. -/
abbrev Submitters (ι : Type) := Threads MemoryStorage (fun _ : ι => SubmitterState)

/-- An idle worker takes a task, a worker moves, or something else happens to
    the pool. -/
inductive SubmitEvent (ι : Type) where
  | take (i : ι) (task : SubmitTask)
  | worker (i : ι)
  | pool (op : TxPool.Op)

/-- One step. A worker that is not idle takes no task. -/
def submitStep {ι : Type} [DecidableEq ι] (cfg : TxPoolConfig) (t : Submitters ι) :
    SubmitEvent ι → Submitters ι
  | .take i task =>
      match t.own i with
      | .idle => { t with own := Function.update t.own i (.checkExistsInGroup task) }
      | _ => t
  | .worker i => t.move (fun _ => MemoryStorage.submitterMove cfg) i
  | .pool op => { t with shared := TxPool.step cfg t.shared op }

/-- Workers that have each taken a task and not begun with it. -/
def submittersStart {ι : Type} (s : MemoryStorage) (tasks : ι → SubmitTask) : Submitters ι where
  shared := s
  own i := .checkExistsInGroup (tasks i)

/-- Workers that have nothing to do: where a run of a node begins. -/
def submittersIdle {ι : Type} (s : MemoryStorage) : Submitters ι where
  shared := s
  own _ := .idle

end BcosTxPool
