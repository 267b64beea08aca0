import BcosTxPool.Core.Pool

/-!
# Writing Ahead to the Ledger

`insert` hands every transaction that it takes in to `preCommitTransaction`, which
has it written to the ledger before any block holds it. So the ledger can answer
for a transaction that has left the pool.

The worker of the storage has one thread. Its task encodes a transaction and calls
`asyncStoreTransactions`. Where the ledger reports an error, a task of the same kind
is put behind the others, with the number of the retry counted up, and after the
third retry there is none. An exception in the task is logged, and nothing follows.

What is pre-committed can be read off the pool: an operation of a node offers
transactions in an order, and it inserts those whose hash was free and is theirs
afterwards.

## Main definitions

* `StoreTask`: A task of the worker.
* `TxPool.inserts`: What an operation inserts, in its order.
* `PreCommit`: The pool, the tasks, and the calls that the ledger has not answered.
* `preCommitTransaction`: A task is put into the queue.
* `PreCommit.next`: One step.
* `PreCommit.calls`, `PreCommit.stored`, `PreCommit.dropped`, `PreCommit.abandoned`:
  What a step does with a transaction.
-/

namespace BcosTxPool

open Library

/-- The lambda of `preCommitTransaction` with what it has captured: the
    transaction and how often it has been tried before. -/
structure StoreTask where
  tx : TxData
  retryTime : Nat
deriving DecidableEq

namespace TxPool

/-- The transactions that an operation offers to the pool: those it may insert,
    if its checks let them pass. -/
def Op.offers (cfg : TxPoolConfig) : Op → List TxData
  | .asyncSubmit _ txData _ => (cfg.framework.decodeTransaction txData).toList
  | .importDownloadedTxs _ txs _ => txs
  | _ => []

/-- The hash was free, and the entry under it is this one now. -/
def entered (s s' : MemoryStorage) (data : TxData) : Bool :=
  !s.txsTable.contains data.hash &&
    ((s'.txsTable.find? data.hash).map (fun tx => tx.toTxData) = some data)

/-- The transactions that an operation inserts. A list may offer one twice; only
    the first enters. -/
def inserts (cfg : TxPoolConfig) (s : MemoryStorage) (op : Op) : List TxData :=
  ((op.offers cfg).filter (entered s (step cfg s op))).eraseDups

end TxPool

/-- The pool, the tasks of `m_worker`, and the tasks whose call the ledger has not
    answered. -/
structure PreCommit where
  storage : MemoryStorage
  worker : List StoreTask := []
  asked : List StoreTask := []

namespace PreCommit

/-- `MemoryStorage::preCommitTransaction`. The first attempt is number zero, so
    the bound leaves four. -/
def preCommitTransaction (p : PreCommit) (tx : TxData) (retryTime : Nat) : PreCommit :=
  if retryTime > 3 then p else { p with worker := p.worker ++ [⟨tx, retryTime⟩] }

/-- What happens: an operation on the pool, the next task of the worker, which
    may raise an exception, or an answer of the ledger. It answers each call
    once. -/
inductive Event where
  | pool (op : TxPool.Op)
  | worker (raised : Bool)
  | onStored (index : Nat) (error : Option Error)

variable (cfg : TxPoolConfig)

/-- One step. -/
def next (p : PreCommit) : Event → PreCommit
  | .pool op =>
      -- Every insertion puts its task into the queue, in the order of the
      -- insertions.
      (TxPool.inserts cfg p.storage op).foldl (fun p tx => p.preCommitTransaction tx 0)
        { p with storage := TxPool.step cfg p.storage op }
  | .worker raised =>
      match p.worker with
      | [] => p
      | task :: worker =>
          -- An exception ends the task, and nothing is put back.
          if raised then { p with worker := worker }
          else { p with worker := worker, asked := p.asked ++ [task] }
  | .onStored index error =>
      match p.asked[index]? with
      | none => p
      | some task =>
          let p := { p with asked := p.asked.eraseIdx index }
          match error with
          | none => p
          -- The retry goes behind the tasks that have come in meanwhile.
          | some _ => p.preCommitTransaction task.tx (task.retryTime + 1)

/-- The transactions that enter the pool in a step. -/
def inserted (p : PreCommit) : Event → List TxData
  | .pool op => TxPool.inserts cfg p.storage op
  | _ => []

/-- The tasks that call the ledger in a step. -/
def calls (p : PreCommit) : Event → List StoreTask
  | .worker false => p.worker.head?.toList
  | _ => []

/-- The tasks that an exception ends in a step. Nobody learns of them but the
    log. -/
def dropped (p : PreCommit) : Event → List StoreTask
  | .worker true => p.worker.head?.toList
  | _ => []

/-- The tasks of which the ledger reports in a step that it has stored them. -/
def stored (p : PreCommit) : Event → List StoreTask
  | .onStored index none => p.asked[index]?.toList
  | _ => []

/-- The tasks for which an error of the ledger leads to no retry any more. -/
def abandoned (p : PreCommit) : Event → List StoreTask
  | .onStored index (some _) =>
      p.asked[index]?.toList.filter (fun task => task.retryTime + 1 > 3)
  | _ => []

/-- The transactions that are still to be stored: those of the tasks that wait
    and of the calls that the ledger has not answered. -/
def pending (p : PreCommit) : List TxData := (p.worker ++ p.asked).map (fun task => task.tx)

end PreCommit

end BcosTxPool
