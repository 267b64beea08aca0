import BcosTxPool.Library.Threads
import BcosTxPool.Core.Storage

/-!
# Two Submissions at Once

`enforceSubmitTransaction` and `verifyAndSubmitTransaction` as programs of
atomic moves. In the model of the storage each is one step. In the code a
block of transactions is imported by many threads and clients submit from
others, and neither call holds the lock of the table throughout: a move here
is what happens between taking a lock and giving it back, or one access to an
atomic or to another module.

The lookup of an enforced submission is one move with everything that it does
under the upgradable lock. The insertion takes the lock anew and looks the
hash up again. The counter and the flag of the object come in between, with no
lock at all.

Each call works on a transaction object of its own, which no one else sees
until it is in the table. The normal submission does not write to its object
after that, so the table's copy of it is the whole of it.

## Main definitions

* `EnforceState`, `SubmitState`: The place in the two programs.
* `enforceMove`, `submitMove`: Their atomic moves.
* `Thread`, `threadMove`: The two of them side by side.
* `atStart`: Both calls have begun and done nothing.
* `Finished`: Both calls have returned.
-/

namespace BcosTxPool

open Library

/-- Where a call of `enforceSubmitTransaction` is, with its transaction object.
    The constructors are named after what comes next. -/
inductive EnforceState where
  | submittedToChain (tx : Transaction)
  | lookup (tx : Transaction)
  | setSealed (tx : Transaction)
  | insert (tx : Transaction)
  | eraseMissed (tx : Transaction)
  | returned (status : TransactionStatus)
deriving DecidableEq

/-- Where a call of `verifyAndSubmitTransaction` is, with its transaction
    object. -/
inductive SubmitState where
  | size (tx : Transaction) (txSubmitCallback : Option TxSubmitCallback)
  | txpoolStorageCheck (tx : Transaction)
  | verify (tx : Transaction)
  | insert (tx : Transaction)
  | eraseMissed (tx : Transaction) (result : TransactionStatus)
  | returned (status : TransactionStatus)
deriving DecidableEq

namespace MemoryStorage

/-- One atomic move of `enforceSubmitTransaction`. The counter is read and
    written where the source does it, so the moves of the other call may come
    between the counter and the insertion. -/
def enforceMove (cfg : TxPoolConfig) (s : MemoryStorage) :
    EnforceState → MemoryStorage × EnforceState
  -- The ledger checker has a lock of its own, taken and given back here.
  | .submittedToChain tx =>
      if TxValidator.submittedToChain s.ledgerNonceChecker tx = .nonceCheckFail then
        (s, .returned .nonceCheckFail)
      else (s, .lookup tx)
  -- The lookup and what it leads to happen under one lock.
  | .lookup tx =>
      match s.txsTable.find? tx.hash with
      | some entry =>
          if !entry.sealed || entry.batchHash = 0 then
            ({ s with
                sealedTxsSize := if entry.sealed then s.sealedTxsSize else s.sealedTxsSize + 1
                txsTable := s.txsTable.modify tx.hash (sealFor tx) (sealFor_hash tx) },
              .returned .none)
          else if entry.batchId = tx.batchId ∧ entry.batchHash = tx.batchHash then
            (s, .returned .none)
          else
            (s, .returned .alreadyInTxPool)
      | none => (s, .setSealed tx)
  -- From here on the lock is not held.
  | .setSealed tx =>
      (if tx.sealed then s else { s with sealedTxsSize := s.sealedTxsSize + 1 },
        .insert { tx with sealed := true })
  -- The status of the insertion is ignored.
  | .insert tx => ((s.insert cfg tx).1, .eraseMissed tx)
  | .eraseMissed tx => (s.eraseMissed tx.hash, .returned .none)
  | .returned status => (s, .returned status)

/-- One atomic move of `verifyAndSubmitTransaction`. The reservation of the
    nonce is part of the move of the validator. -/
def submitMove (cfg : TxPoolConfig) (s : MemoryStorage) :
    SubmitState → MemoryStorage × SubmitState
  -- The size and the hash are each looked up under the lock, one after the other.
  | .size tx txSubmitCallback =>
      if s.size ≥ cfg.poolLimit then (s, .returned .txPoolIsFull)
      else (s, .txpoolStorageCheck (withCallback tx txSubmitCallback))
  | .txpoolStorageCheck tx =>
      if s.txpoolStorageCheck tx ≠ .none then (s, .returned (s.txpoolStorageCheck tx))
      else (s, .verify tx)
  | .verify tx =>
      match TxValidator.verify cfg s.ledgerNonceChecker s.txPoolNonceChecker tx with
      | (.none, pool, tx) => ({ s with txPoolNonceChecker := pool }, .insert tx)
      | (status, pool, _) => ({ s with txPoolNonceChecker := pool }, .returned status)
  | .insert tx => ((s.insert cfg tx).1, .eraseMissed tx (s.insert cfg tx).2)
  | .eraseMissed tx result => (s.eraseMissed tx.hash, .returned result)
  | .returned status => (s, .returned status)

/-- The two calls: an enforced submission for a proposal and a normal one. -/
inductive Thread where
  | enforce
  | submit
deriving DecidableEq

/-- The own state of each: where it is, with the transaction object it works
    on. -/
def ThreadState : Thread → Type
  | .enforce => EnforceState
  | .submit => SubmitState

/-- One atomic move of either. -/
def threadMove (cfg : TxPoolConfig) :
    ∀ i, MemoryStorage → ThreadState i → MemoryStorage × ThreadState i
  | .enforce => enforceMove cfg
  | .submit => submitMove cfg

/-- The two calls have been made on a pool, and neither has done anything. -/
def atStart (s : MemoryStorage) (tx tx' : Transaction)
    (txSubmitCallback : Option TxSubmitCallback) : Threads MemoryStorage ThreadState where
  shared := s
  own
    | .enforce => EnforceState.submittedToChain tx
    | .submit => SubmitState.size tx' txSubmitCallback

/-- Both calls have returned. Which status they returned is left open. -/
def Finished (t : Threads MemoryStorage ThreadState) : Prop :=
  (∃ status, t.own .enforce = EnforceState.returned status) ∧
    ∃ status, t.own .submit = SubmitState.returned status

end MemoryStorage

end BcosTxPool
