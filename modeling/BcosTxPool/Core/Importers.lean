import BcosTxPool.Core.Interleaving
import BcosTxPool.Core.Submitters

/-!
# Imports at Once

`importDownloadedTxs` is called by the sync worker for what peers have broadcast, and
wherever the ledger or a peer answers a request. So several imports run at once, beside
everything else that happens to the pool. Elsewhere an import is one step. Here it is a
program, down to its atomic moves.

The signatures are checked by a parallel loop. Its turns are taken in any order, and
each looks once at the table: a transaction that the pool holds at that moment is not
checked. The loop is left when every turn has been taken. Then the transactions are
submitted one by one. A normal submission makes the moves it makes on a worker. An
enforced submission makes its own up to the insertion, and the moves of the insertion
are the same for both. Without a callback the last moves of a submission answer nobody.

An import is one call. It begins once, and once it has returned it is over.

## Main definitions

* `ImportTurn`: A turn of the parallel loop.
* `ImporterState`: Where an import is.
* `importStart`, `verifyTurn`, `importerMove`: Its beginning, a turn, and its other
  moves.
* `Importers`, `ImportEvent`, `importStep`: Imports over one pool.
-/

namespace BcosTxPool

open Library

/-- A turn of the parallel loop is yet to be taken, or it has left its
    transaction. -/
inductive ImportTurn where
  | todo (data : TxData)
  | done (tx : Transaction)
deriving DecidableEq

/-- The transaction that a turn has left, with its sender, its stamp and its
    invalid flag. -/
def ImportTurn.tx? : ImportTurn → Option Transaction
  | .todo _ => none
  | .done tx => some tx

/-- Where a call of `importDownloadedTxs` is. Between two submissions it is
    `importing`, with the transactions that are left. -/
inductive ImporterState where
  | idle
  | verifying (fromNode : NodeID) (header : Option BlockHeader) (turns : List ImportTurn)
      (verifySuccess : Bool)
  | importing (enforceImport : Bool) (txs : List Transaction)
  | enforcing (e : EnforceState) (txs : List Transaction)
  | submitting (enforceImport : Bool) (b : SubmitterState) (txs : List Transaction)
  | returned (result : Bool)

namespace TransactionSync

/-- The call, up to the parallel loop. An empty list is a success without it. -/
def importStart (fromNode : NodeID) (txs : List TxData) (verifiedProposal : Option Block) :
    ImporterState :=
  if txs.length = 0 then .returned true
  else .verifying fromNode (proposalHeader verifiedProposal) (txs.map .todo) true

/-- The turn of one index of the parallel loop. It is taken once. -/
def verifyTurn (cfg : TxPoolConfig) (s : MemoryStorage) (index : Nat) :
    ImporterState → ImporterState
  | .verifying fromNode header turns verifySuccess =>
      match turns[index]? with
      | some (.todo data) =>
          let (tx, verified) := verifyDownloaded cfg s fromNode header data
          .verifying fromNode header (turns.set index (.done tx)) (verifySuccess && verified)
      | _ => .verifying fromNode header turns verifySuccess
  | v => v

/-- One atomic move of an import outside the parallel loop. An enforced
    submission ends the import where it is rejected; a normal one never does. -/
def importerMove (cfg : TxPoolConfig) (s : MemoryStorage) :
    ImporterState → MemoryStorage × ImporterState
  | .idle => (s, .idle)
  | .verifying fromNode header turns verifySuccess =>
      -- The loop is left by all its turns together.
      if turns.all (fun turn => turn.tx?.isSome) then
        if header.isSome && !verifySuccess then (s, .returned false)
        else (s, .importing header.isSome (turns.filterMap ImportTurn.tx?))
      else (s, .verifying fromNode header turns verifySuccess)
  | .importing _ [] => (s, .returned true)
  -- Which route a transaction takes is decided once for the whole import.
  | .importing enforceImport (tx :: txs) =>
      if tx.invalid then (s, .importing enforceImport txs)
      else if enforceImport then (s, .enforcing (.submittedToChain tx) txs)
      else (s, .submitting false (.size tx none) txs)
  | .enforcing (.returned status) txs =>
      if status ≠ .none then (s, .returned false) else (s, .importing true txs)
  -- `insert` is called, and whatever it returns is ignored.
  | .enforcing (.insert tx) txs => (s, .submitting true (.count tx none) txs)
  | .enforcing e txs =>
      let (s, e) := s.enforceMove cfg e
      (s, .enforcing e txs)
  -- A normal submission that was rejected is passed over.
  | .submitting enforceImport .idle txs => (s, .importing enforceImport txs)
  | .submitting enforceImport b txs =>
      let (s, b) := s.submitterMove cfg b
      (s, .submitting enforceImport b txs)
  | .returned result => (s, .returned result)

end TransactionSync

/-- The imports and the pool. -/
abbrev Importers (ι : Type) := Threads MemoryStorage (fun _ : ι => ImporterState)

/-- An import is called, a turn of its parallel loop is taken, it makes another
    move, or something else happens to the pool. -/
inductive ImportEvent (ι : Type) where
  | importDownloadedTxs (i : ι) (fromNode : NodeID) (txs : List TxData)
      (verifiedProposal : Option Block)
  | verify (i : ι) (index : Nat)
  | importer (i : ι)
  | pool (op : TxPool.Op)

/-- One step. An import that is under way is not called again, and the moves of
    an import that has not been called do nothing. -/
def importStep {ι : Type} [DecidableEq ι] (cfg : TxPoolConfig) (t : Importers ι) :
    ImportEvent ι → Importers ι
  | .importDownloadedTxs i fromNode txs verifiedProposal =>
      match t.own i with
      | .idle =>
          { t with
            own := Function.update t.own i
              (TransactionSync.importStart fromNode txs verifiedProposal) }
      | _ => t
  | .verify i index =>
      { t with
        own := Function.update t.own i
          (TransactionSync.verifyTurn cfg t.shared index (t.own i)) }
  | .importer i => t.move (fun _ => TransactionSync.importerMove cfg) i
  | .pool op => { t with shared := TxPool.step cfg t.shared op }

/-- Imports that have not been called: where a run of a node begins. -/
def importersIdle {ι : Type} (s : MemoryStorage) : Importers ι where
  shared := s
  own _ := .idle

end BcosTxPool
