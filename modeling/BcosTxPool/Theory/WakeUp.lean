import BcosTxPool.Core.Concurrency
import BcosTxPool.Core.Pool
import BcosTxPool.Library.History
import BcosTxPool.Theory.Effects

/-!
# The Wake-Up of the Gossip Loop

Insertions set `m_newTransactions` and the sync worker clears it. The worker
clears it when a fetch has come back empty, but the fetch and the clearing are
two moves. An insertion that does all its work in between has its wake-up wiped
out: the pool holds a transaction that no one was told of, and the worker goes
back to sleep until another insertion sets the flag again.

An insertion that has only written its entry by then does no harm, because its
callback sets the flag after the worker has cleared it, and neither does one
that has not begun. So whether a clearing loses a wake-up is a matter of the
moves between it and the fetch before it.

## Main definitions

* `Unsynced`: The pool holds a transaction that was not spread.
* `Awake`, `AlwaysAwake`: At the top of the loop, with no insertion under way, the
  flag is set if anything is unsynced.
* `Covers`: The walk of a fetch meets every entry.
* `Late`: A transaction has been written since the fetch that came back empty.
* `Loses`: The flag is cleared after a late transaction, and no callback is still
  to come.

## Theorems

* `iterate_insertMove`: The two moves of an insertion alone are the call.
* `fetchNewTxs_unsynced`: A fetch makes nothing unsynced.
* `run_cleared`: What is unsynced when the worker clears the flag.
* `run_woken`: No wake-up is lost as long as no clearing loses one.
* `run_asleep`: A wake-up that was lost is not made up for by the worker.
* `awake_iff`: When no wake-up is lost.
-/

namespace BcosTxPool

open Library

namespace MemoryStorage

variable (cfg : TxPoolConfig)

/-! ### Insertions -/

/-- Left alone, the two moves of an insertion make the call. -/
theorem iterate_insertMove (s : MemoryStorage) (tx : Transaction) :
    (fun p => insertMove cfg p.1 p.2)^[2] (s, .write tx)
      = ((s.insert cfg tx).1, .returned (s.insert cfg tx).2) := by
  rw [Function.iterate_succ_apply, insertMove, insert]
  -- A hash that is taken ends the insertion in its first move.
  by_cases htaken : s.txsTable.contains tx.hash = true
  · rw [if_pos htaken, if_pos htaken]
    rfl
  · rw [if_neg htaken, if_neg htaken]
    rfl

/-- The pool holds a transaction that is not synced: no fetch of the worker has
    returned it yet. -/
def Unsynced (s : MemoryStorage) : Prop :=
  ∃ txHash tx, s.txsTable.find? txHash = some tx ∧ tx.synced = false

/-- That is a matter of the table alone. -/
theorem Unsynced.congr {s s' : MemoryStorage} (h : s'.txsTable = s.txsTable) :
    s'.Unsynced ↔ s.Unsynced := by
  unfold Unsynced
  rw [h]

/-- An insertion writes an entry that is not synced: it is at its first move,
    and the hash is free. -/
def Writes (s : MemoryStorage) (v : InsertState) : Prop :=
  ∃ tx, v = .write tx ∧ s.txsTable.find? tx.hash = none ∧ tx.synced = false

/-- A write of an insertion adds what is unsynced if its transaction is, and the
    other move adds nothing. -/
theorem insertMove_unsynced (s : MemoryStorage) (v : InsertState) :
    (insertMove cfg s v).1.Unsynced ↔ s.Unsynced ∨ Writes s v := by
  cases v with
  | write tx =>
      rw [insertMove]
      by_cases htaken : s.txsTable.contains tx.hash = true
      · -- A taken hash is not written.
        rw [if_pos htaken]
        refine (or_iff_left ?_).symm
        rintro ⟨_, hwrite, hfree, _⟩
        cases hwrite
        rw [← KeyedTable.contains_eq_false_iff, htaken] at hfree
        cases hfree
      · -- The new table has the new entry and all old ones as they were.
        rw [if_neg htaken]
        rw [Bool.not_eq_true] at htaken
        have hfree := (s.txsTable.contains_eq_false_iff tx.hash).mp htaken
        have hlookup := fun txHash => s.txsTable.find?_insert tx txHash hfree
        constructor
        · rintro ⟨txHash, entry, hfind, hsynced⟩
          rw [hlookup] at hfind
          by_cases hhash : tx.hash = txHash
          · rw [if_pos hhash] at hfind
            cases hfind
            exact Or.inr ⟨tx, rfl, hfree, hsynced⟩
          · rw [if_neg hhash] at hfind
            exact Or.inl ⟨txHash, entry, hfind, hsynced⟩
        · rintro (⟨txHash, entry, hfind, hsynced⟩ | ⟨_, hwrite, _, hsynced⟩)
          · refine ⟨txHash, entry, ?_, hsynced⟩
            rw [hlookup, if_neg, hfind]
            rintro rfl
            exact absurd (hfree.symm.trans hfind) (Option.some_ne_none entry).symm
          · cases hwrite
            refine ⟨tx.hash, tx, ?_, hsynced⟩
            rw [hlookup, if_pos rfl]
  -- The callback sets the flag and reports to the sealer. It does not touch the
  -- table.
  | onReady =>
      rcases notifyUnsealedTxsSize_eq cfg { s with newTransactions := true } with ⟨n, rs, h, _⟩
      rw [insertMove, h]
      refine (Unsynced.congr rfl).trans (or_iff_left ?_).symm
      rintro ⟨_, hwrite, _⟩
      cases hwrite
  | returned status =>
      refine (or_iff_left ?_).symm
      rintro ⟨_, hwrite, _⟩
      cases hwrite

/-- The flag is set by the second move, and neither clears it. Only the worker
    does that. -/
theorem insertMove_newTransactions (s : MemoryStorage) (v : InsertState) :
    (insertMove cfg s v).1.newTransactions = true ↔ s.newTransactions = true ∨ v = .onReady := by
  cases v with
  | write tx =>
      rw [insertMove]
      split
      · exact (or_iff_left (fun h => by cases h)).symm
      · exact (or_iff_left (fun h => by cases h)).symm
  | onReady =>
      rcases notifyUnsealedTxsSize_eq cfg { s with newTransactions := true } with ⟨n, rs, h, _⟩
      rw [insertMove, h]
      exact iff_of_true rfl (Or.inr rfl)
  | returned status => exact (or_iff_left (fun h => by cases h)).symm

/-! ### Fetches -/

/-- A fetch leaves the flag alone. To clear it is a move of its own, and that is
    where a wake-up can get lost. -/
theorem fetchNewTxs_newTransactions (s : MemoryStorage) (txsLimit : Nat) (order : HashList) :
    (fetchNewTxs txsLimit order s []).1.newTransactions = s.newTransactions :=
  fetchNewTxs_invariant (fun t => t.newTransactions = s.newTransactions) (fun _ _ h => h) txsLimit
    order s [] rfl

/-- What is unsynced after a fetch was so before. A fetch marks what it returns
    as synced and writes nothing else. -/
theorem fetchNewTxs_unsynced (s : MemoryStorage) (txsLimit : Nat) (order : HashList) :
    (fetchNewTxs txsLimit order s []).1.Unsynced → s.Unsynced := by
  refine fetchNewTxs_invariant (fun t => t.Unsynced → s.Unsynced) (fun t k ht => ?_) txsLimit order
    s [] id
  rintro ⟨txHash, entry, hfind, hsynced⟩
  simp only [KeyedTable.find?_modify] at hfind
  split at hfind
  · rcases Option.map_eq_some_iff.mp hfind with ⟨_, _, rfl⟩
    cases hsynced
  · exact ht ⟨txHash, entry, hfind, hsynced⟩

end MemoryStorage

namespace TransactionSync

/-! ### The sync worker -/

/-- Before it clears the flag, the worker leaves it alone, and it makes nothing
    unsynced. -/
theorem workerMove_of_ne_clear (s : MemoryStorage) (ready : Bool) (order : HashList)
    {w : WorkerState} (hw : w ≠ .clear) :
    (workerMove s ready order w).1.newTransactions = s.newTransactions ∧
      ((workerMove s ready order w).1.Unsynced → s.Unsynced) := by
  cases w with
  | executeWorker =>
      rw [workerMove]
      split
      · exact ⟨rfl, id⟩
      · exact ⟨rfl, id⟩
  | fetchNewTxs =>
      have hflag := s.fetchNewTxs_newTransactions maxSendTransactions order
      have hunsynced := s.fetchNewTxs_unsynced maxSendTransactions order
      unfold workerMove
      simp only
      split
      · exact ⟨hflag, hunsynced⟩
      · exact ⟨hflag, hunsynced⟩
  | clear => exact absurd rfl hw

/-- The worker comes to clear the flag from a fetch that came back empty. So all
    that the walk met was synced at that moment. -/
theorem workerMove_eq_clear {s : MemoryStorage} {ready : Bool} {order : HashList}
    {w : WorkerState} (h : (workerMove s ready order w).2 = .clear) :
    w = .fetchNewTxs ∧ (workerMove s ready order w).1 = s ∧
      ∀ txHash ∈ order, ∀ tx, s.txsTable.find? txHash = some tx → tx.synced = true := by
  cases w with
  | executeWorker =>
      rw [workerMove] at h
      split at h
      · cases h
      · cases h
  | fetchNewTxs =>
      have hempty := MemoryStorage.fetchNewTxs_empty maxSendTransactions order s
      refine ⟨rfl, ?_⟩
      unfold workerMove at h ⊢
      simp only at h ⊢
      split at h
      · rename_i hlength
        rw [if_pos hlength]
        exact hempty hlength
      · cases h
  | clear => cases h

variable (cfg : TxPoolConfig) {ι : Type} [DecidableEq ι]

/-! ### Interleavings -/

/-- At the top of the loop, with no insertion between its two moves, the flag is
    set if anything is unsynced. In the middle of an insertion or of a turn the
    flag may be behind. -/
def Awake (t : GossipState ι) : Prop :=
  t.worker = .executeWorker → (∀ i, t.inserts i ≠ .onReady) → t.storage.Unsynced →
    t.storage.newTransactions = true

/-- The pool is awake at every point of a schedule, and so after every prefix of
    it. -/
def AlwaysAwake (t : GossipState ι) (schedule : List (GossipMove ι)) : Prop :=
  ∀ pre, pre <+: schedule → Awake (run (gossipMove cfg) t pre)

/-- The walk of a fetch meets every entry of the table. The source iterates over
    the map under its lock, in an order of its own. -/
def Covers (t : GossipState ι) : GossipMove ι → Prop
  | .insert _ => True
  | .worker _ order => t.worker = .fetchNewTxs →
      ∀ txHash tx, t.storage.txsTable.find? txHash = some tx → txHash ∈ order

/-- The move writes an entry that is not synced. -/
def WritesUnsynced (t : GossipState ι) : GossipMove ι → Prop
  | .insert i => t.storage.Writes (t.inserts i)
  | .worker _ _ => False

/-- A transaction has been written since the fetch that came back empty: the
    worker has been about to clear the flag all the time. -/
def Late (t : GossipState ι) (pre : List (GossipMove ι)) : Prop :=
  Since (gossipMove cfg) WritesUnsynced (fun t => t.worker = .clear) t pre

/-- The worker clears the flag after a late transaction, and no insertion is yet
    to make its callback. -/
def Loses (t : GossipState ι) (pre : List (GossipMove ι)) (move : GossipMove ι) : Prop :=
  (∃ ready order, move = .worker ready order) ∧ Late cfg t pre ∧
    ∀ i, (run (gossipMove cfg) t pre).inserts i ≠ .onReady

/-- When the worker is about to clear the flag, the unsynced transactions are
    the late ones. The fetch before it has returned nothing, so all that was
    there then was synced. -/
theorem run_cleared {t : GossipState ι} (ht : t.worker = .executeWorker)
    (l : List (GossipMove ι))
    (hcovers : Throughout (fun pre => Covers (run (gossipMove cfg) t pre)) l) :
    (run (gossipMove cfg) t l).worker = .clear →
      ((run (gossipMove cfg) t l).storage.Unsynced ↔ Late cfg t l) := by
  -- The induction is on the schedule from its end. The last move is an insertion
  -- beside the worker, or the fetch itself.
  induction l using List.reverseRecOn with
  | nil =>
      intro hclear
      rw [run_nil, ht] at hclear
      cases hclear
  | append_singleton l move ih =>
      rw [throughout_concat] at hcovers
      intro hclear
      unfold Late at ih ⊢
      rw [since_concat, and_iff_right hclear]
      rw [run_concat] at hclear ⊢
      have hbefore := ih hcovers.1
      have hnow : Since (gossipMove cfg) WritesUnsynced (fun t => t.worker = .clear) t l →
          (run (gossipMove cfg) t l).worker = .clear := Since.now (gossipMove cfg)
      have hwalk := hcovers.2
      generalize run (gossipMove cfg) t l = u at hclear hbefore hnow hwalk ⊢
      cases move with
      | insert i =>
          rw [← hbefore hclear]
          exact u.storage.insertMove_unsynced cfg (u.inserts i)
      | worker ready order =>
          -- The worker has just fetched, and nothing was unsynced.
          rcases workerMove_eq_clear hclear with ⟨hfetch, hsame, hsynced⟩
          refine iff_of_false ?_ ?_
          · rintro ⟨txHash, tx, hfind, hunsynced⟩
            have hstorage : (gossipMove cfg u (.worker ready order)).storage = u.storage := hsame
            rw [hstorage] at hfind
            rw [hsynced txHash (hwalk hfetch txHash tx hfind) tx hfind] at hunsynced
            cases hunsynced
          · rintro (hlate | hwrites)
            · rw [hnow hlate] at hfetch
              cases hfetch
            · exact hwrites

/-- As long as no clearing loses a wake-up, the flag is set whenever anything is
    unsynced, or an insertion is still to make its callback and will set it. -/
theorem run_woken {t : GossipState ι} (ht : t.worker = .executeWorker)
    (hstart : t.storage.Unsynced → t.storage.newTransactions = true) (l : List (GossipMove ι))
    (hcovers : Throughout (fun pre => Covers (run (gossipMove cfg) t pre)) l)
    (hkeeps : Throughout (fun pre move => ¬ Loses cfg t pre move) l) :
    (run (gossipMove cfg) t l).storage.Unsynced →
      (run (gossipMove cfg) t l).storage.newTransactions = true ∨
        ∃ i, (run (gossipMove cfg) t l).inserts i = .onReady := by
  -- The induction is on the schedule from its end, and the disjunction is the
  -- invariant.
  induction l using List.reverseRecOn with
  | nil => exact fun hunsynced => Or.inl (hstart hunsynced)
  | append_singleton l move ih =>
      rw [throughout_concat] at hcovers hkeeps
      have hbefore := ih hcovers.1 hkeeps.1
      have hcleared := run_cleared cfg ht l hcovers.1
      have hkept := hkeeps.2
      unfold Loses at hkept
      rw [run_concat]
      generalize run (gossipMove cfg) t l = u at hbefore hcleared hkept ⊢
      cases move with
      | insert i =>
          intro hunsynced
          have hinserts : (gossipMove cfg u (.insert i)).inserts
              = Function.update u.inserts i (u.storage.insertMove cfg (u.inserts i)).2 := rfl
          have hflag : (gossipMove cfg u (.insert i)).storage.newTransactions = true ↔
              u.storage.newTransactions = true ∨ u.inserts i = .onReady :=
            u.storage.insertMove_newTransactions cfg (u.inserts i)
          rw [hflag, hinserts]
          -- Something was unsynced before, or this move has written it.
          rcases (u.storage.insertMove_unsynced cfg (u.inserts i)).mp hunsynced with
            hold | ⟨tx, hwrite, hfree, _⟩
          · rcases hbefore hold with hset | ⟨j, hj⟩
            · exact Or.inl (Or.inl hset)
            · by_cases hji : j = i
              · exact Or.inl (Or.inr (hji ▸ hj))
              · refine Or.inr ⟨j, ?_⟩
                rw [Function.update_of_ne hji]
                exact hj
          · -- What has been written is announced by the next move.
            refine Or.inr ⟨i, ?_⟩
            rw [Function.update_self, hwrite, MemoryStorage.insertMove,
              (u.storage.txsTable.contains_eq_false_iff tx.hash).mpr hfree,
              if_neg Bool.false_ne_true]
      | worker ready order =>
          intro hunsynced
          by_cases hclear : u.worker = .clear
          · -- Only here is the flag cleared, and what is unsynced is late.
            have hlate := (hcleared hclear).mp (by
              unfold gossipMove at hunsynced
              rw [hclear] at hunsynced
              exact hunsynced)
            by_contra hnone
            refine hkept ⟨⟨ready, order, rfl⟩, hlate, fun i hi => hnone (Or.inr ⟨i, hi⟩)⟩
          · -- Elsewhere in its loop the worker leaves the flag and makes nothing
            -- unsynced.
            rcases workerMove_of_ne_clear u.storage ready order hclear with ⟨hflag, hmade⟩
            rcases hbefore (hmade hunsynced) with hset | hready
            · exact Or.inl (hflag.trans hset)
            · exact Or.inr hready

/-- At the top of the loop with the flag cleared, the worker does nothing,
    however often its turn comes. It does not look at the pool before the flag
    is set. -/
theorem run_asleep {t : GossipState ι} (ht : t.worker = .executeWorker)
    (hflag : t.storage.newTransactions = false) (turns : List (Bool × HashList)) :
    run (gossipMove cfg) t (turns.map (fun turn => .worker turn.1 turn.2)) = t := by
  induction turns with
  | nil => rfl
  | cons turn turns ih =>
      have hturn : workerMove t.storage turn.1 turn.2 .executeWorker
          = (t.storage, .executeWorker) := by
        rw [workerMove, hflag, Bool.and_false, if_neg Bool.false_ne_true]
      have hstay : gossipMove cfg t (.worker turn.1 turn.2) = t := by
        unfold gossipMove
        simp only [ht, hturn]
        cases t
        cases ht
        rfl
      rw [List.map_cons, run_cons, hstay]
      exact ih

/-- Any number of insertions run beside the loop of the sync worker, on any pool
    and in any interleaving. The pool is awake at every point exactly if it is at
    the start and no clearing of the flag loses a wake-up. -/
theorem awake_iff (cfg : TxPoolConfig) (s : MemoryStorage) (txs : ι → Transaction)
    (schedule : List (GossipMove ι))
    (hcovers : Along (gossipMove cfg) Covers (gossipStart s txs) schedule) :
    AlwaysAwake cfg (gossipStart s txs) schedule ↔
      (s.Unsynced → s.newTransactions = true) ∧
        Throughout (fun pre move => ¬ Loses cfg (gossipStart s txs) pre move) schedule := by
  rw [along_iff_throughout] at hcovers
  have htop : (gossipStart s txs).worker = .executeWorker := rfl
  constructor
  · intro hawake
    refine ⟨hawake [] List.nil_prefix rfl (fun _ h => by cases h), ?_⟩
    rintro pre move post rfl ⟨⟨ready, order, rfl⟩, hlate, hnone⟩
    -- Right after the move the worker is at the top and the flag is cleared.
    have hclear : (run (gossipMove cfg) (gossipStart s txs) pre).worker = .clear := hlate.now
    have hunsynced := (run_cleared cfg htop pre hcovers.of_append hclear).mpr hlate
    have hafter := hawake (pre ++ [.worker ready order]) ⟨post, by
      rw [List.append_assoc, List.singleton_append]⟩
    rw [run_concat] at hafter
    generalize run (gossipMove cfg) (gossipStart s txs) pre = u at *
    unfold Awake gossipMove at hafter
    rw [hclear] at hafter
    exact Bool.false_ne_true (hafter rfl hnone hunsynced)
  · -- No insertion is between its moves, so of the two the flag must be set.
    rintro ⟨hstart, hkeeps⟩ pre ⟨post, rfl⟩ htop' hnone hunsynced
    rcases run_woken cfg htop hstart pre hcovers.of_append hkeeps.of_append hunsynced with
      hset | ⟨i, hi⟩
    · exact hset
    · exact absurd hi (hnone i)

/-- The walk over a table with one entry meets it. -/
theorem covers_single {s : MemoryStorage} {k : HashType}
    (h : s.txsTable.entries.map (fun tx => tx.hash) = [k]) (txHash : HashType) (tx : Transaction)
    (hfind : s.txsTable.find? txHash = some tx) : txHash ∈ [k] := by
  have hkey := KeyedTable.key_of_find? hfind
  rw [← h]
  exact List.mem_map.mpr ⟨tx, KeyedTable.mem_of_find? hfind, hkey⟩

/-- Two transactions that clients send. -/
def exampleTxs (second : Bool) : Transaction :=
  createTransaction (TxPool.exampleTx (if second then 2 else 1) (if second then 8 else 7) 1)

/-- The first is inserted and fetched. The turn ends without an empty fetch, so
    the flag stays set. -/
def fetchedOnce : List (GossipMove Bool) :=
  [.insert false, .insert false, .worker true [1], .worker true [1]]

/-- Its one fetch walks over the one entry. -/
theorem fetchedOnce_covers :
    Along (gossipMove TxPool.exampleConfig) Covers (gossipStart TxPool.examplePool exampleTxs)
      fetchedOnce :=
  ⟨trivial, trivial, (fun h => by cases h), fun _ => covers_single rfl, trivial⟩

/-- The worker has not cleared the flag, and no wake-up is lost. -/
theorem awake_iff_fetchedOnce :
    AlwaysAwake TxPool.exampleConfig (gossipStart TxPool.examplePool exampleTxs)
      fetchedOnce := by
  refine (awake_iff TxPool.exampleConfig TxPool.examplePool exampleTxs fetchedOnce
    fetchedOnce_covers).mpr ⟨?_, ?_⟩
  · rintro ⟨txHash, tx, hfind, _⟩
    cases hfind
  · -- Only a move of a worker that is about to clear the flag can lose a wake-up.
    have hnever : ∀ pre ready order,
        (run (gossipMove TxPool.exampleConfig) (gossipStart TxPool.examplePool exampleTxs)
          pre).worker = .executeWorker ∨
        (run (gossipMove TxPool.exampleConfig) (gossipStart TxPool.examplePool exampleTxs)
          pre).worker = .fetchNewTxs →
        ¬ Loses TxPool.exampleConfig (gossipStart TxPool.examplePool exampleTxs) pre
          (.worker ready order) := by
      intro pre ready order hplace hloses
      have hclear := hloses.2.1.now
      rcases hplace with hplace | hplace
      · rw [hplace] at hclear
        cases hclear
      · rw [hplace] at hclear
        cases hclear
    have hinsert : ∀ pre i,
        ¬ Loses TxPool.exampleConfig (gossipStart TxPool.examplePool exampleTxs) pre
          (.insert i) := by
      rintro pre i ⟨⟨_, _, hmove⟩, _⟩
      cases hmove
    refine (throughout_concat _
      [GossipMove.insert false, .insert false, .worker true [1]] _).mpr ⟨?_,
      hnever _ _ _ (Or.inr rfl)⟩
    refine (throughout_concat _ [GossipMove.insert false, .insert false] _).mpr ⟨?_,
      hnever _ _ _ (Or.inl rfl)⟩
    refine (throughout_concat _ [GossipMove.insert false] _).mpr ⟨?_, hinsert _ _⟩
    exact (throughout_concat _ [] _).mpr ⟨throughout_nil _, hinsert _ _⟩

/-- The second insertion runs between the fetch that comes back empty and the
    clearing of the flag. -/
def betweenMoves : List (GossipMove Bool) :=
  fetchedOnce ++ [.worker true [1], .worker true [1], .insert true, .insert true, .worker true []]

/-- The second transaction is unsynced, the flag is cleared, and nothing is left
    to set it. -/
theorem awake_counterexample :
    Along (gossipMove TxPool.exampleConfig) Covers (gossipStart TxPool.examplePool exampleTxs)
      betweenMoves ∧
    ¬ Awake (run (gossipMove TxPool.exampleConfig) (gossipStart TxPool.examplePool exampleTxs)
      betweenMoves) := by
  refine ⟨(along_append _ _ _ _ _).mpr ⟨fetchedOnce_covers, ?_⟩, fun hawake => ?_⟩
  · exact ⟨(fun h => by cases h), fun _ => covers_single rfl, trivial, trivial,
      (fun h => by cases h), trivial⟩
  · have hnone : ∀ i, (run (gossipMove TxPool.exampleConfig)
        (gossipStart TxPool.examplePool exampleTxs) betweenMoves).inserts i ≠ .onReady := by
      intro i
      cases i with
      | false => exact fun h => by cases h
      | true => exact fun h => by cases h
    have hset : false = true := hawake rfl hnone ⟨2, exampleTxs true, rfl, rfl⟩
    cases hset

end TransactionSync

end BcosTxPool
