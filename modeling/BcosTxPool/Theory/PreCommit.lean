import BcosTxPool.Core.PreCommit
import BcosTxPool.Theory.Network

/-!
# What Is Written Ahead

Every transaction that enters a pool is on its way to the ledger, and from then on
one of four things is true of it: it waits or is being stored, the ledger has stored
it, an exception has ended its task, or the ledger has refused it four times.

The account of a run is exact. A transaction that enters the pool again after it has
left is stored again, and nothing else is ever sent to the ledger. So a ledger that
reports no errors has, once the worker is idle and no task has raised an exception,
all that was ever in the pool.

The retries are bounded from both sides. The ledger is called at most four times for
each time that a transaction enters the pool, and for each time that it is given up
it has been called four times.

## Main definitions

* `TaskStep`: What a step does to the tasks.
* `TaskStep.contents`, `TaskStep.weigh`: The transactions of tasks, and their price.

## Theorems

* `mem_inserts_iff`: What an operation inserts.
* `TaskStep.accounts`, `TaskStep.calls_le`, `TaskStep.abandoned_le`: One step.
* `insertions_accounted`: The account of a run.
* `store_attempts`: How often the ledger is called.
-/

namespace BcosTxPool

open Library

namespace TxPool

variable (cfg : TxPoolConfig) (s : MemoryStorage) (op : Op)

/-! ### What an operation inserts -/

/-- What an operation offers is what it hands over. -/
theorem mem_offers_iff (data : TxData) : data ∈ op.offers cfg ↔ op.Carries cfg data := by
  cases op with
  | asyncSubmit existsInGroup txData txSubmitCallback => exact Option.mem_toList
  | importDownloadedTxs fromNode txs verifiedProposal => exact Iff.rfl
  | _ => exact iff_of_false List.not_mem_nil id

/-- A content has entered if its hash was free before and its entry is there
    now. -/
theorem entered_iff (s s' : MemoryStorage) (data : TxData) :
    entered s s' data = true ↔ s.txsTable.find? data.hash = none ∧
      ∃ tx, s'.txsTable.find? data.hash = some tx ∧ tx.toTxData = data := by
  rw [entered, Bool.and_eq_true, decide_eq_true_eq, Option.map_eq_some_iff, Bool.not_eq_true',
    KeyedTable.contains_eq_false_iff]

/-- The entries that are new after an operation are what it inserts. The
    insertions are listed from what it hands over, so nothing else may enter. -/
theorem mem_inserts_iff (data : TxData) :
    data ∈ inserts cfg s op ↔ s.txsTable.find? data.hash = none ∧
      ∃ tx, (step cfg s op).txsTable.find? data.hash = some tx ∧ tx.toTxData = data := by
  rw [inserts, List.mem_eraseDups, List.mem_filter, entered_iff, and_iff_right_iff_imp,
    mem_offers_iff]
  rintro ⟨hfree, tx, hfind, rfl⟩
  -- Whatever is in the pool afterwards was there before or is carried.
  have hholds : PoolHolds (fun data => (∃ txHash old, s.txsTable.find? txHash = some old ∧
      old.toTxData = data) ∨ op.Carries cfg data) (run (step cfg) s [op]) :=
    run_holds cfg (fun txHash old hold => Or.inl ⟨txHash, old, hold, rfl⟩)
      (fun op' hop data hcarries => Or.inr (List.mem_singleton.mp hop ▸ hcarries))
  -- Had it been there before, its hash would not have been free.
  rcases hholds tx.hash tx hfind with ⟨txHash, old, hold, heq⟩ | hcarries
  · have hkey := KeyedTable.key_of_find? hold
    rw [← heq, hkey, hold] at hfree
    exact absurd hfree (Option.some_ne_none old)
  · exact hcarries

end TxPool

/-! ### One step -/

/-- What a step does to the tasks. Transactions enter, a task calls the ledger
    or raises an exception, or the ledger answers: the task is done, is tried
    again or is given up. The lists are the queue and the tasks under way, what
    enters, what is called, stored, dropped and given up, and then the queue and
    the tasks under way afterwards. -/
inductive TaskStep : List StoreTask → List StoreTask → List TxData → List StoreTask →
    List StoreTask → List StoreTask → List StoreTask → List StoreTask → List StoreTask → Prop where
  | inserted (worker asked : List StoreTask) (txs : List TxData) :
      TaskStep worker asked txs [] [] [] [] (worker ++ txs.map (fun tx => ⟨tx, 0⟩)) asked
  | called (task : StoreTask) (worker asked : List StoreTask) :
      TaskStep (task :: worker) asked [] [task] [] [] [] worker (asked ++ [task])
  | dropped (task : StoreTask) (worker asked : List StoreTask) :
      TaskStep (task :: worker) asked [] [] [] [task] [] worker asked
  | stored {task : StoreTask} {worker asked asked' : List StoreTask}
      (hasked : asked.Perm (task :: asked')) :
      TaskStep worker asked [] [] [task] [] [] worker asked'
  | retried {task : StoreTask} {worker asked asked' : List StoreTask}
      (hasked : asked.Perm (task :: asked')) (hretry : task.retryTime < 3) :
      TaskStep worker asked [] [] [] [] [] (worker ++ [⟨task.tx, task.retryTime + 1⟩]) asked'
  | abandoned {task : StoreTask} {worker asked asked' : List StoreTask}
      (hasked : asked.Perm (task :: asked')) (hretry : 3 ≤ task.retryTime) :
      TaskStep worker asked [] [] [] [] [task] worker asked'

namespace TaskStep

variable {worker asked calls stored dropped abandoned worker' asked' : List StoreTask}
  {txs : List TxData}

/-- The contents of tasks, without the number of their retries. -/
def contents (tasks : List StoreTask) : List TxData := tasks.map (fun task => task.tx)

/-- Every transaction is accounted for: what was under way and what enters is
    what is done with and what is under way now. -/
theorem accounts (h : TaskStep worker asked txs calls stored dropped abandoned worker' asked') :
    (contents (worker ++ asked) ++ txs).Perm
      (contents stored ++ contents dropped ++ contents abandoned ++
        contents (worker' ++ asked')) := by
  unfold contents
  cases h with
  | inserted =>
      simp only [List.map_append, List.map_map, Function.comp_def, List.map_id', List.map_nil,
        List.nil_append, List.append_assoc]
      exact List.perm_append_comm.append_left _
  | called task =>
      simp only [List.map_append, List.map_cons, List.map_nil, List.append_nil,
        ← List.append_assoc]
      exact (List.perm_append_singleton task.tx _).symm
  | dropped task =>
      simp only [List.map_append, List.map_cons, List.map_nil, List.nil_append, List.append_nil]
      exact List.Perm.refl _
  | @stored task _ _ _ hasked =>
      simp only [List.map_append, List.map_cons, List.map_nil, List.append_nil]
      exact ((hasked.map _).append_left _).trans List.perm_middle
  -- A retry goes from the tasks under way to the end of the queue.
  | @retried task _ _ _ hasked =>
      simp only [List.map_append, List.map_cons, List.map_nil, List.nil_append, List.append_nil,
        List.append_assoc]
      exact (hasked.map _).append_left _
  | @abandoned task _ _ _ hasked =>
      simp only [List.map_append, List.map_cons, List.map_nil, List.nil_append, List.append_nil]
      exact ((hasked.map _).append_left _).trans List.perm_middle

/-- No task is tried a fifth time. -/
def Bounded (worker asked : List StoreTask) : Prop := ∀ task ∈ worker ++ asked, task.retryTime ≤ 3

/-- No task is tried a fifth time, and a step keeps it so. -/
theorem bounded (h : TaskStep worker asked txs calls stored dropped abandoned worker' asked')
    (hb : Bounded worker asked) : Bounded worker' asked' := by
  intro t ht
  cases h with
  -- The tasks of transactions that enter have not been tried.
  | inserted =>
      rw [List.append_assoc, List.mem_append, List.mem_append] at ht
      rcases ht with ht | ht | ht
      · exact hb t (List.mem_append_left _ ht)
      · rcases List.mem_map.mp ht with ⟨tx, _, rfl⟩
        exact Nat.zero_le 3
      · exact hb t (List.mem_append_right _ ht)
  | called task =>
      rw [← List.append_assoc, List.mem_append, List.mem_singleton] at ht
      rcases ht with ht | rfl
      · exact hb t (List.mem_cons_of_mem _ ht)
      · exact hb t List.mem_cons_self
  | dropped task => exact hb t (List.mem_cons_of_mem _ ht)
  | @stored task _ _ _ hasked =>
      refine hb t (List.mem_append.mpr ((List.mem_append.mp ht).imp_right (fun h => ?_)))
      exact hasked.mem_iff.mpr (List.mem_cons_of_mem _ h)
  -- The only place where the number grows is below the bound.
  | @retried task _ _ _ hasked hretry =>
      rw [List.append_assoc, List.mem_append, List.singleton_append, List.mem_cons] at ht
      rcases ht with ht | rfl | ht
      · exact hb t (List.mem_append_left _ ht)
      · exact hretry
      · exact hb t (List.mem_append_right _ (hasked.mem_iff.mpr (List.mem_cons_of_mem _ ht)))
  | @abandoned task _ _ _ hasked =>
      refine hb t (List.mem_append.mpr ((List.mem_append.mp ht).imp_right (fun h => ?_)))
      exact hasked.mem_iff.mpr (List.mem_cons_of_mem _ h)

/-! ### The number of calls -/

/-- The tasks for a transaction, each at a price that depends on its retries.
    Bounds on the calls come from prices that a step can pay. -/
def weigh (price : Nat → Nat) (tx : TxData) (tasks : List StoreTask) : Nat :=
  (tasks.map (fun task => if task.tx = tx then price task.retryTime else 0)).sum

variable (price : Nat → Nat) (tx : TxData)

/-- A task in front adds its price. -/
theorem weigh_cons (task : StoreTask) (tasks : List StoreTask) :
    weigh price tx (task :: tasks)
      = (if task.tx = tx then price task.retryTime else 0) + weigh price tx tasks :=
  List.sum_cons

/-- Two lists weigh what they weigh together. -/
theorem weigh_append (tasks tasks' : List StoreTask) :
    weigh price tx (tasks ++ tasks') = weigh price tx tasks + weigh price tx tasks' := by
  rw [weigh, List.map_append, List.sum_append]
  rfl

/-- A single task is weighed by its price, if it is for the transaction. -/
theorem weigh_singleton (task : StoreTask) :
    weigh price tx [task] = if task.tx = tx then price task.retryTime else 0 :=
  List.sum_singleton

/-- The order of the tasks has no part in it. -/
theorem weigh_perm {tasks tasks' : List StoreTask} (h : tasks.Perm tasks') :
    weigh price tx tasks = weigh price tx tasks' :=
  (h.map _).sum_eq

/-- Every new task costs the price of a task without retries, once for each time
    that the transaction enters. -/
theorem weigh_new (txs : List TxData) :
    weigh price tx (txs.map (fun tx => ⟨tx, 0⟩)) = price 0 * txs.count tx := by
  induction txs with
  | nil => rfl
  | cons data txs ih =>
      rw [List.map_cons, weigh_cons, ih, List.count_cons]
      by_cases hsame : data = tx
      · rw [if_pos hsame, hsame, beq_self_eq_true, if_pos rfl, Nat.mul_add, Nat.mul_one,
          Nat.add_comm]
      · rw [if_neg hsame, beq_eq_false_iff_ne.mpr hsame, Nat.zero_add]
        rfl

/-- A single task is counted if it is for the transaction. -/
theorem count_contents_singleton (task : StoreTask) :
    (contents [task]).count tx = if task.tx = tx then 1 else 0 := by
  rw [contents, List.map_singleton, List.count_singleton]
  simp only [beq_iff_eq]

/-- The calls that tasks may still make pay for those of a step. A task in the
    queue may make four without its retries, and one under way has made one of
    them. -/
theorem calls_le (h : TaskStep worker asked txs calls stored dropped abandoned worker' asked')
    (hb : Bounded worker asked) :
    (contents calls).count tx
        + (weigh (fun n => 4 - n) tx worker' + weigh (fun n => 3 - n) tx asked')
      ≤ weigh (fun n => 4 - n) tx worker + weigh (fun n => 3 - n) tx asked
        + 4 * txs.count tx := by
  cases h with
  | inserted =>
      rw [weigh_append, weigh_new]
      simp only [contents, List.map_nil, List.count_nil]
      omega
  -- The call is one of those that were still to be made.
  | called task =>
      have hretry := hb task List.mem_cons_self
      rw [weigh_append, weigh_singleton, weigh_cons, count_contents_singleton]
      split
      · omega
      · omega
  | dropped task =>
      rw [weigh_cons]
      simp only [contents, List.map_nil, List.count_nil]
      omega
  | @stored task _ _ _ hasked =>
      rw [weigh_perm _ tx hasked, weigh_cons]
      simp only [contents, List.map_nil, List.count_nil]
      omega
  -- The task is in the queue again, with one retry more.
  | @retried task _ _ _ hasked hretry =>
      rw [weigh_perm _ tx hasked, weigh_cons, weigh_append, weigh_singleton]
      simp only [contents, List.map_nil, List.count_nil]
      split
      · omega
      · omega
  | @abandoned task _ _ _ hasked =>
      rw [weigh_perm _ tx hasked, weigh_cons]
      simp only [contents, List.map_nil, List.count_nil]
      omega

/-- The calls that tasks have made pay for those that a step gives up. A task
    that is given up has been called for four times. -/
theorem abandoned_le (h : TaskStep worker asked txs calls stored dropped abandoned worker' asked') :
    4 * (contents abandoned).count tx
        + (weigh (fun n => n) tx worker' + weigh (fun n => n + 1) tx asked')
      ≤ weigh (fun n => n) tx worker + weigh (fun n => n + 1) tx asked
        + (contents calls).count tx := by
  cases h with
  | inserted =>
      rw [weigh_append, weigh_new]
      simp only [contents, List.map_nil, List.count_nil]
      omega
  | called task =>
      rw [weigh_append, weigh_singleton, weigh_cons, count_contents_singleton]
      simp only [contents, List.map_nil, List.count_nil]
      split
      · omega
      · omega
  | dropped task =>
      rw [weigh_cons]
      simp only [contents, List.map_nil, List.count_nil]
      omega
  | @stored task _ _ _ hasked =>
      rw [weigh_perm _ tx hasked, weigh_cons]
      simp only [contents, List.map_nil, List.count_nil]
      omega
  | @retried task _ _ _ hasked =>
      rw [weigh_perm _ tx hasked, weigh_cons, weigh_append, weigh_singleton]
      simp only [contents, List.map_nil, List.count_nil]
      split
      · omega
      · omega
  -- It has three retries by then, and its last call makes the fourth.
  | @abandoned task _ _ _ hasked hretry =>
      rw [weigh_perm _ tx hasked, weigh_cons, count_contents_singleton]
      simp only [contents, List.map_nil, List.count_nil]
      split
      · omega
      · omega

end TaskStep

namespace PreCommit

variable (cfg : TxPoolConfig)

/-- The transactions that enter are put at the end of the queue in their
    order. -/
theorem foldl_preCommitTransaction (txs : List TxData) :
    ∀ p : PreCommit, txs.foldl (fun p tx => p.preCommitTransaction tx 0) p
      = { p with worker := p.worker ++ txs.map (fun tx => ⟨tx, 0⟩) } := by
  induction txs with
  | nil =>
      intro p
      rw [List.map_nil, List.append_nil]
      rfl
  | cons tx txs ih =>
      intro p
      rw [List.foldl_cons, ih, List.map_cons]
      -- The comparison with the limit of retries passes, since there was none.
      simp only [preCommitTransaction, Nat.not_lt_zero, gt_iff_lt, if_false, List.append_assoc,
        List.singleton_append]

/-- The worker and the ledger leave the pool alone. -/
theorem next_storage (p : PreCommit) (event : Event) :
    (p.next cfg event).storage = p.storage ∨
      ∃ op, event = .pool op ∧ (p.next cfg event).storage = TxPool.step cfg p.storage op := by
  cases event with
  | pool op =>
      rw [next, foldl_preCommitTransaction]
      exact Or.inr ⟨op, rfl, rfl⟩
  | worker raised =>
      rw [next]
      split
      · exact Or.inl rfl
      · split
        · exact Or.inl rfl
        · exact Or.inl rfl
  -- An answer is about a task under way, or it is about none.
  | onStored index error =>
      rw [next]
      split
      · exact Or.inl rfl
      · simp only [preCommitTransaction]
        split
        · exact Or.inl rfl
        · split
          · exact Or.inl rfl
          · exact Or.inl rfl

/-- Every event makes such a step, and some of them the idle one. -/
theorem next_taskStep (p : PreCommit) (event : Event) :
    TaskStep p.worker p.asked (p.inserted cfg event) (p.calls event) (p.stored event)
      (p.dropped event) (p.abandoned event) (p.next cfg event).worker (p.next cfg event).asked := by
  -- Where nothing happens, no transaction enters.
  have hidle : TaskStep p.worker p.asked [] [] [] [] [] p.worker p.asked := by
    have h := TaskStep.inserted p.worker p.asked []
    rw [List.map_nil, List.append_nil] at h
    exact h
  cases event with
  | pool op =>
      rw [next, foldl_preCommitTransaction]
      exact TaskStep.inserted p.worker p.asked (TxPool.inserts cfg p.storage op)
  | worker raised =>
      -- With an empty queue the turn is idle, raised or not.
      rcases p with ⟨storage, _ | ⟨task, worker⟩, asked⟩
      · cases raised with
        | true => exact hidle
        | false => exact hidle
      · cases raised with
        | true => exact TaskStep.dropped task worker asked
        | false => exact TaskStep.called task worker asked
  | onStored index error =>
      rw [next]
      cases hfind : p.asked[index]? with
      | none =>
          cases error with
          | none =>
              simp only [stored, hfind, Option.toList_none]
              exact hidle
          | some error =>
              simp only [abandoned, hfind, Option.toList_none, List.filter_nil]
              exact hidle
      | some task =>
          have hperm := perm_cons_eraseIdx hfind
          cases error with
          | none =>
              simp only [stored, hfind, Option.toList_some]
              exact TaskStep.stored hperm
          | some error =>
              simp only [abandoned, hfind, Option.toList_some, preCommitTransaction]
              -- The comparison of `preCommitTransaction` decides between retry and end.
              by_cases hretry : task.retryTime + 1 > 3
              · rw [if_pos hretry]
                simp only [List.filter_cons, List.filter_nil, decide_eq_true hretry, if_true]
                exact TaskStep.abandoned hperm (Nat.le_of_lt_succ hretry)
              · rw [if_neg hretry]
                simp only [List.filter_cons, List.filter_nil, decide_eq_false hretry,
                  Bool.false_eq_true, if_false]
                exact TaskStep.retried hperm (by omega)

/-- An entry after a step was there before, or the step inserts it. -/
theorem next_origin (p : PreCommit) (event : Event) {txHash : HashType} {tx : Transaction}
    (hfind : (p.next cfg event).storage.txsTable.find? txHash = some tx) :
    (∃ old, p.storage.txsTable.find? txHash = some old ∧ old.toTxData = tx.toTxData) ∨
      tx.toTxData ∈ p.inserted cfg event := by
  rcases next_storage cfg p event with hsame | ⟨op, rfl, hstep⟩
  · -- The pool is as it was, or an operation has run.
    rw [hsame] at hfind
    exact Or.inl ⟨tx, hfind, rfl⟩
  · rw [hstep] at hfind
    have hkey := KeyedTable.key_of_find? hfind
    rcases TxPool.step_origin cfg p.storage op hfind with hold | ⟨hfree, _⟩
    · exact Or.inl hold
    -- A new entry is one that the operation inserts, under its own hash.
    · rw [← hkey] at hfree hfind
      exact Or.inr ((TxPool.mem_inserts_iff cfg p.storage op tx.toTxData).mpr
        ⟨hfree, tx, hfind, rfl⟩)

/-! ### Runs -/

open TaskStep

variable (s : MemoryStorage) (events : List Event)

/-- What enters a pool is stored, has been dropped or given up, or is on its way
    to the ledger. Everything in the pool has entered it, or it was there at the
    beginning. -/
theorem insertions_accounted :
    (gather (next cfg) (inserted cfg) { storage := s } events).Perm
        (contents (gather (next cfg) stored { storage := s } events) ++
          contents (gather (next cfg) dropped { storage := s } events) ++
          contents (gather (next cfg) abandoned { storage := s } events) ++
          (run (next cfg) { storage := s } events).pending) ∧
      ∀ txHash tx, (run (next cfg) { storage := s } events).storage.txsTable.find? txHash
          = some tx →
        (∃ old, s.txsTable.find? txHash = some old ∧ old.toTxData = tx.toTxData) ∨
          tx.toTxData ∈ gather (next cfg) (inserted cfg) { storage := s } events := by
  constructor
  · have haccounts : ∀ p event, True → (pending p ++ inserted cfg p event).Perm
        (contents (p.stored event) ++ contents (p.dropped event) ++ contents (p.abandoned event) ++
          (p.next cfg event).pending) :=
      fun p event _ => (next_taskStep cfg p event).accounts
    -- One step balances, so the run does; then the three kinds of loss are told apart.
    have hbalance := gather_perm_spent (next cfg) haccounts { storage := s } events
      (along_of_forall _ (fun _ _ => trivial) _ _)
    refine hbalance.trans (List.Perm.append_right _ ?_)
    refine (gather_append_perm _ _ _ events _).trans ?_
    unfold contents
    rw [map_gather, map_gather, map_gather]
    exact (gather_append_perm _ _ _ events _).append_right _
  · induction events using List.reverseRecOn with
    | nil => exact fun txHash tx hfind => Or.inl ⟨tx, hfind, rfl⟩
    | append_singleton events event ih =>
        intro txHash tx hfind
        rw [run_concat] at hfind
        rw [gather_concat]
        -- An entry after the last event was there before it, or has just entered.
        rcases next_origin cfg _ event hfind with ⟨old, hold, hsame⟩ | hnew
        · rw [← hsame]
          exact (ih txHash old hold).imp_right (List.mem_append_left _)
        · exact Or.inr (List.mem_append_right _ hnew)

/-- The ledger is called at most four times for each time that a transaction
    enters the pool, and it has been called four times for each time that one is
    given up. -/
theorem store_attempts (tx : TxData) :
    (contents (gather (next cfg) calls { storage := s } events)).count tx
        ≤ 4 * (gather (next cfg) (inserted cfg) { storage := s } events).count tx ∧
      4 * (contents (gather (next cfg) abandoned { storage := s } events)).count tx
        ≤ (contents (gather (next cfg) calls { storage := s } events)).count tx := by
  -- Both bounds need prices on the tasks under way, so they go through the run together.
  have hrun : Bounded (run (next cfg) { storage := s } events).worker
        (run (next cfg) { storage := s } events).asked ∧
      (contents (gather (next cfg) calls { storage := s } events)).count tx
          + (weigh (fun n => 4 - n) tx (run (next cfg) { storage := s } events).worker
            + weigh (fun n => 3 - n) tx (run (next cfg) { storage := s } events).asked)
        ≤ 4 * (gather (next cfg) (inserted cfg) { storage := s } events).count tx ∧
      4 * (contents (gather (next cfg) abandoned { storage := s } events)).count tx
          + (weigh (fun n => n) tx (run (next cfg) { storage := s } events).worker
            + weigh (fun n => n + 1) tx (run (next cfg) { storage := s } events).asked)
        ≤ (contents (gather (next cfg) calls { storage := s } events)).count tx := by
    induction events using List.reverseRecOn with
    | nil => exact ⟨fun _ h => absurd h List.not_mem_nil, Nat.le_refl _, Nat.le_refl _⟩
    | append_singleton events event ih =>
        rcases ih with ⟨hbounded, hcalls, habandoned⟩
        have hstep := next_taskStep cfg (run (next cfg) { storage := s } events) event
        have hpaid := hstep.calls_le tx hbounded
        have hmade := hstep.abandoned_le tx
        simp only [run_concat, gather_concat, contents, List.map_append,
          List.count_append] at hcalls habandoned hpaid hmade ⊢
        exact ⟨hstep.bounded hbounded, by omega, by omega⟩
  -- At the end the prices of the tasks under way are left out.
  rcases hrun with ⟨_, hcalls, habandoned⟩
  omega

/-- A ledger that refuses a transaction is called four times. -/
example : (gather (next TxPool.clearConfig) calls { storage := TxPool.examplePool }
    (.pool (.importDownloadedTxs 1 [TxPool.exampleTx 5 7 1] none) ::
      (List.replicate 6
        [.worker false, .onStored 0 (some ⟨.transactionsMissing, ""⟩)]).flatten)).map
          (fun task => task.retryTime) = [0, 1, 2, 3] := by
  decide

end PreCommit

end BcosTxPool
