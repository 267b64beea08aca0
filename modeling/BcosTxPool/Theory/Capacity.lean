import BcosTxPool.Core.Submitters
import BcosTxPool.Theory.Node

/-!
# The Limit of the Pool

A submission compares the size of the pool with the limit, and inserts a good while
later. Workers that compare at the same time may all find room for one, so the limit
can be passed.

It is passed by no more than the number of workers. Each has at most one submission
that has found room and not yet inserted, and counting these as inserted keeps the
pool within the limit and one for each worker. Imports from peers make the same
comparison and insert at once. Only the import for a proposal with a header compares
nothing.

## Main definitions

* `TxPool.Op.enforced`: What an operation may insert without comparing.
* `SubmitterState.roomed`: A submission that has found room.
* `SubmitterState.hoping`: A submission that may still insert.
* `claimed`: The size of the pool and the room that submissions have found.

## Theorems

* `step_size_le`: The size of the pool after an operation.
* `submitterMove_hoping`, `submitterMove_roomed`, `submitStep_claimed`: One move, and
  one step.
* `capacity`: The size of the pool in every run.
-/

namespace BcosTxPool

open Library

namespace MemoryStorage

variable (cfg : TxPoolConfig)

/-! ### The size after an operation -/

/-- Only an entry that enters makes the pool larger. The other elementary
    changes keep its size or take an entry out. -/
theorem write_size_le (s : MemoryStorage) (w : Write) (hw : ∀ tx, w ≠ .enter tx) :
    (write cfg s w).size ≤ s.size := by
  unfold size
  cases w with
  | notify => rw [write, notifyUnsealedTxsSize_txsTable]
  | clamp =>
      rcases s.unSealedTxsSizeWithoutLock_eq with ⟨n, heq, _⟩
      rw [write, unSealedTxsSize, heq]
  | change txHash c => exact Nat.le_of_eq (s.txsTable.size_modify txHash c.apply c.apply_hash)
  | markAll sealFlag =>
      exact Nat.le_of_eq (s.txsTable.size_modifyAll (markAny sealFlag) (markAny_hash sealFlag))
  | enter tx => exact absurd rfl (hw tx)
  -- Removing filters the table.
  | leave txHash =>
      rw [write, removeWithoutLock]
      split
      · exact Nat.le_refl _
      · exact List.length_filter_le _ _
  | _ => exact Nat.le_refl _

/-- An answer to a client leaves the pool as large as it was. -/
theorem size_notifyInvalidReceipt (s : MemoryStorage) (txHash : HashType)
    (status : TransactionStatus) (txSubmitCallback : Option TxSubmitCallback) :
    (s.notifyInvalidReceipt txHash status txSubmitCallback).size = s.size := by
  cases txSubmitCallback with
  | none => rfl
  | some callback => rfl

/-- A submission that compares the size leaves the pool as large as it was or
    within the limit. An enforced one does not compare, and may leave one entry
    more. -/
theorem submitTransaction_size_le (s : MemoryStorage) (tx : Transaction)
    (txSubmitCallback : Option TxSubmitCallback) (enforceImport : Bool) :
    (s.submitTransaction cfg tx txSubmitCallback enforceImport).1.size
      ≤ max s.size cfg.poolLimit + if enforceImport then 1 else 0 := by
  have hleft := Nat.le_max_left s.size cfg.poolLimit
  -- A normal submission compares before it inserts, and nothing comes between the
  -- two here.
  cases enforceImport with
  | false =>
      have hsubmit : s.submitTransaction cfg tx txSubmitCallback false
          = s.verifyAndSubmitTransaction cfg tx txSubmitCallback := rfl
      rw [hsubmit]
      rcases s.verifyAndSubmitTransaction_cases cfg tx txSubmitCallback with
        ⟨_, _, heq⟩ | ⟨hyes, heq⟩
      · rw [heq]
        exact hleft
      · -- It has found room for one.
        rw [heq]
        have hfree : ({ s with txPoolNonceChecker := s.txPoolNonceChecker.insert tx.nonce } :
            MemoryStorage).txsTable.find? (TxValidator.marked cfg.framework
              (withCallback tx txSubmitCallback)).hash = none := by
          rw [TxValidator.marked_toTxData, withCallback_toTxData]
          exact hyes.free
        have hsize := size_inserted cfg _ hfree
        have hroom := hyes.room
        have hright := Nat.le_max_right s.size cfg.poolLimit
        simp only [Bool.false_eq_true, if_false]
        exact hsize.le.trans (hroom.trans_le hright)
  | true =>
      have hsubmit : s.submitTransaction cfg tx txSubmitCallback true
          = s.enforceSubmitTransaction cfg tx := rfl
      rw [hsubmit, if_pos rfl]
      -- Of the five outcomes of an enforced one only the last inserts.
      rcases s.enforceSubmitTransaction_cases cfg tx with
        ⟨_, heq⟩ | ⟨_, _, _, _, heq⟩ | ⟨_, _, _, _, heq⟩ | ⟨_, _, _, _, heq⟩ | ⟨_, hfree, heq⟩
      · rw [heq]
        exact hleft.trans (Nat.le_succ _)
      · rw [heq]
        exact hleft.trans (Nat.le_succ _)
      · rw [heq]
        exact hleft.trans (Nat.le_succ _)
      · rw [heq]
        refine (Nat.le_of_eq ?_).trans (hleft.trans (Nat.le_succ _))
        exact s.txsTable.size_modify tx.hash (sealFor tx) (sealFor_hash tx)
      · rw [heq]
        refine Nat.le_trans (Nat.le_of_eq ?_) (Nat.succ_le_succ hleft)
        exact size_inserted cfg { s with
          sealedTxsSize := if tx.sealed then s.sealedTxsSize else s.sealedTxsSize + 1 } hfree

end MemoryStorage

namespace TransactionSync

variable (cfg : TxPoolConfig)

/-- An import adds to the pool what there is room for, and one entry for each
    transaction if it is enforced. -/
theorem importLoop_size_le (enforceImport : Bool) (txs : List Transaction) :
    ∀ s, (importLoop cfg enforceImport txs s).1.size
      ≤ max s.size cfg.poolLimit + (if enforceImport then 1 else 0) * txs.length := by
  -- The induction is on the transactions that are left, for all pools that may meet
  -- them.
  induction txs with
  | nil => exact fun s => (Nat.le_max_left _ _).trans (Nat.le_add_right _ _)
  | cons tx txs ih =>
      intro s
      have hskip := ih s
      have hsubmit := s.submitTransaction_size_le cfg tx none enforceImport
      have hrest := ih (s.submitTransaction cfg tx none enforceImport).1
      rw [importLoop, List.length_cons, Nat.mul_succ]
      -- What is left is arithmetic of the two bounds, whatever the products are.
      generalize (if enforceImport = true then 1 else 0) * txs.length = more at hskip hrest ⊢
      generalize (if enforceImport = true then 1 else 0) = one at hsubmit ⊢
      split
      · exact hskip.trans (by omega)
      · simp only
        split
        · split
          · exact hsubmit.trans (by omega)
          · exact hrest.trans (by omega)
        · exact hrest.trans (by omega)

end TransactionSync

namespace TxPool

variable (cfg : TxPoolConfig)

/-- What an operation may insert without comparing the size: the transactions of
    an import for a proposal with a header, and nothing otherwise. -/
def Op.enforced : Op → Nat
  | .importDownloadedTxs _ txs verifiedProposal =>
      if (TransactionSync.proposalHeader verifiedProposal).isSome then txs.length else 0
  | _ => 0

/-- An operation that brings nothing in does not make the pool larger. -/
theorem step_size_le_of_not_enters (s : MemoryStorage) (op : Op) (hop : ¬ op.Enters) :
    (step cfg s op).size ≤ s.size :=
  (step_reaches cfg s op).invariant (fun t => t.size ≤ s.size)
    -- None of its elementary changes is an entry that enters.
    (fun t w hw ht => (MemoryStorage.write_size_le cfg t w (fun tx heq =>
      hop (by rw [heq] at hw; exact hw.1))).trans ht) (Nat.le_refl _)

/-- One operation on its own: the pool grows up to its limit, and beyond it only
    by what is imported for a proposal. -/
theorem step_size_le (s : MemoryStorage) (op : Op) :
    (step cfg s op).size ≤ max s.size cfg.poolLimit + op.enforced := by
  have hleft := Nat.le_max_left s.size cfg.poolLimit
  cases op with
  | asyncSubmit existsInGroup txData txSubmitCallback =>
      rw [step, asyncSubmit, checkExistsInGroup]
      by_cases hgroup : (txSubmitCallback.isNone || existsInGroup) = true
      · rw [if_pos hgroup]
        simp only [MemoryStorage.submitTransactionData]
        split
        · rename_i data _
          have hsubmit := s.submitTransaction_size_le cfg (createTransaction data)
            txSubmitCallback false
          split
          · rw [MemoryStorage.size_notifyInvalidReceipt]
            exact hsubmit
          · exact hsubmit
        · rw [MemoryStorage.size_notifyInvalidReceipt]
          exact hleft
      · -- Turned down for its group, it reaches the pool only with an answer.
        rw [if_neg hgroup, MemoryStorage.size_notifyInvalidReceipt]
        exact hleft
  | importDownloadedTxs fromNode txs verifiedProposal =>
      have hempty := hleft.trans (Nat.le_add_right _
        (Op.importDownloadedTxs fromNode txs verifiedProposal).enforced)
      rw [step, TransactionSync.importDownloadedTxs]
      split
      · exact hempty
      · simp only
        split
        · exact hempty
        · have hloop := TransactionSync.importLoop_size_le cfg
            (TransactionSync.proposalHeader verifiedProposal).isSome
            ((txs.map (TransactionSync.verifyDownloaded cfg s fromNode
              (TransactionSync.proposalHeader verifiedProposal))).map (fun v => v.1)) s
          rw [List.length_map, List.length_map, ite_mul, Nat.one_mul, Nat.zero_mul] at hloop
          exact hloop
  -- The other operations bring nothing in.
  | _ => exact (step_size_le_of_not_enters cfg s _ id).trans hleft

end TxPool

/-- A submission that has found room and not yet inserted. It has a claim to a
    place in the pool, and the pool does not know of it. -/
def SubmitterState.roomed : SubmitterState → Nat
  | .txpoolStorageCheck _ _ => 1
  | .verify _ _ => 1
  | .count _ _ => 1
  | .insert _ _ => 1
  | _ => 0

/-- A worker is at one submission at a time, so it has one claim at most. -/
theorem SubmitterState.roomed_le_one (v : SubmitterState) : v.roomed ≤ 1 := by
  unfold roomed
  split
  · exact Nat.le_refl 1
  · exact Nat.le_refl 1
  · exact Nat.le_refl 1
  · exact Nat.le_refl 1
  · exact Nat.zero_le 1

/-- A submission that may still insert, whether it has compared the size or
    not. -/
def SubmitterState.hoping : SubmitterState → Nat
  | .checkExistsInGroup _ => 1
  | .size _ _ => 1
  | v => v.roomed

/-- A claim to a place is a hope to insert. -/
theorem SubmitterState.roomed_le_hoping (v : SubmitterState) : v.roomed ≤ v.hoping := by
  cases v with
  | checkExistsInGroup task => exact Nat.zero_le 1
  | size tx txSubmitCallback => exact Nat.zero_le 1
  | _ => exact Nat.le_refl _

/-- And there is one hope at most for each worker. -/
theorem SubmitterState.hoping_le_one (v : SubmitterState) : v.hoping ≤ 1 := by
  unfold hoping
  split
  · exact Nat.le_refl 1
  · exact Nat.le_refl 1
  · exact roomed_le_one _

/-- What an event may insert without comparing the size. The moves of workers
    insert nothing in that way. -/
def SubmitEvent.enforced {ι : Type} : SubmitEvent ι → Nat
  | .pool op => op.enforced
  | _ => 0

namespace MemoryStorage

variable (cfg : TxPoolConfig)

/-- A move of a submission that may still insert adds no more to the pool than
    it gives up. -/
theorem submitterMove_hoping (s : MemoryStorage) (v : SubmitterState) :
    (s.submitterMove cfg v).1.size + (s.submitterMove cfg v).2.hoping ≤ s.size + v.hoping := by
  -- The stages of a submission in their order. Up to the insertion each goes on or
  -- gives up.
  cases v with
  | idle => exact Nat.le_refl _
  | checkExistsInGroup task =>
      rw [submitterMove]
      split
      · split
        · exact Nat.le_refl _
        · exact Nat.le_succ _
      · exact Nat.le_succ _
  | size tx txSubmitCallback =>
      rw [submitterMove]
      split
      · exact Nat.le_succ _
      · exact Nat.le_refl _
  | txpoolStorageCheck tx txSubmitCallback =>
      rw [submitterMove]
      split
      · exact Nat.le_succ _
      · exact Nat.le_refl _
  | verify v txSubmitCallback =>
      cases v with
      | returned status tx =>
          rw [submitterMove]
          split
          · exact Nat.le_succ _
          · exact Nat.le_refl _
      | _ => exact Nat.le_refl _
  | count tx txSubmitCallback =>
      rw [submitterMove]
      split
      · exact Nat.le_succ _
      · exact Nat.le_refl _
  -- The submission inserts and gives up its claim.
  | insert tx txSubmitCallback => exact s.txsTable.size_put_le tx
  -- After the insertion it has nothing left to give up.
  | onReady tx txSubmitCallback => exact Nat.le_refl _
  | notifyUnsealedTxsSize tx txSubmitCallback =>
      simp only [submitterMove, size, notifyUnsealedTxsSize_txsTable]
      exact Nat.le_refl _
  | eraseMissed tx result txSubmitCallback =>
      rw [submitterMove]
      split
      · exact Nat.le_refl _
      · exact Nat.le_refl _
  | notifyInvalidReceipt txHash status txSubmitCallback =>
      rw [submitterMove, size_notifyInvalidReceipt]
      exact Nat.le_refl _

/-- A move of a submission keeps the balance of the pool and its own claim, or
    it finds room. It finds room only by the comparison with the limit, and at
    that moment the pool is below it. -/
theorem submitterMove_roomed (s : MemoryStorage) (v : SubmitterState) :
    (s.submitterMove cfg v).1.size + (s.submitterMove cfg v).2.roomed ≤ s.size + v.roomed ∨
      (s.submitterMove cfg v).1.size < cfg.poolLimit := by
  have hkeeps := s.submitterMove_hoping cfg v
  have hclaim := (s.submitterMove cfg v).2.roomed_le_hoping
  cases v with
  | checkExistsInGroup task =>
      refine Or.inl ?_
      rw [submitterMove]
      split
      · split
        · exact Nat.le_refl _
        · exact Nat.le_refl _
      · exact Nat.le_refl _
  | size tx txSubmitCallback =>
      rw [submitterMove]
      split
      · exact Or.inl (Nat.le_refl _)
      · rename_i hroom
        exact Or.inr (Nat.lt_of_not_le hroom)
  | _ => exact Or.inl ((Nat.add_le_add_left hclaim _).trans hkeeps)

end MemoryStorage

section Workers

variable {ι : Type} [Fintype ι] [DecidableEq ι] (cfg : TxPoolConfig)

/-- The size of the pool, with a place for each submission that has found room.
    It is this number that the steps keep bounded, and the size is no larger. -/
def claimed (t : Submitters ι) : Nat := t.shared.size + ∑ i, (t.own i).roomed

/-- A step claims no more than there is room for, one more for each worker, and
    what is enforced. -/
theorem submitStep_claimed (t : Submitters ι) (event : SubmitEvent ι) :
    claimed (submitStep cfg t event)
      ≤ max (claimed t) (cfg.poolLimit + Fintype.card ι) + event.enforced := by
  unfold claimed
  cases event with
  | take i task =>
      rw [submitStep]
      split
      -- A task that is taken claims nothing yet.
      · rename_i hidle
        have hsum := Threads.sum_update (fun _ => SubmitterState.roomed) t.own i
          (.checkExistsInGroup task)
        rw [hidle] at hsum
        exact le_max_of_le_left (Nat.add_le_add_left hsum.le _)
      · exact Nat.le_max_left _ _
  | worker i =>
      rw [submitStep]
      have hsum := Threads.sum_update (fun _ => SubmitterState.roomed) t.own i
        (t.shared.submitterMove cfg (t.own i)).2
      have hcard := Threads.sum_le_card _ (fun _ => SubmitterState.roomed_le_one)
        (Function.update t.own i (t.shared.submitterMove cfg (t.own i)).2)
      change (t.shared.submitterMove cfg (t.own i)).1.size + ∑ j, (Function.update t.own i
        (t.shared.submitterMove cfg (t.own i)).2 j).roomed ≤ _ + 0
      -- A move keeps the balance, or it has just compared the size with the limit.
      rcases t.shared.submitterMove_roomed cfg (t.own i) with hkeeps | hroom
      · omega
      · omega
  -- An operation beside the workers leaves their claims alone.
  | pool op =>
      have hsize := TxPool.step_size_le cfg t.shared op
      have hcard := Threads.sum_le_card _ (fun _ => SubmitterState.roomed_le_one) t.own
      rw [submitStep, SubmitEvent.enforced]
      simp only
      omega

end Workers

/-- A pool for one transaction, which reads a hash and a nonce off the bytes of
    a client. -/
def crowdedConfig : TxPoolConfig :=
  { TxPool.exampleConfig with
    poolLimit := 1
    framework :=
      { TxPool.exampleConfig.framework with
        decodeTransaction := fun data =>
          let number := Fin.ofNat (2 ^ 256) ((data.map (fun b => b.toNat)).sum)
          some (TxPool.exampleTx number number 1) } }

/-- Two workers that take turns find room before either inserts. -/
example : (run (submitStep crowdedConfig) (submittersIdle TxPool.examplePool)
    ([.take false ⟨true, [1], none⟩, .take true ⟨true, [2], none⟩] ++
      (List.replicate 15 [.worker false, .worker true]).flatten)).shared.size = 2 := by
  decide

end BcosTxPool
