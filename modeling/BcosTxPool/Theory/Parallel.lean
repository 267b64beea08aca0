import BcosTxPool.Library.Commute
import BcosTxPool.Theory.Capacity
import BcosTxPool.Theory.NonceGrant

/-!
# Submissions in Parallel

A submission takes no lock from its first check to its last. What it reads may be
changed by another worker before it acts on it. For two submissions of one nonce this
goes wrong. It does not for submissions that have nothing in common but the pool.

Take workers with transactions of different hashes and nonces, and room for all of
them. What one worker adds changes no answer that another is given, and what two
workers add may be added in either order. So their moves commute, and a schedule may be
reordered until the workers run one after the other, in any order. A worker alone
makes the operation that a submission is elsewhere.

The pools agree but for the order of the table and of the receipts. The sealer is told
different sizes on the way.

## Main definitions

* `MemoryStorage.Rearranged`: The same pool up to order.
* `MemoryStorage.Contribution`, `contribute`: What a move adds.
* `SubmitterState.answer`: What a worker asks of the pool.
* `Distinct`: Contents with nothing in common.
* `Independent`: The invariant of the workers.

## Theorems

* `contribute_comm`: Contributions in either order.
* `submitterMove_rearranged`, `submitterMove_next`: What a move does.
* `submitters_commute`: The moves of different workers commute.
* `submit_leads`: A worker alone.
* `submissions_serial`: Workers at once, and one after the other.
-/

namespace BcosTxPool

open Library

namespace MemoryStorage

/-! ### Up to order -/

/-- The same pool, but for the order of the table and of the receipts, and for
    what the sealer was told on the way. The counter has not run ahead of the
    table. -/
structure Rearranged (s s' : MemoryStorage) : Prop where
  entries : s.txsTable.entries.Perm s'.txsTable.entries
  receipts : s.receipts.Perm s'.receipts
  txPoolNonceChecker : s.txPoolNonceChecker = s'.txPoolNonceChecker
  ledgerNonceChecker : s.ledgerNonceChecker = s'.ledgerNonceChecker
  invalidTxs : s.invalidTxs = s'.invalidTxs
  invalidNonces : s.invalidNonces = s'.invalidNonces
  missedTxs : s.missedTxs = s'.missedTxs
  sealedTxsSize : s.sealedTxsSize = s'.sealedTxsSize
  blockNumber : s.blockNumber = s'.blockNumber
  newTransactions : s.newTransactions = s'.newTransactions
  counted : s.sealedTxsSize ≤ s.size

variable {s s' s'' : MemoryStorage}

theorem Rearranged.refl (hcounted : s.sealedTxsSize ≤ s.size) : Rearranged s s where
  entries := List.Perm.refl _
  receipts := List.Perm.refl _
  txPoolNonceChecker := rfl
  ledgerNonceChecker := rfl
  invalidTxs := rfl
  invalidNonces := rfl
  missedTxs := rfl
  sealedTxsSize := rfl
  blockNumber := rfl
  newTransactions := rfl
  counted := hcounted

theorem Rearranged.size (h : Rearranged s s') : s.size = s'.size := h.entries.length_eq

theorem Rearranged.symm (h : Rearranged s s') : Rearranged s' s where
  entries := h.entries.symm
  receipts := h.receipts.symm
  txPoolNonceChecker := h.txPoolNonceChecker.symm
  ledgerNonceChecker := h.ledgerNonceChecker.symm
  invalidTxs := h.invalidTxs.symm
  invalidNonces := h.invalidNonces.symm
  missedTxs := h.missedTxs.symm
  sealedTxsSize := h.sealedTxsSize.symm
  blockNumber := h.blockNumber.symm
  newTransactions := h.newTransactions.symm
  counted := by
    rw [← h.sealedTxsSize, ← h.size]
    exact h.counted

theorem Rearranged.trans (h : Rearranged s s') (h' : Rearranged s' s'') : Rearranged s s'' where
  entries := h.entries.trans h'.entries
  receipts := h.receipts.trans h'.receipts
  txPoolNonceChecker := h.txPoolNonceChecker.trans h'.txPoolNonceChecker
  ledgerNonceChecker := h.ledgerNonceChecker.trans h'.ledgerNonceChecker
  invalidTxs := h.invalidTxs.trans h'.invalidTxs
  invalidNonces := h.invalidNonces.trans h'.invalidNonces
  missedTxs := h.missedTxs.trans h'.missedTxs
  sealedTxsSize := h.sealedTxsSize.trans h'.sealedTxsSize
  blockNumber := h.blockNumber.trans h'.blockNumber
  newTransactions := h.newTransactions.trans h'.newTransactions
  counted := h.counted

/-! ### What a move adds -/

/-- What a move of a worker adds to the pool. No move takes anything away but
    the hash that is no longer missed, and that is a field of its own. -/
structure Contribution where
  entered : Option Transaction := none
  reserved : Option NonceType := none
  found : Option HashType := none
  ready : Bool := false
  receipts : List Receipt := []

/-- The pool with a contribution. Entries are put, not inserted, since the move
    of an insertion does not look whether the hash is still free. -/
def contribute (s : MemoryStorage) (c : Contribution) : MemoryStorage :=
  { s with
    txsTable := c.entered.elim s.txsTable s.txsTable.put
    txPoolNonceChecker := c.reserved.elim s.txPoolNonceChecker s.txPoolNonceChecker.insert
    missedTxs := c.found.elim s.missedTxs s.missedTxs.erase
    newTransactions := s.newTransactions || c.ready
    receipts := s.receipts ++ c.receipts }

theorem size_le_contribute (s : MemoryStorage) (c : Contribution) :
    s.size ≤ (s.contribute c).size := by
  unfold size contribute
  cases c.entered with
  | none => exact Nat.le_refl _
  | some tx => exact s.txsTable.size_le_put tx

theorem contribute_congr (h : Rearranged s s') (c : Contribution) :
    Rearranged (s.contribute c) (s'.contribute c) where
  entries := by
    unfold contribute
    -- Only an entry depends on the order of the table, and it goes to its end.
    cases c.entered with
    | none => exact h.entries
    | some tx => exact KeyedTable.put_perm h.entries tx
  receipts := h.receipts.append_right c.receipts
  txPoolNonceChecker := by rw [contribute, contribute, h.txPoolNonceChecker]
  ledgerNonceChecker := h.ledgerNonceChecker
  invalidTxs := h.invalidTxs
  invalidNonces := h.invalidNonces
  missedTxs := by rw [contribute, contribute, h.missedTxs]
  sealedTxsSize := h.sealedTxsSize
  blockNumber := h.blockNumber
  newTransactions := by rw [contribute, contribute, h.newTransactions]
  counted := h.counted.trans (s.size_le_contribute c)

/-- Contributions of different transactions may be made in either order. Nonces
    and hashes go into sets, so of these no more is asked. -/
theorem contribute_comm (hcounted : s.sealedTxsSize ≤ s.size) (c c' : Contribution)
    (hne : ∀ tx ∈ c.entered, ∀ tx' ∈ c'.entered, tx.hash ≠ tx'.hash) :
    Rearranged ((s.contribute c).contribute c') ((s.contribute c').contribute c) where
  entries := by
    unfold contribute
    -- Two entries under different hashes stand in the table in one order or the
    -- other.
    generalize c.entered = first at hne ⊢
    generalize c'.entered = second at hne ⊢
    cases first with
    | none => exact List.Perm.refl _
    | some tx =>
        cases second with
        | none => exact List.Perm.refl _
        | some tx' => exact s.txsTable.put_put_perm (hne tx rfl tx' rfl)
  receipts := by
    simp only [contribute, List.append_assoc]
    -- The receipts of the two change places.
    exact List.perm_append_comm.append_left s.receipts
  txPoolNonceChecker := by
    unfold contribute
    cases c.reserved with
    | none => rfl
    | some nonce =>
        cases c'.reserved with
        | none => rfl
        | some nonce' =>
            simp only [Option.elim_some, TxPoolNonceChecker.insert, Finset.insert_comm]
  ledgerNonceChecker := rfl
  invalidTxs := rfl
  invalidNonces := rfl
  missedTxs := by
    unfold contribute
    cases c.found with
    | none => rfl
    | some txHash =>
        cases c'.found with
        | none => rfl
        | some txHash' => exact s.missedTxs.erase_comm txHash txHash'
  sealedTxsSize := rfl
  blockNumber := rfl
  newTransactions := by
    unfold contribute
    simp only [Bool.or_assoc, Bool.or_comm c.ready]
  counted := hcounted.trans
    ((s.size_le_contribute c).trans ((s.contribute c).size_le_contribute c'))

end MemoryStorage

/-! ### The moves of a worker -/

/-- The transaction object of a verification, wherever it is. -/
def VerifyState.tx : VerifyState → Transaction
  | .checkTx tx => tx
  | .submittedToChain tx => tx
  | .verify tx => tx
  | .count tx => tx
  | .insert tx => tx
  | .setSystemTx tx => tx
  | .returned _ tx => tx

namespace TxValidator

theorem verifyMove_tx (cfg : TxPoolConfig) (ledger : LedgerNonceChecker) (pool : TxPoolNonceChecker)
    (v : VerifyState) :
    (verifyMove cfg ledger pool v).2.tx.toTxData = v.tx.toTxData := by
  -- Only the last move writes to the object, and what it writes is a flag.
  cases v with
  | checkTx tx =>
      rw [verifyMove]
      split
      · rfl
      split
      · rfl
      split
      · rfl
      · rfl
  | insert tx => rfl
  | returned status tx => rfl
  | _ =>
      rw [verifyMove]
      split
      · rfl
      · rfl

end TxValidator

/-- The contents differ in their hash and in their nonce, where both are known.
    Bytes that do not decode collide with nothing. -/
def Distinct (content content' : Option TxData) : Prop :=
  ∀ data data', content = some data → content' = some data' →
    data.hash ≠ data'.hash ∧ data.nonce ≠ data'.nonce

namespace SubmitterState

/-- What the move of a worker adds to the pool. It depends on the place of the
    worker alone, not on the pool it meets. -/
def contribution : SubmitterState → MemoryStorage.Contribution
  | .verify (.insert tx) _ => { reserved := some tx.nonce }
  | .insert tx _ => { entered := some tx }
  | .onReady _ _ => { ready := true }
  | .eraseMissed tx _ _ => { found := some tx.hash }
  | .notifyInvalidReceipt txHash status txSubmitCallback =>
      { receipts := (txSubmitCallback.map (fun callback =>
          ⟨callback, some (.transactionStatus status),
            { txHash := txHash, status := status }⟩)).toList }
  | _ => {}

/-- What a worker asks of the pool, and the answer. The places that are not
    listed ask nothing but of the ledger checker, which no worker changes. -/
def answer (cfg : TxPoolConfig) (s : MemoryStorage) : SubmitterState → Bool
  | .size _ _ => s.size ≥ cfg.poolLimit
  | .txpoolStorageCheck tx _ => s.exist tx.hash
  | .verify (.count tx) _ => tx.nonce ∈ s.txPoolNonceChecker.nonceCache
  | .count tx _ => s.txsTable.contains tx.hash
  | _ => false

/-- What a worker holds is of this content. The content of a task is what its
    bytes decode to, if they do. -/
def Concerns (cfg : TxPoolConfig) (content : Option TxData) : SubmitterState → Prop
  | .checkExistsInGroup task => cfg.framework.decodeTransaction task.txData = content
  | .size tx _ => content = some tx.toTxData
  | .txpoolStorageCheck tx _ => content = some tx.toTxData
  | .verify v _ => content = some v.tx.toTxData
  | .count tx _ => content = some tx.toTxData
  | .insert tx _ => content = some tx.toTxData
  | _ => True

/-- A contribution is of the content of the worker: no other transaction enters
    through it. -/
theorem Concerns.entered {cfg : TxPoolConfig} {content : Option TxData} {v : SubmitterState}
    (h : v.Concerns cfg content) {tx : Transaction} (htx : tx ∈ v.contribution.entered) :
    content = some tx.toTxData := by
  -- Only one place of the program contributes an entry.
  cases v with
  | insert own txSubmitCallback =>
      rw [← Option.some.inj htx]
      exact h
  | verify v txSubmitCallback =>
      cases v with
      | _ => cases htx
  | _ => cases htx

/-- A worker that inserts was hoping to, so the room for its entry is accounted
    for. -/
theorem hoping_of_entered {v : SubmitterState} {tx : Transaction}
    (htx : tx ∈ v.contribution.entered) : v.hoping = 1 := by
  cases v with
  | insert own txSubmitCallback => rfl
  | verify v txSubmitCallback => rfl
  | _ => cases htx

theorem Concerns.reserved {cfg : TxPoolConfig} {content : Option TxData} {v : SubmitterState}
    (h : v.Concerns cfg content) {nonce : NonceType} (hnonce : nonce ∈ v.contribution.reserved) :
    ∃ data, content = some data ∧ data.nonce = nonce := by
  cases v with
  | verify v txSubmitCallback =>
      cases v with
      | insert tx => exact ⟨tx.toTxData, h, Option.some.inj hnonce⟩
      | _ => cases hnonce
  | _ => cases hnonce

end SubmitterState

namespace MemoryStorage

variable (cfg : TxPoolConfig) {s s' : MemoryStorage}

/-- A report changes nothing but what the sealer was told. -/
theorem notifyUnsealedTxsSize_rearranged (hcounted : s.sealedTxsSize ≤ s.size) :
    Rearranged (s.notifyUnsealedTxsSize cfg) s := by
  rcases s.notifyUnsealedTxsSize_eq cfg with ⟨n, reports, heq, hkeep⟩
  rw [heq, hkeep hcounted]
  exact { Rearranged.refl hcounted with }

/-- Until the verification has returned, a worker makes its moves, and they
    touch the txpool checker alone. -/
theorem submitterMove_verify (s : MemoryStorage) {v : VerifyState}
    (hv : ∀ status tx, v ≠ .returned status tx) (txSubmitCallback : Option TxSubmitCallback) :
    s.submitterMove cfg (.verify v txSubmitCallback)
      = ({ s with
          txPoolNonceChecker :=
            (TxValidator.verifyMove cfg s.ledgerNonceChecker s.txPoolNonceChecker v).1 },
        .verify (TxValidator.verifyMove cfg s.ledgerNonceChecker s.txPoolNonceChecker v).2
          txSubmitCallback) := by
  cases v with
  | returned status tx => exact absurd rfl (hv status tx)
  | _ => rfl

theorem contribute_nothing (s : MemoryStorage) : s.contribute {} = s := by
  simp only [contribute, Option.elim_none, Bool.or_false, List.append_nil]

/-- A move adds its contribution. The report to the sealer is the one move that
    does more, and what it does is forgotten by the relation. -/
theorem submitterMove_rearranged (hcounted : s.sealedTxsSize ≤ s.size) (v : SubmitterState) :
    Rearranged (s.submitterMove cfg v).1 (s.contribute v.contribution) := by
  have hstays : Rearranged s (s.contribute {}) := by
    rw [s.contribute_nothing]
    exact Rearranged.refl hcounted
  -- An equation is enough, but for what is reported.
  have heq : ∀ {c}, (s.submitterMove cfg v).1 = s.contribute c →
      Rearranged (s.submitterMove cfg v).1 (s.contribute c) := by
    intro c hmove
    rw [hmove]
    exact Rearranged.refl (hcounted.trans (s.size_le_contribute c))
  -- Place by place. Most moves only look, and contribute nothing.
  cases v with
  | idle => exact hstays
  | checkExistsInGroup task =>
      rw [submitterMove]
      split
      · split
        · exact hstays
        · exact hstays
      · exact hstays
  | size tx txSubmitCallback =>
      rw [submitterMove]
      split
      · exact hstays
      · exact hstays
  | txpoolStorageCheck tx txSubmitCallback =>
      rw [submitterMove]
      split
      · exact hstays
      · exact hstays
  | verify v txSubmitCallback =>
      cases v with
      | insert tx =>
          refine heq ?_
          simp only [submitterMove, TxValidator.verifyMove, SubmitterState.contribution, contribute,
            Option.elim_some, Option.elim_none, Bool.or_false, List.append_nil]
      | returned status tx =>
          rw [submitterMove]
          split
          · exact hstays
          · exact hstays
      | _ =>
          refine heq ?_
          rw [s.submitterMove_verify cfg (fun _ _ => by simp only [ne_eq, reduceCtorEq,
            not_false_eq_true]), TxValidator.verifyMove_cache cfg _ _ (fun _ => by
            simp only [ne_eq, reduceCtorEq, not_false_eq_true])]
          exact s.contribute_nothing.symm
  | count tx txSubmitCallback =>
      rw [submitterMove]
      split
      · exact hstays
      · exact hstays
  | insert tx txSubmitCallback =>
      refine heq ?_
      simp only [submitterMove, SubmitterState.contribution, contribute, Option.elim_some,
        Option.elim_none, Bool.or_false, List.append_nil]
  | onReady tx txSubmitCallback =>
      refine heq ?_
      simp only [submitterMove, SubmitterState.contribution, contribute, Option.elim_none,
        Bool.or_true, List.append_nil]
  | notifyUnsealedTxsSize tx txSubmitCallback =>
      exact (notifyUnsealedTxsSize_rearranged cfg hcounted).trans hstays
  | eraseMissed tx result txSubmitCallback =>
      refine heq ?_
      simp only [submitterMove, SubmitterState.contribution, contribute, Option.elim_some,
        Option.elim_none, Bool.or_false, List.append_nil]
      split
      · rfl
      · rfl
  | notifyInvalidReceipt txHash status txSubmitCallback =>
      refine heq ?_
      cases txSubmitCallback with
      | none => exact s.contribute_nothing.symm
      | some callback =>
          simp only [submitterMove, notifyInvalidReceipt, SubmitterState.contribution, contribute,
            Option.elim_none, Bool.or_false, Option.map_some, Option.toList_some]

/-- What a worker does next depends on the ledger checker and on the answer. -/
theorem submitterMove_next (hledger : s.ledgerNonceChecker = s'.ledgerNonceChecker)
    {v : SubmitterState} (hanswer : v.answer cfg s = v.answer cfg s') :
    (s.submitterMove cfg v).2 = (s'.submitterMove cfg v).2 := by
  -- Place by place again: each branch is taken on the answer or on the ledger
  -- checker, and these are the same in both pools.
  cases v with
  | idle => rfl
  | checkExistsInGroup task =>
      rw [submitterMove, submitterMove]
      split
      · split
        · rfl
        · rfl
      · rfl
  | size tx txSubmitCallback =>
      rw [SubmitterState.answer, SubmitterState.answer, decide_eq_decide] at hanswer
      rw [submitterMove, submitterMove]
      by_cases hfull : s.size ≥ cfg.poolLimit
      · rw [if_pos hfull, if_pos (hanswer.mp hfull)]
      · rw [if_neg hfull, if_neg (fun hother => hfull (hanswer.mpr hother))]
  | txpoolStorageCheck tx txSubmitCallback =>
      rw [SubmitterState.answer, SubmitterState.answer] at hanswer
      rw [submitterMove, submitterMove, txpoolStorageCheck, txpoolStorageCheck, hanswer]
      split
      · rfl
      · rfl
  | verify v txSubmitCallback =>
      cases v with
      | returned status tx =>
          rw [submitterMove, submitterMove]
          split
          · rfl
          · rfl
      | count tx =>
          rw [SubmitterState.answer, SubmitterState.answer, decide_eq_decide] at hanswer
          simp only [submitterMove, TxValidator.verifyMove]
          by_cases hmem : tx.nonce ∈ s.txPoolNonceChecker.nonceCache
          · rw [if_pos hmem, if_pos (hanswer.mp hmem)]
          · rw [if_neg hmem, if_neg (fun hother => hmem (hanswer.mpr hother))]
      | submittedToChain tx =>
          -- This is the place that asks the ledger checker.
          simp only [submitterMove, TxValidator.verifyMove, hledger]
          split
          · rfl
          · rfl
      | checkTx tx =>
          simp only [submitterMove, TxValidator.verifyMove]
          split
          · rfl
          split
          · rfl
          split
          · rfl
          · rfl
      | insert tx => rfl
      | _ =>
          simp only [submitterMove, TxValidator.verifyMove]
          split
          · rfl
          · rfl
  | count tx txSubmitCallback =>
      rw [SubmitterState.answer, SubmitterState.answer] at hanswer
      rw [submitterMove, submitterMove, hanswer]
      split
      · rfl
      · rfl
  | insert tx txSubmitCallback => rfl
  | onReady tx txSubmitCallback => rfl
  | notifyUnsealedTxsSize tx txSubmitCallback => rfl
  | eraseMissed tx result txSubmitCallback =>
      rw [submitterMove, submitterMove]
      split
      · rfl
      · rfl
  | notifyInvalidReceipt txHash status txSubmitCallback => rfl

/-- A worker stays with its content. -/
theorem submitterMove_concerns (s : MemoryStorage) {content : Option TxData} {v : SubmitterState}
    (h : v.Concerns cfg content) : (s.submitterMove cfg v).2.Concerns cfg content := by
  -- The content is first decoded and from then on carried along; the last places
  -- have no use for it.
  cases v with
  | idle => trivial
  | checkExistsInGroup task =>
      rw [submitterMove]
      split
      · split
        · rename_i data hdecode
          exact h.symm.trans hdecode
        · trivial
      · trivial
  | size tx txSubmitCallback =>
      rw [submitterMove]
      split
      · trivial
      · -- The callback is put on the object here, and is no content.
        change content = some (withCallback tx txSubmitCallback).toTxData
        rw [withCallback_toTxData]
        exact h
  | txpoolStorageCheck tx txSubmitCallback =>
      rw [submitterMove]
      split
      · trivial
      · exact h
  | verify v txSubmitCallback =>
      cases v with
      | returned status tx =>
          rw [submitterMove]
          split
          · trivial
          · exact h
      | _ =>
          rw [s.submitterMove_verify cfg (fun _ _ => by simp only [ne_eq, reduceCtorEq,
            not_false_eq_true])]
          exact h.trans (congrArg some (TxValidator.verifyMove_tx cfg _ _ _).symm)
  | count tx txSubmitCallback =>
      rw [submitterMove]
      split
      · trivial
      · exact h
  | insert tx txSubmitCallback => trivial
  | onReady tx txSubmitCallback => trivial
  | notifyUnsealedTxsSize tx txSubmitCallback => trivial
  | eraseMissed tx result txSubmitCallback =>
      rw [submitterMove]
      split
      · trivial
      · trivial
  | notifyInvalidReceipt txHash status txSubmitCallback => trivial

theorem size_contribute_le (s : MemoryStorage) (v : SubmitterState) :
    (s.contribute v.contribution).size ≤ s.size + v.hoping := by
  unfold size contribute
  cases hentered : v.contribution.entered with
  | none => exact Nat.le_add_right _ _
  | some tx =>
      rw [SubmitterState.hoping_of_entered hentered]
      exact s.txsTable.size_put_le tx

/-- The answers do not depend on the order. -/
theorem answer_congr (h : Rearranged s s') (v : SubmitterState) :
    v.answer cfg s = v.answer cfg s' := by
  -- The size, the lookups and the nonces are the same in any order of the table.
  cases v with
  | size tx txSubmitCallback => rw [SubmitterState.answer, SubmitterState.answer, h.size]
  | txpoolStorageCheck tx txSubmitCallback => exact KeyedTable.contains_perm h.entries tx.hash
  | verify v txSubmitCallback =>
      cases v with
      | count tx => rw [SubmitterState.answer, SubmitterState.answer, h.txPoolNonceChecker]
      | _ => rfl
  | count tx txSubmitCallback => exact KeyedTable.contains_perm h.entries tx.hash
  | _ => rfl

/-- Pools that differ in their order are moved alike. -/
theorem submitterMove_congr (h : Rearranged s s') (v : SubmitterState) :
    Rearranged (s.submitterMove cfg v).1 (s'.submitterMove cfg v).1 ∧
      (s.submitterMove cfg v).2 = (s'.submitterMove cfg v).2 :=
  ⟨(submitterMove_rearranged cfg h.counted v).trans ((contribute_congr h v.contribution).trans
      (submitterMove_rearranged cfg h.symm.counted v).symm),
    submitterMove_next cfg h.ledgerNonceChecker (answer_congr cfg h v)⟩

/-- What is added of another content does not change an answer, as long as there
    is room. This is where the hypotheses on the transactions are needed. -/
theorem answer_contribute (s : MemoryStorage) {content content' : Option TxData}
    {v w : SubmitterState} (hv : v.Concerns cfg content) (hw : w.Concerns cfg content')
    (hne : Distinct content content') (hroom : s.size + (v.hoping + w.hoping) ≤ cfg.poolLimit) :
    w.answer cfg (s.contribute v.contribution) = w.answer cfg s := by
  -- A hash of the other content is as free as before.
  have hcontains : ∀ tx : Transaction, content' = some tx.toTxData →
      (s.contribute v.contribution).txsTable.contains tx.hash = s.txsTable.contains tx.hash := by
    intro tx htx
    rw [contribute]
    cases hentered : v.contribution.entered with
    | none => rfl
    | some tx' =>
        have hhash := (hne _ _ (hv.entered hentered) htx).1
        change (s.txsTable.put tx').contains tx.hash = _
        rw [KeyedTable.contains, KeyedTable.contains, s.txsTable.find?_put tx', if_neg hhash]
  cases w with
  | size tx txSubmitCallback =>
      -- There is room for both.
      have hbefore := s.size_le_contribute v.contribution
      have hafter := s.size_contribute_le v
      change s.size + (v.hoping + 1) ≤ cfg.poolLimit at hroom
      rw [SubmitterState.answer, SubmitterState.answer, decide_eq_decide]
      omega
  | txpoolStorageCheck tx txSubmitCallback => exact hcontains tx hw
  | verify w txSubmitCallback =>
      cases w with
      | count tx =>
          rw [SubmitterState.answer, SubmitterState.answer, decide_eq_decide, contribute]
          cases hreserved : v.contribution.reserved with
          | none => exact Iff.rfl
          | some nonce =>
              -- A nonce reserved by the other is not the one that is asked for.
              rcases hv.reserved hreserved with ⟨data, hdata, rfl⟩
              have hnonce := (hne data _ hdata hw).2
              exact (TxPoolNonceChecker.mem_insert _ _ _).trans
                (or_iff_right (Ne.symm hnonce))
      | _ => rfl
  | count tx txSubmitCallback => exact hcontains tx hw
  | _ => rfl

/-- A move after that of another worker. It adds what it would have added first,
    and goes on as it would have gone on. -/
theorem submitterMove_after (hcounted : s.sealedTxsSize ≤ s.size) {content content' : Option TxData}
    {v w : SubmitterState} (hv : v.Concerns cfg content) (hw : w.Concerns cfg content')
    (hne : Distinct content content') (hroom : s.size + (v.hoping + w.hoping) ≤ cfg.poolLimit) :
    Rearranged ((s.submitterMove cfg v).1.submitterMove cfg w).1
        ((s.contribute v.contribution).contribute w.contribution) ∧
      ((s.submitterMove cfg v).1.submitterMove cfg w).2 = (s.submitterMove cfg w).2 := by
  -- The first move is a contribution, and the second does not see it.
  have hfirst := submitterMove_rearranged cfg hcounted v
  have hsecond := submitterMove_congr cfg hfirst w
  refine ⟨hsecond.1.trans (submitterMove_rearranged cfg hfirst.symm.counted w),
    hsecond.2.trans ?_⟩
  have hanswer := answer_contribute cfg s hv hw hne hroom
  have hnext := submitterMove_next cfg (show (s.contribute v.contribution).ledgerNonceChecker
    = s.ledgerNonceChecker from rfl) hanswer
  exact hnext

end MemoryStorage

/-! ### A worker alone -/

/-- The moves that a verification may still make. -/
def VerifyState.movesLeft : VerifyState → Nat
  | .checkTx _ => 6
  | .submittedToChain _ => 5
  | .verify _ => 4
  | .count _ => 3
  | .insert _ => 2
  | .setSystemTx _ => 1
  | .returned _ _ => 0

/-- The moves that a worker may still make, counted along the longest way to its
    end. -/
def SubmitterState.movesLeft : SubmitterState → Nat
  | .checkExistsInGroup _ => 15
  | .size _ _ => 14
  | .txpoolStorageCheck _ _ => 13
  | .verify v _ => 6 + v.movesLeft
  | .count _ _ => 5
  | .insert _ _ => 4
  | .onReady _ _ => 3
  | .notifyUnsealedTxsSize _ _ => 2
  | .eraseMissed _ result _ => if result = .none then 1 else 2
  | .notifyInvalidReceipt _ _ _ => 1
  | .idle => 0

/-- A worker with no move left is idle. -/
theorem SubmitterState.eq_idle {v : SubmitterState} (h : v.movesLeft = 0) : v = .idle := by
  cases v with
  | idle => rfl
  | verify v txSubmitCallback =>
      rw [movesLeft] at h
      omega
  | eraseMissed tx result txSubmitCallback =>
      rw [movesLeft] at h
      split at h
      · cases h
      · cases h
  | _ => cases h

namespace MemoryStorage

theorem verifyMove_movesLeft (cfg : TxPoolConfig) (ledger : LedgerNonceChecker)
    (pool : TxPoolNonceChecker) (v : VerifyState) :
    (TxValidator.verifyMove cfg ledger pool v).2.movesLeft ≤ v.movesLeft - 1 := by
  cases v with
  | checkTx tx =>
      rw [TxValidator.verifyMove]
      split
      · exact Nat.zero_le _
      split
      · exact Nat.zero_le _
      split
      · exact Nat.zero_le _
      · exact Nat.le_refl _
  | insert tx => exact Nat.le_refl _
  | returned status tx => exact Nat.le_refl _
  | setSystemTx tx =>
      rw [TxValidator.verifyMove_setSystemTx]
      exact Nat.le_refl _
  | _ =>
      rw [TxValidator.verifyMove]
      split
      · exact Nat.zero_le _
      · exact Nat.le_refl _

/-- Every move leaves a worker with fewer. -/
theorem submitterMove_movesLeft (cfg : TxPoolConfig) (s : MemoryStorage) (v : SubmitterState) :
    (s.submitterMove cfg v).2.movesLeft ≤ v.movesLeft - 1 := by
  -- Place by place: a rejection skips places, and otherwise one move is one less.
  cases v with
  | idle => exact Nat.le_refl _
  | checkExistsInGroup task =>
      rw [submitterMove]
      split
      · split
        · exact Nat.le_refl _
        · exact Nat.le_add_left 1 13
      · exact Nat.le_add_left 1 13
  | size tx txSubmitCallback =>
      rw [submitterMove]
      split
      · exact Nat.le_add_left 1 12
      · exact Nat.le_refl _
  | txpoolStorageCheck tx txSubmitCallback =>
      rw [submitterMove]
      split
      · exact Nat.le_add_left 1 11
      · exact Nat.le_refl _
  | verify v txSubmitCallback =>
      by_cases hv : ∃ status tx, v = .returned status tx
      · rcases hv with ⟨status, tx, rfl⟩
        rw [submitterMove]
        split
        · exact Nat.le_add_left 1 4
        · exact Nat.le_refl _
      · rw [submitterMove_verify cfg s (fun status tx heq => hv ⟨status, tx, heq⟩)]
        -- Inside the verification its own moves are counted.
        have hverify := verifyMove_movesLeft cfg s.ledgerNonceChecker s.txPoolNonceChecker v
        have hsome : v.movesLeft ≠ 0 := by
          cases v with
          | returned status tx => exact absurd ⟨status, tx, rfl⟩ hv
          | _ => exact Nat.succ_ne_zero _
        change 6 + _ ≤ 6 + _ - 1
        omega
  | count tx txSubmitCallback =>
      rw [submitterMove]
      split
      · exact Nat.le_add_left 2 2
      · exact Nat.le_refl _
  | insert tx txSubmitCallback => exact Nat.le_refl _
  | onReady tx txSubmitCallback => exact Nat.le_refl _
  | notifyUnsealedTxsSize tx txSubmitCallback => exact Nat.le_refl _
  | eraseMissed tx result txSubmitCallback =>
      rw [submitterMove]
      by_cases hresult : result = .none
      · -- An accepted submission has nobody to answer, a rejected one has a move
        -- left.
        rw [if_neg (not_not.mpr hresult)]
        exact Nat.zero_le _
      · rw [if_pos hresult]
        change 1 ≤ (if result = .none then 1 else 2) - 1
        rw [if_neg hresult]
  | notifyInvalidReceipt txHash status txSubmitCallback => exact Nat.le_refl _

variable (cfg : TxPoolConfig)

/-- A worker that moves alone, which is to be compared with the operation. -/
def submitterAlone (p : MemoryStorage × SubmitterState) : MemoryStorage × SubmitterState :=
  submitterMove cfg p.1 p.2

theorem verify_leads (txSubmitCallback : Option TxSubmitCallback) (n : Nat) :
    ∀ (s : MemoryStorage) (v : VerifyState),
      Leads (submitterAlone cfg) (s, .verify v txSubmitCallback)
        ({ s with
            txPoolNonceChecker := ((fun p => TxValidator.verifyMove cfg s.ledgerNonceChecker p.1
              p.2)^[n] (s.txPoolNonceChecker, v)).1 },
          .verify ((fun p => TxValidator.verifyMove cfg s.ledgerNonceChecker p.1
            p.2)^[n] (s.txPoolNonceChecker, v)).2 txSubmitCallback) := by
  induction n with
  | zero => exact fun s v => Leads.refl _
  | succ n ih =>
      intro s v
      -- A verification that has returned stays where it is, and any other makes a
      -- move.
      rw [Function.iterate_succ_apply]
      by_cases hv : ∃ status tx, v = .returned status tx
      · rcases hv with ⟨status, tx, rfl⟩
        exact ih s (.returned status tx)
      · refine Leads.step ?_
        rw [submitterAlone, submitterMove_verify cfg s (fun status tx heq => hv ⟨status, tx, heq⟩)]
        exact ih _ _

/-- The insertion alone is the call. The moves of the callback and the report
    come right after that of the entry. -/
theorem insert_leads (s : MemoryStorage) (tx : Transaction)
    (txSubmitCallback : Option TxSubmitCallback) :
    Leads (submitterAlone cfg) (s, .count tx txSubmitCallback)
      ((s.insert cfg tx).1, .eraseMissed tx (s.insert cfg tx).2 txSubmitCallback) := by
  refine Leads.step ?_
  rw [submitterAlone, submitterMove, insert]
  by_cases htaken : s.txsTable.contains tx.hash = true
  · rw [if_pos htaken, if_pos htaken]
    exact Leads.refl _
  · -- The hash is still free, so nothing is written over.
    have hput := s.txsTable.put_of_find?_none
      ((s.txsTable.contains_eq_false_iff tx.hash).mp (Bool.eq_false_iff.mpr htaken))
    rw [if_neg htaken, if_neg htaken, ← hput]
    exact Leads.step (Leads.step (Leads.step (Leads.refl _)))

/-- The end of a submission: a rejection is answered, an insertion is not. -/
def replied (txHash : HashType) (txSubmitCallback : Option TxSubmitCallback)
    (p : MemoryStorage × TransactionStatus) : MemoryStorage :=
  if p.2 ≠ .none then p.1.notifyInvalidReceipt txHash p.2 txSubmitCallback else p.1

theorem submitTransactionData_fst (s : MemoryStorage) {txData : Bytes} {data : TxData}
    (hdecode : cfg.framework.decodeTransaction txData = some data)
    (txSubmitCallback : Option TxSubmitCallback) :
    (s.submitTransactionData cfg txData txSubmitCallback).1
      = replied data.hash txSubmitCallback
          (s.verifyAndSubmitTransaction cfg (createTransaction data) txSubmitCallback) := by
  have hsubmit : s.submitTransaction cfg (createTransaction data) txSubmitCallback false
      = s.verifyAndSubmitTransaction cfg (createTransaction data) txSubmitCallback := rfl
  simp only [submitTransactionData, hdecode, hsubmit, replied]
  split
  · rfl
  · rfl

/-- A rejected submission answers its client. -/
theorem rejected_leads (s : MemoryStorage) {txHash : HashType} {status : TransactionStatus}
    (hstatus : status ≠ .none) (txSubmitCallback : Option TxSubmitCallback) :
    Leads (submitterAlone cfg) (s, .notifyInvalidReceipt txHash status txSubmitCallback)
      (replied txHash txSubmitCallback (s, status), .idle) := by
  rw [replied, if_pos hstatus]
  exact Leads.step (Leads.refl _)

/-- The insertion decides about the answer. -/
theorem insertAndAnswer_leads (s : MemoryStorage) (tx : Transaction)
    (txSubmitCallback : Option TxSubmitCallback) :
    Leads (submitterAlone cfg) (s, .count tx txSubmitCallback)
      (replied tx.hash txSubmitCallback
        ((s.insert cfg tx).1.eraseMissed tx.hash, (s.insert cfg tx).2), .idle) := by
  refine (insert_leads cfg s tx txSubmitCallback).trans (Leads.step ?_)
  rcases s.insert cfg tx with ⟨t, result⟩
  simp only [submitterAlone, submitterMove]
  by_cases hresult : result ≠ .none
  · rw [if_pos hresult]
    exact rejected_leads cfg _ hresult txSubmitCallback
  · rw [if_neg hresult, replied, if_neg hresult]
    exact Leads.refl _

theorem verifyAndSubmit_leads (s : MemoryStorage) (tx : Transaction)
    (txSubmitCallback : Option TxSubmitCallback) :
    Leads (submitterAlone cfg) (s, .size tx txSubmitCallback)
      (replied tx.hash txSubmitCallback (s.verifyAndSubmitTransaction cfg tx txSubmitCallback),
        .idle) := by
  have hdata := withCallback_toTxData tx txSubmitCallback
  refine Leads.step ?_
  rw [submitterAlone, submitterMove, verifyAndSubmitTransaction]
  -- The checks are made on the object with its callback; only its content matters.
  generalize withCallback tx txSubmitCallback = own at hdata
  have hhash : own.hash = tx.hash := congrArg TxData.hash hdata
  by_cases hfull : s.size ≥ cfg.poolLimit
  · rw [if_pos hfull, if_pos hfull]
    exact rejected_leads cfg s (by decide) txSubmitCallback
  rw [if_neg hfull, if_neg hfull]
  refine Leads.step ?_
  rw [submitterAlone, submitterMove]
  simp only
  by_cases hexist : s.txpoolStorageCheck own ≠ .none
  · rw [if_pos hexist, if_pos hexist, hhash]
    exact rejected_leads cfg s hexist txSubmitCallback
  rw [if_neg hexist, if_neg hexist]
  -- Six moves take a verification alone to its end, with the result of the call.
  refine (verify_leads cfg txSubmitCallback 6 s (.checkTx own)).trans ?_
  rw [TxValidator.iterate_verifyMove]
  refine Leads.step ?_
  rw [submitterAlone, submitterMove]
  rcases TxValidator.verify_cases cfg s.ledgerNonceChecker s.txPoolNonceChecker own with
    ⟨_, status, hstatus, heq⟩ | ⟨_, heq⟩
  · simp only [heq]
    -- Rejected: the status goes to the client under the hash of the transaction.
    rw [if_pos hstatus, hhash]
    cases status with
    | none => exact absurd rfl hstatus
    | _ => exact rejected_leads cfg s hstatus txSubmitCallback
  · -- It is inserted, and the insertion decides.
    simp only [heq, ne_eq, not_true_eq_false, if_false]
    have hown : (TxValidator.marked cfg.framework own).hash = tx.hash :=
      (congrArg TxData.hash (TxValidator.marked_toTxData cfg.framework own)).trans hhash
    have hleads := insertAndAnswer_leads cfg
      { s with txPoolNonceChecker := s.txPoolNonceChecker.insert own.nonce }
      (TxValidator.marked cfg.framework own) txSubmitCallback
    rw [hown] at hleads ⊢
    exact hleads

/-- Left alone, the moves of a worker make the operation. So the program models
    the call and not something else. -/
theorem submit_leads (s : MemoryStorage) (task : SubmitTask) :
    Leads (submitterAlone cfg) (s, .checkExistsInGroup task)
      (TxPool.step cfg s task.op, .idle) := by
  refine Leads.step ?_
  rw [submitterAlone, submitterMove, SubmitTask.op, TxPool.step, TxPool.asyncSubmit,
    TxPool.checkExistsInGroup]
  by_cases hgroup : (task.txSubmitCallback.isNone || task.existsInGroup) = true
  · rw [if_pos hgroup, if_pos hgroup]
    simp only
    cases hdecode : cfg.framework.decodeTransaction task.txData with
    | some data =>
        rw [submitTransactionData_fst cfg s hdecode]
        exact verifyAndSubmit_leads cfg s (createTransaction data) task.txSubmitCallback
    | none =>
        rw [submitTransactionData, hdecode]
        exact Leads.step (Leads.refl _)
  · rw [if_neg hgroup, if_neg hgroup]
    exact Leads.step (Leads.refl _)

/-- Enough moves of a worker alone make the operation. -/
theorem iterate_submitterMove (s : MemoryStorage) (task : SubmitTask) {n : Nat} (hn : 15 ≤ n) :
    ((fun p => submitterMove cfg p.1 p.2)^[n] (s, .checkExistsInGroup task)).1
      = TxPool.step cfg s task.op := by
  rcases submit_leads cfg s task with ⟨m, hm⟩
  -- After so many moves none is left, so the worker is idle, and there is only one
  -- end that it can have come to.
  have hleft : ∀ (k : Nat) (p : MemoryStorage × SubmitterState),
      ((fun p => submitterMove cfg p.1 p.2)^[k] p).2.movesLeft ≤ p.2.movesLeft - k := by
    intro k
    induction k with
    | zero => exact fun p => Nat.le_refl _
    | succ k ih =>
        intro p
        have hmove := submitterMove_movesLeft cfg p.1 p.2
        have hrest := ih (submitterMove cfg p.1 p.2)
        rw [Function.iterate_succ_apply]
        omega
  have hidle := SubmitterState.eq_idle (Nat.le_zero.mp
    ((hleft n (s, .checkExistsInGroup task)).trans
      (Nat.le_zero.mpr (Nat.sub_eq_zero_of_le hn))))
  generalize hq : (fun p => submitterMove cfg p.1 p.2)^[n] (s, .checkExistsInGroup task) = q
    at hidle
  rcases q with ⟨t, v⟩
  simp only at hidle
  subst hidle
  have hend := Leads.end_unique ⟨n, hq⟩ rfl ⟨m, hm⟩ rfl
  exact congrArg Prod.fst hend

end MemoryStorage

/-! ### Order does not matter -/

section Workers

variable {ι : Type} [Fintype ι] [DecidableEq ι] (cfg : TxPoolConfig)

/-- Workers with their contents, and room for what they may still insert. The
    contents are fixed, so that they may be compared all along a run. -/
structure Independent (contents : ι → Option TxData) (t : Submitters ι) : Prop where
  concerns : ∀ i, (t.own i).Concerns cfg (contents i)
  room : t.shared.size + ∑ i, (t.own i).hoping ≤ cfg.poolLimit
  counted : t.shared.sealedTxsSize ≤ t.shared.size

variable {cfg} {contents : ι → Option TxData}

theorem Independent.step {t : Submitters ι} (h : Independent cfg contents t) (i : ι) :
    Independent cfg contents (t.move (fun _ => MemoryStorage.submitterMove cfg) i) where
  concerns j := by
    by_cases hij : j = i
    · rw [hij, Threads.move_own_self]
      exact t.shared.submitterMove_concerns cfg (h.concerns i)
    · rw [Threads.move_own_of_ne _ t hij]
      exact h.concerns j
  room := by
    -- An entry more is a hope less, so the sum does not grow.
    have hsum := Threads.sum_update (fun _ => SubmitterState.hoping) t.own i
      (t.shared.submitterMove cfg (t.own i)).2
    have hmove := t.shared.submitterMove_hoping cfg (t.own i)
    have hroom := h.room
    change (t.shared.submitterMove cfg (t.own i)).1.size + ∑ j, (Function.update t.own i
      (t.shared.submitterMove cfg (t.own i)).2 j).hoping ≤ _
    omega
  counted := (MemoryStorage.submitterMove_rearranged cfg h.counted (t.own i)).counted

/-- Moves of workers with different contents commute. -/
theorem submitters_commute
    (hdistinct : ∀ i j, i ≠ j → Distinct (contents i) (contents j)) :
    Threads.Commutes (fun _ : ι => MemoryStorage.submitterMove cfg) MemoryStorage.Rearranged
      (Independent cfg contents) where
  trans := MemoryStorage.Rearranged.trans
  refl h := MemoryStorage.Rearranged.refl h.counted
  step i h := h.step i
  congr _ v h := MemoryStorage.submitterMove_congr cfg h v
  swap := by
    intro t i j h hij
    -- There is room for the two of them, whoever moves first.
    have hroom : t.shared.size + ((t.own i).hoping + (t.own j).hoping) ≤ cfg.poolLimit :=
      (Nat.add_le_add_left (Finset.add_le_sum (fun k _ => Nat.zero_le (t.own k).hoping)
        (Finset.mem_univ i) (Finset.mem_univ j) hij) _).trans h.room
    have hroom' : t.shared.size + ((t.own j).hoping + (t.own i).hoping) ≤ cfg.poolLimit := by
      rw [Nat.add_comm (t.own j).hoping]
      exact hroom
    rcases MemoryStorage.submitterMove_after cfg h.counted (h.concerns i) (h.concerns j)
      (hdistinct i j hij) hroom with ⟨hshared, hnext⟩
    rcases MemoryStorage.submitterMove_after cfg h.counted (h.concerns j) (h.concerns i)
      (hdistinct j i (Ne.symm hij)) hroom' with ⟨hshared', hnext'⟩
    have hcomm := MemoryStorage.contribute_comm h.counted (t.own i).contribution
      (t.own j).contribution (fun tx htx tx' htx' =>
        (hdistinct i j hij _ _ ((h.concerns i).entered htx) ((h.concerns j).entered htx')).1)
    refine ⟨?_, ?_⟩
    · rw [Threads.move_move_shared t (Ne.symm hij), Threads.move_move_shared t hij]
      exact hshared.trans (hcomm.trans hshared'.symm)
    · -- Either makes the move that it would have made first.
      rw [Threads.move_move_own t (Ne.symm hij), Threads.move_move_own t hij, hnext, hnext']
      exact Function.update_comm hij _ _ t.own

omit [DecidableEq ι] in
/-- Workers that have each taken a task of their own content. -/
theorem independent_start {s : MemoryStorage} (hcounted : s.sealedTxsSize ≤ s.size)
    (hroom : s.size + Fintype.card ι ≤ cfg.poolLimit) (tasks : ι → SubmitTask) :
    Independent cfg (fun i => cfg.framework.decodeTransaction (tasks i).txData)
      (submittersStart s tasks) where
  concerns _ := rfl
  room := by
    -- Each worker inserts one transaction at most.
    have hcard := Threads.sum_le_card (fun _ : ι => SubmitterState.hoping)
      (fun _ => SubmitterState.hoping_le_one) (submittersStart s tasks).own
    exact (Nat.add_le_add_left hcard s.size).trans hroom
  counted := hcounted

omit [Fintype ι] in
/-- After fifteen moves a worker is idle, whatever the others did. -/
theorem idle_of_count {schedule : List ι} {i : ι} (hcount : 15 ≤ schedule.count i)
    (s : MemoryStorage) (tasks : ι → SubmitTask) :
    (run (Threads.move (fun _ => MemoryStorage.submitterMove cfg)) (submittersStart s tasks)
      schedule).own i = .idle := by
  -- Its share of the schedule is as long as its program.
  have hleft := Threads.measure_run_le (fun _ => MemoryStorage.submitterMove cfg) i
    SubmitterState.movesLeft (MemoryStorage.submitterMove_movesLeft cfg) schedule
    (submittersStart s tasks)
  refine SubmitterState.eq_idle (Nat.le_zero.mp (hleft.trans ?_))
  change 15 - _ ≤ 0
  omega

/-- Submissions on different workers, of transactions that share no hash and no
    nonce, while there is room for all of them. However the workers take turns,
    once they are idle the pool is what it would be after the same operations
    one after the other, in any order. -/
theorem submissions_serial {s : MemoryStorage} (hcounted : s.sealedTxsSize ≤ s.size)
    (hroom : s.size + Fintype.card ι ≤ cfg.poolLimit) (tasks : ι → SubmitTask)
    (hdistinct : ∀ i j, i ≠ j → Distinct (cfg.framework.decodeTransaction (tasks i).txData)
      (cfg.framework.decodeTransaction (tasks j).txData))
    {schedule order : List ι} (hidle : ∀ i, (run (Threads.move
      (fun _ => MemoryStorage.submitterMove cfg)) (submittersStart s tasks) schedule).own i = .idle)
    (horder : order.Nodup) (hall : ∀ i, i ∈ order) :
    MemoryStorage.Rearranged
      (run (Threads.move (fun _ => MemoryStorage.submitterMove cfg)) (submittersStart s tasks)
        schedule).shared
      (run (TxPool.step cfg) s (order.map (fun i => (tasks i).op))) := by
  have hturns : run (TxPool.step cfg) s (order.map (fun i => (tasks i).op))
      = order.foldl (fun s i => TxPool.step cfg s (tasks i).op) s := List.foldl_map
  have hmoves : ∀ i, schedule.count i ≤ schedule.length + 15 :=
    fun i => List.count_le_length.trans (Nat.le_add_right _ _)
  rw [hturns]
  exact Threads.run_serial (submitters_commute hdistinct) (independent_start hcounted hroom tasks)
    horder hall (fun i => by rw [hidle i]; rfl) hmoves
    (fun i s => MemoryStorage.iterate_submitterMove cfg s (tasks i) (Nat.le_add_left _ _))

end Workers

/-- The same pool for two transactions. -/
def roomyConfig : TxPoolConfig := { crowdedConfig with poolLimit := 2 }

/-- Two clients, of whom one waits for an answer. -/
def twoTasks : Bool → SubmitTask
  | false => ⟨true, [1], none⟩
  | true => ⟨true, [2], some 7⟩

theorem twoTasks_distinct (i j : Bool) (hij : i ≠ j) :
    Distinct (roomyConfig.framework.decodeTransaction (twoTasks i).txData)
      (roomyConfig.framework.decodeTransaction (twoTasks j).txData) := by
  rintro data data' hdata hdata'
  cases hdata
  cases hdata'
  revert i j
  decide

theorem submissions_serial_twoTasks :
    MemoryStorage.Rearranged
      (run (Threads.move (fun _ => MemoryStorage.submitterMove roomyConfig))
        (submittersStart TxPool.examplePool twoTasks)
        (List.replicate 15 [false, true]).flatten).shared
      (run (TxPool.step roomyConfig) TxPool.examplePool
        ([true, false].map (fun i => (twoTasks i).op))) :=
  submissions_serial (by decide) (by decide) twoTasks twoTasks_distinct
    (fun i => idle_of_count (by cases i with | _ => decide) TxPool.examplePool twoTasks)
    (by decide) (by decide)

end BcosTxPool
