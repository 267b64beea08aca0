import BcosTxPool.Theory.Calls

/-!
# What Each Call Leaves Alone

What a call does to the contents of the table, to the two nonce checkers and
to the sets of the cleanup, call by call.

Most calls touch none of these: they set flags. `SameUpTo` says so, with a
projection that shows the part of an entry that is left alone, and it is read
off from the writes. Four calls do touch them. A submission brings its
transaction in under the conditions of `Admits` and changes flags at most
otherwise. A block result removes what it names, and it takes its nonces out
of the txpool checker as it records them in the ledger's. A cleanup removes
the invalid transactions and releases the invalid nonces, all in one call and
each by its own list. A seal sets aside, which is the matter of its own
module.

## Main definitions

* `SameEntries`, `SameUpTo`: Same caches, and same entries as far as a
  projection shows.
* `Fixed`: A projection that shows none of the flags.
* `QuietCall`, `MarkCall`: The calls that set flags.
* `GossipCall`: The calls that spread transactions.
* `Admits`: When a submission brings its transaction in.
* `entering`: The entry it makes.

## Theorems

* `step_quiet`, `step_flags`: What the calls that set flags leave alone.
* `step_gossip`: The rule for calls of gossip.
* `submitTransaction_of_admits`, `submitTransaction_of_not_admits`: The two
  outcomes of a submission.
* `find?_batchRemove`, `batchRemove_txPoolNonceChecker`: A block result.
* `find?_removeInvalidTxs`, `mem_removeInvalidTxs_txPool`: A cleanup.
-/

namespace BcosTxPool

open Library

/-- A write that leaves alone what a projection shows of an entry, and all
    caches. Entries that come or go are seen by every projection, so those
    writes keep none. -/
def Write.Keeps {α : Type} (π : Transaction → α) : Write → Prop
  | .notify => True
  | .clamp => True
  | .aside _ _ _ => True
  | .change _ c => ∀ tx, π (c.apply tx) = π tx
  | .markAll sealFlag => ∀ tx, π (MemoryStorage.markAny sealFlag tx) = π tx
  | _ => False

namespace MemoryStorage

/-! ### Same up to flags -/

/-- The two states have the same nonce checkers, and the same entries as far as
    the projection shows. -/
structure SameEntries {α : Type} (π : Transaction → α) (s s' : MemoryStorage) : Prop where
  entries : ∀ txHash, (s'.txsTable.find? txHash).map π = (s.txsTable.find? txHash).map π
  txPool : s'.txPoolNonceChecker = s.txPoolNonceChecker
  ledger : s'.ledgerNonceChecker = s.ledgerNonceChecker

/-- They also have the same sets of the cleanup. This is what the calls below
    keep, and it may be used for one of its fields alone. -/
structure SameUpTo {α : Type} (π : Transaction → α) (s s' : MemoryStorage) : Prop extends
    SameEntries π s s' where
  invalidTxs : s'.invalidTxs = s.invalidTxs
  invalidNonces : s'.invalidNonces = s.invalidNonces

variable {α : Type} {π : Transaction → α} {s s' s'' : MemoryStorage}

theorem SameEntries.refl (π : Transaction → α) (s : MemoryStorage) : SameEntries π s s :=
  ⟨fun _ => rfl, rfl, rfl⟩

theorem SameEntries.trans (h : SameEntries π s s') (h' : SameEntries π s' s'') :
    SameEntries π s s'' where
  entries := fun txHash => (h'.entries txHash).trans (h.entries txHash)
  txPool := h'.txPool.trans h.txPool
  ledger := h'.ledger.trans h.ledger

theorem SameUpTo.refl (π : Transaction → α) (s : MemoryStorage) : SameUpTo π s s :=
  ⟨SameEntries.refl π s, rfl, rfl⟩

theorem SameUpTo.trans (h : SameUpTo π s s') (h' : SameUpTo π s' s'') : SameUpTo π s s'' where
  toSameEntries := h.toSameEntries.trans h'.toSameEntries
  invalidTxs := h'.invalidTxs.trans h.invalidTxs
  invalidNonces := h'.invalidNonces.trans h.invalidNonces

/-- An entry after was there before, the same as far as the projection shows.
    With this a fact about old entries carries over to new ones. -/
theorem SameEntries.before (h : SameEntries π s s') {txHash : HashType} {tx : Transaction}
    (hfind : s'.txsTable.find? txHash = some tx) :
    ∃ old, s.txsTable.find? txHash = some old ∧ π old = π tx := by
  have hsame := h.entries txHash
  rw [hfind, Option.map_some, eq_comm] at hsame
  exact Option.map_eq_some_iff.mp hsame

/-- An entry before is there after, again as far as the projection shows:
    nothing has left the table. -/
theorem SameEntries.after (h : SameEntries π s s') {txHash : HashType} {tx : Transaction}
    (hfind : s.txsTable.find? txHash = some tx) :
    ∃ new, s'.txsTable.find? txHash = some new ∧ π new = π tx := by
  have hsame := h.entries txHash
  rw [hfind, Option.map_some] at hsame
  exact Option.map_eq_some_iff.mp hsame

theorem SameEntries.find?_eq_none_iff (h : SameEntries π s s') (txHash : HashType) :
    s'.txsTable.find? txHash = none ↔ s.txsTable.find? txHash = none := by
  rw [← Option.map_eq_none_iff (f := π), h.entries, Option.map_eq_none_iff]

variable (cfg : TxPoolConfig)

theorem notifyUnsealedTxsSize_sameUpTo (π : Transaction → α) (s : MemoryStorage) :
    SameUpTo π s (s.notifyUnsealedTxsSize cfg) := by
  rcases s.notifyUnsealedTxsSize_eq cfg with ⟨n, rs, h, _⟩
  rw [h]
  exact ⟨⟨fun _ => rfl, rfl, rfl⟩, rfl, rfl⟩

theorem write_sameUpTo (s : MemoryStorage) {w : Write} (hw : w.Keeps π) :
    SameUpTo π s (write cfg s w) := by
  -- First the entries, for all writes at once: a lookup after a write is that
  -- before it, changed at most by the write itself.
  have hentries : ∀ txHash, ((write cfg s w).txsTable.find? txHash).map π
      = (s.txsTable.find? txHash).map π := by
    intro txHash
    rw [find?_write]
    cases w with
    | change changed c =>
        simp only [entryAfter]
        split
        · rw [Option.map_map]
          exact Option.map_congr (fun tx _ => hw tx)
        · rfl
    | markAll sealFlag =>
        rw [entryAfter, Option.map_map]
        exact Option.map_congr (fun tx _ => hw tx)
    | enter tx => exact hw.elim
    | leave txHash => exact hw.elim
    | _ => rfl
  -- The caches: the writes that keep the projection touch none of them.
  cases w with
  | notify => exact notifyUnsealedTxsSize_sameUpTo cfg π s
  | clamp =>
      rcases s.unSealedTxsSizeWithoutLock_eq with ⟨n, heq, _⟩
      simp only [write, unSealedTxsSize, heq]
      exact ⟨⟨fun _ => rfl, rfl, rfl⟩, rfl, rfl⟩
  | aside missedTxs blockNumber receipts => exact ⟨⟨hentries, rfl, rfl⟩, rfl, rfl⟩
  | change txHash c => exact ⟨⟨hentries, rfl, rfl⟩, rfl, rfl⟩
  | markAll sealFlag => exact ⟨⟨hentries, rfl, rfl⟩, rfl, rfl⟩
  | _ => exact hw.elim

theorem sameUpTo_of_reaches (h : Reaches (write cfg) (fun _ w => w.Keeps π) s s') :
    SameUpTo π s s' :=
  -- The invariant compares with the state at the start, write by write.
  h.invariant (SameUpTo π s) (fun t _ hw ht => ht.trans (write_sameUpTo cfg t hw))
    (SameUpTo.refl π s)

/-- A projection that shows nothing of what the changes of flags and the marks
    touch. -/
structure Fixed (π : Transaction → α) : Prop where
  change : ∀ (c : Change) tx, π (c.apply tx) = π tx
  mark : ∀ sealFlag tx, π (markAny sealFlag tx) = π tx

theorem fixed_toTxData : Fixed (fun tx => tx.toTxData) where
  change := fun c tx => c.apply_toTxData tx
  mark := by
    -- A mark sets flags, whichever way it goes.
    intro sealFlag tx
    cases sealFlag with
    | true => rfl
    | false => rfl

/-- The calls that make quiet writes only. They set neither a seal nor a mark of
    the cleanup. -/
def QuietCall : Op → Prop
  | .notifyInvalidReceipt _ _ _ => True
  | .filterUnknownTxs _ _ => True
  | .fetchNewTxs _ _ => True
  | .appendKnownNode _ _ => True
  | _ => False

/-- The calls that set seal flags from outside: for some hashes or for all
    entries. -/
def MarkCall : Op → Prop
  | .batchMarkTxs _ _ _ _ => True
  | .batchMarkAllTxs _ => True
  | _ => False

/-- A quiet call leaves alone what quiet changes leave alone. The projection may
    show seals and system flags, which no quiet change touches. -/
theorem step_quiet (π : Transaction → α) (hπ : ∀ c : Change, c.Quiet → ∀ tx, π (c.apply tx) = π tx)
    (s : MemoryStorage) {call : Op} (hcall : QuietCall call) : SameUpTo π s (step cfg s call) := by
  -- A quiet write is a change that the projection does not show, or it touches no
  -- entry at all.
  have hquiet : ∀ (t : MemoryStorage) (w : Write), w.Quiet → w.Keeps π := by
    intro _ w hw
    cases w with
    | change txHash c => exact hπ c hw
    | notify => trivial
    | clamp => trivial
    | aside missedTxs blockNumber receipts => trivial
    | _ => exact hw.elim
  refine sameUpTo_of_reaches cfg ?_
  cases call with
  | notifyInvalidReceipt txHash status txSubmitCallback =>
      exact notifyInvalidReceipt_reaches cfg hquiet s txHash status txSubmitCallback
  | filterUnknownTxs txsHashList peer =>
      exact filterUnknownTxs_reaches cfg hquiet s txsHashList peer
  | fetchNewTxs order txsLimit => exact fetchNewTxs_reaches cfg hquiet txsLimit order s []
  | appendKnownNode txHash node => exact appendKnownNode_reaches cfg hquiet s txHash node
  | _ => exact hcall.elim

/-- A mark leaves alone what no change of a flag touches: contents, callbacks
    and caches. -/
theorem step_mark {π : Transaction → α} (hπ : Fixed π) (s : MemoryStorage) {call : Op}
    (hcall : MarkCall call) : SameUpTo π s (step cfg s call) := by
  refine sameUpTo_of_reaches cfg ?_
  cases call with
  | batchMarkTxs txsHashList batchId batchHash sealFlag =>
      exact batchMarkTxs_reaches cfg s txsHashList batchId batchHash sealFlag
        (fun _ _ _ _ _ _ => hπ.change _)
  | batchMarkAllTxs sealFlag =>
      -- This call writes to all entries at once, and reports to the sealer.
      refine batchMarkAllTxs_reaches cfg (fun _ w hw => ?_) s sealFlag (hπ.mark sealFlag)
      cases w with
      | change txHash c => exact hπ.change c
      | notify => trivial
      | clamp => trivial
      | aside missedTxs blockNumber receipts => trivial
      | _ => exact hw.elim
  | _ => exact hcall.elim

/-- A call that sets flags leaves alone what no change of a flag touches. -/
theorem step_flags {π : Transaction → α} (hπ : Fixed π) (s : MemoryStorage) {call : Op}
    (hcall : QuietCall call ∨ MarkCall call) : SameUpTo π s (step cfg s call) := by
  rcases hcall with hquiet | hmark
  · exact step_quiet cfg π (fun c _ tx => hπ.change c tx) s hquiet
  · exact step_mark cfg hπ s hmark

/-- The calls that spread transactions and tell what peers know. -/
def GossipCall : Op → Prop
  | .filterUnknownTxs _ _ => True
  | .fetchNewTxs _ _ => True
  | .appendKnownNode _ _ => True
  | _ => False

/-- What a known node, a synced mark and the missed hashes leave alone, a call of
    gossip leaves alone. -/
theorem step_gossip (Inv : MemoryStorage → Prop)
    (hknow : ∀ s txHash node, Inv s → Inv (s.appendKnownNode txHash node))
    (hsync : ∀ (s : MemoryStorage) txHash, Inv s →
      Inv { s with txsTable := s.txsTable.modify txHash (fun tx => { tx with synced := true }) })
    (hmissed : ∀ (s : MemoryStorage) missedTxs, Inv s → Inv { s with missedTxs := missedTxs })
    {s : MemoryStorage} {call : Op} (hcall : GossipCall call) (h : Inv s) :
    Inv (step cfg s call) := by
  cases call with
  | filterUnknownTxs txsHashList peer =>
      -- The first loop of `filterUnknownTxs` notes the peer, the second one the
      -- hashes.
      have hknown := run_invariant (fun s txHash => appendKnownNode s txHash peer) Inv
        (fun _ => True) (fun t txHash _ ht => hknow t txHash peer ht) txsHashList s
        (fun _ _ => trivial) h
      have hturn : ∀ (acc : MemoryStorage × HashList) txHash, True → Inv acc.1 →
          Inv (filterUnknownTx acc txHash).1 := by
        intro acc txHash _ hacc
        unfold filterUnknownTx
        split
        · exact hacc
        · split
          · exact hacc
          · exact hmissed acc.1 _ hacc
      -- At its end the set of missed hashes may be emptied.
      have hboth := run_invariant filterUnknownTx (fun acc => Inv acc.1) (fun _ => True) hturn
        txsHashList (_, []) (fun _ _ => trivial) hknown
      unfold step filterUnknownTxs
      simp only
      split
      · exact hmissed _ _ hboth
      · exact hboth
  | fetchNewTxs order txsLimit => exact fetchNewTxs_invariant Inv hsync txsLimit order s [] h
  | appendKnownNode txHash node => exact hknow s txHash node h
  | _ => exact hcall.elim

/-! ### Submissions -/

/-- When a submission brings its transaction in. An enforced one asks for the
    ledger's nonces and for a free hash, a normal one for all checks. -/
def Admits (s : MemoryStorage) (tx : Transaction) : Bool → Prop
  | true => ¬ tx.nonce ∈ s.ledgerNonceChecker.nonceCache ∧ s.txsTable.find? tx.hash = none
  | false => Submittable cfg s tx

theorem Admits.free {cfg : TxPoolConfig} {tx : Transaction} {enforceImport : Bool}
    (h : Admits cfg s tx enforceImport) : s.txsTable.find? tx.hash = none := by
  cases enforceImport with
  | true => exact h.2
  | false => exact Submittable.free h

/-- What comes in has a nonce that is not on chain, on either path. -/
theorem Admits.nonce {cfg : TxPoolConfig} {tx : Transaction} {enforceImport : Bool}
    (h : Admits cfg s tx enforceImport) : ¬ tx.nonce ∈ s.ledgerNonceChecker.nonceCache := by
  cases enforceImport with
  | true => exact h.1
  | false => exact ((TxValidator.submittedToChain_eq_none_iff _ tx).mp h.accepted.onChain).1

/-- The entry that a submission makes: sealed for its proposal, or marked by the
    validator and with the callback of its client. -/
def entering (tx : Transaction) (txSubmitCallback : Option TxSubmitCallback) : Bool → Transaction
  | true => { tx with sealed := true }
  | false => TxValidator.marked cfg.framework (withCallback tx txSubmitCallback)

@[simp] theorem entering_toTxData (tx : Transaction) (txSubmitCallback : Option TxSubmitCallback)
    (enforceImport : Bool) : (entering cfg tx txSubmitCallback enforceImport).toTxData
      = tx.toTxData := by
  cases enforceImport with
  | true => rfl
  | false => rw [entering, TxValidator.marked_toTxData, withCallback_toTxData]

/-- What a submission does that brings its transaction in: one entry more, which
    is missed no longer, and on the normal path one nonce more in the txpool
    checker. -/
structure BringsIn (tx entry : Transaction) (enforceImport : Bool) (s s' : MemoryStorage) :
    Prop where
  find : ∀ txHash, s'.txsTable.find? txHash
    = if tx.hash = txHash then some entry else s.txsTable.find? txHash
  txPool : ∀ nonce, nonce ∈ s'.txPoolNonceChecker.nonceCache ↔
    (enforceImport = false ∧ nonce = tx.nonce) ∨ nonce ∈ s.txPoolNonceChecker.nonceCache
  ledger : s'.ledgerNonceChecker = s.ledgerNonceChecker
  invalidTxs : s'.invalidTxs = s.invalidTxs
  invalidNonces : s'.invalidNonces = s.invalidNonces
  receipts : s'.receipts = s.receipts
  missed : ∀ txHash, txHash ∈ s'.missedTxs ↔ txHash ∈ s.missedTxs ∧ txHash ≠ tx.hash

/-- An insertion and its report touch the table, the counter, the reports and
    the wake-up flag. -/
theorem inserted_eq (s : MemoryStorage) (tx : Transaction) :
    ∃ n reports, s.inserted cfg tx = { s with
      txsTable := s.txsTable.insert tx
      newTransactions := true
      sealedTxsSize := n
      reports := reports } := by
  rcases notifyUnsealedTxsSize_eq cfg
    { s with txsTable := s.txsTable.insert tx, newTransactions := true } with ⟨n, rs, h, _⟩
  exact ⟨n, rs, h⟩

theorem submitTransaction_of_admits (s : MemoryStorage) (tx : Transaction)
    (txSubmitCallback : Option TxSubmitCallback) {enforceImport : Bool}
    (h : Admits cfg s tx enforceImport) :
    (s.submitTransaction cfg tx txSubmitCallback enforceImport).2 = .none ∧
    BringsIn tx (entering cfg tx txSubmitCallback enforceImport) enforceImport s
      (s.submitTransaction cfg tx txSubmitCallback enforceImport).1 := by
  have hhash : (entering cfg tx txSubmitCallback enforceImport).hash = tx.hash :=
    congrArg TxData.hash (entering_toTxData cfg tx txSubmitCallback enforceImport)
  -- The entry comes under the hash of the transaction on either path.
  have hlookup := fun txHash => s.txsTable.find?_insert
    (entering cfg tx txSubmitCallback enforceImport) txHash (by rw [hhash]; exact h.free)
  simp only [hhash] at hlookup
  cases enforceImport with
  | true =>
      have he := s.enforceSubmitTransaction_of_find?_none cfg h.1 h.2
      rcases inserted_eq cfg
        { s with sealedTxsSize := if tx.sealed then s.sealedTxsSize else s.sealedTxsSize + 1 }
        { tx with sealed := true } with ⟨n, rs, hins⟩
      simp only [submitTransaction, Bool.not_true, Bool.false_eq_true, if_false, he,
        insertedSealed, hins, eraseMissed, true_and]
      -- The enforced path reserves no nonce.
      refine ⟨hlookup, fun nonce => ?_, rfl, rfl, rfl, rfl,
        fun txHash => SortedSet.mem_erase tx.hash txHash s.missedTxs⟩
      exact ⟨Or.inr, fun hc => hc.elim (fun hf => absurd hf.1 (by decide)) id⟩
  | false =>
      -- The normal path: the nonce is reserved, and the entry carries the callback.
      rcases s.verifyAndSubmitTransaction_cases cfg tx txSubmitCallback with ⟨hno, _⟩ | ⟨_, he⟩
      · exact absurd h hno
      · rcases inserted_eq cfg
          { s with txPoolNonceChecker := s.txPoolNonceChecker.insert tx.nonce }
          (TxValidator.marked cfg.framework (withCallback tx txSubmitCallback)) with ⟨n, rs, hins⟩
        simp only [submitTransaction, Bool.not_false, if_true, he, hins, eraseMissed, true_and]
        refine ⟨hlookup, fun nonce => ?_, rfl, rfl, rfl, rfl,
          fun txHash => SortedSet.mem_erase tx.hash txHash s.missedTxs⟩
        rw [TxPoolNonceChecker.mem_insert]
        exact ⟨fun hc => hc.imp_left (fun hn => ⟨rfl, hn⟩), fun hc => hc.imp_left And.right⟩

/-- A normal submission that does not bring its transaction in is rejected and
    changes nothing. -/
theorem submitTransaction_rejected (s : MemoryStorage) (tx : Transaction)
    (txSubmitCallback : Option TxSubmitCallback) (h : ¬ Admits cfg s tx false) :
    (s.submitTransaction cfg tx txSubmitCallback false).2 ≠ .none ∧
      (s.submitTransaction cfg tx txSubmitCallback false).1 = s := by
  rcases s.verifyAndSubmitTransaction_cases cfg tx txSubmitCallback with
    ⟨_, hrejected, hsame⟩ | ⟨hyes, _⟩
  · exact ⟨hrejected, hsame⟩
  · exact absurd hyes h

/-- An enforced submission that does not bring its transaction in seals a pooled
    one or changes nothing. -/
theorem enforceSubmitTransaction_of_not_admits (s : MemoryStorage) (tx : Transaction)
    (h : ¬ Admits cfg s tx true) :
    (s.enforceSubmitTransaction cfg tx).1 = s ∨
      (¬ tx.nonce ∈ s.ledgerNonceChecker.nonceCache ∧ ∃ entry,
        s.txsTable.find? tx.hash = some entry ∧ (entry.sealed = false ∨ entry.batchHash = 0) ∧
        (s.enforceSubmitTransaction cfg tx).1 = s.sealedFor tx entry) := by
  -- Five outcomes: a nonce on the ledger, an entry of this proposal, one of
  -- another, a free entry, and no entry. The last one is what `Admits` says.
  rcases s.enforceSubmitTransaction_cases cfg tx with
    ⟨_, he⟩ | ⟨_, _, _, _, he⟩ | ⟨_, _, _, _, he⟩ | ⟨hn, entry, hf, hfree, he⟩ | ⟨hn, hf, _⟩
  · rw [he]
    exact Or.inl rfl
  · rw [he]
    exact Or.inl rfl
  · rw [he]
    exact Or.inl rfl
  · rw [he]
    exact Or.inr ⟨hn, entry, hf, hfree, rfl⟩
  · exact absurd ⟨hn, hf⟩ h

/-- Sealing a pooled transaction leaves alone what the seal does not touch. The
    nonce checkers in particular are not asked. -/
theorem sealedFor_sameUpTo (π : Transaction → α) (tx entry : Transaction)
    (hπ : ∀ tx' : Transaction, π (sealFor tx tx') = π tx') (s : MemoryStorage) :
    SameUpTo π s (s.sealedFor tx entry) where
  entries := by
    intro txHash
    have hmodify := s.txsTable.find?_modify tx.hash (sealFor tx) (sealFor_hash tx) txHash
    rw [sealedFor, hmodify]
    split
    · rw [Option.map_map]
      exact Option.map_congr (fun tx' _ => hπ tx')
    · rfl
  txPool := rfl
  ledger := rfl
  invalidTxs := rfl
  invalidNonces := rfl

/-- A submission that does not bring its transaction in leaves alone what a seal
    does not touch, and sends no receipt. -/
theorem submitTransaction_of_not_admits (π : Transaction → α) (s : MemoryStorage)
    (tx : Transaction) (hπ : ∀ tx' : Transaction, π (sealFor tx tx') = π tx')
    (txSubmitCallback : Option TxSubmitCallback) {enforceImport : Bool}
    (h : ¬ Admits cfg s tx enforceImport) :
    SameUpTo π s (s.submitTransaction cfg tx txSubmitCallback enforceImport).1 ∧
      (s.submitTransaction cfg tx txSubmitCallback enforceImport).1.receipts = s.receipts := by
  -- A rejected normal submission changes nothing, an enforced one may seal.
  cases enforceImport with
  | false =>
      rw [(s.submitTransaction_rejected cfg tx txSubmitCallback h).2]
      exact ⟨SameUpTo.refl π s, rfl⟩
  | true =>
      have hsubmit : s.submitTransaction cfg tx txSubmitCallback true
          = s.enforceSubmitTransaction cfg tx := rfl
      rw [hsubmit]
      rcases s.enforceSubmitTransaction_of_not_admits cfg tx h with he | ⟨_, entry, _, _, he⟩
      · rw [he]
        exact ⟨SameUpTo.refl π s, rfl⟩
      · rw [he]
        exact ⟨sealedFor_sameUpTo π tx entry hπ s, rfl⟩

/-! ### Removals -/

/-- A removal touches the table, the counter and the receipts. What becomes of
    the last two is said elsewhere. -/
theorem removeSubmittedTxWithoutLock_eq (s : MemoryStorage) (r : TransactionSubmitResult) :
    ∃ n receipts, (s.removeSubmittedTxWithoutLock r).1 = { s with
      txsTable := s.txsTable.erase r.txHash
      sealedTxsSize := n
      receipts := receipts } := by
  unfold removeSubmittedTxWithoutLock removeWithoutLock
  -- A hash that is not pooled has nothing to erase and nobody to answer.
  cases hfind : s.txsTable.find? r.txHash with
  | none =>
      refine ⟨s.sealedTxsSize, s.receipts, ?_⟩
      rw [s.txsTable.erase_of_find?_none hfind]
  | some tx =>
      unfold notifyTxResult
      cases hcallback : tx.submitCallback with
      | none =>
          simp only [hcallback]
          exact ⟨_, _, rfl⟩
      | some callback =>
          simp only [hcallback]
          exact ⟨_, _, rfl⟩

theorem batchRemoveTx_eq (acc : MemoryStorage × NonceList) (r : TransactionSubmitResult) :
    (batchRemoveTx acc r).1 = (acc.1.removeSubmittedTxWithoutLock r).1 := by
  unfold batchRemoveTx
  split
  · rename_i heq
    rw [heq]
  · rename_i heq
    rw [heq]

theorem foldl_batchRemoveTx_eq (txsResult : List TransactionSubmitResult) :
    ∀ acc : MemoryStorage × NonceList, ∃ n receipts, (txsResult.foldl batchRemoveTx acc).1
      = { acc.1 with
        txsTable := (txsResult.map (fun r => r.txHash)).foldl KeyedTable.erase acc.1.txsTable
        sealedTxsSize := n
        receipts := receipts } := by
  induction txsResult with
  | nil => exact fun acc => ⟨acc.1.sealedTxsSize, acc.1.receipts, rfl⟩
  | cons r txsResult ih =>
      intro acc
      rcases ih (batchRemoveTx acc r) with ⟨n, rs, h⟩
      rcases acc.1.removeSubmittedTxWithoutLock_eq r with ⟨n', rs', h'⟩
      -- The turns erase one hash after the other, so the table is a fold of
      -- erasures.
      rw [List.foldl_cons, h, batchRemoveTx_eq, h']
      exact ⟨n, rs, rfl⟩

/-- The first section of `batchRemove` touches the table, the counter, the height
    and the receipts. -/
theorem batchRemoveTxs_eq (s : MemoryStorage) (batchId : Int)
    (txsResult : List TransactionSubmitResult) :
    ∃ n height receipts, (s.batchRemoveTxs batchId txsResult).1 = { s with
      txsTable := (txsResult.map (fun r => r.txHash)).foldl KeyedTable.erase s.txsTable
      sealedTxsSize := n
      blockNumber := height
      receipts := receipts } := by
  rcases foldl_batchRemoveTx_eq txsResult (s, []) with ⟨n, rs, hloop⟩
  unfold batchRemoveTxs
  simp only [hloop]
  split
  · exact ⟨n, batchId, rs, rfl⟩
  · exact ⟨n, s.blockNumber, rs, rfl⟩

/-- A block result removes what it names, records its nonces and releases them.
    The same list of nonces goes to both checkers. -/
theorem batchRemove_eq (s : MemoryStorage) (batchId : Int)
    (txsResult : List TransactionSubmitResult) :
    ∃ n height receipts reports, s.batchRemove cfg batchId txsResult = { s with
      txsTable := (txsResult.map (fun r => r.txHash)).foldl KeyedTable.erase s.txsTable
      ledgerNonceChecker := s.ledgerNonceChecker.batchInsert batchId (s.blockNonces txsResult)
      txPoolNonceChecker := s.txPoolNonceChecker.batchRemove (s.blockNonces txsResult)
      sealedTxsSize := n
      blockNumber := height
      receipts := receipts
      reports := reports } := by
  rcases s.batchRemoveTxs_eq batchId txsResult with ⟨n, height, rs, htxs⟩
  rcases notifyUnsealedTxsSize_eq cfg (s.batchRemoveTxs batchId txsResult).1 with ⟨m, rs', h, _⟩
  have hnonces : (s.batchRemoveTxs batchId txsResult).2 = s.blockNonces txsResult := rfl
  unfold batchRemove
  simp only [h, hnonces]
  -- The report in between may correct the counter, and touches nothing else.
  rw [htxs]
  exact ⟨m, height, rs, rs', rfl⟩

theorem find?_batchRemove (s : MemoryStorage) (batchId : Int)
    (txsResult : List TransactionSubmitResult) (txHash : HashType) :
    (s.batchRemove cfg batchId txsResult).txsTable.find? txHash
      = if txHash ∈ txsResult.map (fun r => r.txHash) then none
        else s.txsTable.find? txHash := by
  rcases s.batchRemove_eq cfg batchId txsResult with ⟨n, height, rs, rs', h⟩
  rw [h]
  exact KeyedTable.find?_foldl_erase _ txHash s.txsTable

theorem batchRemove_txPoolNonceChecker (s : MemoryStorage) (batchId : Int)
    (txsResult : List TransactionSubmitResult) :
    (s.batchRemove cfg batchId txsResult).txPoolNonceChecker
      = s.txPoolNonceChecker.batchRemove (s.blockNonces txsResult) := by
  rcases s.batchRemove_eq cfg batchId txsResult with ⟨n, height, rs, rs', h⟩
  rw [h]

theorem batchRemove_invalid (s : MemoryStorage) (batchId : Int)
    (txsResult : List TransactionSubmitResult) :
    (s.batchRemove cfg batchId txsResult).invalidTxs = s.invalidTxs ∧
      (s.batchRemove cfg batchId txsResult).invalidNonces = s.invalidNonces := by
  rcases s.batchRemove_eq cfg batchId txsResult with ⟨n, height, rs, rs', h⟩
  rw [h]
  exact ⟨rfl, rfl⟩

theorem foldl_removeSubmittedTx_eq (status : TransactionStatus) (hashes : HashList) :
    ∀ s : MemoryStorage, ∃ n receipts,
      hashes.foldl (fun s txHash => (s.removeSubmittedTxWithoutLock
        { txHash := txHash, status := status }).1) s = { s with
        txsTable := hashes.foldl KeyedTable.erase s.txsTable
        sealedTxsSize := n
        receipts := receipts } := by
  induction hashes with
  | nil => exact fun s => ⟨s.sealedTxsSize, s.receipts, rfl⟩
  | cons txHash hashes ih =>
      intro s
      rcases s.removeSubmittedTxWithoutLock_eq { txHash := txHash, status := status } with
        ⟨n', rs', h'⟩
      rcases ih (s.removeSubmittedTxWithoutLock { txHash := txHash, status := status }).1 with
        ⟨n, rs, h⟩
      rw [List.foldl_cons, h, h']
      exact ⟨n, rs, rfl⟩

/-- A cleanup finds nothing to do, or it removes the invalid transactions,
    releases the invalid nonces and forgets both. Whether it does anything
    depends on the transactions alone. -/
theorem removeInvalidTxs_eq (s : MemoryStorage) :
    ((∀ txHash, ¬ txHash ∈ s.invalidTxs) ∧ s.removeInvalidTxs cfg = s) ∨
    ∃ n receipts reports, s.removeInvalidTxs cfg = { s with
      txsTable := s.invalidTxs.toList.foldl KeyedTable.erase s.txsTable
      txPoolNonceChecker := s.txPoolNonceChecker.batchRemove s.invalidNonces.toList
      invalidTxs := SortedSet.empty
      invalidNonces := SortedSet.empty
      sealedTxsSize := n
      receipts := receipts
      reports := reports } := by
  unfold removeInvalidTxs
  by_cases hempty : s.invalidTxs.size = 0
  · rw [if_pos hempty]
    exact Or.inl ⟨(SortedSet.size_eq_zero_iff _).mp hempty, rfl⟩
  · rw [if_neg hempty]
    -- The loop over the hashes, and then the report over what it leaves.
    rcases foldl_removeSubmittedTx_eq .blockLimitCheckFail s.invalidTxs.toList s with ⟨n, rs, h⟩
    simp only [h]
    rcases notifyUnsealedTxsSize_eq cfg { s with
      txsTable := s.invalidTxs.toList.foldl KeyedTable.erase s.txsTable
      sealedTxsSize := n
      receipts := rs } with ⟨m, rs', h', _⟩
    rw [h']
    exact Or.inr ⟨m, rs, rs', rfl⟩

theorem find?_removeInvalidTxs (s : MemoryStorage) (txHash : HashType) :
    (s.removeInvalidTxs cfg).txsTable.find? txHash
      = if txHash ∈ s.invalidTxs then none else s.txsTable.find? txHash := by
  rcases s.removeInvalidTxs_eq cfg with ⟨hempty, h⟩ | ⟨n, rs, rs', h⟩
  · rw [h, if_neg (hempty txHash)]
  · rw [h]
    exact KeyedTable.find?_foldl_erase _ txHash s.txsTable

theorem removeInvalidTxs_ledgerNonceChecker (s : MemoryStorage) :
    (s.removeInvalidTxs cfg).ledgerNonceChecker = s.ledgerNonceChecker := by
  rcases s.removeInvalidTxs_eq cfg with ⟨_, h⟩ | ⟨n, rs, rs', h⟩
  · rw [h]
  · rw [h]

theorem not_mem_invalidTxs_removeInvalidTxs (s : MemoryStorage) (txHash : HashType) :
    ¬ txHash ∈ (s.removeInvalidTxs cfg).invalidTxs := by
  rcases s.removeInvalidTxs_eq cfg with ⟨hempty, h⟩ | ⟨n, rs, rs', h⟩
  · rw [h]
    exact hempty txHash
  · rw [h]
    exact SortedSet.mem_empty txHash

/-- A nonce is in the txpool checker after a cleanup only if it was before and,
    unless there was nothing to remove, was not set aside. -/
theorem mem_removeInvalidTxs_txPool (s : MemoryStorage) (nonce : NonceType) :
    nonce ∈ (s.removeInvalidTxs cfg).txPoolNonceChecker.nonceCache ↔
      nonce ∈ s.txPoolNonceChecker.nonceCache ∧
        ((∀ txHash, ¬ txHash ∈ s.invalidTxs) ∨ ¬ nonce ∈ s.invalidNonces) := by
  rcases s.removeInvalidTxs_eq cfg with ⟨hempty, h⟩ | ⟨n, rs, rs', h⟩
  · rw [h]
    exact ⟨fun hmem => ⟨hmem, Or.inl hempty⟩, fun hmem => hmem.1⟩
  · -- Where there is nothing to remove the nonces stay reserved as well.
    by_cases hempty : s.invalidTxs.size = 0
    · have hsame : s.removeInvalidTxs cfg = s := by rw [removeInvalidTxs, if_pos hempty]
      rw [hsame]
      exact ⟨fun hmem => ⟨hmem, Or.inl ((SortedSet.size_eq_zero_iff _).mp hempty)⟩,
        fun hmem => hmem.1⟩
    · rw [SortedSet.size_eq_zero_iff] at hempty
      rw [h, TxPoolNonceChecker.mem_batchRemove, SortedSet.mem_def]
      exact and_congr_right (fun _ => ⟨Or.inr, fun hc => hc.resolve_left hempty⟩)

end MemoryStorage

end BcosTxPool
