import Mathlib.Data.Int.Interval
import BcosTxPool.Library.Window
import BcosTxPool.Core.Pool

/-!
# The Window of the Ledger Checker

The ledger checker is meant to hold the nonces of the last `blockLimit`
blocks. `Represents` says what it really holds after a chain of blocks: in the
flat set what the window library calls `Held`, by block the lists of the
window. The invariant carries the number of the first block the checker was
ever told of, since a checker is not told the whole history.

`batchInsert` moves the invariant from one height to the next. That is the
place where the comparison with `>` and the subtraction in `batchToBeRemoved`
have to fit the test of the window exactly, and where putting in comes before
taking out.

The map always holds the lists of the last blocks. The flat set is their union
as long as no nonce of a block that is evicted occurs in one of the blocks that
stay, since the eviction goes by value. `window_run_iff` says that this is the
only way to lose a nonce.

A node that starts at height `N` is told of the last `blockLimit` blocks if
there are more than that many, and of none otherwise: `startNumber` is zero
up to height `blockLimit`, and then nothing is fetched. So a restart agrees
with a node that ran all along if the ledger is longer than the window, or
carries no nonce at all, and in no other case.

## Main definitions

* `carries`: A block the checker was told of carries a nonce.
* `Represents`: The invariant of the checker.
* `IsWindow`: What the checker is meant to be.
* `Unrepeated`: No nonce of a block occurs in the blocks shortly after it.
* `Delivers`: The ledger delivers the blocks it is asked for.
* `batchInsertFrom`: Consecutive blocks arrive.

## Theorems

* `Represents.batchInsert`: One more block.
* `window_run_iff`: When the checker stays the union of the last blocks.
* `window_run_counterexample`: A nonce in two adjacent blocks is forgotten.
* `TxPool.init_represents`: What a node starts with.
* `TxPool.init_agrees_iff`: When a restart agrees with the running node.
* `TxPool.init_agrees_counterexample`: A restart at height one that does not.
-/

namespace BcosTxPool

open Library

/-- A block from `first` on carries the nonce. Blocks before it are unknown to
    the checker, whatever they carry. -/
def carries (first : Int) (chain : Int → NonceList) (b : Int) (nonce : NonceType) : Prop :=
  first ≤ b ∧ nonce ∈ chain b

namespace LedgerNonceChecker

/-- The checker at height `h` with window `L`, having been told the blocks from
    `first` on: the flat set holds what was put in and not evicted since, the
    map holds the lists of the window. -/
structure Represents (c : LedgerNonceChecker) (L first h : Int) (chain : Int → NonceList) :
    Prop where
  blockLimit : c.blockLimit = L
  blockNumber : c.blockNumber = h
  flat : ∀ nonce, nonce ∈ c.nonceCache ↔ Held L (carries first chain) h nonce
  byBlock : ∀ b, c.blockNonceCache.lookup b
    = if first ≤ b ∧ h - L < b ∧ b ≤ h then some (chain b) else none

/-! ### One more block -/

/-- The map once the new block is recorded, before the eviction. A block that is
    told of twice keeps its first list. -/
def recorded (c : LedgerNonceChecker) (batchId : Int) (nonceList : NonceList) : BlockNonceCache :=
  if batchId ∈ c.blockNonceCache then c.blockNonceCache
  else c.blockNonceCache.insert batchId nonceList

/-- The list that the new block evicts, if there is one. The source marks the
    case that no block leaves the window with the number minus one. -/
def expired (c : LedgerNonceChecker) (batchId : Int) (nonceList : NonceList) : Option NonceList :=
  if c.batchToBeRemoved batchId = -1 then none
  else (c.recorded batchId nonceList).lookup (c.batchToBeRemoved batchId)

/-- A new block raises the height, puts its nonces in and takes those of the
    block it evicts out, in the set and in the map. -/
theorem batchInsert_eq (c : LedgerNonceChecker) (b : Int) (l : NonceList) :
    c.batchInsert b l =
      { blockNumber := if c.blockNumber < b then b else c.blockNumber
        blockLimit := c.blockLimit
        toTxPoolNonceChecker :=
          (c.toTxPoolNonceChecker.batchInsert b l).batchRemove ((c.expired b l).getD [])
        blockNonceCache :=
          if (c.expired b l).isSome then (c.recorded b l).erase (c.batchToBeRemoved b)
          else c.recorded b l } := by
  -- The height and the map are written by conditional updates of the whole
  -- checker; as fields they are the conditionals themselves.
  have hraise : (if c.blockNumber < b then { c with blockNumber := b } else c)
      = { c with blockNumber := if c.blockNumber < b then b else c.blockNumber } := by
    split
    · rfl
    · rfl
  have hrecord : (if b ∈ c.blockNonceCache then
        { c with
          toTxPoolNonceChecker := c.toTxPoolNonceChecker.batchInsert b l
          blockNumber := if c.blockNumber < b then b else c.blockNumber }
      else
        { c with
          toTxPoolNonceChecker := c.toTxPoolNonceChecker.batchInsert b l
          blockNumber := if c.blockNumber < b then b else c.blockNumber
          blockNonceCache := c.blockNonceCache.insert b l })
      = { c with
          toTxPoolNonceChecker := c.toTxPoolNonceChecker.batchInsert b l
          blockNumber := if c.blockNumber < b then b else c.blockNumber
          blockNonceCache := c.recorded b l } := by
    unfold recorded
    split
    · rfl
    · rfl
  unfold LedgerNonceChecker.batchInsert
  simp only [hraise, hrecord]
  unfold expired
  by_cases hnone : c.batchToBeRemoved b = -1
  · rw [if_pos hnone, if_pos hnone]
    rfl
  · rw [if_neg hnone, if_neg hnone]
    -- The eviction happens only where the map has a list for the block.
    cases (c.recorded b l).lookup (c.batchToBeRemoved b) with
    | none => rfl
    | some e => rfl

/-- The flat set after a block: what was there and what the block brings,
    without what is evicted. A nonce that is in both is gone. -/
theorem mem_batchInsert_iff (c : LedgerNonceChecker) (b : Int) (l : NonceList)
    (nonce : NonceType) :
    nonce ∈ (c.batchInsert b l).nonceCache ↔
      (nonce ∈ c.nonceCache ∨ nonce ∈ l) ∧ ¬ nonce ∈ (c.expired b l).getD [] := by
  rw [batchInsert_eq]
  simp only
  rw [TxPoolNonceChecker.mem_batchRemove, TxPoolNonceChecker.mem_batchInsert]

variable {c : LedgerNonceChecker} {L first h : Int} {chain : Int → NonceList}

/-- The map once the next block is recorded: the window has grown by it, and for
    a moment it is one block longer than the limit. -/
theorem Represents.lookup_recorded (hc : c.Represents L first h chain) (hL : 1 ≤ L)
    (hfirst : first ≤ h + 1) (b : Int) :
    (c.recorded (h + 1) (chain (h + 1))).lookup b
      = if first ≤ b ∧ h - L < b ∧ b ≤ h + 1 then some (chain b) else none := by
  have hfresh : ¬ (h + 1) ∈ c.blockNonceCache := by
    rw [← AList.lookup_eq_none, hc.byBlock, if_neg (by omega)]
  rw [recorded, if_neg hfresh]
  -- The block itself has its list, and the others are as before.
  by_cases hb : b = h + 1
  · rw [hb, AList.lookup_insert, if_pos (by omega)]
  · rw [AList.lookup_insert_ne hb, hc.byBlock]
    exact if_congr (by omega) rfl rfl

/-- The next block evicts the one that leaves the window, if the checker was
    told of it. -/
theorem Represents.expired_eq (hc : c.Represents L first h chain) (hL : 1 ≤ L)
    (hpos : 1 ≤ first) (hfirst : first ≤ h + 1) :
    c.expired (h + 1) (chain (h + 1))
      = if first ≤ h + 1 - L then some (chain (h + 1 - L)) else none := by
  unfold expired batchToBeRemoved
  rw [hc.blockLimit]
  -- As long as the chain is within the window, no block leaves it.
  by_cases hlong : h + 1 > L
  · rw [if_pos hlong, if_neg (by omega), hc.lookup_recorded hL hfirst]
    by_cases hknown : first ≤ h + 1 - L
    · rw [if_pos (by omega), if_pos hknown]
    · rw [if_neg (by omega), if_neg hknown]
  · rw [if_neg hlong, if_pos rfl, if_neg (by omega)]

/-- One more block moves the invariant up by one. Of the source only the
    equation above is used, and of the window only how `Held` goes on from one
    height to the next. -/
theorem Represents.batchInsert (hc : c.Represents L first h chain) (hL : 1 ≤ L)
    (hpos : 1 ≤ first) (hfirst : first ≤ h + 1) :
    (c.batchInsert (h + 1) (chain (h + 1))).Represents L first (h + 1) chain where
  blockLimit := by
    rw [batchInsert_eq]
    exact hc.blockLimit
  blockNumber := by
    rw [batchInsert_eq]
    simp only
    rw [hc.blockNumber, if_pos (by omega)]
  flat := by
    intro nonce
    -- The block that comes puts its nonces in, the one that leaves takes its own
    -- out, in this order. That is the recursion of `Held`.
    have hnew : nonce ∈ chain (h + 1) ↔ carries first chain (h + 1) nonce :=
      ⟨fun hn => ⟨hfirst, hn⟩, fun hn => hn.2⟩
    have hold : nonce ∈ (c.expired (h + 1) (chain (h + 1))).getD [] ↔
        carries first chain (h + 1 - L) nonce := by
      rw [hc.expired_eq hL hpos hfirst]
      by_cases hknown : first ≤ h + 1 - L
      · rw [if_pos hknown]
        exact ⟨fun hn => ⟨hknown, hn⟩, fun hn => hn.2⟩
      · rw [if_neg hknown]
        exact ⟨fun hn => absurd hn List.not_mem_nil, fun hn => absurd hn.1 hknown⟩
    rw [mem_batchInsert_iff, hc.flat, hnew, hold, held_succ]
  byBlock := by
    intro b
    rw [batchInsert_eq]
    simp only
    rw [hc.expired_eq hL hpos hfirst]
    by_cases hknown : first ≤ h + 1 - L
    · -- The block evicted is the oldest of the window, which closes up behind it.
      have hevicted : c.batchToBeRemoved (h + 1) = h + 1 - L := by
        rw [batchToBeRemoved, hc.blockLimit, if_pos (by omega)]
      rw [if_pos hknown, hevicted]
      simp only [Option.isSome_some, if_true]
      by_cases hb : b = h + 1 - L
      · rw [hb, AList.lookup_erase, if_neg (by omega)]
      · rw [AList.lookup_erase_ne hb, hc.lookup_recorded hL hfirst]
        exact if_congr (by omega) rfl rfl
    · rw [if_neg hknown]
      simp only [Option.isSome_none, Bool.false_eq_true, if_false]
      rw [hc.lookup_recorded hL hfirst]
      exact if_congr (by omega) rfl rfl

/-- The invariant does not look beyond the height. -/
theorem Represents.congr (hc : c.Represents L first h chain) (hL : 1 ≤ L)
    {chain' : Int → NonceList} (hsame : ∀ b, b ≤ h → chain b = chain' b) :
    c.Represents L first h chain' where
  blockLimit := hc.blockLimit
  blockNumber := hc.blockNumber
  flat := by
    intro nonce
    rw [hc.flat]
    refine held_congr hL (fun b hb => ?_)
    -- Which blocks carry the nonce is asked only up to the height.
    unfold carries
    rw [hsame b hb]
  byBlock := by
    intro b
    rw [hc.byBlock]
    by_cases hin : first ≤ b ∧ h - L < b ∧ b ≤ h
    · rw [if_pos hin, if_pos hin, hsame b hin.2.2]
    · rw [if_neg hin, if_neg hin]

/-! ### Consecutive blocks -/

/-- The checker after `n` further blocks of the chain, starting above height
    `h`. -/
def batchInsertFrom (c : LedgerNonceChecker) (chain : Int → NonceList) (h : Int) :
    Nat → LedgerNonceChecker
  | 0 => c
  | n + 1 => (batchInsertFrom c chain h n).batchInsert (h + n + 1) (chain (h + n + 1))

/-- Any number of further blocks. -/
theorem Represents.batchInsertFrom (hc : c.Represents L first h chain) (hL : 1 ≤ L)
    (hpos : 1 ≤ first) (hfirst : first ≤ h + 1) (n : Nat) :
    (c.batchInsertFrom chain h n).Represents L first (h + n) chain := by
  -- The induction is on the number of blocks. The rest is the arithmetic of
  -- heights.
  induction n with
  | zero =>
      have hcast : h + ((0 : Nat) : Int) = h := by omega
      rw [hcast]
      exact hc
  | succ n ih =>
      have hcast : h + ((n + 1 : Nat) : Int) = h + n + 1 := by omega
      rw [hcast]
      exact ih.batchInsert hL hpos (by omega)

/-! ### The first checker of a node -/

/-- The lists that a checker is built from are those it is given. -/
theorem lookup_foldl_initBlock (es : List (Sigma (fun _ : Int => NonceList))) (hes : es.NodupKeys)
    (b : Int) :
    ∀ c : LedgerNonceChecker,
      (es.foldl (fun c it => c.initBlock it.1 it.2) c).blockNonceCache.lookup b
        = (es.dlookup b).or (c.blockNonceCache.lookup b) := by
  induction es with
  | nil => exact fun _ => rfl
  | cons e es ih =>
      intro c
      rcases e with ⟨batchId, l⟩
      rw [List.nodupKeys_cons] at hes
      rw [List.foldl_cons, ih hes.2]
      by_cases hb : b = batchId
      · -- No later entry has the key of this one.
        rw [hb, List.dlookup_eq_none.mpr hes.1]
        simp only [initBlock, AList.lookup_insert, List.dlookup_cons_eq, Option.none_or,
          Option.some_or]
      · simp only [initBlock, AList.lookup_insert_ne hb, List.dlookup_cons_ne es ⟨batchId, l⟩ hb]

/-- And its flat set is the union of all of them. -/
theorem mem_foldl_initBlock (es : List (Sigma (fun _ : Int => NonceList))) (nonce : NonceType) :
    ∀ c : LedgerNonceChecker,
      nonce ∈ (es.foldl (fun c it => c.initBlock it.1 it.2) c).nonceCache ↔
        nonce ∈ c.nonceCache ∨ ∃ it ∈ es, nonce ∈ it.2 := by
  induction es with
  | nil => simp
  | cons e es ih =>
      intro c
      rw [List.foldl_cons, ih]
      simp only [initBlock, TxPoolNonceChecker.mem_batchInsert, List.mem_cons,
        exists_eq_or_imp, or_assoc]

/-- Height and window of the checker are not touched by this. -/
theorem foldl_initBlock_height (es : List (Sigma (fun _ : Int => NonceList))) :
    ∀ c : LedgerNonceChecker,
      (es.foldl (fun c it => c.initBlock it.1 it.2) c).blockNumber = c.blockNumber ∧
        (es.foldl (fun c it => c.initBlock it.1 it.2) c).blockLimit = c.blockLimit := by
  induction es with
  | nil => exact fun _ => ⟨rfl, rfl⟩
  | cons e es ih => exact fun c => ih (c.initBlock e.1 e.2)

/-- A checker built from the lists of the blocks from `first` to its height,
    all of them still in the window. -/
theorem create_some_represents {nonces : BlockNonceCache} {L first h : Int}
    {chain : Int → NonceList} (hrecent : h < first + L)
    (hnonces : ∀ b, nonces.lookup b = if first ≤ b ∧ b ≤ h then some (chain b) else none) :
    (create (some nonces) h L).Represents L first h chain := by
  have hheight := foldl_initBlock_height nonces.entries { blockNumber := h, blockLimit := L }
  refine ⟨hheight.2, hheight.1, fun nonce => ?_, fun b => ?_⟩
  · have hmem := mem_foldl_initBlock nonces.entries nonce { blockNumber := h, blockLimit := L }
    refine hmem.trans ?_
    -- A nonce comes from the list of some block, and no block has been evicted.
    constructor
    · intro hmem
      rcases hmem with hn | ⟨⟨b, l⟩, hit, hn⟩
      · exact absurd hn (Finset.notMem_empty nonce)
      · have hlookup : nonces.lookup b = some l := AList.mem_lookup_iff.mpr hit
        rw [hnonces b] at hlookup
        split at hlookup
        next hb =>
          rw [Option.some.injEq] at hlookup
          refine ⟨b, hb.2, ⟨hb.1, hlookup ▸ hn⟩, fun b' hb' _ => ?_⟩
          have := hb'.1
          omega
        · exact absurd hlookup (Option.some_ne_none l).symm
    · intro hheld
      rcases hheld with ⟨b, hb, ⟨hfirst, hn⟩, _⟩
      refine Or.inr ⟨⟨b, chain b⟩, ?_, hn⟩
      rw [← AList.mem_lookup_iff, hnonces b, if_pos ⟨hfirst, hb⟩]
      rfl
  · have hlookup := lookup_foldl_initBlock nonces.entries nonces.nodupKeys b
      { blockNumber := h, blockLimit := L }
    refine hlookup.trans ?_
    have hentries : nonces.entries.dlookup b = nonces.lookup b := rfl
    have hempty : (∅ : BlockNonceCache).lookup b = none := AList.lookup_empty b
    rw [hentries, hnonces b, hempty, Option.or_none]
    exact if_congr (by omega) rfl rfl

/-- An empty checker that was told of nothing below its height. It represents
    any chain, since the first block it knows is the next. -/
theorem create_none_represents (L h : Int) (chain : Int → NonceList) :
    (create none h L).Represents L (h + 1) h chain where
  blockLimit := rfl
  blockNumber := rfl
  flat := by
    intro nonce
    refine ⟨fun hn => absurd hn (Finset.notMem_empty nonce), ?_⟩
    intro hheld
    rcases hheld with ⟨b, hb, hcarries, _⟩
    have := hcarries.1
    omega
  byBlock := by
    intro b
    rw [if_neg (by omega)]
    exact AList.lookup_empty b

/-! ### The union of the last blocks -/

/-- The checker holds the nonces of the last `L` blocks up to height `h`, and by
    block it holds their lists and no others. The genesis has no list. This is
    what the eviction is meant to maintain. -/
structure IsWindow (c : LedgerNonceChecker) (L h : Int) (chain : Int → NonceList) : Prop where
  flat : ∀ nonce, c.existsNonce nonce = true ↔
    ∃ b, 1 ≤ b ∧ h - L < b ∧ b ≤ h ∧ nonce ∈ chain b
  byBlock : ∀ b, c.blockNonceCache.lookup b
    = if 1 ≤ b ∧ h - L < b ∧ b ≤ h then some (chain b) else none
  bounded : (c.blockNonceCache.keys.length : Int) ≤ L

/-- No nonce of block `b` occurs in one of the `L` blocks after it. These are
    the blocks in the window when `b` leaves it, together with the one that
    evicts it. -/
def Unrepeated (L : Int) (chain : Int → NonceList) (b : Int) : Prop :=
  ∀ nonce ∈ chain b, ∀ b', b < b' → b' ≤ b + L → ¬ nonce ∈ chain b'

/-- A map that holds nothing but blocks of the window has at most `L` keys. -/
theorem keys_length_le {m : BlockNonceCache} {L h : Int} (hL : 0 ≤ L)
    (hkeys : ∀ b ∈ m.keys, h - L < b ∧ b ≤ h) : (m.keys.length : Int) ≤ L := by
  have hnodup : m.keys.Nodup := m.keys_nodup
  have hcard : m.keys.toFinset.card = m.keys.length := List.toFinset_card_of_nodup hnodup
  -- The keys are different numbers out of an interval of that length.
  have hsub : m.keys.toFinset ⊆ Finset.Ioc (h - L) h := by
    intro b hb
    exact Finset.mem_Ioc.mpr (hkeys b (List.mem_toFinset.mp hb))
  have hle := Finset.card_le_card hsub
  rw [hcard, Int.card_Ioc] at hle
  omega

/-- A checker that was told of all blocks of the window is the window exactly if
    what it holds is. -/
theorem Represents.isWindow_iff (hc : c.Represents L first h chain) (hL : 1 ≤ L)
    (hknown : ∀ b, h - L < b → (first ≤ b ↔ 1 ≤ b)) :
    c.IsWindow L h chain ↔
      ∀ nonce, Held L (carries first chain) h nonce ↔
        InWindow L (carries first chain) h nonce := by
  have hwindow : ∀ nonce, InWindow L (carries first chain) h nonce ↔
      ∃ b, 1 ≤ b ∧ h - L < b ∧ b ≤ h ∧ nonce ∈ chain b := by
    intro nonce
    constructor
    · intro hin
      rcases hin with ⟨b, hlow, hb, hfirst, hn⟩
      exact ⟨b, (hknown b hlow).mp hfirst, hlow, hb, hn⟩
    · intro hin
      rcases hin with ⟨b, hpos, hlow, hb, hn⟩
      exact ⟨b, hlow, hb, (hknown b hlow).mpr hpos, hn⟩
  have hexists : ∀ nonce, c.existsNonce nonce = true ↔ Held L (carries first chain) h nonce := by
    intro nonce
    rw [TxPoolNonceChecker.existsNonce, decide_eq_true_eq]
    exact hc.flat nonce
  constructor
  · intro hisWindow nonce
    rw [← hexists, hwindow]
    exact hisWindow.flat nonce
  · intro hheld
    -- The map holds the lists of the window in any case. What has to be shown is
    -- the flat set.
    refine ⟨fun nonce => ?_, fun b => ?_, keys_length_le (h := h) (by omega) (fun b hb => ?_)⟩
    · rw [hexists, hheld, hwindow]
    · rw [hc.byBlock]
      refine if_congr ⟨fun hb => ?_, fun hb => ?_⟩ rfl rfl
      · exact ⟨(hknown b hb.2.1).mp hb.1, hb.2⟩
      · exact ⟨(hknown b hb.2.1).mpr hb.1, hb.2⟩
    · -- A key has a list, and only blocks of the window have one.
      rcases AList.lookup_isSome.mpr (AList.mem_keys.mpr hb) |> Option.isSome_iff_exists.mp with
        ⟨l, hl⟩
      rw [hc.byBlock] at hl
      split at hl
      next hin => exact hin.2
      · exact absurd hl (Option.some_ne_none l).symm

/-- From any height on, told of the last `L` blocks, the checker is their window
    after each of `n` further blocks exactly if no block evicted on the way has a
    nonce that occurs in one of the `L` blocks after it. -/
theorem window_run_iff (L : Int) (hL : 1 ≤ L) (h : Nat) (chain : Int → NonceList)
    (nonces : BlockNonceCache)
    (hnonces : ∀ b, nonces.lookup b
      = if 1 ≤ b ∧ (h : Int) - L < b ∧ b ≤ h then some (chain b) else none) (n : Nat) :
    (∀ m : Nat, 1 ≤ m → m ≤ n →
      ((create (some nonces) h L).batchInsertFrom chain h m).IsWindow L (h + m) chain) ↔
    ∀ m : Nat, 1 ≤ m → m ≤ n → 1 ≤ (h : Int) + m - L → Unrepeated L chain (h + m - L) := by
  -- The checker was told of the blocks from `first` on, and none of them is evicted yet.
  let first : Int := max 1 (h - L + 1)
  have hcreate : (create (some nonces) h L).Represents L first h chain := by
    refine create_some_represents (by omega) (fun b => ?_)
    rw [hnonces]
    exact if_congr (by omega) rfl rfl
  have hrun : ∀ m, (((create (some nonces) h L).batchInsertFrom chain h m).IsWindow L (h + m)
      chain ↔ ∀ nonce, Held L (carries first chain) (h + m) nonce ↔
        InWindow L (carries first chain) (h + m) nonce) := by
    intro m
    refine (hcreate.batchInsertFrom hL (by omega) (by omega) m).isWindow_iff hL (fun b hb => ?_)
    omega
  have hstart : ∀ nonce, Held L (carries first chain) h nonce ↔
      InWindow L (carries first chain) h nonce := by
    refine held_iff_inWindow_of_recent (fun b nonce hcarried => ?_)
    have hfirst := hcarried.1
    omega
  have hagree := held_iff_inWindow_run hL (carries first chain) h hstart n
  constructor
  · -- If the window is kept at every height, no eviction takes a nonce that is
    -- still in it.
    intro hall m hpos hm hevicted nonce hn b' hlow hb' hrepeated
    have hheld : ∀ k : Nat, k ≤ n → ∀ nonce, Held L (carries first chain) (h + k) nonce ↔
        InWindow L (carries first chain) (h + k) nonce := by
      intro k hk
      by_cases hzero : k = 0
      · have hcast : (h : Int) + (k : Int) = h := by omega
        rw [hcast]
        exact hstart
      · exact (hrun k).mp (hall k (by omega) hk)
    exact hagree.mp hheld m hpos hm nonce ⟨by omega, hn⟩
      ⟨b', by omega, by omega, by omega, hrepeated⟩
  · -- And if none does, what is held and what is in the window agree up to the
    -- height.
    intro hall m hpos hm
    refine (hrun m).mpr (hagree.mpr (fun k hkpos hk nonce hcarried hin => ?_) m hm)
    rcases hin with ⟨b', hlow, hb', _, hrepeated⟩
    have hfirst := hcarried.1
    exact hall k hkpos hk (by omega) nonce hcarried.2 b' hlow (by omega) hrepeated

/-- Two blocks with different nonces, in a window of one. -/
theorem window_run_iff_twoBlocks :
    ((create (some ∅) 0 1).batchInsertFrom
      (fun b => if b = 1 then [7] else if b = 2 then [8] else []) 0 2).IsWindow 1 2
      (fun b => if b = 1 then [7] else if b = 2 then [8] else []) := by
  refine (window_run_iff 1 (by decide) 0 (fun b => if b = 1 then [7] else if b = 2 then [8] else [])
    ∅ (fun b => ?_) 2).mpr (fun m hpos hm hevicted nonce hn b' hlow hb' => ?_) 2 (by decide)
    (le_refl 2)
  · rw [if_neg (by omega)]
    exact AList.lookup_empty b
  · -- Block one is evicted, and only block two comes within the window after it.
    have hm : m = 2 := by omega
    subst hm
    have hb' : b' = 2 := by omega
    subst hb'
    have hseven : nonce = 7 := List.mem_singleton.mp hn
    rw [hseven]
    decide

/-- A nonce in block one and in block two is forgotten when block three evicts
    block one, with block two still in the window of two. -/
theorem window_run_counterexample :
    let chain : Int → NonceList := fun b => if b = 1 ∨ b = 2 then [7] else []
    let c := (create (some ∅) 0 2).batchInsertFrom chain 0 3
    (c.existsNonce 7 = false ∧ c.blockNonceCache.lookup 2 = some [7]) ∧ ¬ c.IsWindow 2 3 chain := by
  refine ⟨⟨by decide, by decide⟩, fun hwindow => ?_⟩
  -- Block two is in the window and carries the nonce.
  have hexists := (hwindow.flat 7).mpr ⟨2, by decide, by decide, by decide, by decide⟩
  exact absurd hexists (by decide)

end LedgerNonceChecker

/-- The ledger delivers exactly the nonce lists of the blocks it is asked for,
    out of the blocks up to its height. -/
def Delivers (fetchNonceList : Int → Int → BlockNonceCache) (chain : Int → NonceList)
    (height : Int) : Prop :=
  ∀ start count b, 1 ≤ start → start + count ≤ height + 1 →
    (fetchNonceList start count).lookup b
      = if start ≤ b ∧ b < start + count then some (chain b) else none

/-- A ledger that delivers: the lists of consecutive blocks. -/
def ledgerNonces (chain : Int → NonceList) (start : Int) (count : Int) : BlockNonceCache :=
  (List.range count.toNat).foldl (fun m (i : Nat) => m.insert (start + i) (chain (start + i))) ∅

/-- It delivers what it is asked for, at any height. -/
theorem ledgerNonces_delivers (chain : Int → NonceList) (height : Int) :
    Delivers (ledgerNonces chain) chain height := by
  intro start count b _ _
  -- The induction is on the number of blocks delivered.
  have hrange : ∀ n : Nat, ((List.range n).foldl
      (fun m (i : Nat) => m.insert (start + i) (chain (start + i)))
      (∅ : BlockNonceCache)).lookup b
      = if start ≤ b ∧ b < start + n then some (chain b) else none := by
    intro n
    induction n with
    | zero =>
        rw [if_neg (by omega)]
        exact AList.lookup_empty b
    | succ n ih =>
        rw [List.range_succ, List.foldl_append, List.foldl_cons, List.foldl_nil]
        by_cases hb : b = start + n
        · rw [hb, AList.lookup_insert, if_pos (by omega)]
        · rw [AList.lookup_insert_ne hb, ih]
          exact if_congr (by omega) rfl rfl
  unfold ledgerNonces
  rw [hrange]
  exact if_congr (by omega) rfl rfl

namespace TxPool

/-- The first block that the checker of a node is told of: the first of the
    window if the ledger is longer than it, else the next one. In the second
    case the blocks that are on the ledger stay unknown. -/
def firstBlock (blockNumber : Int) (blockLimit : Int) : Int :=
  if blockLimit < blockNumber then blockNumber - blockLimit + 1 else blockNumber + 1

/-- It is never the genesis. -/
theorem firstBlock_pos {blockNumber : Int} (h : 0 ≤ blockNumber) (blockLimit : Int) :
    1 ≤ firstBlock blockNumber blockLimit := by
  unfold firstBlock
  split
  · omega
  · omega

/-- And it is the next block at the latest. -/
theorem firstBlock_le (blockNumber : Int) {blockLimit : Int} (hL : 1 ≤ blockLimit) :
    firstBlock blockNumber blockLimit ≤ blockNumber + 1 := by
  unfold firstBlock
  split
  · omega
  · omega

variable (cfg : TxPoolConfig)

/-- What a node starts with, if the ledger delivers. The source asks for the
    blocks from `startNumber` on only where that is positive. -/
theorem init_represents {N : Int}
    {fetchNonceList : Int → Int → BlockNonceCache} {chain : Int → NonceList}
    (hfetch : Delivers fetchNonceList chain N) :
    (init cfg N fetchNonceList).Represents cfg.blockLimit (firstBlock N cfg.blockLimit) N
      chain := by
  unfold init startNumber firstBlock
  by_cases hlong : cfg.blockLimit < N
  · -- Past the window it asks for just the blocks of the window.
    have hstart : 0 < N - cfg.blockLimit + 1 := by omega
    have hsize : min cfg.blockLimit (N - (N - cfg.blockLimit + 1) + 1) = cfg.blockLimit := by
      omega
    simp only [gt_iff_lt, if_pos hlong, if_pos hstart, hsize]
    refine LedgerNonceChecker.create_some_represents (by omega) (fun b => ?_)
    rw [hfetch _ _ b (by omega) (by omega)]
    exact if_congr (by omega) rfl rfl
  · simp only [gt_iff_lt, if_neg hlong, Int.lt_irrefl, if_false]
    exact LedgerNonceChecker.create_none_represents cfg.blockLimit N chain

/-- The checker of a node that started empty at height zero and received the
    blocks up to `n`. -/
def liveChecker (chain : Int → NonceList) (n : Nat) : LedgerNonceChecker :=
  (LedgerNonceChecker.create none 0 cfg.blockLimit).batchInsertFrom chain 0 n

/-- It was told of every block from the first on. -/
theorem liveChecker_represents (hL : 1 ≤ cfg.blockLimit) (chain : Int → NonceList) (n : Nat) :
    (liveChecker cfg chain n).Represents cfg.blockLimit 1 n chain := by
  have hstart := LedgerNonceChecker.create_none_represents cfg.blockLimit 0 chain
  have hend := hstart.batchInsertFrom hL (by omega) (by omega) n
  rw [Int.zero_add, Int.zero_add] at hend
  exact hend

/-- A restart agrees with the running node: whatever blocks come after it, both
    give the same answer for every transaction. -/
def RestartAgrees (N : Nat) (fetchNonceList : Int → Int → BlockNonceCache)
    (chain : Int → NonceList) : Prop :=
  ∀ more : Int → NonceList, (∀ b : Int, b ≤ N → more b = chain b) →
    ∀ (n : Nat) (tx : Transaction) (shouldUpdate : Bool),
      (((init cfg N fetchNonceList).batchInsertFrom more N n).checkNonce tx shouldUpdate).1
        = (((liveChecker cfg chain N).batchInsertFrom more N n).checkNonce tx shouldUpdate).1

/-- It does if both hold the same nonces at every height from the restart on.
    Height and window are the same in any case, and the answer depends on
    nothing else. -/
theorem restartAgrees_of_held {N : Nat} (hL : 1 ≤ cfg.blockLimit)
    {fetchNonceList : Int → Int → BlockNonceCache} {chain : Int → NonceList}
    (hfetch : Delivers fetchNonceList chain N)
    (hheld : ∀ more : Int → NonceList, (∀ b : Int, b ≤ N → more b = chain b) →
      ∀ (h : Int) (nonce : NonceType), (N : Int) ≤ h →
        (Held cfg.blockLimit (carries (firstBlock N cfg.blockLimit) more) h nonce ↔
          Held cfg.blockLimit (carries 1 more) h nonce)) :
    RestartAgrees cfg N fetchNonceList chain := by
  intro more hmore n tx shouldUpdate
  have hpos := firstBlock_pos (Int.natCast_nonneg N) cfg.blockLimit
  have hfirst := firstBlock_le N hL
  have hinit := ((init_represents cfg hfetch).congr hL
    (fun b hb => (hmore b hb).symm)).batchInsertFrom hL hpos hfirst n
  have hlive := ((liveChecker_represents cfg hL chain N).congr hL
    (fun b hb => (hmore b hb).symm)).batchInsertFrom hL (by omega) (by omega) n
  -- Both represent the same chain, so they differ at most in what they hold.
  have hcache := (hinit.flat tx.nonce).trans
    ((hheld more hmore (N + n) tx.nonce (by omega)).trans (hlive.flat tx.nonce).symm)
  have hlimit : ((init cfg N fetchNonceList).batchInsertFrom more N n).checkBlockLimit tx
      = ((liveChecker cfg chain N).batchInsertFrom more N n).checkBlockLimit tx := by
    unfold LedgerNonceChecker.checkBlockLimit
    rw [hinit.blockNumber, hinit.blockLimit, hlive.blockNumber, hlive.blockLimit]
  -- First the nonce is looked up, and then the block limit is compared.
  rw [LedgerNonceChecker.checkNonce_fst_eq, LedgerNonceChecker.checkNonce_fst_eq, hlimit]
  by_cases hmem : tx.nonce ∈ ((init cfg N fetchNonceList).batchInsertFrom more N n).nonceCache
  · rw [if_pos hmem, if_pos (hcache.mp hmem)]
  · rw [if_neg hmem, if_neg (fun h => hmem (hcache.mpr h))]

/-- Up to the height of the window nothing is fetched, so any nonce on the
    ledger tells the restarted node from the running one. -/
theorem not_restartAgrees_of_mem (hL : 1 ≤ cfg.blockLimit) {N : Nat}
    (hshort : ¬ cfg.blockLimit < N) {fetchNonceList : Int → Int → BlockNonceCache}
    {chain : Int → NonceList} (hfetch : Delivers fetchNonceList chain N) {b : Int}
    (hpos : 1 ≤ b) (hb : b ≤ N) {nonce : NonceType} (hn : nonce ∈ chain b) :
    ¬ RestartAgrees cfg N fetchNonceList chain := by
  intro hagrees
  have hinit := init_represents cfg hfetch
  have hlive := liveChecker_represents cfg hL chain N
  -- The running node holds the nonce, the restarted one was told of nothing.
  have hmiss : ¬ nonce ∈ (init cfg N fetchNonceList).nonceCache := by
    rw [hinit.flat, firstBlock, if_neg hshort]
    intro hheld
    rcases hheld with ⟨b', hb', hcarries, _⟩
    have hlate := hcarries.1
    omega
  have hhit : nonce ∈ (liveChecker cfg chain N).nonceCache := by
    rw [hlive.flat]
    refine ⟨b, hb, ⟨hpos, hn⟩, fun b' hb' _ => ?_⟩
    have hfirst := hb'.1
    omega
  -- A transaction with this nonce is told apart with no further block.
  have hstatus := hagrees chain (fun _ _ => rfl) 0
    (createTransaction (exampleTx 0 nonce 0)) false
  simp only [LedgerNonceChecker.batchInsertFrom, LedgerNonceChecker.checkNonce_fst_eq] at hstatus
  have hnonce : (createTransaction (exampleTx 0 nonce 0)).nonce = nonce := rfl
  rw [hnonce, if_neg hmiss, if_pos hhit] at hstatus
  exact LedgerNonceChecker.checkBlockLimit_ne_nonceCheckFail _ _ hstatus

/-- On a ledger longer than the window, the blocks fetched are those whose
    nonces the running node still holds. -/
theorem restartAgrees_of_long (hL : 1 ≤ cfg.blockLimit) {N : Nat} (hlong : cfg.blockLimit < N)
    {fetchNonceList : Int → Int → BlockNonceCache} {chain : Int → NonceList}
    (hfetch : Delivers fetchNonceList chain N)
    (hdistinct : ∀ (b b' : Int) (nonce : NonceType), 1 ≤ b → b ≤ N → 1 ≤ b' → b' ≤ N →
      nonce ∈ chain b → nonce ∈ chain b' → b = b') :
    RestartAgrees cfg N fetchNonceList chain := by
  refine restartAgrees_of_held cfg hL hfetch (fun more hmore h nonce hh => ?_)
  rw [firstBlock, if_pos hlong]
  -- With no nonce repeated, what the running node holds is what the last blocks
  -- carry.
  have hrecent := held_iff_recent hL (carries 1 more) (n := N)
    (fun b b' a hb hb' ha ha' => hdistinct b b' a ha.1 hb ha'.1 hb'
      (hmore b hb ▸ ha.2) (hmore b' hb' ▸ ha'.2)) hh nonce
  rw [hrecent]
  refine held_congr hL (fun b _ => ?_)
  unfold carries
  constructor
  · intro hcarried
    exact ⟨by omega, by omega, hcarried.2⟩
  · intro hcarried
    exact ⟨by omega, hcarried.2.2⟩

/-- On a ledger without nonces there is nothing to fetch. -/
theorem restartAgrees_of_empty (hL : 1 ≤ cfg.blockLimit) {N : Nat}
    {fetchNonceList : Int → Int → BlockNonceCache} {chain : Int → NonceList}
    (hfetch : Delivers fetchNonceList chain N)
    (hempty : ∀ b : Int, 1 ≤ b → b ≤ N → chain b = []) :
    RestartAgrees cfg N fetchNonceList chain := by
  refine restartAgrees_of_held cfg hL hfetch (fun more hmore h nonce _ => ?_)
  refine held_congr hL (fun b _ => ?_)
  unfold carries
  constructor
  · intro hcarried
    exact ⟨le_trans (firstBlock_pos (Int.natCast_nonneg N) _) hcarried.1, hcarried.2⟩
  · intro hcarried
    -- Only a block that arrives after the restart can carry the nonce.
    refine ⟨le_trans (firstBlock_le N hL) ?_, hcarried.2⟩
    by_contra hold
    have hn := hcarried.2
    rw [hmore b (by omega), hempty b hcarried.1 (by omega)] at hn
    exact List.not_mem_nil hn

/-- With a history in which no nonce repeats, a restart agrees with the running
    node exactly if the ledger is longer than the window or carries no nonce at
    all. Up to the height of the window nothing is fetched. -/
theorem init_agrees_iff (hL : 1 ≤ cfg.blockLimit) (N : Nat)
    (fetchNonceList : Int → Int → BlockNonceCache) (chain : Int → NonceList)
    (hfetch : Delivers fetchNonceList chain N)
    (hdistinct : ∀ (b b' : Int) (nonce : NonceType), 1 ≤ b → b ≤ N → 1 ≤ b' → b' ≤ N →
      nonce ∈ chain b → nonce ∈ chain b' → b = b') :
    RestartAgrees cfg N fetchNonceList chain ↔
      cfg.blockLimit < N ∨ ∀ b : Int, 1 ≤ b → b ≤ N → chain b = [] := by
  constructor
  · intro hagrees
    -- A short ledger on which the two agree has no nonce in any block.
    by_cases hlong : cfg.blockLimit < N
    · exact Or.inl hlong
    · refine Or.inr (fun b hpos hb => List.eq_nil_iff_forall_not_mem.mpr (fun nonce hn => ?_))
      exact not_restartAgrees_of_mem cfg hL hlong hfetch hpos hb hn hagrees
  · intro hcase
    rcases hcase with hlong | hempty
    · exact restartAgrees_of_long cfg hL hlong hfetch hdistinct
    · exact restartAgrees_of_empty cfg hL hfetch hempty

/-- A chain whose first block carries a nonce. -/
def exampleChain (b : Int) : NonceList := if b = 1 then [7] else []

/-- With a window of one block, a restart at height one agrees only if block
    one is empty. -/
theorem init_agrees_iff_heightOne :
    RestartAgrees exampleConfig 1 (ledgerNonces exampleChain) exampleChain ↔
      exampleConfig.blockLimit < (1 : Nat) ∨
        ∀ b : Int, 1 ≤ b → b ≤ (1 : Nat) → exampleChain b = [] :=
  init_agrees_iff exampleConfig (by decide) 1 (ledgerNonces exampleChain) exampleChain
    (ledgerNonces_delivers exampleChain (1 : Nat)) (fun b b' _ _ _ _ _ _ _ => by omega)

/-- A node restarted at height one, inside the window, has forgotten the nonce
    of block one. -/
theorem init_agrees_counterexample :
    ¬ RestartAgrees exampleConfig 1 (ledgerNonces exampleChain) exampleChain := by
  intro h
  have hstatus := h exampleChain (fun _ _ => rfl) 0 (createTransaction (exampleTx 1 7 2)) false
  exact absurd hstatus (by decide)

end TxPool

end BcosTxPool
