import Mathlib.Algebra.Order.Group.Multiset
import Mathlib.Tactic.Abel
import BcosTxPool.Library.Account
import BcosTxPool.Theory.FillBlock
import BcosTxPool.Theory.Steps

/-!
# Every Callback Is Accounted For

`asyncVerifyBlock` and `asyncFillBlock` are given a callback each time. It may be
called at once. Otherwise it travels: it waits for the ledger, then perhaps for a
peer, while other requests come and go and are answered in any order, or never.

No callback is lost on the way and none is called twice. Over any run the
callbacks given are those called, those that still wait, and those whose peer sent
an answer that the decoders throw on: the exception is swallowed, and the callback
goes with it. That last account is the only leak.

The account is kept of what a request has captured. A callback that is called has
left the requests in the same step, or it was called at once.

## Main definitions

* `Callback`: A callback that a node is given.
* `Node.waiting`: What the requests under way have captured.
* `Node.Consistent`: Requests are for something, and a `uuid` stands for one of
  them.
* `Node.RequestStep`: What a step does to the requests under way.
* `Input.given`, `Node.dropped`: The callbacks an input brings, and those that an
  undecodable answer loses.

## Theorems

* `nodeStep_accounts`, `nodeStep_requests`: One step.
* `callbacks_balanced`: Every run.
* `callbacks_balanced_example`: A verdict that comes by way of a peer.
-/

namespace BcosTxPool

open Library

/-- A callback that a node is given. The number stands for the closure of the
    caller, so that two calls with the same number are two callbacks with one
    name, and the account is one of multiplicities. -/
inductive Callback where
  | verifyBlock (callback : Nat)
  | fillBlock (callback : Nat)
deriving DecidableEq

/-- The callback behind what a request has captured. The source wraps it in a
    lambda that also holds the proposal or the hashes to fill, and calls nothing
    else. -/
def OnVerifyFinished.callback : OnVerifyFinished → Callback
  | .verifyBlock callback _ _ => .verifyBlock callback
  | .fillBlock callback _ => .fillBlock callback

/-- The callback that an output is a call of. -/
def Output.callback : Output → Option Callback
  | .onVerifyFinished callback _ => some (.verifyBlock callback)
  | .onBlockFilled callback _ => some (.fillBlock callback)
  | _ => none

/-- The callbacks called, in the order of the calls. Messages to peers and the
    response of a worker are no calls. -/
def called (out : List Output) : List Callback := out.filterMap Output.callback

/-- The callback that an input brings. A proposal whose bytes do not decode
    throws before its callback is looked at: such a callback is not counted as
    given, and it is never called either. -/
def Input.given (cfg : TxPoolConfig) : Input → List Callback
  | .asyncVerifyBlock callback _ data =>
      if (cfg.framework.createBlock data).isSome then [.verifyBlock callback] else []
  | .asyncFillBlock callback _ => [.fillBlock callback]
  | _ => []

/-- An invocation calls the callback once, whether the verdict is good or bad.
    For a block to fill the pool is read again, and the callback gets what is
    there or an error. -/
theorem called_invoke (response : VerifyResponse) (f : OnVerifyFinished) :
    called (f.invoke response) = [f.callback] := by
  cases f with
  | verifyBlock callback block missedTxs => rfl
  | fillBlock callback txsHash =>
      simp only [OnVerifyFinished.invoke, TxPool.onRequested]
      split
      · rfl
      · rw [TxPool.fillBlock_none]
        split
        · rfl
        · rfl

theorem called_invokeAll (onVerifyFinished : Option OnVerifyFinished) (verdict : VerifyResponse) :
    called (OnVerifyFinished.invokeAll onVerifyFinished [verdict])
      = onVerifyFinished.toList.map OnVerifyFinished.callback := by
  rw [Node.invokeAll_singleton]
  cases onVerifyFinished with
  | none => rfl
  | some f => exact called_invoke verdict f

theorem called_sendPacket (codec : Codec) (sent : List Sent) :
    called (sent.map (Node.sendPacket codec)) = [] := by
  rw [called, List.filterMap_map]
  exact List.filterMap_eq_nil_iff.mpr (fun _ _ => rfl)

namespace Node

open TransactionSync

/-- What the requests under way have captured, those at the ledger first. A
    request for an announcement has captured nothing, and is not seen here. -/
def waiting (n : Node) : List OnVerifyFinished :=
  n.ledgerRequests.filterMap (fun r => r.onVerifyFinished) ++
    n.peerRequests.filterMap (fun r => r.onVerifyFinished)

/-- The requests under way are for something, and a `uuid` stands for one of
    them. Without the last two an answer could close two requests at once, or
    one that is yet to be sent. -/
structure Consistent (n : Node) : Prop where
  missed : ∀ r ∈ n.ledgerRequests, r.missedTxs ≠ []
  uuids : (n.peerRequests.map (fun r => r.uuid)).Nodup
  fresh : ∀ r ∈ n.peerRequests, r.uuid < n.nextUuid

/-- A node without requests under way is consistent, so a run may begin at any
    pool. -/
theorem consistent_of_idle {n : Node} (hledger : n.ledgerRequests = [])
    (hpeer : n.peerRequests = []) : n.Consistent where
  missed := by
    rw [hledger]
    exact fun _ h => absurd h List.not_mem_nil
  uuids := by
    rw [hpeer]
    exact List.nodup_nil
  fresh := by
    rw [hpeer]
    exact fun _ h => absurd h List.not_mem_nil

variable (cfg : TxPoolConfig) (codec : Codec) (forwardPercent : Nat)

/-- The decoders throw on a peer's answer. An error of the front service is not
    decoded, and the payload is read only where the message is a response. -/
def throwsOn (response : FrontResponse) : Bool :=
  response.error.isNone && match cfg.framework.createTxsSyncMsg response.data with
    | none => true
    | some txsResponse => txsResponse.type = .txsResponsePacket &&
        (cfg.framework.createBlock txsResponse.txsData).isNone

theorem verifyFetchedTxs_eq_none_iff (s : MemoryStorage) (response : FrontResponse)
    (missedTxs : HashList) (verifiedProposal : Option Block) :
    verifyFetchedTxs cfg s response missedTxs verifiedProposal = none ↔
      throwsOn cfg response = true := by
  unfold verifyFetchedTxs throwsOn
  cases response.error with
  | some error => exact iff_of_false (Option.some_ne_none _) Bool.false_ne_true
  | none =>
      cases cfg.framework.createTxsSyncMsg response.data with
      | none => exact iff_of_true rfl rfl
      | some txsResponse =>
          simp only [Option.isNone_none, Bool.true_and]
          by_cases htype : txsResponse.type = .txsResponsePacket
          · rw [if_neg (not_not.mpr htype), decide_eq_true htype, Bool.true_and]
            cases cfg.framework.createBlock txsResponse.txsData with
            | none => exact iff_of_true rfl rfl
            | some block =>
                refine iff_of_false ?_ Bool.false_ne_true
                simp only
                split
                · exact Option.some_ne_none _
                · split
                  · exact Option.some_ne_none _
                  · split
                    · exact Option.some_ne_none _
                    · exact Option.some_ne_none _
          · rw [if_pos htype, decide_eq_false htype, Bool.false_and]
            exact iff_of_false (Option.some_ne_none _) Bool.false_ne_true

/-- What is lost where the decoders throw on the answer to a request. The front
    service has given up the request by then, so nobody calls its callback any
    more. -/
def dropped (n : Node) : Input → List Callback
  | .onPeerResponse uuid response =>
      if throwsOn cfg response then
        ((n.peerRequests.find? (fun r => r.uuid = uuid)).bind
          (fun r => r.onVerifyFinished)).toList.map OnVerifyFinished.callback
      else []
  | _ => []

/-- What the requests that an input begins have captured. Where the pool has
    everything no request is made, and the callback is called at once. -/
def begins (n : Node) : Input → List OnVerifyFinished
  | .asyncVerifyBlock callback _ data =>
      match cfg.framework.createBlock data with
      | none => []
      | some block =>
          if n.storage.batchVerifyProposal block = [] then []
          else [.verifyBlock callback block (n.storage.batchVerifyProposal block)]
  | .asyncFillBlock callback txsHash =>
      if (n.storage.fetchTxs txsHash).2 = [] then [] else [.fillBlock callback txsHash]
  | _ => []

/-- The account of one step. What waited and what the step begins are what it ends
    and what waits now; what the input gives and what is ended is what the step
    calls, what it drops, and what it has begun. -/
structure Accounts (n : Node) (input : Input) (after : Node × List Output)
    (ended : List OnVerifyFinished) : Prop where
  waiting : (n.waiting ++ n.begins cfg input).Perm (ended ++ after.1.waiting)
  called : (input.given cfg ++ ended.map OnVerifyFinished.callback).Perm
    (called after.2 ++ n.dropped cfg input ++ (n.begins cfg input).map OnVerifyFinished.callback)

/-- The account of a step that leaves the requests alone and neither is given a
    callback nor calls one. Most inputs are such. -/
theorem accounts_of_same {n : Node} {input : Input} {after : Node × List Output}
    (hledger : after.1.ledgerRequests.filterMap (fun r => r.onVerifyFinished)
      = n.ledgerRequests.filterMap (fun r => r.onVerifyFinished))
    (hpeer : after.1.peerRequests = n.peerRequests) (hgiven : input.given cfg = [])
    (hbegins : n.begins cfg input = []) (hdropped : n.dropped cfg input = [])
    (hcalled : BcosTxPool.called after.2 = []) : Accounts cfg n input after [] where
  waiting := by
    rw [hbegins, List.append_nil, List.nil_append, Node.waiting, Node.waiting, hledger, hpeer]
  called := by
    rw [hgiven, hbegins, hdropped, hcalled]
    exact List.Perm.refl _

/-! ### What waits -/

/-- A request to the ledger is taken off the list by its place: what waited is
    what it had captured, and the rest. -/
theorem waiting_closed {n : Node} {index : Nat} {r : LedgerRequest}
    (hrequest : n.ledgerRequests[index]? = some r) (s : MemoryStorage) :
    n.waiting.Perm (r.onVerifyFinished.toList ++
      waiting { n with storage := s, ledgerRequests := n.ledgerRequests.eraseIdx index }) := by
  have hperm := (perm_cons_eraseIdx hrequest).filterMap (fun r => r.onVerifyFinished)
  rw [filterMap_cons_toList] at hperm
  simp only [Node.waiting]
  rw [← List.append_assoc]
  exact hperm.append_right _

/-- A request to a peer is taken off by its number. All requests with that
    number are filtered out, and there is one such, since the node is
    consistent. -/
theorem waiting_answered {n : Node} (h : n.Consistent) {uuid : Uuid} {r : PeerRequest}
    (hrequest : n.peerRequests.find? (fun r => r.uuid = uuid) = some r) (s : MemoryStorage) :
    n.waiting.Perm (r.onVerifyFinished.toList ++ waiting { n with
      storage := s
      peerRequests := n.peerRequests.filter (fun r => r.uuid ≠ uuid) }) := by
  have hkey := List.find?_some hrequest
  have huuid : r.uuid = uuid := of_decide_eq_true hkey
  have hperm := (perm_cons_filter h.uuids (List.mem_of_find?_eq_some hrequest)).filterMap
    (fun r => r.onVerifyFinished)
  rw [huuid, filterMap_cons_toList] at hperm
  simp only [Node.waiting]
  refine (hperm.append_left _).trans ?_
  rw [← List.append_assoc, ← List.append_assoc]
  exact List.perm_append_comm.append_right _

/-- A new request to a peer waits behind all others. What it has captured counts
    as waiting from now on. -/
theorem waiting_passedOn (n : Node) (r : PeerRequest) (nextUuid : Uuid) :
    (r.onVerifyFinished.toList ++ n.waiting).Perm (waiting { n with
      peerRequests := n.peerRequests ++ [r]
      nextUuid := nextUuid }) := by
  have hlast := filterMap_cons_toList (fun r : PeerRequest => r.onVerifyFinished) r []
  rw [List.filterMap_nil, List.append_nil] at hlast
  simp only [Node.waiting]
  rw [List.filterMap_append, hlast, ← List.append_assoc _ _ r.onVerifyFinished.toList]
  exact List.perm_append_comm

/-- A new request to the ledger has captured something, which begins to wait. -/
theorem waiting_asked (n : Node) (r : LedgerRequest) {f : OnVerifyFinished}
    (hcaptured : r.onVerifyFinished = some f) :
    (n.waiting ++ [f]).Perm (waiting { n with ledgerRequests := n.ledgerRequests ++ [r] }) := by
  have hlast := filterMap_cons_toList (fun r : LedgerRequest => r.onVerifyFinished) r []
  rw [List.filterMap_nil, List.append_nil, hcaptured] at hlast
  simp only [Node.waiting]
  rw [List.filterMap_append, hlast, List.append_assoc, List.append_assoc]
  exact List.perm_append_comm.append_left _

/-! ### Steps -/

/-- The account of every step. A callback is called at once, begins to wait,
    goes on with its request, or ends its wait with a call or with an
    exception. -/
theorem nodeStep_accounts {n : Node} (h : n.Consistent) (input : Input) :
    ∃ ended, Accounts cfg n input (nodeStep cfg codec forwardPercent n input) ended := by
  have hstep := nodeStep_cases cfg codec forwardPercent h.missed input
  generalize nodeStep cfg codec forwardPercent n input = after at hstep ⊢
  cases hstep with
  | call op => exact ⟨[], accounts_of_same cfg rfl rfl rfl rfl rfl rfl⟩
  | received error uuid nodeID data => exact ⟨[], accounts_of_same cfg rfl rfl rfl rfl rfl rfl⟩
  -- An input that finds nothing to do. That it brings, begins and drops no callback
  -- is seen from the reason why it is ignored.
  | ignored hignores =>
      refine ⟨[], accounts_of_same cfg rfl rfl ?_ ?_ ?_ rfl⟩
      · cases hignores with
        | proposal hblock => simp only [Input.given, hblock, Option.isSome_none,
            Bool.false_eq_true, if_false]
        | _ => rfl
      · cases hignores with
        | proposal hblock => simp only [begins, hblock]
        | _ => rfl
      · cases hignores with
        | peer hrequest => simp only [dropped, hrequest, Option.bind_none, Option.toList_none,
            List.map_nil, ite_self]
        | _ => rfl
  | imported hquiet => exact ⟨[], accounts_of_same cfg rfl rfl rfl rfl rfl rfl⟩
  | gossiped hgossips =>
      exact ⟨[], accounts_of_same cfg rfl rfl rfl rfl rfl (called_sendPacket codec _)⟩
  | served hworker => exact ⟨[], accounts_of_same cfg rfl rfl rfl rfl rfl rfl⟩
  | announced hrequester hfiltered =>
      -- A request for an announcement has no callback.
      refine ⟨[], accounts_of_same cfg ?_ rfl rfl rfl rfl rfl⟩
      rw [List.filterMap_append]
      split
      · exact List.append_nil _
      · exact List.append_nil _
  | @verified callback generatedNodeID data block hblock hmissed =>
      have hbegins : n.begins cfg (.asyncVerifyBlock callback generatedNodeID data) = [] := by
        simp only [begins, hblock, hmissed, if_true]
      have hgiven : (Input.asyncVerifyBlock callback generatedNodeID data).given cfg
          = [.verifyBlock callback] := by
        simp only [Input.given, hblock, Option.isSome_some, if_true]
      -- The pool has all transactions, and the callback is called in the same step.
      refine ⟨[], ?_, ?_⟩
      · rw [hbegins, List.append_nil, List.nil_append]
      · rw [hgiven, hbegins, called_invoke]
        exact List.Perm.refl _
  | @verifying callback generatedNodeID data block hblock hmissed =>
      have hbegins : n.begins cfg (.asyncVerifyBlock callback generatedNodeID data)
          = [.verifyBlock callback block (n.storage.batchVerifyProposal block)] := by
        simp only [begins, hblock, hmissed, if_false]
      have hgiven : (Input.asyncVerifyBlock callback generatedNodeID data).given cfg
          = [.verifyBlock callback] := by
        simp only [Input.given, hblock, Option.isSome_some, if_true]
      -- The ledger is asked, and the callback begins to wait.
      refine ⟨[], ?_, ?_⟩
      · rw [hbegins, List.nil_append]
        exact waiting_asked n _ rfl
      · rw [hgiven, hbegins]
        exact List.Perm.refl _
  | @filled callback txsHash hmissed =>
      have hbegins : n.begins cfg (.asyncFillBlock callback txsHash) = [] := if_pos hmissed
      refine ⟨[], ?_, ?_⟩
      · rw [hbegins, List.append_nil, List.nil_append]
      · rw [hbegins]
        exact List.Perm.refl _
  | @filling callback txsHash hmissed =>
      have hbegins : n.begins cfg (.asyncFillBlock callback txsHash)
          = [.fillBlock callback txsHash] := if_neg hmissed
      refine ⟨[], ?_, ?_⟩
      · rw [hbegins, List.nil_append]
        exact waiting_asked n _ rfl
      · rw [hbegins]
        exact List.Perm.refl _
  | @ledgerVerdict index response r s left verdict hrequest hbrings hverdict =>
      -- The request is closed, and its callback is called.
      refine ⟨r.onVerifyFinished.toList, ?_, ?_⟩
      · simp only [begins, List.append_nil]
        exact waiting_closed hrequest s
      · simp only [called_invokeAll, Input.given, dropped, begins, List.map_nil, List.append_nil,
          List.nil_append]
        exact List.Perm.refl _
  | @ledgerPassedOn index response r s left generatedNodeID hrequest hbrings hleft hpeer =>
      -- It goes on to the peer, and what it has captured goes with it.
      refine ⟨[], ?_, List.Perm.refl _⟩
      simp only [begins, List.append_nil, List.nil_append]
      exact (waiting_closed hrequest s).trans (waiting_passedOn
        { n with storage := s, ledgerRequests := n.ledgerRequests.eraseIdx index }
        ⟨n.nextUuid, generatedNodeID, left, r.onVerifyFinished⟩ _)
  | @peerThrew uuid response r hrequest hthrew =>
      -- The exception takes the callback with it.
      have hthrows := (verifyFetchedTxs_eq_none_iff cfg n.storage response r.missedTxs _).mp hthrew
      refine ⟨r.onVerifyFinished.toList, ?_, ?_⟩
      · simp only [begins, List.append_nil]
        exact waiting_answered h hrequest n.storage
      · simp only [Input.given, dropped, hthrows, if_true, hrequest, Option.bind_some, begins,
          List.map_nil, List.append_nil, List.nil_append]
        exact List.Perm.refl _
  | @peerVerdict uuid response r s verdict hrequest hverify =>
      -- A verdict was reached, so the decoders did not throw and nothing is
      -- dropped.
      have hthrows : throwsOn cfg response = false := by
        rw [← Bool.not_eq_true, ← verifyFetchedTxs_eq_none_iff cfg n.storage response r.missedTxs
          (OnVerifyFinished.verifiedProposal r.onVerifyFinished), hverify]
        exact Option.some_ne_none _
      refine ⟨r.onVerifyFinished.toList, ?_, ?_⟩
      · simp only [begins, List.append_nil]
        exact waiting_answered h hrequest s
      · simp only [called_invokeAll, Input.given, dropped, hthrows, Bool.false_eq_true,
          if_false, begins, List.map_nil, List.append_nil, List.nil_append]
        exact List.Perm.refl _

/-! ### The requests under way -/

/-- What a step does to the requests under way. Questions to the ledger are
    added, or one is answered: it is closed, or it goes on as a request to a
    peer, which takes a new number and is sent. Or a request to a peer is
    answered. -/
inductive RequestStep (n : Node) (input : Input) (after : Node × List Output) : Prop where
  | asked {requests : List LedgerRequest} (hmissed : ∀ r ∈ requests, r.missedTxs ≠ [])
      (hledger : after.1.ledgerRequests = n.ledgerRequests ++ requests)
      (hpeer : after.1.peerRequests = n.peerRequests) (huuid : after.1.nextUuid = n.nextUuid)
      (hinput : ∀ uuid response, input = .onPeerResponse uuid response →
        ∀ r ∈ n.peerRequests, r.uuid ≠ uuid)
  | closed {index : Nat} {response : LedgerResponse}
      (hledger : after.1.ledgerRequests = n.ledgerRequests.eraseIdx index)
      (hpeer : after.1.peerRequests = n.peerRequests) (huuid : after.1.nextUuid = n.nextUuid)
      (hinput : input = .onLedgerResponse index response)
  | passedOn {index : Nat} {response : LedgerResponse} {r : PeerRequest} (hr : r.uuid = n.nextUuid)
      (hledger : after.1.ledgerRequests = n.ledgerRequests.eraseIdx index)
      (hpeer : after.1.peerRequests = n.peerRequests ++ [r])
      (huuid : after.1.nextUuid = n.nextUuid + 1)
      (hsent : after.2 = [.asyncSendMessage r.nodeID (some r.uuid)
        (codec.encodeTxsSyncMsg ⟨.txsRequestPacket, r.missedTxs, []⟩)])
      (hinput : input = .onLedgerResponse index response)
  | answered {uuid : Uuid} {response : FrontResponse}
      (hledger : after.1.ledgerRequests = n.ledgerRequests)
      (hpeer : after.1.peerRequests = n.peerRequests.filter (fun r => r.uuid ≠ uuid))
      (huuid : after.1.nextUuid = n.nextUuid) (hinput : input = .onPeerResponse uuid response)

/-- A step that leaves the requests alone. -/
theorem requestStep_of_same {n : Node} {input : Input} {after : Node × List Output}
    (hledger : after.1.ledgerRequests = n.ledgerRequests)
    (hpeer : after.1.peerRequests = n.peerRequests) (huuid : after.1.nextUuid = n.nextUuid)
    (hinput : ∀ uuid response, input = .onPeerResponse uuid response →
      ∀ r ∈ n.peerRequests, r.uuid ≠ uuid) : RequestStep codec n input after := by
  -- No question at all is a list of questions that are added.
  have hmissed : ∀ r ∈ ([] : List LedgerRequest), r.missedTxs ≠ [] :=
    fun _ hr => absurd hr List.not_mem_nil
  exact RequestStep.asked hmissed (hledger.trans (List.append_nil _).symm) hpeer huuid hinput

/-- Every step does one of these four to the requests under way. The inversion
    is that of `nodeStep`, read for the requests alone. -/
theorem nodeStep_requests {n : Node} (h : n.Consistent) (input : Input) :
    RequestStep codec n input (nodeStep cfg codec forwardPercent n input) := by
  have hstep := nodeStep_cases cfg codec forwardPercent h.missed input
  generalize nodeStep cfg codec forwardPercent n input = after at hstep ⊢
  cases hstep with
  -- An answer is ignored only where no request waits under its number.
  | ignored hignores =>
      refine requestStep_of_same codec rfl rfl rfl (fun uuid response hinput r hr => ?_)
      rw [hinput] at hignores
      cases hignores with
      | peer hrequest =>
          exact fun huuid => List.find?_eq_none.mp hrequest r hr (decide_eq_true huuid)
  -- A request for an announcement is made only where a hash is unknown.
  | announced hrequester hfiltered =>
      refine RequestStep.asked ?_ rfl rfl rfl (fun _ _ heq => by cases heq)
      intro r hr
      split at hr
      · exact absurd hr List.not_mem_nil
      · rename_i hnew
        rw [List.mem_singleton.mp hr]
        exact hnew
  | verifying hblock hmissed =>
      refine RequestStep.asked (fun r hr => ?_) rfl rfl rfl (fun _ _ heq => by cases heq)
      rw [List.mem_singleton.mp hr]
      exact hmissed
  | filling hmissed =>
      refine RequestStep.asked (fun r hr => ?_) rfl rfl rfl (fun _ _ heq => by cases heq)
      rw [List.mem_singleton.mp hr]
      exact hmissed
  | ledgerVerdict hrequest hbrings hverdict => exact RequestStep.closed rfl rfl rfl rfl
  | @ledgerPassedOn index response r s left generatedNodeID hrequest hbrings hleft hpeer =>
      exact RequestStep.passedOn (r := ⟨n.nextUuid, generatedNodeID, left, r.onVerifyFinished⟩)
        rfl rfl rfl rfl rfl rfl
  | peerThrew hrequest hthrew => exact RequestStep.answered rfl rfl rfl rfl
  | peerVerdict hrequest hverify => exact RequestStep.answered rfl rfl rfl rfl
  -- No other input touches a request.
  | _ => exact requestStep_of_same codec rfl rfl rfl (fun _ _ heq => by cases heq)

/-- Such a step keeps the node consistent. Requests that are taken away cannot
    break it, and the one that is added takes the number that was next. -/
theorem RequestStep.consistent {codec : Codec} {n : Node} {input : Input}
    {after : Node × List Output} (hstep : RequestStep codec n input after) (h : n.Consistent) :
    after.1.Consistent := by
  cases hstep with
  | asked hmissed hledger hpeer huuid hinput =>
      refine ⟨?_, hpeer ▸ h.uuids, hpeer ▸ huuid ▸ h.fresh⟩
      rw [hledger]
      exact fun r hr => (List.mem_append.mp hr).elim (h.missed r) (hmissed r)
  | closed hledger hpeer huuid hinput =>
      refine ⟨?_, hpeer ▸ h.uuids, hpeer ▸ huuid ▸ h.fresh⟩
      rw [hledger]
      exact fun r hr => h.missed r (List.mem_of_mem_eraseIdx hr)
  | @passedOn index response r hr hledger hpeer huuid hsent hinput =>
      refine ⟨?_, ?_, ?_⟩
      · rw [hledger]
        exact fun r hr => h.missed r (List.mem_of_mem_eraseIdx hr)
      · -- The number of the new request is larger than all others.
        rw [hpeer, List.map_append, List.nodup_append]
        refine ⟨h.uuids, List.nodup_singleton _, ?_⟩
        intro uuid huuid uuid' huuid' heq
        rcases List.mem_map.mp huuid with ⟨r', hr', rfl⟩
        rw [List.map_cons, List.map_nil, List.mem_singleton, hr] at huuid'
        exact Nat.lt_irrefl _ ((heq.trans huuid') ▸ h.fresh r' hr')
      · rw [hpeer, huuid]
        intro r' hr'
        rcases List.mem_append.mp hr' with hr' | hr'
        · exact Nat.lt_succ_of_lt (h.fresh r' hr')
        · rw [List.mem_singleton.mp hr', hr]
          exact Nat.lt_succ_self _
  | answered hledger hpeer huuid hinput =>
      refine ⟨hledger ▸ h.missed, ?_, ?_⟩
      · rw [hpeer]
        exact h.uuids.sublist (List.filter_sublist.map _)
      · rw [hpeer, huuid]
        exact fun r hr => h.fresh r (List.mem_of_mem_filter hr)

/-- One step of a node keeps it consistent, whatever the input. -/
theorem nodeNext_consistent {n : Node} (h : n.Consistent) (input : Input) :
    (nodeNext cfg codec forwardPercent n input).Consistent :=
  (nodeStep_requests cfg codec forwardPercent h input).consistent h

/-- A consistent node is consistent all along a run. -/
theorem along_consistent {n : Node} (h : n.Consistent) (inputs : List Input) :
    Along (nodeNext cfg codec forwardPercent) (fun n _ => n.Consistent) n inputs :=
  along_mono _ (fun _ _ hn => hn.2) inputs n
    (along_and_invariant _ (fun _ _ => True) Node.Consistent
      (fun _ input _ hn => nodeNext_consistent cfg codec forwardPercent hn input) inputs n
      (along_of_forall _ (fun _ _ => trivial) inputs n) h)

/-! ### Runs -/

/-- The callbacks that wait: those of the requests under way. -/
def waitingCallbacks (n : Node) : List Callback := n.waiting.map OnVerifyFinished.callback

/-- The callbacks of one step: those that waited and those given are those called,
    those dropped and those that wait now. -/
theorem nodeStep_callbacks {n : Node} (h : n.Consistent) (input : Input) :
    (n.waitingCallbacks ++ input.given cfg).Perm
      (called (nodeOutput cfg codec forwardPercent n input) ++ n.dropped cfg input ++
        (nodeNext cfg codec forwardPercent n input).waitingCallbacks) := by
  rcases nodeStep_accounts cfg codec forwardPercent h input with ⟨ended, hwaiting, hcalled⟩
  have hwaiting := hwaiting.map OnVerifyFinished.callback
  -- Both accounts are equations between multisets, and these may be added.
  rw [List.map_append, List.map_append, ← Multiset.coe_eq_coe, ← Multiset.coe_add,
    ← Multiset.coe_add] at hwaiting
  rw [← Multiset.coe_eq_coe, ← Multiset.coe_add, ← Multiset.coe_add, ← Multiset.coe_add]
    at hcalled ⊢
  -- What has ended, and what has begun, is on both sides of the two accounts together.
  have hsum := congrArg₂ (· + ·) hwaiting hcalled
  refine add_right_cancel (b := (↑((n.begins cfg input).map OnVerifyFinished.callback) +
    ↑(ended.map OnVerifyFinished.callback) : Multiset Callback)) ?_
  refine (add_add_add_comm _ _ _ _).trans (hsum.trans ?_)
  simp only [waitingCallbacks, nodeOutput, nodeNext]
  abel

end Node

/-- Over any run of a node, the callbacks that waited and those given since are
    those called, those lost to an answer that the decoders throw on, and those
    that wait now. So none is called twice. The callback of a proposal whose
    bytes do not decode is not counted as given, see `Input.given`: the
    exception leaves before it is looked at. -/
theorem callbacks_balanced (cfg : TxPoolConfig) (codec : Codec) (forwardPercent : Nat) {n : Node}
    (h : n.Consistent) (inputs : List Input) :
    (n.waitingCallbacks ++ inputs.flatMap (Input.given cfg)).Perm
      (called (gather (nodeNext cfg codec forwardPercent)
          (nodeOutput cfg codec forwardPercent) n inputs) ++
        gather (nodeNext cfg codec forwardPercent) (Node.dropped cfg) n inputs ++
        (run (nodeNext cfg codec forwardPercent) n inputs).waitingCallbacks) := by
  -- The account of one step is added up over the run, along which the node is
  -- consistent.
  have hbalance := gather_perm_spent (nodeNext cfg codec forwardPercent)
    (fun n input hn => Node.nodeStep_callbacks cfg codec forwardPercent hn input) n inputs
    (Node.along_consistent cfg codec forwardPercent h inputs)
  rw [gather_const] at hbalance
  refine hbalance.trans (List.Perm.append_right _ ?_)
  -- What a step calls and what it drops are gathered apart.
  refine (gather_append_perm _ _ _ inputs n).trans (List.Perm.append_right _ ?_)
  rw [called, filterMap_gather]
  exact List.Perm.refl _

/-- A node with an empty pool and nothing to do, from which the run below
    begins. -/
def idleNode : Node := { storage := TxPool.examplePool }

/-- Encoders that no answer of this run depends on. -/
def emptyCodec : Codec where
  encodeBlock _ := []
  encodeTxsSyncMsg _ := []

/-- A proposal whose transaction neither the pool nor the ledger has, and the
    peer's answer. The callback travels all the way. -/
def verdictByPeer : List Input :=
  [.asyncVerifyBlock 7 (some 2) [1], .onLedgerResponse 0 ⟨none, []⟩,
    .onPeerResponse 0 (TxPool.examplePeer 2 [1])]

/-- The callback is called by way of the peer, and the account is even. -/
theorem callbacks_balanced_example :
    called (gather (nodeNext TxPool.clearConfig emptyCodec 25)
        (nodeOutput TxPool.clearConfig emptyCodec 25) idleNode verdictByPeer)
        = [.verifyBlock 7] ∧
      ([] ++ [Callback.verifyBlock 7]).Perm
        (called (gather (nodeNext TxPool.clearConfig emptyCodec 25)
            (nodeOutput TxPool.clearConfig emptyCodec 25) idleNode verdictByPeer) ++
          gather (nodeNext TxPool.clearConfig emptyCodec 25) (Node.dropped TxPool.clearConfig)
            idleNode verdictByPeer ++
          (run (nodeNext TxPool.clearConfig emptyCodec 25) idleNode
            verdictByPeer).waitingCallbacks) :=
  ⟨by decide, callbacks_balanced TxPool.clearConfig emptyCodec 25 (n := idleNode)
    (Node.consistent_of_idle rfl rfl) verdictByPeer⟩

end BcosTxPool
