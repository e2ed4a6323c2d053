import SwFactory.Admission.Store

/-!
# Durable admission: operations

Each public operation of `DurableAdmission` is one `BEGIN IMMEDIATE`
transaction, so it is one function on the store; an exception rolls back, so it
returns no store.  `cancel` and `complete` start a second transaction, a drain,
after their own has committed: the functions here are their own transactions,
with a flag that says whether the drain follows.

`_inflight` lives in the memory of a process.  A function that reads it gets
the map of the calling process as an argument.
-/

namespace SwFactory
namespace Admission

open Text

section Capacity

/-- One row of `_held_members`. -/
structure HeldUnit where
  repo : String
  actor : String
  blueprint : String
deriving DecidableEq, Repr

/-- The member holds its unit. -/
def Member.isHeld (m : Member) : Bool :=
  decide (m.state = .held)

/-- The units one order contributes to the join of `_held_members`. -/
def Order.heldUnits (o : Order) : List HeldUnit :=
  if o.state.holding then
    (o.members.filter Member.isHeld).map
      (fun m => ⟨m.repo, o.actor, o.blueprint⟩)
  else []

/-- `_held_members`. -/
def Store.heldMembers (s : Store) : List HeldUnit :=
  s.orders.flatMap Order.heldUnits

/-- One entry of `_checks`. -/
structure Check where
  dimension : Dimension
  key : String
  current : Nat
  needed : Nat
  limit : Nat
deriving DecidableEq, Repr

/-- `_checks`. -/
def checks
    (limits : Limits) (repos : List String) (actor blueprint : String)
    (held : List HeldUnit) : List Check :=
  let wanted := if repos = [] then [""] else repos
  [⟨.global, "", held.length, wanted.length, limits.globalActive⟩] ++
    (wanted.dedup.insertionSort (· ≤ ·)).map (fun repo =>
      ⟨.repo, repo, held.countP (fun u => decide (u.repo = repo)),
        wanted.countP (fun r => decide (r = repo)), limits.perRepoActive⟩) ++
    [⟨.actor, actor, held.countP (fun u => decide (u.actor = actor)),
        wanted.length, limits.perActorActive⟩,
      ⟨.blueprint, blueprint,
        held.countP (fun u => decide (u.blueprint = blueprint)),
        wanted.length, limits.perBlueprintActive⟩]

/-- The check fails. -/
def Check.blocks (c : Check) : Bool :=
  decide (c.limit < c.current + c.needed)

/-- `_first_block`. -/
def firstBlock (cs : List Check) : Option CapacityBlock :=
  (cs.find? Check.blocks).map
    (fun c => ⟨c.dimension, c.current, c.limit, c.key⟩)

/-- `_capacity_block`. -/
def capacityBlock
    (limits : Limits) (s : Store) (repos : List String)
    (actor blueprint : String) : Option CapacityBlock :=
  firstBlock (checks limits repos actor blueprint s.heldMembers)

/-- `_impossible`. -/
def impossible
    (limits : Limits) (repos : List String) (actor blueprint : String) :
    Option CapacityBlock :=
  firstBlock (checks limits repos actor blueprint [])

/-- The block a rate limit replaces every other one with. -/
def rateLimited
    (throttle : Option String) (block : Option CapacityBlock) :
    Option CapacityBlock :=
  match throttle with
  | some text => some ⟨.rateLimit, 1, 0, text⟩
  | none => block

end Capacity

section Dispatch

/-- `DispatchIntent`. -/
structure DispatchIntent where
  workId : String
  attempt : Nat
  leaseToken : String
  order : WorkOrder
  members : List Member
deriving DecidableEq, Repr

/-- `_inflight`: the deliveries of one process, with their tokens. -/
abbrev Inflight := String → Option String

/-- `_open_dispatch`, on the dispatch row of an order. -/
def openDispatch : Option Dispatch → Dispatch
  | none => { attempt := 0, state := .pending }
  | some d => if d.state = .abandoned then { d with state := .pending } else d

/-- The guards of `_claim`: the attempt number it would take. -/
def claimable (inflight : Inflight) (now : Time) (o : Order) : Option Nat :=
  match o.dispatch with
  | none => none
  | some d =>
      if d.state = .delivered ∨ d.state = .abandoned ∨
          d.state = .undeliverable then none
      else if o.state ≠ .admitted ∧ o.state ≠ .dispatching then none
      else if (inflight o.workId).isSome then none
      else if o.state = .dispatching ∧
          d.leaseUntil.any (fun until_ => decide (now < until_)) then none
      else if maxDispatchAttempts < d.attempt + 1 then none
      else some (d.attempt + 1)

/-- What `_claim` writes. -/
def Order.claim
    (attempt : Nat) (token : String) (leaseUntil now : Time) (o : Order) :
    Order :=
  { o with
    state := .dispatching
    reason := "dispatching"
    updatedAt := now
    dispatch := o.dispatch.map (fun d =>
      { d with
        attempt := attempt
        state := .inflight
        leaseToken := some token
        leaseUntil := some leaseUntil }) }

/-- `_claim`; the answer carries the token for `_inflight`. -/
def claim
    (hashes : Hashes) (inflight : Inflight) (workId : String)
    (lease : Option Int) (now : Time) (s : Store) :
    Option DispatchIntent × Store :=
  match s.row workId with
  | none => (none, s)
  | some o =>
      match claimable inflight now o with
      | none => (none, s)
      | some attempt =>
          let token := hashes.leaseToken workId attempt now
          let leaseUntil := now + (lease.getD dispatchLease).toNat
          (some ⟨workId, attempt, token, o.order, o.members⟩,
            s.update workId
              (Order.claim attempt token leaseUntil now))

/-- The lease that `_assert_lease` looks for. -/
def Order.leasedTo (token : String) (o : Order) : Bool :=
  o.dispatch.any (fun d =>
    decide (d.leaseToken = some token ∧ d.state = .inflight))

/-- `_assert_lease`. -/
def assertLease (workId token : String) (s : Store) :
    Except AdmissionError Unit :=
  if (s.row workId).any (Order.leasedTo token) then .ok ()
  else .error (.leaseLost workId)

/-- `record_member_epoch`, on one order. -/
def Order.recordMemberEpoch (jobIdx epoch : Int) (o : Order) : Order :=
  { o with
    members := o.members.map (fun m =>
      if m.jobIdx = jobIdx then { m with cellEpoch := some epoch } else m) }

/-- `record_member_epoch`. -/
def recordMemberEpoch
    (workId : String) (jobIdx epoch : Int) (token : String) (s : Store) :
    Except AdmissionError Store := do
  if epoch < 1 then
    .error .epochNotPositive
  else
    assertLease workId token s
    let hits := ((s.row workId).map (fun o =>
      o.members.countP (fun m => decide (m.jobIdx = jobIdx)))).getD 0
    if hits ≠ 1 then
      .error (.keyError workId jobIdx)
    else
      .ok (s.update workId
        (Order.recordMemberEpoch jobIdx epoch))

/-- The first member in the order of `cell_id`. -/
def Order.firstCell (o : Order) : Option Member :=
  (o.members.insertionSort (fun a b => a.cellId ≤ b.cellId)).head?

/-- `record_dispatch`, on one order. -/
def Order.recordDispatch (dagRunId : String) (now : Time) (o : Order) :
    Order :=
  let delivered :=
    { o with
      dispatch := o.dispatch.map (fun d =>
        { d with
          state := .delivered
          leaseToken := none
          leaseUntil := none
          dagRunId := some dagRunId
          lastError := none }) }
  if o.state = .dispatching then
    { delivered with
      state := .bound
      reason := "dispatched"
      updatedAt := now
      cellEpoch := o.firstCell.bind Member.cellEpoch
      cellId := o.firstCell.map Member.cellId }
  else delivered

/-- The members that have no Factory Cell epoch. -/
def Order.missingEpochs (o : Order) : Nat :=
  o.members.countP (fun m => decide (m.cellEpoch = none))

/-- `record_dispatch`. -/
def recordDispatch
    (workId token dagRunId : String) (now : Time) (s : Store) :
    Except AdmissionError Store := do
  assertLease workId token s
  let missing := ((s.row workId).map Order.missingEpochs).getD 0
  if missing ≠ 0 then
    .error (.membersWithoutEpoch workId missing)
  else
    .ok (s.update workId
      (Order.recordDispatch dagRunId now))

/-- `release_dispatch`, on one order. -/
def Order.releaseDispatch
    (error : String) (observation : Option String) (now : Time) (o : Order) :
    Order :=
  let pending :=
    { o with
      dispatch := o.dispatch.map (fun d =>
        { d with
          state := .pending
          leaseToken := none
          leaseUntil := none
          lastError := some (truncate 2000 error)
          observation := observation }) }
  if o.state = .dispatching then
    { pending with
      state := .admitted
      reason := "dispatch_retry"
      updatedAt := now }
  else pending

/-- `release_dispatch`. -/
def releaseDispatch
    (workId token error : String) (observation : Option String) (now : Time)
    (s : Store) : Except AdmissionError Store := do
  assertLease workId token s
  .ok (s.update workId
    (Order.releaseDispatch error observation now))

/-- `mark_undeliverable`, on one order. -/
def Order.markUndeliverable
    (error : String) (observation : Option String) (now : Time) (o : Order) :
    Order :=
  let retired :=
    { o with
      dispatch := o.dispatch.map (fun d =>
        if d.state ≠ .delivered then
          { d with
            state := .undeliverable
            leaseToken := none
            leaseUntil := none
            lastError := some (truncate 2000 error)
            observation := observation }
        else d) }
  if o.state = .dispatching then
    { retired with
      state := .admitted
      reason := "undeliverable"
      updatedAt := now }
  else retired

/-- `mark_undeliverable`. -/
def markUndeliverable
    (workId error : String) (observation : Option String) (now : Time)
    (s : Store) : Store :=
  s.update workId
    (Order.markUndeliverable error observation now)

/-- `note_outcome`, on one order. -/
def Order.noteOutcome
    (error : String) (observation : Option String) (o : Order) : Order :=
  { o with
    dispatch := o.dispatch.map (fun d =>
      { d with
        lastError := some (truncate 2000 error)
        observation := observation }) }

/-- `note_outcome`. -/
def noteOutcome
    (workId error : String) (observation : Option String) (s : Store) :
    Store :=
  s.update workId
    (Order.noteOutcome error observation)

end Dispatch

section Closing

/-- `cancel`, on one order. -/
def Order.cancel (outcome : Terminal) (reason : String) (now : Time)
    (o : Order) : Order :=
  { o with
    state := .closed outcome
    reason := truncate 512 reason
    terminalAt := some now
    updatedAt := now
    members := o.members.map (fun m =>
      if m.state = .held then { m with state := .ended outcome } else m)
    dispatch := o.dispatch.map (fun d =>
      if d.state ≠ .delivered then
        { d with
          state := .abandoned
          leaseToken := none
          leaseUntil := none
          lastError := some (truncate 512 reason) }
      else d) }

/-- The transaction of `cancel`; the flag says whether it had an effect. -/
def cancel
    (workId reason state : String) (now : Time) (s : Store) :
    Except AdmissionError (Bool × Store) :=
  match Terminal.parse state with
  | none => .error .cancelNotTerminal
  | some outcome =>
      if s.rowcount workId (fun o => o.state.cancellable) ≠ 1 then
        .ok (false, s)
      else
        .ok (true, s.updateWhere workId (fun o => o.state.cancellable)
          (Order.cancel outcome reason now))

/-- The member that a completion names, while it holds its unit. -/
def Member.matches_ (cellId : String) (epoch : Int) (m : Member) : Bool :=
  decide (m.cellId = cellId ∧ m.cellEpoch = some epoch ∧ m.state = .held)

/-- The first `UPDATE` of `complete`, on one order. -/
def Order.endMember
    (cellId : String) (epoch : Int) (outcome : Terminal) (o : Order) :
    Order :=
  { o with
    members := o.members.map (fun m =>
      if m.matches_ cellId epoch then { m with state := .ended outcome }
      else m) }

/-- The states its members have ended in. -/
def Order.outcomes (o : Order) : List Terminal :=
  o.members.filterMap (fun m =>
    match m.state with
    | .held => none
    | .ended outcome => some outcome)

/-- The members that still hold a unit. -/
def Order.remaining (o : Order) : Nat :=
  o.members.countP Member.isHeld

/-- What `complete` writes to the order row behind the member. -/
def Order.settle (now : Time) (o : Order) : Order :=
  if o.remaining ≠ 0 then
    { o with reason := "member_terminal", updatedAt := now }
  else if o.state.holding then
    { o with
      state := .closed (Terminal.worst o.outcomes)
      reason := "members_terminal"
      terminalAt := some now
      updatedAt := now }
  else o

/-- The transaction of `complete`; the flag says whether a drain follows. -/
def complete
    (workId cellId : String) (epoch : Int) (state : String) (now : Time)
    (s : Store) : Except AdmissionError (Bool × Store) :=
  match Terminal.parse state with
  | none => .error .completeNotTerminal
  | some outcome =>
      let hits := ((s.row workId).map (fun o =>
        o.members.countP (Member.matches_ cellId epoch))).getD 0
      let ended := s.update workId
        (Order.endMember cellId epoch outcome)
      if hits ≠ 1 then .ok (false, ended)
      else
        .ok (((ended.row workId).map Order.remaining).getD 0 = 0,
          ended.update workId (Order.settle now))

end Closing

end Admission
end SwFactory
