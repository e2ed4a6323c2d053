import SwFactory.Admission.Operations

/-!
# Durable admission: submission and draining

`submit` records an order and admits it at once when its units fit; `drain`
admits queued orders by weighted deficit round-robin over the priority classes.
Both inspect the held units and reserve new ones inside one transaction.

An operation that reads the clock several times gets the readings as a
function of their number.
-/

namespace SwFactory
namespace Admission

open Text

/-- The successive readings of the clock within one operation. -/
abbrev Clock := Nat → Time

section Draining

/-- The classes that have queued orders. -/
def Store.available (s : Store) : List Priority :=
  Priority.all.filter (fun p =>
    s.queuedRows.any (fun o => decide (o.priority = p)))

/-- `by_priority[p]`: the queue of one class. -/
def Store.classRows (s : Store) (p : Priority) : List Order :=
  s.queuedRows.filter (fun o => decide (o.priority = p))

/-- A class of `available` may be served. -/
def Store.credit (s : Store) (p : Priority) : Bool :=
  decide (0 < (s.fairness p).deficit)

/-- The credit that `_next_fair_candidate` hands out when none is left. -/
def Store.topUp (s : Store) : Store :=
  if s.available.any s.credit then s
  else
    { s with
      fairness := fun p =>
        if p ∈ s.available then
          { s.fairness p with deficit := (s.fairness p).deficit + p.weight }
        else s.fairness p }

/--
The class `_next_fair_candidate` selects: the classes are compared by
`int(p)` first, which no two share, so it is the first one with credit.
-/
def Store.selectedClass (s : Store) : Option Priority :=
  s.available.find? s.topUp.credit

/-- `_next_fair_candidate`. -/
def nextFairCandidate (s : Store) : Option Order × Store :=
  if s.queuedRows = [] then (none, s)
  else (s.selectedClass.bind (fun p => (s.classRows p).head?), s.topUp)

/-- `_record_service`. -/
def recordService (p : Priority) (s : Store) : Store :=
  { s with
    fairness := fun q =>
      if q = p then
        { deficit := (s.fairness q).deficit - 1
          served := (s.fairness q).served + 1 }
      else s.fairness q }

/-- `_set_limiting`. -/
def setLimiting (workId : String) (block : CapacityBlock) (now : Time)
    (s : Store) : Store :=
  s.update workId
    (fun o => { o with limiting := some block, updatedAt := now })

/-- `_defer_sequence`. -/
def deferSequence (workId : String) (now : Time) (s : Store) : Store :=
  s.nextSequence.2.updateWhere workId (fun o => decide (o.state = .queued))
    (fun o => { o with sequence := s.nextSequence.1, updatedAt := now })

/-- What `drain` writes to the order it admits, `_open_dispatch` included. -/
def Order.drain (now : Time) (o : Order) : Order :=
  { o with
    state := .admitted
    reason := "drained"
    limiting := none
    admittedAt := some now
    updatedAt := now
    dispatch := some (openDispatch o.dispatch) }

/-- What one turn of the loop of `drain` came to. -/
inductive Pass
  | stopped
  | deferred
  | admitted (workId : String)
deriving DecidableEq, Repr

/-- The block that `drain` and `submit` see, the rate limit included. -/
def blockOf
    (limits : Limits) (s : Store) (repos : List String)
    (repoKey actor blueprint : String) (now : Time) :
    Option CapacityBlock × Store :=
  let block := capacityBlock limits s repos actor blueprint
  let throttled := s.throttle repoKey now
  (rateLimited throttled.1 block, throttled.2)

/-- One turn of the loop of `drain`. -/
def drainOnce (limits : Limits) (clock : Clock) (s : Store) : Pass × Store :=
  match nextFairCandidate s with
  | (none, s) => (.stopped, s)
  | (some item, s) =>
      match blockOf limits s (item.members.map Member.repo) item.repo
        item.actor item.blueprint (clock 0) with
      | (some block, s) =>
          let limited := setLimiting item.workId block (clock 1) s
          if limited.anyOtherCandidate item.workId then
            (.deferred, deferSequence item.workId (clock 2) limited)
          else (.stopped, limited)
      | (none, s) =>
          let queued := fun (o : Order) => decide (o.state = .queued)
          let taken :=
            s.updateWhere item.workId queued (Order.drain (clock 1))
          if s.rowcount item.workId queued = 1 then
            (.admitted item.workId, recordService item.priority taken)
          else (.deferred, taken)

/-- The loop of `drain`; a turn reads the clock at most three times. -/
def drainLoop (limits : Limits) (clock : Clock) :
    Nat → Store → List String × Store
  | 0, s => ([], s)
  | turns + 1, s =>
      let rest := fun s' =>
        drainLoop limits (fun n => clock (n + 3)) turns s'
      match drainOnce limits clock s with
      | (.stopped, s') => ([], s')
      | (.deferred, s') => rest s'
      | (.admitted workId, s') =>
          let out := rest s'
          (workId :: out.1, out.2)

/-- `drain`. -/
def drain (limits : Limits) (limit : Option Int) (clock : Clock)
    (s : Store) : List String × Store :=
  drainLoop limits clock (limit.getD limits.globalActive).toNat s

/-- The whole of `cancel`: its transaction, then the drain. -/
def cancelAndDrain
    (limits : Limits) (workId reason state : String) (clock : Clock)
    (s : Store) : Except AdmissionError (List String × Store) := do
  let (effective, s) ← cancel workId reason state (clock 0) s
  if effective then .ok (drain limits none (fun n => clock (n + 1)) s)
  else .ok ([], s)

/-- The whole of `complete`: its transaction, then the drain. -/
def completeAndDrain
    (limits : Limits) (workId cellId : String) (epoch : Int) (state : String)
    (clock : Clock) (s : Store) :
    Except AdmissionError (List String × Store) := do
  let (last, s) ← complete workId cellId epoch state (clock 0) s
  if last then .ok (drain limits none (fun n => clock (n + 1)) s)
  else .ok ([], s)

end Draining

section Submission

/-- The arguments of `submit`. -/
structure Submission where
  workId : String
  actor : String
  blueprint : String
  order : Payload
  members : List MemberSpec
  priority : Priority := .normal
deriving DecidableEq, Repr

/-- `AdmissionDecision`; a refusal is the state `rejected`. -/
structure AdmissionDecision where
  state : OrderState
  reason : String
  position : Option Nat := none
  limiting : Option CapacityBlock := none
  intent : Option DispatchIntent := none
deriving DecidableEq, Repr

/-- `len(set(values)) != len(values)`. -/
def repeats {α : Type} [DecidableEq α] (values : List α) : Bool :=
  decide (values.dedup.length ≠ values.length)

/-- The checks of `submit` in front of its transaction. -/
def validateSubmission (args : Submission) : Except AdmissionError Unit :=
  if args.members = [] then .error .noMembers
  else if repeats (args.members.map MemberSpec.jobIdx) ||
      repeats (args.members.map MemberSpec.cellId) then
    .error .membersNotUnique
  else if args.order.schemaVersion ≠ workOrderSchema then
    .error .schemaVersion
  else .ok ()

/-- `sorted(m.repo for m in members)`. -/
def Submission.repos (args : Submission) : List String :=
  (args.members.map MemberSpec.repo).insertionSort (· ≤ ·)

/-- The display key of an order. -/
def Submission.repoKey (hashes : Hashes) (args : Submission) : String :=
  if args.repos.dedup.length = 1 then args.repos.headD ""
  else hashes.multiRepoKey args.repos

/-- The rows that `submit` inserts for its members. -/
def Submission.memberRows (args : Submission) : List Member :=
  (args.members.insertionSort (fun a b => a.jobIdx ≤ b.jobIdx)).map
    (fun m => ⟨m.jobIdx, m.repo, m.cellId, none, .held⟩)

/-- The rows that `submit` inserts for an order. -/
def Submission.rows
    (hashes : Hashes) (args : Submission) (block : Option CapacityBlock)
    (sequence : Nat) (now : Time) : Order where
  workId := args.workId
  repo := args.repoKey hashes
  actor := args.actor
  blueprint := args.blueprint
  priority := args.priority
  sequence := sequence
  state := if block.isSome then .queued else .admitted
  reason := if block.isSome then "capacity" else "admitted"
  limiting := block
  cellId :=
    ((args.members.map MemberSpec.cellId).insertionSort (· ≤ ·)).head?
  cellEpoch := none
  enqueuedAt := now
  admittedAt := if block.isSome then none else some now
  terminalAt := none
  updatedAt := now
  order :=
    ⟨args.workId, workOrderSchema, hashes.requestDigest args.order,
      args.order, now⟩
  members := args.memberRows
  dispatch := if block.isSome then none else some (openDispatch none)

/-- The answer to a work id that is known already. -/
def duplicate (s : Store) (workId : String) :
    OrderState → AdmissionDecision
  | .queued =>
      { state := .queued
        reason := "duplicate_queued"
        position := s.position workId }
  | .admitted => { state := .admitted, reason := "duplicate_admitted" }
  | .dispatching =>
      { state := .dispatching, reason := "duplicate_dispatching" }
  | .bound => { state := .bound, reason := "duplicate_bound" }
  | .closed outcome =>
      { state := .closed outcome, reason := "duplicate_terminal" }

/-- The `INSERT`s of `submit`. -/
def Submission.insert
    (hashes : Hashes) (args : Submission) (block : Option CapacityBlock)
    (now : Time) (s : Store) : Store :=
  let (sequence, s) := s.nextSequence
  { s with orders := s.orders ++ [args.rows hashes block sequence now] }

/-- The rest of `submit`: the rows, then the claim or the position. -/
def enqueue
    (hashes : Hashes) (inflight : Inflight) (args : Submission)
    (block : Option CapacityBlock) (clock : Clock) (s : Store) :
    AdmissionDecision × Store :=
  let s := args.insert hashes block (clock 0) s
  match block with
  | none =>
      let claimed := claim hashes inflight args.workId none (clock 2) s
      ({ state := .admitted
         reason := "admitted"
         intent := claimed.1 }, claimed.2)
  | some block =>
      ({ state := .queued
         reason := "capacity"
         position := s.position args.workId
         limiting := some block }, s)

/-- `submit`. -/
def submit
    (hashes : Hashes) (limits : Limits) (inflight : Inflight)
    (args : Submission) (clock : Clock) (s : Store) :
    Except AdmissionError (AdmissionDecision × Store) := do
  validateSubmission args
  match s.row args.workId with
  | some existing =>
      if existing.order.requestDigest ≠ hashes.requestDigest args.order then
        .error (.workOrderConflict args.workId)
      else .ok (duplicate s args.workId existing.state, s)
  | none =>
      match impossible limits args.repos args.actor args.blueprint with
      | some block =>
          .ok ({ state := .closed .rejected
                 reason := "capacity_impossible"
                 limiting := some block }, s)
      | none =>
          let (block, s) := blockOf limits s args.repos (args.repoKey hashes)
            args.actor args.blueprint (clock 1)
          if block.isSome && decide (limits.queueSize ≤ s.countQueued) then
            .ok ({ state := .closed .rejected
                   reason := "queue_full"
                   limiting := some
                     ⟨.queue, s.countQueued, limits.queueSize, ""⟩ }, s)
          else .ok (enqueue hashes inflight args block clock s)

end Submission

end Admission
end SwFactory
