import Mathlib.Data.List.Sort
import SwFactory.Text
import SwFactory.Machine.Tables

/-!
# Durable admission: the store

The data model of `durable_admission.py`.  The tables `admission_work`,
`admission_order`, `admission_members` and `admission_dispatch` share the key
`work_id`; the first three rows of an order are inserted in one transaction and
none is ever deleted, so an order is one record with its members and, once it
has one, its dispatch row.  The orders of a store stand in the order of their
insertion.

Clock readings are natural numbers.  SHA-256 enters through `Hashes`: the
request digest, the synthetic key of an order over several repositories, and
the lease token of a delivery attempt.
-/

namespace SwFactory
namespace Admission

open Text Machine

/-- `Priority`, most urgent first. -/
inductive Priority
  | hotfix
  | manual
  | normal
  | background
deriving DecidableEq, Repr

namespace Priority

/-- `int(priority)`. -/
def toNat : Priority → Nat
  | hotfix => 0
  | manual => 10
  | normal => 20
  | background => 30

/-- `WEIGHTS`. -/
def weight : Priority → Nat
  | hotfix => 8
  | manual => 4
  | normal => 2
  | background => 1

/-- `Priority` as it is iterated. -/
def all : List Priority :=
  [hotfix, manual, normal, background]

end Priority

/-- `Limits`. -/
structure Limits where
  globalActive : Nat := 64
  perRepoActive : Nat := 8
  perActorActive : Nat := 8
  perBlueprintActive : Nat := 32
  queueSize : Nat := 4096
deriving DecidableEq, Repr

/-- `TERMINAL_STATES`. -/
inductive Terminal
  | success
  | failed
  | cancelled
  | rejected
  | cleaned
deriving DecidableEq, Repr

namespace Terminal

/-- The name a caller gives a terminal state by. -/
def parse (name : String) : Option Terminal :=
  if name = "success" then some success
  else if name = "failed" then some failed
  else if name = "cancelled" then some cancelled
  else if name = "rejected" then some rejected
  else if name = "cleaned" then some cleaned
  else none

/-- `TERMINAL_PRECEDENCE`. -/
def precedence : List Terminal :=
  [rejected, failed, cancelled, cleaned, success]

/-- `_worst`. -/
def worst (states : List Terminal) : Terminal :=
  (precedence.find? (fun candidate => states.contains candidate)).getD success

end Terminal

/-- The state of an order. -/
inductive OrderState
  | queued
  | admitted
  | dispatching
  | bound
  | closed (outcome : Terminal)
deriving DecidableEq, Repr

/-- `HOLDING_STATES`. -/
def OrderState.holding : OrderState → Bool
  | admitted | dispatching | bound => true
  | queued | closed _ => false

/-- The states that `cancel` accepts. -/
def OrderState.cancellable : OrderState → Bool
  | queued | admitted | dispatching => true
  | bound | closed _ => false

/-- The state of a member: it holds its unit or has ended. -/
inductive MemberState
  | held
  | ended (outcome : Terminal)
deriving DecidableEq, Repr

/-- `MemberSpec`. -/
structure MemberSpec where
  jobIdx : Int
  repo : String
  cellId : String
deriving DecidableEq, Repr

/-- One row of `admission_members`. -/
structure Member where
  jobIdx : Int
  repo : String
  cellId : String
  cellEpoch : Option Int
  state : MemberState
deriving DecidableEq, Repr

/-- The state of a dispatch row. -/
inductive DispatchState
  | pending
  | inflight
  | delivered
  | abandoned
  | undeliverable
deriving DecidableEq, Repr

/-- One row of `admission_dispatch`. -/
structure Dispatch where
  attempt : Nat
  state : DispatchState
  leaseToken : Option String := none
  leaseUntil : Option Time := none
  dagRunId : Option String := none
  lastError : Option String := none
  observation : Option String := none
deriving DecidableEq, Repr

/-- The dimensions of a capacity decision. -/
inductive Dimension
  | global
  | repo
  | actor
  | blueprint
  | rateLimit
  | queue
deriving DecidableEq, Repr

/-- `CapacityBlock`. -/
structure CapacityBlock where
  dimension : Dimension
  current : Nat
  limit : Nat
  key : String := ""
deriving DecidableEq, Repr

/-- The immutable payload: its declared version and its canonical text. -/
structure Payload where
  schemaVersion : Int
  text : String
deriving DecidableEq, Repr

/-- `WorkOrder`. -/
structure WorkOrder where
  workId : String
  schemaVersion : Nat
  requestDigest : String
  payload : Payload
  createdAt : Time
deriving DecidableEq, Repr

/-- One work order with its rows in all tables. -/
structure Order where
  workId : String
  repo : String
  actor : String
  blueprint : String
  priority : Priority
  sequence : Nat
  state : OrderState
  reason : String
  limiting : Option CapacityBlock
  cellId : Option String
  cellEpoch : Option Int
  enqueuedAt : Time
  admittedAt : Option Time
  terminalAt : Option Time
  updatedAt : Time
  order : WorkOrder
  members : List Member
  dispatch : Option Dispatch
deriving DecidableEq, Repr

/-- One row of `admission_fairness`. -/
structure Fairness where
  deficit : Nat := 0
  served : Nat := 0
deriving DecidableEq, Repr

/-- The scope of a throttle. -/
inductive ThrottleScope
  | global
  | repo
  | other (name : String)
deriving DecidableEq, Repr

/-- The scope as the column spells it. -/
def ThrottleScope.name : ThrottleScope → String
  | global => "global"
  | repo => "repo"
  | other name => name

/-- One row of `admission_throttles`. -/
structure Throttle where
  scope : ThrottleScope
  scopeKey : String
  reason : String
  untilAt : Time
deriving DecidableEq, Repr

/-- The database. -/
structure Store where
  orders : List Order := []
  sequence : Nat := 0
  fairness : Priority → Fairness := fun _ => {}
  throttles : List Throttle := []

/-- What SHA-256 is used for. -/
structure Hashes where
  requestDigest : Payload → String
  multiRepoKey : List String → String
  leaseToken : String → Nat → Time → String

/-- What a store raises, one constructor per message. -/
inductive AdmissionError
  /-- a work order must declare at least one capacity member -/
  | noMembers
  /-- work order members must be unique by job index and Factory Cell -/
  | membersNotUnique
  /-- work order payload must declare schema_version 1 -/
  | schemaVersion
  /-- cancellation must end in a terminal state -/
  | cancelNotTerminal
  /-- non-terminal completion state -/
  | completeNotTerminal
  /-- epoch must be positive -/
  | epochNotPositive
  | workOrderConflict (workId : String)
  /-- the dispatch lease is no longer held -/
  | leaseLost (workId : String)
  /-- members have no Factory Cell epoch -/
  | membersWithoutEpoch (workId : String) (missing : Nat)
  | keyError (workId : String) (jobIdx : Int)
deriving DecidableEq, Repr

/-- `WORK_ORDER_SCHEMA`. -/
def workOrderSchema : Nat := 1

/-- `DISPATCH_LEASE_S`. -/
def dispatchLease : Int := 300

/-- `MAX_DISPATCH_ATTEMPTS`. -/
def maxDispatchAttempts : Nat := 5

namespace Store

variable (s : Store)

/-- `_row`. -/
def row (workId : String) : Option Order :=
  lookup Order.workId workId s.orders

/-- `UPDATE ... WHERE work_id=?`. -/
def update (workId : String) (f : Order → Order) : Store :=
  { s with orders := updateRows Order.workId workId f s.orders }

/-- `UPDATE ... WHERE work_id=? AND guard`. -/
def updateWhere
    (workId : String) (guard : Order → Bool) (f : Order → Order) : Store :=
  s.update workId (fun o => if guard o then f o else o)

/-- The `rowcount` of such an `UPDATE`. -/
def rowcount (workId : String) (guard : Order → Bool) : Nat :=
  s.orders.countP (fun o => decide (o.workId = workId ∧ guard o))

/-- `_count("queued")`. -/
def countQueued : Nat :=
  s.orders.countP (fun o => decide (o.state = .queued))

/-- The order `ORDER BY priority,sequence`. -/
def before (a b : Order) : Prop :=
  a.priority.toNat < b.priority.toNat ∨
    (a.priority.toNat = b.priority.toNat ∧ a.sequence ≤ b.sequence)

instance : DecidableRel before :=
  fun _ _ => inferInstanceAs (Decidable (_ ∨ _))

/-- `_queued_rows`. -/
def queuedRows : List Order :=
  (s.orders.filter (fun o => decide (o.state = .queued))).insertionSort before

/-- `_position`. -/
def position (workId : String) : Option Nat :=
  (s.queuedRows.findIdx? (fun o => o.workId = workId)).map (· + 1)

/-- `_any_other_candidate`. -/
def anyOtherCandidate (workId : String) : Bool :=
  s.orders.any (fun o => decide (o.state = .queued ∧ o.workId ≠ workId))

/-- `_next_sequence`. -/
def nextSequence : Nat × Store :=
  (s.sequence + 1, { s with sequence := s.sequence + 1 })

/-- `_throttle`: expired rows are deleted before the table is read. -/
def throttle (repo : String) (now : Time) : Option String × Store :=
  let live := s.throttles.filter (fun t => decide (now < t.untilAt))
  let hit := live.find? (fun t =>
    decide (t.scope = .global ∨ (t.scope = .repo ∧ t.scopeKey = repo)))
  (hit.map (fun t => t.scope.name ++ ":" ++ t.scopeKey ++ ":" ++ t.reason),
    { s with throttles := live })

end Store

end Admission
end SwFactory
