import SwFactory.Identities.Ids
import SwFactory.Lexical.Utf8
import SwFactory.Machine.Logs
import SwFactory.Rollup.Views

/-!
# Answering a gate

`answer` re-reads a gate before it writes: the evidence is compared with what
was reviewed, the gate has to be parked, and a young gate is waited for and
read once more.  Reads, clocks, the count of the sightings, the wait and the
write are statements; any answer may come.

Sources: `gates.rs` (`answer`, `read`, `pending_gate`, `age_of`) and `model.rs`
(`Gate`).
-/

namespace SwFactory
namespace Batch

open Identities
open Lexical
open Machine
open Rollup

inductive ErrorKind
  | operational
  | usage
  | notFound
  | auth
  | unreachable
  | conflict
  | cancelled
deriving DecidableEq, Repr

structure OpsError where
  kind : ErrorKind
  message : String
deriving DecidableEq, Repr

/-- A pending gate; `createdAt` in milliseconds of the server's clock. -/
structure Gate where
  dagId : Str
  runId : Str
  taskId : Str
  mapIndex : I32
  subject : String
  body : String
  createdAt : Option Int
  options : List String
  ready : Bool
deriving DecidableEq

def Gate.run (gate : Gate) : RunRef :=
  ⟨gate.dagId, gate.runId⟩

def Gate.id (gate : Gate) : GateId :=
  ⟨⟨gate.dagId, gate.runId, gate.mapIndex⟩, gate.taskId⟩

/-- `Gate::accepts` -/
def Gate.accepts (gate : Gate) (choice : String) : Bool :=
  gate.options.isEmpty || gate.options.any (· == choice)

/-- `Gate::age_at`; a creation in the future reads as zero. -/
def Gate.ageAt (gate : Gate) (now : Int) : Option Nat :=
  gate.createdAt.map (fun created => (now - created).toNat)

/-- The octets of a text. -/
def octets (text : String) : List Nat :=
  Utf8.encode (text.toList.map Char.toNat)

/-- `{n:016x}` -/
def hex16 (n : Nat) : String :=
  let digits := Nat.toDigits 16 n
  String.ofList (List.replicate (16 - digits.length) '0' ++ digits)

/-- `Gate::revision_of`: FNV-1a over the evidence. -/
def revisionOf (subject body : String) : String :=
  hex16 ((octets subject ++ 0x1f :: octets body).foldl
    (fun hash byte => (hash ^^^ byte) * 0x00000100000001b3 % 2 ^ 64) 0xcbf29ce484222325)

inductive Decision
  | approve
  | reject
deriving DecidableEq, Repr

def Decision.word : Decision → String
  | .approve => "Approve"
  | .reject => "Reject"

def Decision.approves (decision : Decision) : Bool :=
  decision == .approve

/-- How often a gate was seen parked, and for how long. -/
structure Seen where
  count : Nat
  settled : Nat
deriving DecidableEq, Repr

structure AnswerOpts where
  expect : Option String
  force : Bool
  confirmDelay : Option Nat
deriving DecidableEq, Repr

structure GateAnswer where
  id : GateId
  decision : Decision
  revision : String
  forced : Bool
  sightings : Nat
deriving DecidableEq

/-- How the console renders what it is given, and the window that it settles for. -/
structure Console where
  sanitizeLine : String → String
  sanitizeBlock : String → String
  /-- `{text:?}` -/
  debug : String → String
  settleWindow : Nat

/-- `NOT_READY` -/
def notReady : String :=
  "is not ready"

/-- `REQUIRED_SIGHTINGS` -/
def requiredSightings : Nat :=
  2

/-- `is_gate_parked` -/
def isGateParked (state : String) : Bool :=
  ["awaiting_input", "deferred"].contains state

/-- The task instance is the one of the gate. -/
def Gate.isOf (gate : Gate) (task : TaskState) : Bool :=
  task.taskId.toList == gate.taskId && task.mapIndex == gate.mapIndex.1

def isReady (gate : Gate) (tasks : List TaskState) : Bool :=
  tasks.any (fun task => gate.isOf task && isGateParked (Rust.stateOrNone task))

def taskStateOf (gate : Gate) (tasks : List TaskState) : String :=
  ((tasks.find? gate.isOf).map Rust.stateOrNone).getD "unknown"

/-! ## The statements -/

inductive Stmt
  | pendingGates
  | taskStates (run : RunRef)
  | record (id : GateId)
  | serverNow
  /-- Sleep; the answer says whether the call was cancelled meanwhile. -/
  | wait (duration : Nat)
  | respond (id : GateId) (approve : Bool)
  | forget (id : GateId)
deriving DecidableEq

def Reply : Stmt → Type
  | .pendingGates => Except OpsError (List Gate)
  | .taskStates _ => Except OpsError (List TaskState)
  | .record _ => Seen
  | .serverNow => Int
  | .wait _ => Bool
  | .respond _ _ => Except OpsError Unit
  | .forget _ => Unit

abbrev Call (α : Type) : Type :=
  Prog Stmt Reply OpsError α

abbrev Log : Type :=
  List (Event Stmt Reply)

/-- A request whose failure ends the call. -/
def request {α : Type} (stmt : Stmt) (reply : Reply stmt → Except OpsError α) : Call α :=
  .step stmt (fun r => .ofExcept (reply r))

section Calls

variable (console : Console)

def opsError (kind : ErrorKind) (message : String) : OpsError :=
  ⟨kind, console.sanitizeLine message⟩

/-- The revision of what is shown of a gate. -/
def shownRevision (gate : Gate) : String :=
  revisionOf (console.sanitizeLine gate.subject) (console.sanitizeBlock gate.body)

def idText (id : GateId) : String :=
  String.ofList id.display

/-- `not_pending` -/
def notPending (id : GateId) (pending : List Gate) : OpsError :=
  if pending.any (fun gate => gate.run == id.job.run) then
    opsError console .conflict
      (idText id ++ " is no longer waiting for an answer; someone answered it first")
  else
    opsError console .notFound ("no gate " ++ idText id ++ " is waiting for an answer")

/-- `pending_gate` -/
def pendingGate (id : GateId) : Call (Gate × List TaskState) :=
  request .pendingGates (fun listing => listing) >>= fun (rows : List Gate) =>
    match rows.find? (fun gate => gate.id = id) with
    | none => .raise (notPending console id rows)
    | some gate =>
        .step (.taskStates id.job.run) (fun (tasks : Except OpsError (List TaskState)) =>
          .ret (gate, tasks.toOption.getD []))

/-- The gate, whether it is parked, and the state of its task instance. -/
def read (id : GateId) : Call (Gate × Bool × String) :=
  pendingGate console id >>= fun found =>
    .ret (found.1, isReady found.1 found.2, taskStateOf found.1 found.2)

/-- `age_of` -/
def ageOf (gate : Gate) (seen : Seen) : Call Nat :=
  .step .serverNow (fun (now : Int) => .ret ((gate.ageAt now).getD seen.settled))

def changedSinceReview (id : GateId) (expected revision : String) : OpsError :=
  opsError console .conflict
    ("the evidence for " ++ idText id ++ " changed since it was reviewed (reviewed " ++
      expected ++ ", now " ++ revision ++ ")")

def notAccepted (id : GateId) (decision : Decision) (gate : Gate) : OpsError :=
  opsError console .operational
    (idText id ++ " does not accept " ++ console.debug decision.word ++ "; it offers " ++
      ", ".intercalate gate.options)

def notAwaiting (id : GateId) (state : String) : OpsError :=
  opsError console .operational
    (idText id ++ " " ++ notReady ++ ": its task instance is " ++ console.debug state ++
      ", not awaiting_input. Answering now would make the scheduler fail the gate")

def changedWhileConfirmed (id : GateId) : OpsError :=
  opsError console .conflict
    ("the evidence for " ++ idText id ++ " changed while it was being confirmed")

def notAwaitingAnyMore (id : GateId) (state : String) : OpsError :=
  opsError console .operational
    (idText id ++ " " ++ notReady ++ " any more: it stopped being parked while it was " ++
      "being confirmed (now " ++ console.debug state ++ ")")

/-- The write, and what is reported of it. -/
def write (id : GateId) (decision : Decision) (revision : String) (forced : Bool)
    (count : Nat) : Call GateAnswer :=
  request (.respond id decision.approves) (fun done => done) >>= fun (_ : Unit) =>
    .step (.forget id) (fun _ => .ret ⟨id, decision, revision, forced, count⟩)

/-- Wait out the settle window, read the gate once more and count the sighting. -/
def confirm (id : GateId) (revision : String) (wait : Nat) : Call Nat :=
  (if wait = 0 then .ret false else .step (.wait wait) (fun (stopped : Bool) => .ret stopped)) >>=
    fun (stopped : Bool) =>
      if stopped then
        .raise (opsError console .cancelled "cancelled")
      else
        read console id >>= fun again =>
          if shownRevision console again.1 ≠ revision then
            .raise (changedWhileConfirmed console id)
          else if !again.2.1 then
            .raise (notAwaitingAnyMore console id again.2.2)
          else
            .step (.record id) (fun (seen : Seen) => .ret seen.count)

def answer (id : GateId) (decision : Decision) (opts : AnswerOpts) : Call GateAnswer :=
  read console id >>= fun first =>
    let gate := first.1
    let ready := first.2.1
    let revision := shownRevision console gate
    match opts.expect.filter (· ≠ revision) with
    | some expected => .raise (changedSinceReview console id expected revision)
    | none =>
        if !gate.accepts decision.word then
          .raise (notAccepted console id decision gate)
        else
          (if ready then .step (.record id) (fun (seen : Seen) => .ret seen)
            else .ret ⟨0, 0⟩) >>= fun (seen : Seen) =>
          if !ready && !opts.force then
            .raise (notAwaiting console id first.2.2)
          else
            let settle := opts.confirmDelay.getD console.settleWindow
            ageOf gate seen >>= fun age =>
              (if ready && !opts.force && (seen.count < requiredSightings || age < settle) then
                confirm console id revision (settle - age)
              else
                .ret seen.count) >>= fun count =>
                  write id decision revision opts.force count

end Calls

end Batch
end SwFactory
