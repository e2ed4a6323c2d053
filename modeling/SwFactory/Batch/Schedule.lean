import SwFactory.Batch.Answer
import SwFactory.Machine.Runs

/-!
# Answering a batch

`answer_all` hands the ready gates of a selection to tasks, a bounded number at
a time and one for each DAG run.  The loop is a machine: filling the set of the
running tasks, joining one of them, done.  Which task ends first, with what, and
when the batch is cancelled is up to the moves.

Source: `gates.rs` (`answer_all`, `item_of`, `BatchItem`).
-/

namespace SwFactory
namespace Batch

open Identities

/-- `BATCH_CONCURRENCY` -/
def batchConcurrency : Nat :=
  6

/-- A selected gate, its `ready` already established. -/
structure Selected where
  gate : Gate
  taskState : String
  issue : Option String
deriving DecidableEq

inductive Outcome
  | planned
  | answered
  | skipped
  | conflict
  | failed
deriving DecidableEq, Repr

def Outcome.isFailure (outcome : Outcome) : Bool :=
  outcome == .failed

/-- A line of the report. -/
structure BatchItem where
  id : GateId
  gate : Str
  issue : Option String
  ready : Bool
  outcome : Outcome
  detail : String
  revision : String
  sightings : Nat
  kind : Option ErrorKind
deriving DecidableEq

/-- `Gate::short_name` -/
def Gate.shortName (gate : Gate) : Str :=
  ((Lexical.splitAll '.' gate.taskId).getLast?).getD gate.taskId

section Items

variable (console : Console)

/-- `BatchItem::skipped` -/
def skippedItem (row : Selected) (detail : String) : BatchItem :=
  ⟨row.gate.id, row.gate.shortName, row.issue, row.gate.ready, .skipped,
    console.sanitizeLine detail, "", 0, none⟩

/-- `not_ready_reason` -/
def notReadyReason (taskState : String) : String :=
  notReady ++ ": its task instance is " ++ console.debug taskState ++ ", not awaiting_input"

/-- `text.contains(part)` -/
def containsText (part text : String) : Bool :=
  text.toList.tails.any (fun rest => part.toList.isPrefixOf rest)

def outcomeOf (err : OpsError) : Outcome :=
  if err.kind = .conflict ∨ err.kind = .notFound then
    .conflict
  else if containsText notReady err.message then
    .skipped
  else
    .failed

/-- `item_of` -/
def itemOf (row : Selected) : Except OpsError GateAnswer → BatchItem
  | .ok answered =>
      ⟨row.gate.id, row.gate.shortName, row.issue, true, .answered, "", answered.revision,
        answered.sightings, none⟩
  | .error err =>
      ⟨row.gate.id, row.gate.shortName, row.issue, true, outcomeOf err, err.message, "", 0,
        if (outcomeOf err).isFailure then some err.kind else none⟩

/-- The line of a gate whose task died. -/
def diedItem (row : Selected) (reason : String) : BatchItem :=
  { skippedItem console row "" with
    outcome := .failed
    detail := console.sanitizeLine
      ("the answer to this gate did not complete (" ++ reason ++
        "); re-read it before assuming it was not written")
    kind := some .operational }

end Items

/-! ## The loop -/

inductive Phase
  | filling
  | joining
  | done
deriving DecidableEq, Repr

/-- A task of the join set: its id, and the row that it answers. -/
structure InFlight where
  task : Nat
  index : Nat
deriving DecidableEq, Repr

/-- The state of the loop.  `handed` lists the rows given to `answer`, in order. -/
structure Loop where
  phase : Phase
  pending : List Nat
  deferred : List Nat
  running : List InFlight
  inFlight : List InFlight
  busy : List RunRef
  slots : List (Option BatchItem)
  spawned : Nat
  cancelled : Bool
  handed : List Nat
deriving DecidableEq

/-- How a task ends: with the outcome of its answer, or by a panic. -/
inductive Joined
  | finished (outcome : Except OpsError GateAnswer)
  | died (reason : String)

inductive Move
  | cancel
  | proceed
  /-- The task at this place of the join set is the next one that is joined. -/
  | join (place : Nat) (result : Joined)

section Machine

variable (console : Console)
variable (rows : List Selected)

/-- `run_key` -/
def runKey (index : Nat) : Option RunRef :=
  (rows[index]?).map (fun row => row.gate.run)

def readyRows : List Nat :=
  (List.range rows.length).filter (fun index => (rows[index]?).any (fun row => row.gate.ready))

/-- The loop before its first pass: the rows that are not ready have their lines. -/
def start : Loop where
  phase := .filling
  pending := readyRows rows
  deferred := []
  running := []
  inFlight := []
  busy := []
  slots := rows.map (fun row =>
    if row.gate.ready then none
    else some (skippedItem console row (notReadyReason console row.taskState)))
  spawned := 0
  cancelled := false
  handed := []

/-- The deferred rows go back to the front, in order. -/
def Loop.close (s : Loop) : Loop :=
  { s with pending := s.deferred ++ s.pending, deferred := [], phase := .joining }

def Loop.defer (s : Loop) (index : Nat) (rest : List Nat) : Loop :=
  { s with pending := rest, deferred := s.deferred ++ [index] }

def Loop.spawn (s : Loop) (run : RunRef) (index : Nat) (rest : List Nat) : Loop :=
  { s with
    pending := rest
    busy := run :: s.busy
    running := s.running ++ [⟨s.spawned, index⟩]
    inFlight := s.inFlight ++ [⟨s.spawned, index⟩]
    spawned := s.spawned + 1
    handed := s.handed ++ [index] }

/-- One pass of `while running.len() < BATCH_CONCURRENCY && !cancel.is_cancelled()`. -/
def Loop.fill (s : Loop) : Loop :=
  if s.running.length < batchConcurrency ∧ s.cancelled = false then
    match s.pending with
    | [] => s.close
    | index :: rest =>
        match runKey rows index with
        | none => { s with pending := rest }
        | some run =>
            if run ∈ s.busy then s.defer index rest else s.spawn run index rest
  else
    s.close

/-- The run is free again, and the row has its line. -/
def Loop.settle (s : Loop) (index : Nat) (line : Selected → BatchItem) : Loop :=
  { s with
    busy := s.busy.filter (fun run => some run ≠ runKey rows index)
    slots := s.slots.set index ((rows[index]?).map line) }

/-- `join_next_with_id` has given a task. -/
def Loop.joined (s : Loop) (ended : InFlight) (place : Nat) : Joined → Loop
  | .finished outcome =>
      { (s.settle rows ended.index (fun row => itemOf row outcome)) with
        phase := .filling
        running := s.running.eraseIdx place
        inFlight := s.inFlight.filter (fun flight => flight.task ≠ ended.task) }
  | .died reason =>
      match s.inFlight.find? (fun flight => flight.task = ended.task) with
      | none => { s with phase := .filling, running := s.running.eraseIdx place }
      | some flight =>
          { (s.settle rows flight.index (fun row => diedItem console row reason)) with
            phase := .filling
            running := s.running.eraseIdx place
            inFlight := s.inFlight.eraseP (fun flight => flight.task = ended.task) }

def step (s : Loop) : Move → Loop
  | .cancel => { s with cancelled := true }
  | .proceed =>
      match s.phase with
      | .filling => s.fill rows
      | .joining => if s.running = [] then { s with phase := .done } else s
      | .done => s
  | .join place result =>
      if s.phase = .joining then
        match s.running[place]? with
        | some ended => s.joined console rows ended place result
        | none => s
      else
        s

/-- The loop can make the move; a cancellation can always come. -/
def Enabled (s : Loop) : Move → Prop
  | .cancel => True
  | .proceed => s.phase = .filling ∨ (s.phase = .joining ∧ s.running = [])
  | .join place _ => s.phase = .joining ∧ place < s.running.length

def unansweredReason (cancelled : Bool) : String :=
  if cancelled then
    "not answered: the batch was interrupted"
  else
    "not answered: its answer did not complete"

/-- The items of the report. -/
def report (s : Loop) : List BatchItem :=
  (s.slots.zip rows).map (fun (slot, row) =>
    slot.getD (skippedItem console row (unansweredReason s.cancelled)))

end Machine

end Batch
end SwFactory
