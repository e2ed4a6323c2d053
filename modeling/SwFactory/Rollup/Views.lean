import SwFactory.Lexical.Splitting
import SwFactory.Machine.Dicts
import Mathlib.Data.List.Sort
import Mathlib.Data.String.Basic
import Mathlib.Order.Basic

/-!
# The roll-ups

Task instances become the rows, words and labels that an operator reads.  The
factory computes them with dictionaries and sets, the console with lists of
pairs, sorting and a 32-bit count.  `upper` is the upper case of a text, which
both languages take from Unicode.

Sources: `control.py`, `herd.py` (`stage_progress`), `rollup.rs`, `states.rs`.
-/

namespace SwFactory
namespace Rollup

open Lexical
open Machine

/-- A task instance; the state is absent before Airflow has scheduled it. -/
structure TaskState where
  taskId : String
  mapIndex : Int
  state : Option String
deriving DecidableEq, Repr

structure JobRow where
  dagId : String
  runId : String
  mapIndex : Int
  issue : String
  state : String
  tasks : List TaskState
deriving DecidableEq, Repr

/-- The value of `issue` in an entry of the `fan_out` list. -/
inductive IssueValue
  | text (value : String)
  | number (value : Int)
deriving DecidableEq, Repr

/-- An entry of the `fan_out` list: an object, or `null`. -/
abbrev Entry :=
  Option (Option IssueValue)

/-- The fields of a check that a roll-up reads; absent and `null` are one. -/
structure Check where
  conclusion : Option String
  state : Option String
  status : Option String
deriving DecidableEq, Repr

/-- `statusCheckRollup`: a list with objects and other values, or no list. -/
abbrev CheckRollup :=
  Option (List (Option Check))

def noIssue : String :=
  "-"

/-- The numbers of a check roll-up, as both print them. -/
def counted (passed failed pending : Nat) : String :=
  toString passed ++ " pass / " ++ toString failed ++ " fail / " ++ toString pending ++
    " pending"

/-! ## The factory -/

namespace Python

def activeTaskStates : List String :=
  ["running", "queued", "scheduled", "deferred", "restarting", "awaiting_input",
    "up_for_retry", "up_for_reschedule"]

def failedTaskStates : List String :=
  ["failed", "upstream_failed"]

def finalTaskStates : List String :=
  failedTaskStates ++ ["success", "skipped", "removed"]

def checkPass : List String :=
  ["SUCCESS", "NEUTRAL", "SKIPPED"]

def checkFail : List String :=
  ["FAILURE", "ERROR", "TIMED_OUT", "CANCELLED", "ACTION_REQUIRED", "STARTUP_FAILURE",
    "STALE"]

def taskOrder : List String :=
  ["setup", "intent", "approve_intent", "record_intent", "spec", "plan", "approve_plan",
    "record_plan", "build_and_test", "review", "deliver", "metrics", "teardown"]

/-- The truth of an optional text: `None` and `""` are false. -/
def truthy : Option String → Option String
  | some "" => none
  | value => value

/-- `t.state or "none"` -/
def stateOf (task : TaskState) : String :=
  (truthy task.state).getD "none"

def jobState (tasks : List TaskState) : String :=
  let states := tasks.map stateOf
  if states = [] then
    "queued"
  else if states.any (· ∈ failedTaskStates) then
    "failed"
  else if states.any (· ∈ activeTaskStates) then
    "running"
  else
    let unfinished := states.filter (· ∉ finalTaskStates)
    if unfinished ≠ [] then
      if unfinished.length < states.length then
        "running"
      else
        "queued"
    else if states.all (· = "skipped") then
      "skipped"
    else
      "success"

/-- `issue = ...; if issue: return str(issue)` -/
def issueText : IssueValue → Option String
  | .text value => truthy (some value)
  | .number value => if value = 0 then none else some (toString value)

/-- `_issue_of` -/
def issueOf (idx : Int) (fanOut : List Entry) (fallback : List String) : String :=
  let known :=
    if 0 ≤ idx ∧ idx < fanOut.length then
      (fanOut[idx.toNat]?.join.join).bind issueText
    else
      none
  match known with
  | some issue => issue
  | none =>
      match fallback with
      | [only] => only
      | _ => noIssue

/-- `by_index` -/
def byIndex (tasks : List TaskState) : Dict Int (List TaskState) :=
  tasks.foldl (fun d t => d.update t.mapIndex [] (· ++ [t])) []

def groupJobs (dagId runId : String) (tasks : List TaskState) (fanOut : List Entry)
    (fallback : List String) : List JobRow :=
  let jobs := byIndex tasks
  let mapped := (jobs.keys.filter (0 ≤ ·)).insertionSort (· ≤ ·)
  let order := if mapped ≠ [] then mapped else jobs.keys.insertionSort (· ≤ ·)
  order.map (fun idx =>
    let bucket := (jobs.get? idx).getD []
    ⟨dagId, runId, idx, issueOf idx fanOut fallback, jobState bucket, bucket⟩)

/-- `task_id.rsplit(".", 1)[-1]` -/
def stageOf (taskId : String) : String :=
  match rsplitOnce '.' taskId.toList with
  | some (_, stage) => String.ofList stage
  | none => taskId

/-- `by_job`: the last state of every stage, job by job. -/
def byJob (tasks : List TaskState) : Dict Int (Dict String String) :=
  tasks.foldl
    (fun d t => d.update t.mapIndex [] (fun states => states.assign (stageOf t.taskId) (stateOf t)))
    []

/-- Known stages in display order, then the others by name. -/
def ordered (states : Dict String String) : List String :=
  taskOrder.filter (· ∈ states.keys) ++
    (states.keys.filter (· ∉ taskOrder)).insertionSort (· ≤ ·)

/-- The frontier of one job. -/
def label (states : Dict String String) : String :=
  let stateAt := fun stage => (states.get? stage).getD ""
  match (ordered states).find? (fun s => stateAt s ∈ activeTaskStates) with
  | some active => active
  | none =>
      match ((ordered states).filter (fun s => stateAt s ∈ finalTaskStates)).getLast? with
      | none => "pending"
      | some last =>
          if stateAt last = "success" then last else last ++ ":" ++ stateAt last

/-- `if label not in frontiers: frontiers.append(label)` -/
def addFrontier (frontiers : List String) (label : String) : List String :=
  if label ∈ frontiers then frontiers else frontiers ++ [label]

def stageProgress (tasks : List TaskState) : String :=
  let frontiers := ((byJob tasks).map (fun job => label job.2)).foldl addFrontier []
  (truthy (some (", ".intercalate frontiers))).getD "-"

/-- The class that a check is counted in. -/
inductive Verdict
  | passed
  | failed
  | pending
deriving DecidableEq, Repr

section Checks

variable (upper : String → String)

def verdictOf (check : Check) : Verdict :=
  let verdict := upper (((truthy check.conclusion).or (truthy check.state)).getD "")
  let status := upper ((truthy check.status).getD "")
  if status ≠ "" ∧ status ≠ "COMPLETED" ∧ truthy check.conclusion = none then
    .pending
  else if verdict ∈ checkPass then
    .passed
  else if verdict ∈ checkFail then
    .failed
  else
    .pending

def summarizeChecks : CheckRollup → String
  | none => "none"
  | some [] => "none"
  | some items =>
      let verdicts := (items.filterMap id).map (verdictOf upper)
      counted (verdicts.count .passed) (verdicts.count .failed) (verdicts.count .pending)

end Checks

end Python

/-! ## The console -/

namespace Rust

def activeTaskStates : List String :=
  ["running", "queued", "scheduled", "deferred", "restarting", "awaiting_input",
    "up_for_retry", "up_for_reschedule"]

def failedTaskStates : List String :=
  ["failed", "upstream_failed"]

def finalTaskStates : List String :=
  ["failed", "upstream_failed", "success", "skipped", "removed"]

def checkPass : List String :=
  ["SUCCESS", "NEUTRAL", "SKIPPED"]

def checkFail : List String :=
  ["FAILURE", "ERROR", "TIMED_OUT", "CANCELLED", "ACTION_REQUIRED", "STARTUP_FAILURE",
    "STALE"]

def taskOrder : List String :=
  ["setup", "intent", "approve_intent", "record_intent", "spec", "plan", "approve_plan",
    "record_plan", "build_and_test", "review", "deliver", "metrics", "teardown"]

def isActive (state : String) : Bool :=
  activeTaskStates.contains state

def isFailed (state : String) : Bool :=
  failedTaskStates.contains state

def isFinal (state : String) : Bool :=
  finalTaskStates.contains state

/-- `states::or_none` -/
def stateOrNone (task : TaskState) : String :=
  match task.state with
  | some s => if s ≠ "" then s else "none"
  | none => "none"

def jobState (tasks : List TaskState) : String :=
  let states := tasks.map stateOrNone
  if states.isEmpty then
    "queued"
  else if states.any isFailed then
    "failed"
  else if states.any isActive then
    "running"
  else
    let unfinished := states.countP (fun s => !isFinal s)
    if 0 < unfinished then
      if unfinished < states.length then "running" else "queued"
    else if states.all (· == "skipped") then
      "skipped"
    else
      "success"

def pyTruthy : IssueValue → Bool
  | .text value => !value.isEmpty
  | .number value => value != 0

def pyStr : IssueValue → String
  | .text value => value
  | .number value => toString value

def issueOf (idx : Int) (fanOut : List Entry) (fallback : List String) : String :=
  let entry := if 0 ≤ idx then fanOut[idx.toNat]? else none
  match (entry.join.join).filter pyTruthy with
  | some issue => pyStr issue
  | none =>
      match fallback with
      | [only] => only
      | _ => noIssue

def buckets (tasks : List TaskState) : List (Int × List TaskState) :=
  tasks.foldl (fun found t => Dict.amend t.mapIndex [t] (· ++ [t]) found) []

def groupJobs (dagId runId : String) (tasks : List TaskState) (fanOut : List Entry)
    (fallback : List String) : List JobRow :=
  let found := buckets tasks
  let mapped := (found.map Prod.fst).filter (0 ≤ ·)
  let order := if mapped.isEmpty then found.map Prod.fst else mapped
  (order.insertionSort (· ≤ ·)).filterMap (fun idx =>
    (found.find? (fun bucket => bucket.1 = idx)).map (fun bucket =>
      ⟨dagId, runId, idx, issueOf idx fanOut fallback, jobState bucket.2, bucket.2⟩))

/-- `task_id.rsplit('.').next()` -/
def stageOf (taskId : String) : String :=
  match (splitAll '.' taskId.toList).getLast? with
  | some stage => String.ofList stage
  | none => taskId

def byJob (tasks : List TaskState) : List (Int × List (String × String)) :=
  tasks.foldl
    (fun found t =>
      let stage := stageOf t.taskId
      let state := stateOrNone t
      Dict.amend t.mapIndex [(stage, state)]
        (Dict.amend stage state (fun _ => state)) found)
    []

/-- Drop what has the name of the last stage kept. -/
def dedupAfter (last : String × String) : List (String × String) → List (String × String)
  | [] => []
  | s :: rest => if s.1 = last.1 then dedupAfter last rest else s :: dedupAfter s rest

/-- `dedup_by` on the names. -/
def dedupByName : List (String × String) → List (String × String)
  | [] => []
  | s :: rest => s :: dedupAfter s rest

def orderStages (states : List (String × String)) : List (String × String) :=
  let known := taskOrder.filterMap (fun name => states.find? (fun s => s.1 = name))
  let extra := states.filter (fun s => !taskOrder.contains s.1)
  known ++ dedupByName (extra.insertionSort (fun a b => a.1 ≤ b.1))

def label (states : List (String × String)) : String :=
  let ordered := orderStages states
  match ordered.find? (fun s => isActive s.2) with
  | some active => active.1
  | none =>
      match ordered.reverse.find? (fun s => isFinal s.2) with
      | none => "pending"
      | some last => if last.2 = "success" then last.1 else last.1 ++ ":" ++ last.2

def stageProgress (tasks : List TaskState) : String :=
  let frontiers := ((byJob tasks).map (fun job => label job.2)).foldl
    (fun found label => if found.contains label then found else found ++ [label]) []
  if frontiers.isEmpty then "-" else ", ".intercalate frontiers

/-- The three counters. -/
structure Tally where
  passed : UInt32
  failed : UInt32
  pending : UInt32
deriving DecidableEq, Repr

section Checks

variable (upper : String → String)

/-- The text of a field when it is neither absent nor blank. -/
def field (value : Option String) : Option String :=
  value.filter (fun text => !text.isEmpty)

def countCheck (tally : Tally) : Option Check → Tally
  | none => tally
  | some item =>
      let conclusion := field item.conclusion
      let verdict := upper ((conclusion.or (field item.state)).getD "")
      let status := upper ((field item.status).getD "")
      if !status.isEmpty && status != "COMPLETED" && conclusion.isNone then
        { tally with pending := tally.pending + 1 }
      else if checkPass.contains verdict then
        { tally with passed := tally.passed + 1 }
      else if checkFail.contains verdict then
        { tally with failed := tally.failed + 1 }
      else
        { tally with pending := tally.pending + 1 }

def summarizeChecks : CheckRollup → String
  | none => "none"
  | some items =>
      if items.isEmpty then
        "none"
      else
        let tally := items.foldl (countCheck upper) ⟨0, 0, 0⟩
        counted tally.passed.toNat tally.failed.toNat tally.pending.toNat

end Checks

end Rust

end Rollup
end SwFactory
