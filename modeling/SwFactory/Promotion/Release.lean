import Mathlib.Data.Char
import Mathlib.Data.List.Lex
import Mathlib.Data.List.Sort
import Mathlib.Logic.Relation
import SwFactory.Machine.Dicts
import SwFactory.Publication.Pushing

/-!
# The jobs of a release

The audit of the promotion policy reads the jobs of `release.yml`: every job has to
need the job that consults the evidence, and no condition may run a job whose needs
did not succeed.  Whether a condition does that is a question of the language of
conditions, which the audit compares as text.

Source: `promotion_policy.py` (`_condition`, `_reachable`, `audit_policy`).
-/

namespace SwFactory
namespace Promotion

open Machine
open Publication (Text splitWords contains)

/-! ## The workflow -/

/-- The value of `continue-on-error`. -/
inductive Setting
  | absent
  | literal (value : Bool)
  /-- any other value -/
  | expression (text : Text)
deriving DecidableEq

structure Job where
  /-- one name stands for the list of it -/
  needs : List Text := []
  /-- the text of `if:` -/
  condition : Option Text := none
  continueOnError : Setting := .absent
  /-- the scripts of the steps -/
  runText : Text := []
deriving DecidableEq

structure Workflow where
  jobs : Dict Text Job
  nodup : jobs.keys.Nodup

/-- `_condition` -/
def Job.normalizedCondition (job : Job) : Option Text :=
  job.condition.map (fun raw => [' '].intercalate (splitWords raw))

/-- `_fails_open_on_error` -/
def failsOpenOnError (value : Setting) : Bool :=
  decide (value ≠ .absent ∧ value ≠ .literal false)

/-! ## Needs -/

/-- A job that needs a reached one is reached. -/
def visit (reached : List Text) (entry : Text × Job) : List Text :=
  if entry.1 ∈ reached then reached
  else if entry.2.needs.any (fun name => decide (name ∈ reached)) then reached ++ [entry.1]
  else reached

/-- One pass over the jobs. -/
def pass (jobs : Dict Text Job) (reached : List Text) : List Text :=
  jobs.foldl visit reached

/-- Passes until nothing changes, so many at most. -/
def passes (jobs : Dict Text Job) : Nat → List Text → List Text
  | 0, reached => reached
  | n + 1, reached =>
      if pass jobs reached = reached then reached else passes jobs n (pass jobs reached)

/-- `_reachable`; every pass but the last one reaches a further job. -/
def reachable (jobs : Dict Text Job) (start : Text) : List Text :=
  passes jobs (jobs.length + 1) [start]

/-! ## The audit -/

def evidenceJob : Text :=
  "candidate-evidence".toList

/-- `FAN_IN_OVERRIDES` -/
def fanInOverrides : List Text :=
  ["always(".toList, "cancelled(".toList, "failure(".toList]

/-- What the audit says about `release.yml`. -/
inductive Problem
  /-- `release.yml has no candidate-evidence job; a tag would ship without consulting evidence` -/
  | noEvidenceJob
  /-- `release.yml candidate-evidence carries a condition and can be skipped away` -/
  | conditionalEvidence
  /-- `release.yml candidate-evidence sets continue-on-error and cannot refuse a tag` -/
  | openEvidence
  /-- `release.yml candidate-evidence never runs promotion_policy.py release-evidence` -/
  | idleEvidence
  /-- `... does not transitively need 'candidate-evidence' and would run for a tag ...` -/
  | outside (name : Text)
  /-- `... has the condition ..., which runs it even when the jobs it needs did not succeed` -/
  | override (name condition : Text)
deriving DecidableEq

/-- The condition of the job overrides its needs, as the audit reads it. -/
def overrideOf (entry : Text × Job) : Option Problem :=
  let condition := entry.2.normalizedCondition.getD []
  if fanInOverrides.any (fun token => contains token condition) then
    some (.override entry.1 condition)
  else none

/-- `audit_policy`, of the release -/
def Workflow.problems (w : Workflow) : List Problem :=
  match w.jobs.get? evidenceJob with
  | none => [.noEvidenceJob]
  | some evidence =>
      (if evidence.normalizedCondition.isSome then [.conditionalEvidence] else []) ++
      (if failsOpenOnError evidence.continueOnError then [.openEvidence] else []) ++
      (if contains "promotion_policy.py release-evidence".toList evidence.runText then []
        else [.idleEvidence]) ++
      ((w.jobs.keys.filter (fun name => name ∉ reachable w.jobs evidenceJob)).insertionSort
        (· ≤ ·)).map .outside ++
      (w.jobs.insertionSort (fun a b => a.1 ≤ b.1)).filterMap overrideOf

/-! ## Conditions -/

/-- A call of a function, with the blanks in front of its parenthesis. -/
structure Call where
  name : Text
  blanks : Nat
deriving DecidableEq

/-- Where the reader of a condition stands. -/
inductive Reading
  | outside
  /-- in a literal -/
  | quoted
  /-- in a name -/
  | name (read : Text)
  /-- behind a name and one blank or more -/
  | behind (name : Text) (more : Nat)

def isNameChar (c : Char) : Bool :=
  c.isAlphanum || c == '_' || c == '-'

/-- What a character begins. -/
def Reading.begin (c : Char) : Reading :=
  if c = '\'' then .quoted else if isNameChar c then .name [c] else .outside

/-- The calls of an expression; a literal has none. -/
def calls : Reading → Text → List Call
  | _, [] => []
  | .outside, c :: rest => calls (Reading.begin c) rest
  | .quoted, c :: rest => calls (if c = '\'' then .outside else .quoted) rest
  | .name read, c :: rest =>
      if isNameChar c then calls (.name (read ++ [c])) rest
      else if c = '(' then ⟨read, 0⟩ :: calls .outside rest
      else if Text.isSpace c then calls (.behind read 0) rest
      else calls (Reading.begin c) rest
  | .behind read more, c :: rest =>
      if c = '(' then ⟨read, more + 1⟩ :: calls .outside rest
      else if Text.isSpace c then calls (.behind read (more + 1)) rest
      else calls (Reading.begin c) rest

/-- The functions that run a job whose needs did not succeed. -/
def statusFunctions : List Text :=
  ["always".toList, "cancelled".toList, "failure".toList]

/-- Function names ignore case. -/
def Call.isStatus (call : Call) : Bool :=
  statusFunctions.contains (call.name.map Char.toLower)

/-- The calls of status functions in the condition of a job. -/
def Job.statusCalls (job : Job) : List Call :=
  (calls .outside (job.condition.getD [])).filter Call.isStatus

/-- The call is spelled in lower case, with its parenthesis directly behind the name. -/
def Call.Plain (call : Call) : Prop :=
  call.name ∈ statusFunctions ∧ call.blanks = 0

instance (call : Call) : Decidable call.Plain :=
  inferInstanceAs (Decidable (_ ∧ _))

/-! ## Runs -/

/-- The first job names the second one in its needs. -/
def NeedsJob (jobs : Dict Text Job) (name other : Text) : Prop :=
  ∃ job, (name, job) ∈ jobs ∧ other ∈ job.needs

/-- Which jobs ran in a run of the workflow, and which of them succeeded. -/
structure Run where
  ran : Text → Prop
  succeeded : Text → Prop

/-- A job runs only if every job it needs succeeded, unless a status function lifts this. -/
def Run.Follows (run : Run) (w : Workflow) : Prop :=
  ∀ entry ∈ w.jobs, run.ran entry.1 →
    entry.2.statusCalls ≠ [] ∨
      ∀ other, Relation.TransGen (NeedsJob w.jobs) entry.1 other → run.succeeded other

/-- No other job runs where the evidence job did not succeed. -/
def EvidenceGates (w : Workflow) : Prop :=
  ∀ run : Run, run.Follows w → ¬ run.succeeded evidenceJob →
    ∀ entry ∈ w.jobs, entry.1 ≠ evidenceJob → ¬ run.ran entry.1

end Promotion
end SwFactory
