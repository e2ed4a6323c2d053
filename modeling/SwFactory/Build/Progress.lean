import SwFactory.Build.Ratchet
import SwFactory.Machine.Durable

/-!
# The durable records of the build stage

Three records survive a dead worker: the progress journal, the `workspace-head`
record that fences the workspace, and the HEAD of the checkout.  Each is moved
by statements of its own.  The sandbox may be hostile: whenever a command runs
in it, its HEAD may be elsewhere afterwards, and every command may fail.  The
fields of the journal are typed, so the checks of its shape are not modelled.

Sources: `work_stage.py` (`_load_progress`, `_store_progress`), `stages.py`
(`_workspace_head`, `_record_workspace_head`, `commit`, `restore_head`,
`changed_paths`).
-/

namespace SwFactory
namespace Build

open Work (WorkNode)

/-- The name of a commit; git never prints an empty one. -/
structure Head where
  sha : String
  sha_ne : sha ≠ "" := by decide
deriving DecidableEq

inductive AttemptKind
  | node (id : String) (layer : Nat)
  | repair (number : Nat)
deriving DecidableEq

/-- An agent call that is under way. -/
structure Attempt where
  kind : AttemptKind
  agentCall : Nat
  inputHead : Head
deriving DecidableEq

structure NodeReceipt where
  nodeId : String
  layer : Nat
  agentCall : Nat
  inputHead : Head
  outputHead : Head
  dependsOn : List String
  declaredFiles : List String
  changedFiles : List String
  parallelSafeHint : Bool
deriving DecidableEq

/-- The verdict that is written on the receipt of a repair. -/
structure Ratcheted where
  evidence : Evidence
  best : Option (Head × Nat)
deriving DecidableEq

structure RepairReceipt where
  repair : Nat
  agentCall : Nat
  inputHead : Head
  outputHead : Head
  ratchet : Option Ratcheted := none
deriving DecidableEq

structure Verified where
  head : Head
  tests : TestResult
deriving DecidableEq

structure Best where
  head : Head
  iteration : Nat
  verified : Option Verified
  tests : TestResult
deriving DecidableEq

/-- A ratchet revert that is journalled before the reset. -/
structure Revert where
  start : Head
  target : Head
  repair : Nat
deriving DecidableEq

structure WaveDecision where
  layer : Nat
  nodes : List String
deriving DecidableEq

/-- The journal; its fork fields stay empty on the serial path. -/
structure Progress where
  planDigest : String
  inputHead : Head
  head : Head
  agentCalls : Nat := 0
  attempt : Option Attempt := none
  nodes : List NodeReceipt := []
  repairs : List RepairReceipt := []
  verified : Option Verified := none
  waveDecisions : List WaveDecision := []
  best : Option Best := none
  revert : Option Revert := none
deriving DecidableEq

/-- Why the stage stops. -/
inductive StageError
  | drifted (expected actual : Head)
  | otherPlan
  | unfinishedRevert
  | checkpoint (expected actual : Head)
  | counter
  | graph (e : Work.WorkGraphError)
  | dependencies (node : String) (missing : List String)
  | unknownNode (node : String)
  | outsideScope (node : String) (files : List String)
  | guardedPaths (files : List String)
  | ratchetJournal (best head : Head)
  | failing
  | command (text : String)
deriving DecidableEq

/-- The durable effects and the commands of the stage. -/
inductive Stmt
  | readJournal
  | writeJournal (p : Progress)
  | readFence
  | writeFence (head : Head)
  | gitHead
  | gitStage
  | gitCommit
  | gitReset (head : Head)
  | gitClean
  | changedPaths (before after : Head)
  | agent (stage : String) (call : Nat)
  | runTests
  | writeReport

def Ans : Stmt → Type
  | .readJournal => Option Progress
  | .writeJournal _ => Unit
  | .readFence => Head
  | .writeFence _ => Unit
  | .gitHead => Except StageError Head
  | .gitStage => Except StageError Bool
  | .gitCommit => Except StageError Unit
  | .gitReset _ => Except StageError Unit
  | .gitClean => Unit
  | .changedPaths _ _ => Except StageError (List String)
  | .agent _ _ => Except StageError Unit
  | .runTests => Except StageError TestResult
  | .writeReport => Except StageError Unit

/-- What survives, and the agent calls that were made. -/
structure Durable where
  journal : Option Progress := none
  fence : Head
  head : Head
  calls : List Nat := []
deriving DecidableEq

/-- What the outside decides about one statement. -/
structure Input where
  fails : Option String := none
  moved : Option Head := none
  staged : Bool := true
  tests : TestResult := { exitCode := 0, passed := 1 }

def Input.answer {α : Type} (i : Input) (a : α) : Except StageError α :=
  match i.fails with
  | some text => .error (.command text)
  | none => .ok a

/-- Where HEAD is after a command ran in the sandbox. -/
def Durable.drift (i : Input) (d : Durable) : Durable :=
  { d with head := i.moved.getD d.head }

/-- The meaning of a statement; `diff` is what git says two commits differ in. -/
def exec (diff : Head → Head → List String) :
    Machine.Effect Stmt Ans Durable Input
  | .readJournal, _, d => (d.journal, d)
  | .writeJournal p, _, d => ((), { d with journal := some p })
  | .readFence, _, d => (d.fence, d)
  | .writeFence head, _, d => ((), { d with fence := head })
  | .gitHead, i, d => (i.answer (d.drift i).head, d.drift i)
  | .gitStage, i, d => (i.answer i.staged, d.drift i)
  | .gitCommit, i, d => (i.answer (), d.drift i)
  | .gitReset head, i, d =>
      match i.fails with
      | some text => (.error (.command text), d.drift i)
      | none => (.ok (), { d with head := head })
  | .gitClean, i, d => ((), d.drift i)
  | .changedPaths before after, i, d => (i.answer (diff before after), d.drift i)
  | .agent _ call, i, d =>
      (i.answer (), { d.drift i with calls := d.calls ++ [call] })
  | .runTests, i, d => (i.answer i.tests, d.drift i)
  | .writeReport, i, d => (i.answer (), d)

/-- A program of the stage. -/
abbrev Script (α : Type) := Machine.Prog Stmt Ans StageError α

end Build
end SwFactory
