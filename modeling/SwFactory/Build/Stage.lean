import SwFactory.Build.Progress
import SwFactory.Text

/-!
# The build stage over `Plan.work`

`buildAndTest` on the serial path, as the statements it performs in order.  A
step that mutates the journal in memory and stores it is one that returns the
journal it has written.

Sources: `work_stage.py` (`_finish_revert` to `build_and_test`), `stages.py`
(`_assert_workspace_head`, `commit`, `restore_head`, `_assert_stage_scope`).
-/

namespace SwFactory
namespace Build

open Machine (Prog)
open Work (WorkNode waves sortedSet)

/-- A validated plan; `guarded` are the paths that a repair may not touch. -/
structure Plan where
  work : List WorkNode
  digest : String
  guarded : String → Bool

/-- The configuration, whose bound is at least one. -/
structure Config where
  maxBuildIterations : Nat := 3
  maxBuildIterations_pos : 0 < maxBuildIterations := by decide

def gitHead : Script Head :=
  .step .gitHead fun a => .ofExcept a

def writeJournal (p : Progress) : Script Unit :=
  .step (.writeJournal p) fun _ => .ret ()

/-- `restore_head`. -/
def restoreHead (head : Head) : Script Unit :=
  .step (.gitReset head) fun
    | .error e => .raise e
    | .ok () =>
        .step .gitClean fun _ =>
          .step (.writeFence head) fun _ => .ret ()

/-- `_assert_workspace_head`. -/
def assertWorkspaceHead : Script Head :=
  .step .readFence fun (expected : Head) => do
    let actual ← gitHead
    if actual ≠ expected then
      .raise (.drifted expected actual)
    else
      return actual

/-- `commit`. -/
def commit : Script Head := do
  let _ ← assertWorkspaceHead
  let staged ← (.step .gitStage fun a => .ofExcept a : Script Bool)
  if staged then
    (.step .gitCommit fun a => .ofExcept a : Script Unit)
  let sha ← gitHead
  .step (.writeFence sha) fun _ => .ret sha

/-- `changed_paths`: sorted, each path once. -/
def changedPaths (before after : Head) : Script (List String) := do
  let lines ← (.step (.changedPaths before after) fun a => .ofExcept a :
    Script (List String))
  return sortedSet ((lines.map Text.strip).filter fun line =>
    decide (line ≠ ""))

/-- `_complete_revert`. -/
def completeRevert (p : Progress) (r : Revert) : Script Progress := do
  restoreHead r.target
  let verified :=
    match p.best with
    | some best => if best.head = r.target then best.verified else p.verified
    | none => p.verified
  let p := { p with head := r.target, revert := none, verified := verified }
  writeJournal p
  return p

/-- `_finish_revert`. -/
def finishRevert (plan : Plan) : Script Unit :=
  .step .readJournal fun
    | none => .ret ()
    | some p =>
        if p.planDigest ≠ plan.digest then
          .ret ()
        else
          match p.revert with
          | none => .ret ()
          | some r =>
              .step .readFence fun (fence : Head) => do
                if fence ≠ r.start ∧ fence ≠ r.target then
                  return ()
                let head ← gitHead
                if head ≠ r.start ∧ head ≠ r.target then
                  return ()
                let _ ← completeRevert p r

/-- `_load_progress`. -/
def loadProgress (plan : Plan) (current : Head) : Script Progress :=
  .step .readJournal fun
    | none =>
        .ret { planDigest := plan.digest, inputHead := current, head := current }
    | some p =>
        if p.planDigest ≠ plan.digest then
          .raise .otherPlan
        else if p.revert ≠ none then
          .raise .unfinishedRevert
        else if p.head ≠ current ∧
            ¬ p.attempt.any (fun a => decide (a.inputHead = p.head)) then
          .raise (.checkpoint p.head current)
        else if p.agentCalls < p.nodes.length + p.repairs.length then
          .raise .counter
        else
          .ret p

/-- `_abandon`. -/
def abandon (p : Progress) (head : Head) : Script Progress := do
  restoreHead head
  let p := { p with attempt := none }
  writeJournal p
  return p

/-- The receipt of a node whose commit is `after`. -/
def nodeReceipt (node : WorkNode) (layer : Nat) (a : Attempt) (after : Head)
    (changed : List String) : NodeReceipt where
  nodeId := node.id
  layer := layer
  agentCall := a.agentCall
  inputHead := a.inputHead
  outputHead := after
  dependsOn := node.dependsOn
  declaredFiles := node.files
  changedFiles := changed
  parallelSafeHint := node.parallelSafe

/-- The node of the plan with an id. -/
def Plan.node (plan : Plan) (id : String) : Option WorkNode :=
  plan.work.find? fun node => node.id == id

/-- `_settle` of a node. -/
def settleNode (plan : Plan) (p : Progress) (a : Attempt) (id : String)
    (layer : Nat) (after : Head) : Script Progress :=
  match plan.node id with
  | none => .raise (.unknownNode id)
  | some node => do
      let changed ← changedPaths a.inputHead after
      let unexpected := sortedSet (changed.filter fun f =>
        decide (f ∉ node.files))
      if unexpected ≠ [] then
        let _ ← abandon p a.inputHead
        .raise (.outsideScope node.id unexpected)
      else
        let p := { p with
          nodes := p.nodes ++ [nodeReceipt node layer a after changed]
          head := after
          attempt := none }
        writeJournal p
        return p

/-- `_assert_stage_scope` of a repair: the protected paths it touched. -/
def escapedPaths (plan : Plan) (before after : Head) : Script (List String) :=
  if before = after then
    .ret []
  else do
    let changed ← changedPaths before after
    return changed.filter plan.guarded

/-- `_settle` of a repair. -/
def settleRepair (plan : Plan) (p : Progress) (a : Attempt) (number : Nat)
    (after : Head) : Script Progress := do
  let escaped ← escapedPaths plan a.inputHead after
  if escaped ≠ [] then
    let _ ← abandon p a.inputHead
    .raise (.guardedPaths escaped)
  else
    let receipt : RepairReceipt :=
      { repair := number
        agentCall := a.agentCall
        inputHead := a.inputHead
        outputHead := after }
    let p := { p with
      repairs := p.repairs ++ [receipt]
      head := after
      attempt := none }
    writeJournal p
    return p

/-- `_settle`. -/
def settle (plan : Plan) (p : Progress) (a : Attempt) (after : Head) :
    Script Progress :=
  match a.kind with
  | .node id layer => settleNode plan p a id layer after
  | .repair number => settleRepair plan p a number after

/-- `_open_progress`. -/
def openProgress (plan : Plan) : Script Progress := do
  finishRevert plan
  let current ← assertWorkspaceHead
  let p ← loadProgress plan current
  match p.attempt with
  | none => return p
  | some a =>
      if current = p.head then
        abandon p current
      else
        settle plan p a current

/-- The journal with one more attempt under way. -/
def Progress.begin (p : Progress) (kind : AttemptKind) (before : Head) :
    Progress :=
  { p with
    agentCalls := p.agentCalls + 1
    attempt := some
      { kind := kind
        agentCall := p.agentCalls + 1
        inputHead := before } }

/-- `_attempt`, and the `_settle` that follows every call of it. -/
def attempt (plan : Plan) (p : Progress) (kind : AttemptKind) (stage : String) :
    Script Progress := do
  let before ← assertWorkspaceHead
  let p := p.begin kind before
  writeJournal p
  let work : Script Head := do
    (.step (.agent stage p.agentCalls) fun a => .ofExcept a : Script Unit)
    commit
  work.finish fun
    | .error e => do
        let _ ← abandon p before
        .raise e
    | .ok after =>
        settle plan p
          { kind := kind, agentCall := p.agentCalls, inputHead := before } after

/-- `_record_decision` of a wave that does not fork. -/
def recordDecision (p : Progress) (layer : Nat) (pending : List WorkNode) :
    Script Progress := do
  let p := { p with
    waveDecisions := p.waveDecisions.filter (fun d => decide (d.layer ≠ layer)) ++
      [{ layer := layer, nodes := pending.map (·.id) }] }
  writeJournal p
  return p

/-- The ids of the nodes with a receipt. -/
def Progress.completed (p : Progress) : List String :=
  p.nodes.map (·.nodeId)

/-- The nodes of a wave that have no receipt, in the order of their ids. -/
def pendingNodes (p : Progress) (nodes : List WorkNode) : List WorkNode :=
  (nodes.insertionSort fun a b => a.id ≤ b.id).filter fun node =>
    decide (node.id ∉ p.completed)

/-- The dependencies of a node that have no receipt. -/
def missingOf (p : Progress) (node : WorkNode) : List String :=
  sortedSet (node.dependsOn.filter fun d => decide (d ∉ p.completed))

def checkDependencies (p : Progress) : List WorkNode → Script Unit
  | [] => return ()
  | node :: rest =>
      if missingOf p node ≠ [] then
        .raise (.dependencies node.id (missingOf p node))
      else
        checkDependencies p rest

/-- The nodes of a wave, one attempt each. -/
def runNodes (plan : Plan) (layer : Nat) :
    List WorkNode → Progress → Script Progress
  | [], p => return p
  | node :: rest, p => do
      let p ← attempt plan p (.node node.id layer) "build"
      runNodes plan layer rest p

/-- The loop of `_execute_nodes`. -/
def runLayers (plan : Plan) : List Work.WorkWave → Progress → Script Progress
  | [], p => return p
  | wave :: rest, p => do
      let pending := pendingNodes p wave.nodes
      checkDependencies p pending
      if pending = [] then
        runLayers plan rest p
      else
        let p ← recordDecision p wave.index pending
        let p ← runNodes plan wave.index pending p
        runLayers plan rest p

/-- `_execute_nodes`. -/
def executeNodes (plan : Plan) (p : Progress) : Script Progress :=
  match waves plan.work with
  | .error e => .raise (.graph e)
  | .ok ws => runLayers plan ws p

/-- `_best_row`. -/
def bestRow (p : Progress) (tests : TestResult) : Best where
  head := p.head
  iteration := 1 + p.repairs.length
  verified := p.verified
  tests := tests

/-- The verdict on the candidate of a repair. -/
def judgement (best : Option Best) (tests : TestResult) : Ratcheted :=
  match best with
  | none =>
      { evidence := verdict tests tests [] [] true
          "no best-so-far was journalled before this repair"
        best := none }
  | some best =>
      { evidence := ratchet best.tests tests
        best := some (best.head, best.iteration) }

/-- Write a verdict on the newest receipt. -/
def Progress.judged (p : Progress) (before : List RepairReceipt)
    (receipt : RepairReceipt) (v : Ratcheted) : Progress :=
  { p with repairs := before ++ [{ receipt with ratchet := some v }] }

/-- `_judge`: the journal it leaves, and whether the candidate is the best. -/
def judge (p : Progress) (tests : TestResult) : Script (Progress × Bool) :=
  match p.repairs.getLast? with
  | some receipt =>
      if receipt.ratchet = none then
        let v := judgement p.best tests
        let q := p.judged p.repairs.dropLast receipt v
        match v.evidence.kept, p.best with
        | false, some best => do
            let r : Revert :=
              { start := q.head, target := best.head, repair := receipt.repair }
            let q := { q with revert := some r }
            writeJournal q
            let q ← completeRevert q r
            return (q, false)
        | _, _ => do
            let q := { q with best := some (bestRow q tests) }
            writeJournal q
            return (q, true)
      else
        seedBest p tests
  | none => seedBest p tests
where
  /-- A run that verifies the best candidate itself. -/
  seedBest (p : Progress) (tests : TestResult) : Script (Progress × Bool) :=
    match p.best with
    | none => do
        let q := { p with best := some (bestRow p tests) }
        writeJournal q
        return (q, true)
    | some best =>
        if best.head ≠ p.head then
          .raise (.ratchetJournal best.head p.head)
        else
          return (p, true)

/-- `_verify`. -/
def verify (p : Progress) : Script (Progress × Bool) := do
  let tests ← (.step .runTests fun a => .ofExcept a : Script TestResult)
  let p := { p with verified := some { head := p.head, tests := tests } }
  writeJournal p
  let (p, kept) ← judge p tests
  (.step .writeReport fun a => .ofExcept a : Script Unit)
  return (p, kept && tests.ok)

/-- The repair loop; each turn adds a receipt, so the bound is fuel enough. -/
def repairLoop (cfg : Config) (plan : Plan) : Nat → Progress → Script Progress
  | 0, _ => .raise .failing
  | fuel + 1, p =>
      if p.repairs.length < cfg.maxBuildIterations - 1 then do
        let p ← attempt plan p (.repair (p.repairs.length + 1)) "fix"
        let (p, green) ← verify p
        if green then
          return p
        else
          repairLoop cfg plan fuel p
      else
        .raise .failing

/-- `build_and_test` on a plan with work, on the serial path. -/
def buildAndTest (cfg : Config) (plan : Plan) : Script Progress := do
  let p ← openProgress plan
  let p ← executeNodes plan p
  let (p, green) ← verify p
  if green then
    return p
  else
    repairLoop cfg plan (cfg.maxBuildIterations - 1 + 1) p

end Build
end SwFactory
