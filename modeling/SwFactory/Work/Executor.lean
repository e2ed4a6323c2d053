import SwFactory.Work.Pool

/-!
# The work executor

`execute` runs a plan wave by wave.  It fans the nodes of a wave out, stops at
the first failure, cancellation or conflict, and merges the results of a wave
that went well in the order of their ids.

Source: `work_executor.py`, `WorkExecutor.execute`, `_premerge_conflicts` and
`_validate_merge`.
-/

namespace SwFactory
namespace Work

structure ExecutionReport where
  cellId : String
  epoch : Int
  inputHead : String
  parallel : Bool
  results : List NodeResult
  merges : List MergeReceipt
  finalHead : String
  cancelled : Bool
  conflicts : List ConflictReceipt
deriving DecidableEq, Repr

inductive ExecError
  | graph (e : WorkGraphError)
  | raised (e : Raised)
deriving DecidableEq, Repr

/-- The arguments of `execute`. -/
structure Call where
  cellId : String
  epoch : Int
  inputHead : String
  nodes : List WorkNode
  supportsFork : Bool

/-- The local variables of `execute`; a dictionary keeps its newest entry first. -/
structure Run where
  clock : Clock := {}
  results : List (String × NodeResult) := []
  targetHead : String
  merges : List MergeReceipt := []
  conflicts : List ConflictReceipt := []

def Run.poll (w : World) (run : Run) : Run :=
  { run with clock := w.poll run.clock }

def Run.cancel (run : Run) : Run :=
  { run with clock := run.clock.cancel }

/-- `results[r.node_id] = r` for the results of a wave. -/
def Run.enter (run : Run) (results : List NodeResult) : Run :=
  { run with
    results := results.foldl (fun d r => (r.nodeId, r) :: d) run.results }

def keyError (key : String) : Raised :=
  ⟨"KeyError", "'" ++ key ++ "'"⟩

def lookupResult (results : List (String × NodeResult)) (id : String) :
    Except Raised NodeResult :=
  match results.lookup id with
  | some result => .ok result
  | none => .error (keyError id)

/-- `result.output_head or result.input_head`. -/
def NodeResult.head (result : NodeResult) : String :=
  match result.outputHead with
  | none => result.inputHead
  | some head => if head = "" then result.inputHead else head

def requestFor (call : Call) (run : Run) (node : WorkNode) :
    Except Raised NodeRequest := do
  let dependencies ← node.dependsOn.mapM fun d => do
    let result ← lookupResult run.results d
    return result.head
  return {
    cellId := call.cellId
    epoch := call.epoch
    node := node
    inputHead := run.targetHead
    dependencyResults := dependencies }

/-- The conflicts of one candidate with its base, its plan and the policy. -/
def candidateConflicts (policy : ExecutorPolicy) (expected : String)
    (node : WorkNode) (result : NodeResult) : List ConflictReceipt :=
  let unexpected :=
    sortedSet (result.touchedFiles.filter fun f => decide (f ∉ node.files))
  let hit := overlap result.touchedFiles policy.protectedPaths
  (if result.inputHead ≠ expected then
    [{ left := result.nodeId
       right := "target"
       kind := .staleBase
       detail := "expected " ++ expected ++ ", candidate used " ++
         result.inputHead }]
  else []) ++
  (if unexpected ≠ [] then
    [{ left := result.nodeId
       right := "plan"
       kind := .undeclared
       files := unexpected }]
  else []) ++
  (if hit ≠ [] then
    [{ left := result.nodeId
       right := "policy"
       kind := .guarded
       files := hit }]
  else [])

/-- The overlaps of the candidates of a wave with each other. -/
def overlapConflicts : List NodeResult → List ConflictReceipt
  | [] => []
  | left :: rest =>
      (rest.filterMap fun right =>
        let files := overlap left.touchedFiles right.touchedFiles
        if files = [] then
          none
        else
          some
            { left := left.nodeId
              right := right.nodeId
              kind := .overlap
              files := files }) ++
      overlapConflicts rest

/-- `_premerge_conflicts`. -/
def premergeConflicts (policy : ExecutorPolicy) (nodes : List WorkNode)
    (results : List NodeResult) (expected : String) :
    Except Raised (List ConflictReceipt) := do
  let found ← results.mapM fun result =>
    match nodes.find? fun node => node.id == result.nodeId with
    | some node => .ok (candidateConflicts policy expected node result)
    | none => .error (keyError result.nodeId)
  return found.flatten ++ overlapConflicts results

/-- `_validate_merge`. -/
def validateMerge (receipt : MergeReceipt) (result : NodeResult)
    (targetHead : String) : Except Raised Unit :=
  if receipt.nodeId ≠ result.nodeId ∨
      some receipt.sourceHead ≠ result.outputHead then
    .error ⟨"ValueError", "merge receipt does not match node result"⟩
  else if receipt.targetBefore ≠ targetHead then
    .error ⟨"ValueError", "merge receipt target head is stale"⟩
  else if receipt.targetAfter = "" then
    .error ⟨"ValueError", "merge receipt has no target_after"⟩
  else if receipt.transform ≠ "fast_forward" ∧ ¬ receipt.requiresReverify then
    .error ⟨"ValueError", "transformed merge must require re-verification"⟩
  else
    .ok ()

/-- How the body of a loop leaves it. -/
inductive Exit
  | next
  | stop
  | raised (e : Raised)
deriving DecidableEq, Repr

/--
The merge loop of a wave.  Its `break` leaves the flag set, and the loop over
the waves goes on to read it.
-/
def mergeAll (w : World) : List String → Run → Run × Exit
  | [], run => (run, .next)
  | id :: rest, run =>
      let run := run.poll w
      if run.clock.cancelled then
        (run, .next)
      else
        match lookupResult run.results id with
        | .error e => (run, .raised e)
        | .ok result =>
            if result.outputHead = none then
              (run.cancel, .next)
            else
              match w.merger run.clock.tick result run.targetHead
                  run.merges.length with
              | .error e => (run, .raised e)
              | .ok receipt =>
                  match validateMerge receipt result run.targetHead with
                  | .error e => (run, .raised e)
                  | .ok () =>
                      mergeAll w rest
                        { run with
                          clock := run.clock.next
                          merges := run.merges ++ [receipt]
                          targetHead := receipt.targetAfter }

/-- What is done with the results of a wave. -/
def fanIn (w : World) (policy : ExecutorPolicy) (wave : WorkWave)
    (results : List NodeResult) (run : Run) : Run × Exit :=
  let run := (run.enter results).poll w
  if run.clock.cancelled || results.any fun r => decide (r.state ≠ .ok) then
    (run.cancel, .stop)
  else
    match premergeConflicts policy wave.nodes results run.targetHead with
    | .error e => (run, .raised e)
    | .ok [] =>
        mergeAll w (deterministicMergeOrder (results.map (·.nodeId))) run
    | .ok found =>
        ({ run with conflicts := run.conflicts ++ found }.cancel, .stop)

/-- The body of the loop over the waves. -/
def runWave (w : World) (policy : ExecutorPolicy) (call : Call)
    (inParallel : Bool) (wave : WorkWave) (run : Run) : Run × Exit :=
  match wave.nodes.mapM (requestFor call run) with
  | .error e => (run, .raised e)
  | .ok requests =>
      let answers :=
        if inParallel && decide (1 < requests.length) then
          parallel w policy requests run.clock
        else
          serial w policy requests run.clock
      match answers with
      | .error e => (run, .raised e)
      | .ok (results, c) => fanIn w policy wave results { run with clock := c }

/-- The loop over the waves, and the exception that ends it. -/
def runWaves (w : World) (policy : ExecutorPolicy) (call : Call)
    (inParallel : Bool) : List WorkWave → Run → Run × Option Raised
  | [], run => (run, none)
  | wave :: rest, run =>
      let run := run.poll w
      if run.clock.cancelled then
        (run, none)
      else
        match runWave w policy call inParallel wave run with
        | (run, .next) => runWaves w policy call inParallel rest run
        | (run, .stop) => (run, none)
        | (run, .raised e) => (run, some e)

/-- Entries for the nodes that were not started. -/
def fillSkipped (w : World) (call : Call) : List WorkNode → Run → Run
  | [], run => run
  | node :: rest, run =>
      match run.results.lookup node.id with
      | some _ => fillSkipped w call rest run
      | none =>
          let run := run.poll w
          let request : NodeRequest :=
            { cellId := call.cellId
              epoch := call.epoch
              node := node
              inputHead := run.targetHead
              dependencyResults := [] }
          let result : NodeResult :=
            { logicalId := request.logicalId w.digest
              nodeId := node.id
              state := if run.clock.cancelled then .cancelled else .skipped
              inputHead := run.targetHead
              outputHead := none
              detail := "not started after upstream cancellation/failure" }
          fillSkipped w call rest (run.enter [result])

/-- Whether the plan, the policy and the provider let nodes run in parallel. -/
def runsParallel (policy : ExecutorPolicy) (call : Call) : Bool :=
  policy.allowParallel && call.supportsFork &&
    decide (1 < policy.maxParallel) &&
    decide (conflictSet call.nodes = []) &&
    call.nodes.all (·.parallelSafe)

/-- The loop of `execute` over an accepted plan. -/
def executeWaves (w : World) (policy : ExecutorPolicy) (call : Call)
    (ws : List WorkWave) : Run × Option Raised :=
  runWaves w policy call (runsParallel policy call) ws
    { targetHead := call.inputHead }

/-- The report of a run that ended; it reads the flag once more. -/
def report (w : World) (policy : ExecutorPolicy) (call : Call) (run : Run) :
    ExecutionReport :=
  let run := (fillSkipped w call call.nodes run).poll w
  { cellId := call.cellId
    epoch := call.epoch
    inputHead := call.inputHead
    parallel := runsParallel policy call
    results := call.nodes.filterMap fun node => run.results.lookup node.id
    merges := run.merges
    finalHead := run.targetHead
    cancelled := run.clock.cancelled
    conflicts := run.conflicts }

/-- `WorkExecutor.execute`. -/
def execute (w : World) (policy : ExecutorPolicy) (call : Call) :
    Except ExecError ExecutionReport :=
  match waves call.nodes with
  | .error e => .error (.graph e)
  | .ok ws =>
      match executeWaves w policy call ws with
      | (_, some e) => .error (.raised e)
      | (run, none) => .ok (report w policy call run)

end Work
end SwFactory
