import SwFactory.Work.Graph

/-!
# Running the nodes of a wave one after the other

The runner, the merger, the operator who may cancel, the monotonic clock and the
thread scheduler are outside the executor.  `World` lists what they do, indexed
by the moment at which they are asked, so that each may answer differently every
time.  A `Clock` counts the moments and holds the cancellation flag.

Source: `work_executor.py`, `_run_with_retry` and `_serial`.
-/

namespace SwFactory
namespace Work

structure NodeRequest where
  cellId : String
  epoch : Int
  node : WorkNode
  inputHead : String
  dependencyResults : List String
  attempt : Nat := 1
  timeoutS : Int := 1800
deriving DecidableEq, Repr

/-- `NodeRequest.logical_id`; `digest` is the hex digest cut to 24 characters. -/
def NodeRequest.logicalId (digest : String → String) (r : NodeRequest) : String :=
  "wn_" ++ digest
    (r.cellId ++ "\x00" ++ toString r.epoch ++ "\x00" ++ r.node.id ++ "\x00" ++
      r.inputHead)

inductive NodeState
  | ok
  | failed
  | cancelled
  | skipped
deriving DecidableEq, Repr

structure NodeResult where
  logicalId : String
  nodeId : String
  state : NodeState
  inputHead : String
  outputHead : Option String
  touchedFiles : List String := []
  artifacts : List String := []
  providerIncarnation : Option String := none
  attempt : Nat := 1
  durationS : Int := 0
  detail : String := ""
deriving DecidableEq, Repr

inductive ConflictKind
  | disjoint
  | overlap
  | staleBase
  | guarded
  | undeclared
deriving DecidableEq, Repr

structure ConflictReceipt where
  left : String
  right : String
  kind : ConflictKind
  files : List String := []
  detail : String := ""
deriving DecidableEq, Repr

structure MergeReceipt where
  index : Nat
  nodeId : String
  sourceHead : String
  targetBefore : String
  targetAfter : String
  transform : String
  requiresReverify : Bool
  conflicts : List ConflictReceipt := []
deriving DecidableEq, Repr

/-- An exception: the name of its type and its text. -/
structure Raised where
  kind : String
  text : String
deriving DecidableEq, Repr

def wrongLogicalNode : Raised :=
  ⟨"ValueError", "runner returned result for the wrong logical node"⟩

/-- `ExecutorPolicy`, whose constructor refuses limits that are not positive. -/
structure ExecutorPolicy where
  maxParallel : Nat := 4
  maxAttempts : Nat := 2
  allowParallel : Bool := true
  protectedPaths : List String := []
  maxParallel_pos : 0 < maxParallel := by decide
  maxAttempts_pos : 0 < maxAttempts := by decide

/-- Everything the executor asks of its surroundings, by the moment it asks. -/
structure World where
  digest : String → String
  runner : Nat → NodeRequest → Except Raised NodeResult
  merger : Nat → NodeResult → String → Nat → Except Raised MergeReceipt
  /-- somebody else calls `cancel()` before this moment -/
  cancels : Nat → Bool
  /-- `time.monotonic() - started` around a call of the runner -/
  elapsed : Nat → Int
  /-- which of the enabled moves of the thread pool comes next -/
  schedule : Nat → Nat
  /-- a timeout or a signal that is raised in the waiting thread -/
  interrupts : Nat → Option Raised

/-- The moment, and the flag of `Cancellation`. -/
structure Clock where
  tick : Nat := 0
  cancelled : Bool := false
deriving DecidableEq, Repr

/-- Nothing unsets the flag: reading it sees every `cancel()` so far. -/
def World.poll (w : World) (c : Clock) : Clock :=
  ⟨c.tick + 1, c.cancelled || w.cancels c.tick⟩

def Clock.next (c : Clock) : Clock :=
  { c with tick := c.tick + 1 }

def Clock.cancel (c : Clock) : Clock :=
  { c with cancelled := true }

@[simp] theorem Clock.next_cancelled (c : Clock) :
    c.next.cancelled = c.cancelled :=
  rfl

@[simp] theorem Clock.cancel_cancelled (c : Clock) : c.cancel.cancelled = true :=
  rfl

theorem World.poll_of_cancelled {w : World} {c : Clock}
    (h : c.cancelled = true) : (w.poll c).cancelled = true := by
  simp [poll, h]

/-- What a node that saw the flag answers. -/
def cancelledResult (digest : String → String) (request : NodeRequest)
    (attempt : Nat) : NodeResult where
  logicalId := request.logicalId digest
  nodeId := request.node.id
  state := .cancelled
  inputHead := request.inputHead
  outputHead := none
  attempt := attempt

/-- One call of the runner, its answer checked and stamped. -/
def callRunner (w : World) (request : NodeRequest) (attempt tick : Nat) :
    Except Raised NodeResult := do
  let result ← w.runner tick { request with attempt := attempt }
  if result.logicalId ≠ request.logicalId w.digest ∨
      result.nodeId ≠ request.node.id then
    throw wrongLogicalNode
  return { result with
    attempt := attempt
    durationS := max result.durationS (w.elapsed tick) }

/-- A result after which the loop of `_run_with_retry` goes on. -/
def NodeResult.retryable (result : NodeResult) : Bool :=
  decide (result.state ≠ .ok) &&
    "retryable:".toList.isPrefixOf result.detail.toList

/-- `_run_with_retry`, with `more` attempts to come after this one. -/
def runWithRetry (w : World) (request : NodeRequest) :
    Nat → Nat → Clock → Except Raised (NodeResult × Clock)
  | 0, attempt, c => do
      let c := w.poll c
      if c.cancelled then
        return (cancelledResult w.digest request attempt, c)
      let result ← callRunner w request attempt c.tick
      return (result, c.next)
  | more + 1, attempt, c => do
      let c := w.poll c
      if c.cancelled then
        return (cancelledResult w.digest request attempt, c)
      let result ← callRunner w request attempt c.tick
      if result.retryable then
        runWithRetry w request more (attempt + 1) c.next
      else
        return (result, c.next)

/-- `_serial`. -/
def serial (w : World) (policy : ExecutorPolicy) :
    List NodeRequest → Clock → Except Raised (List NodeResult × Clock)
  | [], c => return ([], c)
  | request :: rest, c => do
      let c := w.poll c
      if c.cancelled then
        return ([], c)
      let (result, c) ← runWithRetry w request (policy.maxAttempts - 1) 1 c
      if result.state ≠ .ok then
        return ([result], c.cancel)
      let (out, c) ← serial w policy rest c
      return (result :: out, c)

theorem callRunner_nodeId {w : World} {request : NodeRequest}
    {attempt tick : Nat} {result : NodeResult}
    (h : callRunner w request attempt tick = .ok result) :
    result.nodeId = request.node.id := by
  obtain ⟨answer, -, h⟩ := Machine.bind_eq_ok h
  split at h
  · cases h
  · next hright =>
      cases h
      exact (not_or.mp hright).2 |> not_not.mp

theorem runWithRetry_nodeId {w : World} {request : NodeRequest}
    {more attempt : Nat} {c c' : Clock} {result : NodeResult}
    (h : runWithRetry w request more attempt c = .ok (result, c')) :
    result.nodeId = request.node.id := by
  induction more generalizing attempt c with
  | zero =>
      rw [runWithRetry] at h
      split at h
      · cases h
        rfl
      · obtain ⟨answer, hanswer, h⟩ := Machine.bind_eq_ok h
        cases h
        exact callRunner_nodeId hanswer
  | succ more ih =>
      rw [runWithRetry] at h
      split at h
      · cases h
        rfl
      · obtain ⟨answer, hanswer, h⟩ := Machine.bind_eq_ok h
        split at h
        · exact ih h
        · cases h
          exact callRunner_nodeId hanswer

/-- The results of a wave: one for each of its nodes, unless it is cancelled. -/
def Answers (requests : List NodeRequest) (results : List NodeResult)
    (c : Clock) : Prop :=
  (∀ result ∈ results, ∃ request ∈ requests, result.nodeId = request.node.id) ∧
  (c.cancelled = false →
    results.map (·.nodeId) = requests.map (·.node.id))

theorem serial_answers {w : World} {policy : ExecutorPolicy}
    {requests : List NodeRequest} {c c' : Clock} {results : List NodeResult}
    (h : serial w policy requests c = .ok (results, c')) :
    Answers requests results c' := by
  induction requests generalizing c c' results with
  | nil =>
      cases h
      exact ⟨by simp, fun _ => rfl⟩
  | cons request rest ih =>
      rw [serial] at h
      dsimp only at h
      split at h
      · next hflag =>
          cases h
          exact ⟨by simp, fun hfalse => absurd hflag (by simp [hfalse])⟩
      · obtain ⟨⟨result, c₁⟩, hresult, h⟩ := Machine.bind_eq_ok h
        have hid := runWithRetry_nodeId hresult
        dsimp only at h
        split at h
        · cases h
          exact ⟨by simp [hid], by simp⟩
        · obtain ⟨⟨out, c₂⟩, hout, h⟩ := Machine.bind_eq_ok h
          cases h
          obtain ⟨hmem, hall⟩ := ih hout
          constructor
          · intro r hr
            rcases List.mem_cons.mp hr with rfl | hr
            · exact ⟨request, List.mem_cons_self, hid⟩
            · obtain ⟨q, hq, hqid⟩ := hmem r hr
              exact ⟨q, List.mem_cons_of_mem _ hq, hqid⟩
          · intro hflag
            simp [hid, hall hflag]

end Work
end SwFactory
