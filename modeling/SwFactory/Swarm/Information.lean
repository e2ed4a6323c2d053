import Mathlib.Data.List.Dedup
import SwFactory.Swarm.Population

/-!
# The information budget

What a population answered decides what the next one may spend: each measured
lane keeps the agents whose information is worth their cost, the roles are
capped by what their lanes keep, and a disagreement that no independent verifier
has looked at reserves one.  Arithmetic is exact; texts of reasons and the
digests of whole documents are left out.

Sources: `adaptive_information.py`, and the records of `population_manifest.py` and
`population_execution.py`.
-/

namespace SwFactory
namespace Swarm

open Arithmetic
open Machine
open Phase

/-! ## What was measured -/

inductive ReceiptState
  | answered
  | failed
  | cancelled
  | refused
deriving DecidableEq

structure BehaviorReceipt where
  taskId : Text
  state : ReceiptState
  behaviorSignature : List Text
  candidateDigest : Option Text
  evidenceDigest : Option Text
  costUsd : ℚ
  durationS : ℚ
deriving DecidableEq

/-- `require_sha256` -/
def isSha256 (value : Text) : Bool :=
  let raw := if "sha256:".toList.isPrefixOf value then value.drop 7 else value
  raw.length == 64 && raw.all Text.isLowerHex

/-- `BehaviorReceipt.validate` -/
def BehaviorReceipt.valid (r : BehaviorReceipt) : Bool :=
  "pop_".toList.isPrefixOf r.taskId && (r.state != .answered || r.behaviorSignature != []) &&
    r.candidateDigest.all isSha256 && r.evidenceDigest.all isSha256 && 0 ≤ r.costUsd &&
    0 ≤ r.durationS

structure PopulationTelemetry where
  manifestDigest : Text
  totalTasks : Nat
  receipts : Nat
  answered : Nat
  independentVerifierAnswers : Nat
  uniqueCandidates : Nat
  effectiveIndependentSearch : ℚ
  meanCorrelation : ℚ
  candidateDisagreement : ℚ
  totalCostUsd : ℚ
  totalDurationS : ℚ
  receiptDigests : List Text
deriving DecidableEq

/-- `PopulationTelemetry.validate` -/
def PopulationTelemetry.valid (t : PopulationTelemetry) : Bool :=
  isSha256 t.manifestDigest && t.receipts ≤ t.totalTasks && t.answered ≤ t.receipts &&
    t.independentVerifierAnswers ≤ t.answered && t.uniqueCandidates ≤ t.answered &&
    t.effectiveIndependentSearch ≤ t.answered && t.receiptDigests.length == t.receipts &&
    decide t.receiptDigests.Nodup &&
    [t.effectiveIndependentSearch, t.meanCorrelation, t.candidateDisagreement, t.totalCostUsd,
      t.totalDurationS].all (0 ≤ ·) &&
    t.meanCorrelation ≤ 1 && t.candidateDisagreement ≤ 1 && t.receiptDigests.all isSha256

structure PopulationExecutionReport where
  populationManifestDigest : Text
  receipts : List BehaviorReceipt
  telemetry : PopulationTelemetry
  cancelled : Bool
  startedTasks : Nat
deriving DecidableEq

structure PopulationTask where
  taskId : Text
  laneIndex : Nat
  role : AgentRole
  computeTier : ComputeTier
  independentVerification : Bool
deriving DecidableEq

structure PopulationManifest where
  tasks : List PopulationTask
deriving DecidableEq

/-- The digests of the documents; a manifest has one if `validate` accepts it. -/
structure Digests where
  receipt : BehaviorReceipt → Text
  manifest : PopulationManifest → Option Text

/-- `PopulationExecutionReport.validate`, and what its own digest validates. -/
def PopulationExecutionReport.valid (D : Digests) (r : PopulationExecutionReport) : Bool :=
  r.startedTasks ≤ r.telemetry.totalTasks &&
    r.populationManifestDigest == r.telemetry.manifestDigest &&
    r.receipts.length == r.telemetry.receipts &&
    (r.receipts.map D.receipt).mergeSort textLe == r.telemetry.receiptDigests &&
    r.receipts.length ≤ r.startedTasks && r.receipts.all BehaviorReceipt.valid &&
    r.telemetry.valid

structure InformationBudgetPolicy where
  minValuePerComputeUnit : ℚ
  correlationCollapse : ℚ
  highDisagreement : ℚ
  settledDisagreement : ℚ
  minIndependentVerifierAnswers : Nat
  minRetentionFraction : ℚ
deriving DecidableEq

/-- The defaults of the policy. -/
def InformationBudgetPolicy.default : InformationBudgetPolicy :=
  ⟨5 / 100, 85 / 100, 55 / 100, 15 / 100, 1, 25 / 100⟩

/-- `InformationBudgetPolicy.validate` -/
def InformationBudgetPolicy.valid (p : InformationBudgetPolicy) : Bool :=
  0 ≤ p.minValuePerComputeUnit &&
    [p.correlationCollapse, p.highDisagreement, p.settledDisagreement,
      p.minRetentionFraction].all inUnit &&
    p.settledDisagreement ≤ p.highDisagreement

/-! ## Correlation -/

/-- Each entry with each later one. -/
def pairs {α : Type} : List α → List (α × α)
  | [] => []
  | x :: xs => xs.map (fun y => (x, y)) ++ pairs xs

/-- The share of the decisions that two trajectories have in common. -/
def correlation (left right : List Text) : ℚ :=
  if left = [] ∧ right = [] then 1
  else if left = [] ∨ right = [] then 0
  else (left.dedup.filter (fun d => right.contains d)).length / ((left ++ right).dedup.length : ℚ)

/-- The mean over all pairs. -/
def meanCorrelation (signatures : List (List Text)) : ℚ :=
  let correlations := (pairs signatures).map (fun p => correlation p.1 p.2)
  correlations.sum / correlations.length

/-- `mean_pairwise_correlation` -/
def meanPairwiseCorrelation (signatures : List (List Text)) : ℚ :=
  if signatures.length < 2 then 0 else round6 (meanCorrelation signatures)

/-- `effective_independent_search` -/
def effectiveIndependentSearch (signatures : List (List Text)) : ℚ :=
  let n : ℚ := signatures.length
  if signatures.length = 0 then 0
  else if signatures.length = 1 then 1
  else round6 (n / (1 + (n - 1) * meanCorrelation signatures))

/-! ## Lanes -/

inductive BudgetAction
  | stop
  | shrink
  | hold
  | verify
deriving DecidableEq

structure LaneInformation where
  laneIndex : Nat
  role : AgentRole
  computeTier : ComputeTier
  taskCount : Nat
  receiptCount : Nat
  answered : Nat
  uniqueCandidates : Nat
  evidenceAnswers : Nat
  effectiveIndependentSearch : ℚ
  meanCorrelation : ℚ
  expectedInformation : ℚ
  computeUnitsPerTask : ℚ
  marginalInformationValue : ℚ
  recommendedCount : Nat
  action : BudgetAction
deriving DecidableEq

/-- `LaneInformation.validate` -/
def LaneInformation.valid (l : LaneInformation) : Bool :=
  l.receiptCount ≤ l.taskCount && l.answered ≤ l.receiptCount &&
    l.uniqueCandidates ≤ l.answered && l.evidenceAnswers ≤ l.answered &&
    l.recommendedCount ≤ l.taskCount &&
    [l.effectiveIndependentSearch, l.meanCorrelation, l.expectedInformation, l.computeUnitsPerTask,
      l.marginalInformationValue].all (0 ≤ ·) &&
    l.meanCorrelation ≤ 1 && l.expectedInformation ≤ 1

/-- `_ratio` -/
def ratio (numerator denominator : Nat) : ℚ :=
  if denominator = 0 then 0 else numerator / denominator

/-- `_clamp` -/
def clamp (value : ℚ) : ℚ :=
  max 0 (min 1 value)

/-- `marginal_information_value` -/
def marginalInformationValue (correlation expectedInformation cost : ℚ) : Option ℚ :=
  if inUnit correlation ∧ inUnit expectedInformation ∧ 0 < cost then
    some ((1 - correlation) * expectedInformation / cost)
  else
    none

/-- `_recommended_count` -/
def recommendedCount (taskCount : Nat) (marginalValue correlation : ℚ) (verifier : Bool)
    (disagreement : ℚ) (p : InformationBudgetPolicy) : Nat :=
  if taskCount = 0 then 0
  else
    let count :=
      if marginalValue < p.minValuePerComputeUnit then 0
      else
        let denominator := max (p.minValuePerComputeUnit * 4) (1 / 10 ^ 9)
        let retention := max p.minRetentionFraction (min 1 (marginalValue / denominator))
        max 1 (min taskCount ⌈(taskCount : ℚ) * retention⌉.toNat)
    let count := if p.correlationCollapse ≤ correlation ∧ 1 < taskCount then min count 1 else count
    if verifier ∧ p.highDisagreement ≤ disagreement then max count 1 else count

/-- The distinct candidates among some receipts. -/
def candidatesOf (receipts : List BehaviorReceipt) : List Text :=
  (receipts.filterMap BehaviorReceipt.candidateDigest).dedup

/-- One lane of `_lane_information`; `tasks` are its tasks, in the order of the manifest. -/
def laneInformation (report : PopulationExecutionReport) (p : InformationBudgetPolicy)
    (laneIndex : Nat) (tasks : List PopulationTask) : Option LaneInformation := do
  let first ← tasks.head?
  if tasks.all (fun t => t.role == first.role && t.computeTier == first.computeTier) then some ()
    else none
  -- a later receipt of a task stands for an earlier one
  let receipts := tasks.filterMap (fun t =>
    report.receipts.reverse.find? (fun r => r.taskId == t.taskId))
  let answered := receipts.filter (fun r => r.state == .answered)
  let signatures := answered.map BehaviorReceipt.behaviorSignature
  let correlation := meanPairwiseCorrelation signatures
  let candidates := (candidatesOf answered).length
  let evidence := (answered.filter (fun r => r.evidenceDigest.isSome)).length
  let answerRate := ratio answered.length receipts.length
  let novelty := ratio candidates answered.length
  let evidenceYield := ratio evidence answered.length
  let verifier := tasks.any PopulationTask.independentVerification
  let pressure := if verifier then report.telemetry.candidateDisagreement
    else max 0 (1 - report.telemetry.meanCorrelation)
  let unresolved := max 0 (1 - evidenceYield)
  let expected := clamp (30 / 100 * novelty + 20 / 100 * evidenceYield + 20 / 100 * answerRate +
    20 / 100 * pressure + 10 / 100 * unresolved)
  let cost : ℚ := tierCost first.computeTier
  let value ← marginalInformationValue correlation expected cost
  let count := recommendedCount tasks.length value correlation verifier
    report.telemetry.candidateDisagreement p
  some
    { laneIndex := laneIndex
      role := first.role
      computeTier := first.computeTier
      taskCount := tasks.length
      receiptCount := receipts.length
      answered := answered.length
      uniqueCandidates := candidates
      evidenceAnswers := evidence
      effectiveIndependentSearch := Swarm.effectiveIndependentSearch signatures
      meanCorrelation := correlation
      expectedInformation := round6 expected
      computeUnitsPerTask := cost
      marginalInformationValue := value
      recommendedCount := count
      action :=
        if count = 0 then .stop
        else if count < tasks.length then .shrink
        else if verifier then .verify
        else .hold }

/-- `_lane_information` -/
def lanesInformation (manifest : PopulationManifest) (report : PopulationExecutionReport)
    (p : InformationBudgetPolicy) : Option (List LaneInformation) :=
  (((manifest.tasks.map PopulationTask.laneIndex).dedup.mergeSort (· ≤ ·)).mapM (fun index =>
    laneInformation report p index (manifest.tasks.filter (fun t => t.laneIndex == index))))

/-- `_global_retained_count` -/
def globalRetainedCount (report : PopulationExecutionReport) (p : InformationBudgetPolicy)
    (maxAgents : Nat) : Nat :=
  let t := report.telemetry
  if t.totalTasks = 0 then 1
  else
    let independenceRatio := min 1 (t.effectiveIndependentSearch / max 1 (t.totalTasks : ℚ))
    if t.candidateDisagreement ≤ p.settledDisagreement ∧ p.correlationCollapse ≤ t.meanCorrelation
    then 1
    else
      max 1 (min maxAgents (min t.totalTasks
        ⌈(t.totalTasks : ℚ) * max p.minRetentionFraction independenceRatio⌉.toNat))

/-- `_global_information` -/
def globalInformation (report : PopulationExecutionReport) (p : InformationBudgetPolicy) :
    Option LaneInformation := do
  let t := report.telemetry
  let answered := report.receipts.filter (fun r => r.state == .answered)
  let evidence := (answered.filter (fun r => r.evidenceDigest.isSome)).length
  let expected := clamp (35 / 100 * ratio t.uniqueCandidates t.answered +
    25 / 100 * ratio evidence answered.length + 20 / 100 * ratio t.answered t.receipts +
    20 / 100 * t.candidateDisagreement)
  let value ← marginalInformationValue t.meanCorrelation expected 1
  let count := globalRetainedCount report p (max 1 t.totalTasks)
  some
    { laneIndex := 0
      role := .explorer
      computeTier := .cheap
      taskCount := t.totalTasks
      receiptCount := t.receipts
      answered := t.answered
      uniqueCandidates := t.uniqueCandidates
      evidenceAnswers := evidence
      effectiveIndependentSearch := t.effectiveIndependentSearch
      meanCorrelation := t.meanCorrelation
      expectedInformation := round6 expected
      computeUnitsPerTask := 1
      marginalInformationValue := value
      recommendedCount := count
      action := if count = 0 then .stop else if t.totalTasks ≤ count then .hold else .shrink }

/-- The lanes that are measured, of the manifest if there is one. -/
def measuredLanes (report : PopulationExecutionReport) (manifest : Option PopulationManifest)
    (p : InformationBudgetPolicy) : Option (List LaneInformation) :=
  match manifest with
  | some manifest => lanesInformation manifest report p
  | none => (globalInformation report p).map (fun lane => [lane])

/-! ## The decision -/

structure InformationBudgetDecision where
  baseBudget : SwarmBudget
  nextBudget : SwarmBudget
  lanes : List LaneInformation
  roleCaps : Dict AgentRole Nat
  modeOverride : Option ControlMode
  stopNewWork : Bool
  verifierReserve : Nat
deriving DecidableEq

/-- `InformationBudgetDecision.validate` -/
def InformationBudgetDecision.valid (d : InformationBudgetDecision) : Bool :=
  decide d.baseBudget.Valid && decide d.nextBudget.Valid &&
    d.nextBudget.maxAgents ≤ d.baseBudget.maxAgents &&
    d.nextBudget.maxParallel ≤ d.baseBudget.maxParallel &&
    d.nextBudget.maxDeepAgents ≤ d.baseBudget.maxDeepAgents &&
    d.nextBudget.maxExactReplays ≤ d.baseBudget.maxExactReplays &&
    d.nextBudget.maxComputeUnits ≤ d.baseBudget.maxComputeUnits + 1 / 10 ^ 9 &&
    d.lanes.all LaneInformation.valid && decide (d.lanes.map LaneInformation.laneIndex).Nodup &&
    decide d.roleCaps.keys.Nodup && d.verifierReserve ≤ d.baseBudget.maxAgents &&
    (!d.stopNewWork || d.modeOverride == none || d.modeOverride == some .drain)

/-- The value of a role, for the order of the caps. -/
def AgentRole.text : AgentRole → Text
  | .explorer => "explorer".toList
  | .mutator => "mutator".toList
  | .synthesizer => "synthesizer".toList
  | .critic => "critic".toList
  | .verifier => "verifier".toList
  | .redTeam => "red-team".toList
  | .memory => "memory".toList

/-- `_role_caps` -/
def roleCapsOf (lanes : List LaneInformation) : Dict AgentRole Nat :=
  lanes.foldl (fun caps lane => caps.update lane.role 0 (· + lane.recommendedCount)) []

/-- The smallest envelope, which starts no agents but one. -/
def idleBudget : SwarmBudget :=
  ⟨1, 1, 0, 0, 1⟩

/-- The agents that the lanes of a tier keep. -/
def keptOn (tier : ComputeTier) (lanes : List LaneInformation) : Nat :=
  ((lanes.filter (fun l => l.computeTier == tier)).map LaneInformation.recommendedCount).sum

/-- The compute that the measurement justifies, of its lanes or of the whole. -/
def justifiedCompute (report : PopulationExecutionReport) (base : SwarmBudget)
    (manifest : Option PopulationManifest) (lanes : List LaneInformation) : ℚ :=
  match manifest with
  | some _ => (lanes.map (fun l => (l.recommendedCount : ℚ) * l.computeUnitsPerTask)).sum
  | none =>
      let share := min 1 (report.telemetry.effectiveIndependentSearch /
        max 1 (report.telemetry.totalTasks : ℚ))
      max 1 (base.maxComputeUnits * max (10 / 100) share)

/-- `next_budget` of a decision that goes on. -/
def nextBudget (report : PopulationExecutionReport) (base : SwarmBudget)
    (manifest : Option PopulationManifest) (p : InformationBudgetPolicy)
    (lanes : List LaneInformation) (verifierReserve : Nat) : SwarmBudget :=
  let kept := match manifest with
    | some _ => (lanes.map LaneInformation.recommendedCount).sum
    | none => globalRetainedCount report p base.maxAgents
  let retained := max 1 (min base.maxAgents kept)
  let deep := min base.maxDeepAgents (max (keptOn .deep lanes) verifierReserve)
  let replays := min base.maxExactReplays (keptOn .exactReplay lanes)
  let justified := justifiedCompute report base manifest lanes
  let compute := if verifierReserve ≠ 0 then max justified (min base.maxComputeUnits 8)
    else justified
  { maxAgents := retained
    maxParallel := min base.maxParallel retained
    maxDeepAgents := min deep retained
    maxExactReplays := min replays retained
    maxComputeUnits := min base.maxComputeUnits (max 1 compute) }

/-- A disagreement that no independent verifier has looked at. -/
def needsVerifier (t : PopulationTelemetry) (p : InformationBudgetPolicy) : Bool :=
  p.highDisagreement ≤ t.candidateDisagreement &&
    t.independentVerifierAnswers < p.minIndependentVerifierAnswers

/-- Trajectories that repeat each other. -/
def collapsed (t : PopulationTelemetry) (p : InformationBudgetPolicy) : Bool :=
  p.correlationCollapse ≤ t.meanCorrelation &&
    t.effectiveIndependentSearch ≤ max 1 (max 1 (t.answered : ℚ) * (35 / 100))

/-- An answered question that is worth no more compute. -/
def settled (t : PopulationTelemetry) (p : InformationBudgetPolicy)
    (lanes : List LaneInformation) : Bool :=
  0 < t.answered && t.candidateDisagreement ≤ p.settledDisagreement &&
    lanes.all (fun l => l.marginalInformationValue < p.minValuePerComputeUnit)

/-- The mode of the next round, whether it starts nothing, and the verifiers it reserves. -/
def verdictOf (t : PopulationTelemetry) (base : SwarmBudget) (p : InformationBudgetPolicy)
    (lanes : List LaneInformation) : Option ControlMode × Bool × Nat :=
  if settled t p lanes then (some .drain, true, 0)
  else if needsVerifier t p then (some .measure, false, if 0 < base.maxDeepAgents then 1 else 0)
  else if collapsed t p then (some .perturb, false, 0)
  else (none, false, 0)

/-- The caps of the roles, with the reserved verifiers. -/
def reservedCaps (lanes : List LaneInformation) (verifierReserve : Nat) : Dict AgentRole Nat :=
  let caps := roleCapsOf lanes
  if verifierReserve ≠ 0 then caps.update .verifier 0 (fun cap => max cap verifierReserve) else caps

/-- `_cancelled_decision` -/
def cancelledDecision (base : SwarmBudget) : InformationBudgetDecision :=
  ⟨base, idleBudget, [], [], some .drain, true, 0⟩

/-- `evaluate_information_budget` -/
def evaluateInformationBudget (D : Digests) (report : PopulationExecutionReport)
    (base : SwarmBudget) (manifest : Option PopulationManifest) (p : InformationBudgetPolicy) :
    Option InformationBudgetDecision := do
  if report.valid D ∧ base.Valid ∧ p.valid ∧
      manifest.all (fun m => D.manifest m == some report.populationManifestDigest) then some ()
    else none
  if report.cancelled then
    if (cancelledDecision base).valid then some (cancelledDecision base) else none
  else
    let lanes ← measuredLanes report manifest p
    let verdict := verdictOf report.telemetry base p lanes
    let decision : InformationBudgetDecision :=
      { baseBudget := base
        nextBudget := if verdict.2.1 then idleBudget
          else nextBudget report base manifest p lanes verdict.2.2
        lanes := lanes
        roleCaps := (reservedCaps lanes verdict.2.2).mergeSort
          (fun a b => textLe a.1.text b.1.text)
        modeOverride := verdict.1
        stopNewWork := verdict.2.1
        verifierReserve := verdict.2.2 }
    if decision.valid then some decision else none

end Swarm
end SwFactory
