import SwFactory.Machine.Dicts
import SwFactory.Phase.Controllers
import SwFactory.Text

/-!
# The population of a search round

A plan is a list of lanes, each with a role, a compute tier and a number of
agents.  `allocate_population` chooses the lanes by the mode, narrows them to
the caps of the roles, and fits them greedily into a budget that shrinks with
the pressure on resources.  Arithmetic is exact; the explanatory texts of a plan
are left out.

Source: `swarm_dynamics.py`.
-/

namespace SwFactory
namespace Swarm

open Arithmetic
open Machine
open Phase

abbrev Text := List Char

inductive AgentRole
  | explorer
  | mutator
  | synthesizer
  | critic
  | verifier
  | redTeam
  | memory
deriving DecidableEq

inductive ComputeTier
  | cheap
  | standard
  | deep
  | exactReplay
deriving DecidableEq

inductive ContextPolicy
  | fresh
  | inherit
  | compact
  | frozen
deriving DecidableEq

/-- `round(value, 6)` -/
def round6 (value : ℚ) : ℚ :=
  roundTo roundHalfEven 6 value

/-- `int(round(value))` of a value that is not negative. -/
def roundNat (value : ℚ) : Nat :=
  (roundHalfEven value).toNat

/-- A fraction. -/
def inUnit (value : ℚ) : Bool :=
  0 ≤ value && value ≤ 1

def isBlank (text : Text) : Bool :=
  text.all Text.isSpace

/-- The order of texts by their code points. -/
def textLe : Text → Text → Bool
  | [], _ => true
  | _ :: _, [] => false
  | a :: as, b :: bs => a.toNat < b.toNat || (a == b && textLe as bs)

/-! ## Budgets and observations -/

structure SwarmBudget where
  maxAgents : Nat
  maxParallel : Nat
  maxDeepAgents : Nat
  maxExactReplays : Nat
  maxComputeUnits : ℚ
deriving DecidableEq

/-- `SwarmBudget.validate` -/
structure SwarmBudget.Valid (b : SwarmBudget) : Prop where
  agents : 1 ≤ b.maxAgents
  parallel : 1 ≤ b.maxParallel
  parallel_le : b.maxParallel ≤ b.maxAgents
  deep_le : b.maxDeepAgents ≤ b.maxAgents
  exact_le : b.maxExactReplays ≤ b.maxAgents
  compute : 1 ≤ b.maxComputeUnits

instance (b : SwarmBudget) : Decidable b.Valid :=
  decidable_of_iff
    (1 ≤ b.maxAgents ∧ 1 ≤ b.maxParallel ∧ b.maxParallel ≤ b.maxAgents ∧
      b.maxDeepAgents ≤ b.maxAgents ∧ b.maxExactReplays ≤ b.maxAgents ∧ 1 ≤ b.maxComputeUnits)
    ⟨fun h => ⟨h.1, h.2.1, h.2.2.1, h.2.2.2.1, h.2.2.2.2.1, h.2.2.2.2.2⟩,
      fun h => ⟨h.agents, h.parallel, h.parallel_le, h.deep_le, h.exact_le, h.compute⟩⟩

structure DisagreementHotspot where
  hotspotId : Text
  topicDigest : Text
  disagreement : ℚ
  evidenceGap : ℚ
  impact : ℚ
  candidateDigests : List Text
deriving DecidableEq

/-- `DisagreementHotspot.validate` -/
def DisagreementHotspot.valid (h : DisagreementHotspot) : Bool :=
  !isBlank h.hotspotId && !isBlank h.topicDigest && inUnit h.disagreement &&
    inUnit h.evidenceGap && inUnit h.impact

def DisagreementHotspot.value (h : DisagreementHotspot) : ℚ :=
  round6 (h.disagreement * h.evidenceGap * (1 / 2 + 1 / 2 * h.impact))

structure CandidateCrystal where
  candidateDigest : Text
  sourceDigest : Text
  recipeDigest : Text
  policyDigest : Text
  evidenceDigest : Text
  coherence : ℚ
  evidenceCompleteness : ℚ
  verifierDisagreement : ℚ
  contradictions : Nat
  frozen : Bool
deriving DecidableEq

/-- `CandidateCrystal.validate` -/
def CandidateCrystal.valid (c : CandidateCrystal) : Bool :=
  [c.candidateDigest, c.sourceDigest, c.recipeDigest, c.policyDigest, c.evidenceDigest].all
      (fun digest => !isBlank digest) &&
    [c.coherence, c.evidenceCompleteness, c.verifierDisagreement].all inUnit

/-- `verify_ready`, of a valid crystal -/
def CandidateCrystal.verifyReady (c : CandidateCrystal) : Bool :=
  c.frozen && 85 / 100 ≤ c.coherence && 80 / 100 ≤ c.evidenceCompleteness &&
    c.verifierDisagreement ≤ 25 / 100 && c.contradictions == 0

structure SwarmObservation where
  effectiveIndependentSearch : ℚ
  meanCorrelation : ℚ
  novelty : ℚ
  verifierDisagreement : ℚ
  evidenceCompleteness : ℚ
  resourcePressure : ℚ
  contextPressure : ℚ
  branchingRatio : ℚ
  progressRate : ℚ
  expectedInformation : ℚ
deriving DecidableEq

/-- `SwarmObservation.validate` -/
def SwarmObservation.valid (o : SwarmObservation) : Bool :=
  0 ≤ o.effectiveIndependentSearch &&
    [o.meanCorrelation, o.novelty, o.verifierDisagreement, o.evidenceCompleteness,
      o.resourcePressure, o.contextPressure, o.progressRate, o.expectedInformation].all inUnit &&
    0 ≤ o.branchingRatio && o.branchingRatio ≤ 4

/-! ## Lanes and plans -/

structure PopulationLane where
  role : AgentRole
  computeTier : ComputeTier
  count : Nat
  context : ContextPolicy
  temperature : ℚ
  independentVerification : Bool
  diversityAxes : List String
  focusHotspots : List Text
deriving DecidableEq

/-- `PopulationLane.validate` -/
def PopulationLane.valid (lane : PopulationLane) : Bool :=
  0 ≤ lane.temperature && lane.temperature ≤ 2 &&
    (lane.computeTier != .exactReplay || lane.temperature == 0) &&
    (!lane.independentVerification || lane.role == .verifier || lane.role == .redTeam)

/-- `tier_cost`, all of whose values are whole -/
def tierCost : ComputeTier → Nat
  | .cheap => 1
  | .standard => 2
  | .deep => 8
  | .exactReplay => 3

/-- `_lane_compute_units` -/
def laneComputeUnits (lane : PopulationLane) : ℚ :=
  lane.count * tierCost lane.computeTier

/-- The agents of the lanes of a kind. -/
def countOf (keep : PopulationLane → Bool) (lanes : List PopulationLane) : Nat :=
  ((lanes.filter keep).map PopulationLane.count).sum

def onTier (tier : ComputeTier) (lane : PopulationLane) : Bool :=
  lane.computeTier == tier

structure SwarmPlan where
  phase : FactoryPhase
  mode : ControlMode
  lanes : List PopulationLane
  selectedHotspots : List DisagreementHotspot
  crystalsToVerify : List CandidateCrystal
  stopNewWork : Bool
  estimatedComputeUnits : ℚ
deriving DecidableEq

/-- `SwarmPlan.validate` -/
structure SwarmPlan.Valid (p : SwarmPlan) (b : SwarmBudget) : Prop where
  budget : b.Valid
  lanes : p.lanes.all PopulationLane.valid = true
  hotspots : p.selectedHotspots.all DisagreementHotspot.valid = true
  crystals : p.crystalsToVerify.all CandidateCrystal.valid = true
  agents : countOf (fun _ => true) p.lanes ≤ b.maxAgents
  deep : countOf (fun l => onTier .deep l || onTier .exactReplay l) p.lanes -
    countOf (onTier .exactReplay) p.lanes ≤ b.maxDeepAgents
  exactReplays : countOf (onTier .exactReplay) p.lanes ≤ b.maxExactReplays
  compute : p.estimatedComputeUnits ≤ b.maxComputeUnits + 1 / 10 ^ 9
  stopped : p.stopNewWork = true →
    p.lanes.all (fun l => l.count == 0 || !(l.role == .explorer || l.role == .mutator)) = true

instance (p : SwarmPlan) (b : SwarmBudget) : Decidable (p.Valid b) :=
  decidable_of_iff
    (b.Valid ∧ p.lanes.all PopulationLane.valid = true ∧
      p.selectedHotspots.all DisagreementHotspot.valid = true ∧
      p.crystalsToVerify.all CandidateCrystal.valid = true ∧
      countOf (fun _ => true) p.lanes ≤ b.maxAgents ∧
      countOf (fun l => onTier .deep l || onTier .exactReplay l) p.lanes -
        countOf (onTier .exactReplay) p.lanes ≤ b.maxDeepAgents ∧
      countOf (onTier .exactReplay) p.lanes ≤ b.maxExactReplays ∧
      p.estimatedComputeUnits ≤ b.maxComputeUnits + 1 / 10 ^ 9 ∧
      (p.stopNewWork = true → p.lanes.all
        (fun l => l.count == 0 || !(l.role == .explorer || l.role == .mutator)) = true))
    ⟨fun h => ⟨h.1, h.2.1, h.2.2.1, h.2.2.2.1, h.2.2.2.2.1, h.2.2.2.2.2.1, h.2.2.2.2.2.2.1,
        h.2.2.2.2.2.2.2.1, h.2.2.2.2.2.2.2.2⟩,
      fun h => ⟨h.budget, h.lanes, h.hotspots, h.crystals, h.agents, h.deep, h.exactReplays,
        h.compute, h.stopped⟩⟩

/-! ## Allocation -/

/-- `prioritize_hotspots` -/
def prioritizeHotspots (hotspots : List DisagreementHotspot) (limit : Nat) :
    Option (List DisagreementHotspot) :=
  if hotspots.all DisagreementHotspot.valid then
    some ((hotspots.mergeSort (fun a b =>
      b.value < a.value || (a.value == b.value && textLe a.hotspotId b.hotspotId))).take limit)
  else
    none

/-- The frozen candidates that are ready, the least disputed first. -/
def readyCrystals (crystals : List CandidateCrystal) (limit : Nat) :
    Option (List CandidateCrystal) :=
  if crystals.all CandidateCrystal.valid then
    some (((crystals.filter CandidateCrystal.verifyReady).mergeSort (fun a b =>
      a.verifierDisagreement < b.verifierDisagreement ||
        (a.verifierDisagreement == b.verifierDisagreement &&
          (b.evidenceCompleteness < a.evidenceCompleteness ||
            (a.evidenceCompleteness == b.evidenceCompleteness &&
              textLe a.candidateDigest b.candidateDigest))))).take limit)
  else
    none

/-- `resource_factor` -/
def resourceFactor (pressure : ℚ) : ℚ :=
  max (1 / 4) (1 - 3 / 4 * pressure)

/-- `planning_budget` -/
def planningBudget (o : SwarmObservation) (b : SwarmBudget) : SwarmBudget :=
  let factor := resourceFactor o.resourcePressure
  let available := max 1 (roundNat (b.maxAgents * factor))
  { maxAgents := min b.maxAgents available
    maxParallel := min b.maxParallel available
    maxDeepAgents := min b.maxDeepAgents available
    maxExactReplays := min b.maxExactReplays available
    maxComputeUnits := max 1 (b.maxComputeUnits * factor) }

/-- `cheap_width` -/
def cheapWidth (o : SwarmObservation) (agents : Nat) : Nat :=
  let independenceRatio := min 1 (o.effectiveIndependentSearch / max 1 (agents : ℚ))
  let collapsePressure := max o.meanCorrelation (max (1 - o.novelty) (1 - independenceRatio))
  min agents (max 1 (roundNat (agents * (45 / 100 + 35 / 100 * collapsePressure))))

def axes : List String :=
  ["strategy", "model", "prompt", "runtime", "context", "mutation"]

def divergeLanes (o : SwarmObservation) (b : SwarmBudget) : List PopulationLane :=
  let width := cheapWidth o b.maxAgents
  let explorer := max 1 (roundNat (width * (70 / 100)))
  let mutator := max 1 (width - explorer)
  [⟨.explorer, .cheap, explorer, .fresh, 125 / 100, false, axes, []⟩,
    ⟨.mutator, .cheap, mutator, .fresh, 110 / 100, false,
      ["strategy", "mutation", "prompt", "context"], []⟩] ++
    if 0 < b.maxAgents - width then
      [⟨.critic, .standard, min 2 (b.maxAgents - width), .compact, 35 / 100, false,
        ["role", "model"], []⟩]
    else
      []

def coordinateLanes (b : SwarmBudget) : List PopulationLane :=
  let total := min b.maxAgents (max 4 (roundNat (b.maxAgents * (65 / 100))))
  let explore := max 1 (roundNat (total * (40 / 100)))
  let synth := max 1 (roundNat (total * (20 / 100)))
  let critic := max 1 (roundNat (total * (20 / 100)))
  let verifier := max 1 (total - explore - synth - critic)
  [⟨.explorer, .cheap, explore, .inherit, 95 / 100, false, axes, []⟩,
    ⟨.synthesizer, .standard, synth, .compact, 30 / 100, false, ["role", "model"], []⟩,
    ⟨.critic, .standard, critic, .compact, 25 / 100, false, ["role", "model", "verifier"], []⟩,
    ⟨.verifier, .standard, verifier, .fresh, 0, true, ["model", "runtime", "verifier"], []⟩]

/-- The lanes of `measure` and `anneal`, the independent verifier first. -/
def measureLanes (b : SwarmBudget) (selected : List DisagreementHotspot) : List PopulationLane :=
  let deep := min b.maxDeepAgents (max 1 selected.length)
  let standard := min (max 2 (b.maxAgents - deep)) (max 2 b.maxParallel)
  let focus := selected.map DisagreementHotspot.hotspotId
  [⟨.verifier, if deep ≠ 0 then .deep else .standard,
      if deep ≠ 0 then deep else max 1 (standard / 2), .fresh, 0, true,
      ["model", "runtime", "verifier"], focus⟩,
    ⟨.critic, .standard, max 1 (standard / 2), .compact, 15 / 100, false,
      ["model", "role", "verifier"], focus⟩,
    ⟨.redTeam, .standard, max 1 (standard / 3), .fresh, 20 / 100, true,
      ["model", "role", "attack-surface"], focus⟩]

def verifyLanes (b : SwarmBudget) (ready : List CandidateCrystal) : List PopulationLane :=
  let replays := min b.maxExactReplays ready.length
  let deep := min b.maxDeepAgents (max 1 ready.length)
  (if replays ≠ 0 then
    [⟨.verifier, .exactReplay, replays, .frozen, 0, true, ["runtime", "verifier"], []⟩]
  else
    []) ++
    if deep ≠ 0 then
      [⟨.redTeam, .deep, deep, .fresh, 0, true,
        ["model", "runtime", "verifier", "attack-surface"], []⟩]
    else
      []

def perturbLanes (b : SwarmBudget) : List PopulationLane :=
  let total := min b.maxAgents (max 3 (roundNat (b.maxAgents * (50 / 100))))
  [⟨.explorer, .cheap, max 2 (total / 2), .fresh, 150 / 100, false, axes, []⟩,
    ⟨.mutator, .cheap, max 1 (total / 3), .fresh, 135 / 100, false,
      ["strategy", "mutation", "runtime", "context"], []⟩,
    ⟨.critic, .standard, 1, .fresh, 25 / 100, false, ["role", "model"], []⟩]

/-- The lane that consolidates what is known. -/
def memoryLane : PopulationLane :=
  ⟨.memory, .cheap, 1, .compact, 0, false, ["evidence"], []⟩

def drainLanes (b : SwarmBudget) : List PopulationLane :=
  [memoryLane,
    ⟨.verifier, .standard, min 2 (b.maxAgents - 1), .frozen, 0, true, ["runtime", "verifier"], []⟩]

/-- The lanes of a mode. -/
def lanesOf (mode : ControlMode) (o : SwarmObservation) (b : SwarmBudget)
    (selected : List DisagreementHotspot) (ready : List CandidateCrystal) : List PopulationLane :=
  match mode with
  | .diverge => divergeLanes o b
  | .coordinate => coordinateLanes b
  | .measure => measureLanes b selected
  | .anneal => measureLanes b selected
  | .verify => verifyLanes b ready
  | .perturb => perturbLanes b
  | .drain => drainLanes b

/-- The loop of `_apply_role_caps`. -/
def capLanes : Dict AgentRole Nat → List PopulationLane → List PopulationLane
  | _, [] => []
  | remaining, lane :: lanes =>
      match remaining.get? lane.role with
      | none => lane :: capLanes remaining lanes
      | some left =>
          let count := min lane.count left
          let rest := capLanes (remaining.assign lane.role (left - count)) lanes
          if count = 0 then rest else { lane with count := count } :: rest

/-- `_apply_role_caps` -/
def applyRoleCaps (lanes : List PopulationLane) : Option (Dict AgentRole Nat) → List PopulationLane
  | none => lanes
  | some caps => capLanes caps lanes

/-- How many agents of a lane are left room for. -/
def roomFor (lane : PopulationLane) (b : SwarmBudget) : Nat :=
  let count := min lane.count b.maxAgents
  let count :=
    match lane.computeTier with
    | .deep => min count b.maxDeepAgents
    | .exactReplay => min count b.maxExactReplays
    | _ => count
  min count ⌊b.maxComputeUnits / tierCost lane.computeTier⌋.toNat

/-- What is left of the budget behind `count` agents of a lane. -/
def spend (lane : PopulationLane) (count : Nat) (b : SwarmBudget) : SwarmBudget :=
  { b with
    maxAgents := b.maxAgents - count
    maxComputeUnits := b.maxComputeUnits - count * tierCost lane.computeTier
    maxDeepAgents := if lane.computeTier = .deep then b.maxDeepAgents - count else b.maxDeepAgents
    maxExactReplays :=
      if lane.computeTier = .exactReplay then b.maxExactReplays - count else b.maxExactReplays }

/-- The loop of `_fit_budget`. -/
def fitLanes : List PopulationLane → SwarmBudget → List PopulationLane
  | [], _ => []
  | lane :: lanes, b =>
      if roomFor lane b = 0 then
        fitLanes lanes b
      else
        { lane with count := roomFor lane b } :: fitLanes lanes (spend lane (roomFor lane b) b)

/-- `_fit_budget` -/
def fitBudget (lanes : List PopulationLane) (b : SwarmBudget) : List PopulationLane :=
  let fitted := fitLanes lanes b
  if fitted = [] then [memoryLane] else fitted

/-- `allocate_population` -/
def allocatePopulation
    (assessment : PhaseAssessment)
    (o : SwarmObservation)
    (b : SwarmBudget)
    (hotspots : List DisagreementHotspot)
    (crystals : List CandidateCrystal)
    (modeOverride : Option ControlMode)
    (roleCaps : Option (Dict AgentRole Nat)) :
    Option SwarmPlan := do
  if o.valid ∧ b.Valid ∧ (planningBudget o b).Valid then some () else none
  let planning := planningBudget o b
  let selected ← prioritizeHotspots hotspots planning.maxDeepAgents
  let ready ← readyCrystals crystals planning.maxExactReplays
  let mode := modeOverride.getD assessment.recommendation.mode
  let lanes := fitBudget (applyRoleCaps (lanesOf mode o planning selected ready) roleCaps) planning
  let plan : SwarmPlan :=
    { phase := assessment.phase
      mode := mode
      lanes := lanes
      selectedHotspots := selected
      crystalsToVerify := ready
      stopNewWork := mode == .drain
      estimatedComputeUnits := round6 (lanes.map laneComputeUnits).sum }
  if plan.Valid b then some plan else none

end Swarm
end SwFactory
