import SwFactory.Arithmetic.Rounding
import Mathlib.Algebra.Order.Ring.Unbundled.Rat
import Mathlib.Data.Rat.Floor

/-!
# The two phase controllers

The factory and the console assess the same observation.  The types are the
same in both programs and stand here once; each program's functions are
translated separately, over exact rationals.

Sources: `phase_control.py` (namespace `Python`) and
`rust/crates/swf-domain/src/phase_control.rs` (namespace `Rust`).
-/

namespace SwFactory
namespace Phase

open Arithmetic

/-! ## Observations and answers -/

inductive FactoryPhase
  | gas | liquid | critical | crystal | glass | jammed
deriving DecidableEq

inductive ControlMode
  | diverge | coordinate | measure | anneal | verify | perturb | drain
deriving DecidableEq

inductive TrajectoryMode
  | isolated | forked | specialist | none
deriving DecidableEq

inductive SpawnDirective
  | increase | hold | decrease | limited | stop
deriving DecidableEq

inductive ContextDirective
  | fresh | retain | compact
deriving DecidableEq

inductive CandidateDirective
  | expand | coordinate | freeze | prune | verify | reset | hold
deriving DecidableEq

inductive QueueDirective
  | admitWork | hold | drain
deriving DecidableEq

inductive VerificationDirective
  | normal | increase | maximum
deriving DecidableEq

inductive AttentionClass
  | routine | exception | authorityBoundary
deriving DecidableEq

structure PhaseObservation where
  candidateEntropy : ℚ
  coherence : ℚ
  mobility : ℚ
  queuePressure : ℚ
  queueAcceleration : ℚ
  resourcePressure : ℚ
  branchingRatio : ℚ
  evidenceCompleteness : ℚ
  contextPressure : ℚ
  debtPressure : ℚ
  verifierDisagreement : ℚ
deriving DecidableEq

structure PhaseSignals where
  orderParameter : ℚ
  jamPressure : ℚ
  transitionPressure : ℚ
  branchingSupercritical : Bool
deriving DecidableEq

structure PhaseRecommendation where
  mode : ControlMode
  spawn : SpawnDirective
  trajectory : TrajectoryMode
  context : ContextDirective
  candidates : CandidateDirective
  queue : QueueDirective
  verification : VerificationDirective
  attention : AttentionClass
  allowNewImplementationLanes : Bool
  reason : String
deriving DecidableEq

structure PhaseAssessment where
  schemaVersion : Nat
  authority : String
  observation : PhaseObservation
  previousPhase : Option FactoryPhase
  rawPhase : FactoryPhase
  phase : FactoryPhase
  signals : PhaseSignals
  recommendation : PhaseRecommendation
deriving DecidableEq

/-- The fields that both validators hold to the unit interval, in their order. -/
def PhaseObservation.unit (o : PhaseObservation) : List (String × ℚ) :=
  [("candidate_entropy", o.candidateEntropy),
    ("coherence", o.coherence),
    ("mobility", o.mobility),
    ("queue_pressure", o.queuePressure),
    ("resource_pressure", o.resourcePressure),
    ("evidence_completeness", o.evidenceCompleteness),
    ("context_pressure", o.contextPressure),
    ("debt_pressure", o.debtPressure),
    ("verifier_disagreement", o.verifierDisagreement)]

/-! ## The factory -/

namespace Python

/-- `PhaseObservation.validate`: the text of the `ValueError`. -/
def validate (o : PhaseObservation) : Except String Unit :=
  match o.unit.find? (fun field => ¬ (0 ≤ field.2 ∧ field.2 ≤ 1)) with
  | some field => .error (field.1 ++ " must be finite and in [0, 1]")
  | none =>
      if ¬ (-1 ≤ o.queueAcceleration ∧ o.queueAcceleration ≤ 1) then
        .error "queue_acceleration must be finite and in [-1, 1]"
      else if ¬ (0 ≤ o.branchingRatio ∧ o.branchingRatio ≤ 4) then
        .error "branching_ratio must be finite and in [0, 4]"
      else
        .ok ()

/-- `round(value, 6)`. -/
def round6 (value : ℚ) : ℚ :=
  roundTo roundHalfEven 6 value

/-- `_signals`. -/
def signals (o : PhaseObservation) : Except String PhaseSignals := do
  validate o
  let jamPressure :=
    min 1
      (0.40 * o.queuePressure
        + 0.25 * o.resourcePressure
        + 0.35 * o.debtPressure
        + 0.15 * max o.queueAcceleration 0)
  let orderParameter :=
    min 1
      (max 0
        (0.35 * o.coherence
          + 0.35 * o.evidenceCompleteness
          + 0.15 * (1 - o.candidateEntropy)
          + 0.15 * (1 - o.verifierDisagreement)))
  let transitionPressure :=
    min 1
      (0.50 * o.verifierDisagreement
        + 0.20 * |o.queueAcceleration|
        + 0.20 * min (o.branchingRatio / 1.5) 1
        + 0.10 * o.contextPressure)
  return {
    orderParameter := round6 orderParameter
    jamPressure := round6 jamPressure
    transitionPressure := round6 transitionPressure
    branchingSupercritical := o.branchingRatio ≥ 1 }

/-- `_raw_phase`. -/
def rawPhase (o : PhaseObservation) (s : PhaseSignals) : FactoryPhase :=
  if s.jamPressure ≥ 0.72 ∨ (o.branchingRatio ≥ 1.25 ∧ o.queuePressure ≥ 0.65) then
    .jammed
  else if s.orderParameter ≥ 0.85
      ∧ o.evidenceCompleteness ≥ 0.90
      ∧ o.coherence ≥ 0.85
      ∧ o.candidateEntropy ≤ 0.25
      ∧ o.verifierDisagreement ≤ 0.15
      ∧ s.jamPressure ≤ 0.25
      ∧ o.branchingRatio < 1 then
    .crystal
  else if o.candidateEntropy ≤ 0.40
      ∧ o.mobility ≤ 0.25
      ∧ o.evidenceCompleteness < 0.85
      ∧ o.coherence < 0.85 then
    .glass
  else if o.candidateEntropy ≥ 0.70
      ∧ o.coherence ≤ 0.40
      ∧ o.evidenceCompleteness < 0.75 then
    .gas
  else if s.transitionPressure ≥ 0.55 ∨ o.branchingRatio ≥ 1 then
    .critical
  else
    .liquid

/-- `_with_hysteresis`. -/
def withHysteresis (raw : FactoryPhase) (previousPhase : Option FactoryPhase)
    (o : PhaseObservation) (s : PhaseSignals) : FactoryPhase :=
  if previousPhase = none ∨ previousPhase = some raw then
    raw
  else if raw = .crystal ∨ raw = .jammed then
    raw
  else if previousPhase = some .crystal
      ∧ (s.orderParameter ≥ 0.78
        ∧ o.evidenceCompleteness ≥ 0.82
        ∧ o.coherence ≥ 0.78
        ∧ o.candidateEntropy ≤ 0.35
        ∧ s.jamPressure < 0.45
        ∧ o.branchingRatio < 1) then
    .crystal
  else if previousPhase = some .jammed ∧ s.jamPressure ≥ 0.50 then
    .jammed
  else if previousPhase = some .glass
      ∧ (o.mobility ≤ 0.35
        ∧ o.evidenceCompleteness < 0.90
        ∧ o.coherence < 0.90
        ∧ s.jamPressure < 0.70) then
    .glass
  else if previousPhase = some .gas
      ∧ raw = .liquid
      ∧ (o.candidateEntropy ≥ 0.58 ∧ o.coherence ≤ 0.50 ∧ s.jamPressure < 0.55) then
    .gas
  else if previousPhase = some .critical
      ∧ raw = .liquid
      ∧ s.transitionPressure ≥ 0.40 then
    .critical
  else if previousPhase = some .liquid then
    if raw = .gas ∧ o.candidateEntropy < 0.82 then
      .liquid
    else if raw = .critical ∧ s.transitionPressure < 0.68 ∧ o.branchingRatio < 1 then
      .liquid
    else
      raw
  else
    raw

/-- `_mode`. -/
def mode (phase : FactoryPhase) (o : PhaseObservation) (s : PhaseSignals) :
    ControlMode :=
  if phase = .jammed then
    .drain
  else if phase = .glass then
    .perturb
  else if phase = .crystal then
    .verify
  else if phase = .gas then
    .diverge
  else if s.orderParameter ≥ 0.65
      ∧ o.evidenceCompleteness ≥ 0.70
      ∧ o.candidateEntropy ≤ 0.50
      ∧ o.verifierDisagreement ≤ 0.35
      ∧ s.jamPressure < 0.45
      ∧ o.branchingRatio < 1 then
    .anneal
  else if phase = .critical then
    .measure
  else
    .coordinate

/-- `_recommend`. -/
def recommend (mode : ControlMode) (o : PhaseObservation) : PhaseRecommendation :=
  match mode with
  | .diverge =>
      ⟨mode, .increase, .isolated, .fresh, .expand, .admitWork, .normal, .routine, true,
        "High diversity and weak coherence: widen independent search while keeping trajectories decorrelated."⟩
  | .coordinate =>
      ⟨mode, .hold, .specialist,
        if o.contextPressure ≥ 0.85 then .compact else .retain,
        .coordinate, .admitWork, .normal, .routine, true,
        "Productive liquid regime: keep specialist lanes mobile without adding another scheduler."⟩
  | .measure =>
      ⟨mode, .stop, .specialist,
        if o.contextPressure ≥ 0.80 then .compact else .retain,
        .freeze, .hold, .increase, .exception, false,
        "Near a transition: stop widening implementation space and spend budget on independent measurement."⟩
  | .anneal =>
      ⟨mode, .decrease, .forked,
        if o.contextPressure ≥ 0.80 then .compact else .retain,
        .prune, .hold, .increase, .exception, false,
        "Evidence and order are rising: reduce candidate count while increasing verifier independence."⟩
  | .verify =>
      ⟨mode, .stop, .none, .compact, .verify, .hold, .maximum, .authorityBoundary, false,
        "A low-entropy candidate exists: create no new implementation lanes; verify exact bytes before authority."⟩
  | .perturb =>
      ⟨mode, .limited, .isolated, .fresh, .reset, .hold, .increase, .exception, true,
        "Low mobility without sufficient evidence indicates a glassy local minimum: inject a bounded fresh trajectory."⟩
  | .drain =>
      ⟨mode, .stop, .none, .compact, .hold, .drain, .maximum, .exception, false,
        "Queue/resource/debt pressure dominates: stop creating work, drain debt, reclaim resources, and recover."⟩

/-- `assess`. -/
def assess (o : PhaseObservation) (previousPhase : Option FactoryPhase) :
    Except String PhaseAssessment := do
  let s ← signals o
  let raw := rawPhase o s
  let phase := withHysteresis raw previousPhase o s
  return {
    schemaVersion := 1
    authority := "search-only"
    observation := o
    previousPhase := previousPhase
    rawPhase := raw
    phase := phase
    signals := s
    recommendation := recommend (mode phase o s) o }

end Python

/-! ## The console -/

namespace Rust

/-- `PhaseControlError`, as far as an assessment raises it. -/
inductive PhaseControlError
  | outOfRange (name : String)
deriving DecidableEq

/-- `PhaseObservation::validate`. -/
def validate (o : PhaseObservation) : Except PhaseControlError Unit :=
  match o.unit.find? (fun field => ¬ (0 ≤ field.2 ∧ field.2 ≤ 1)) with
  | some field => .error (.outOfRange field.1)
  | none =>
      if ¬ (-1 ≤ o.queueAcceleration ∧ o.queueAcceleration ≤ 1) then
        .error (.outOfRange "queue_acceleration")
      else if ¬ (0 ≤ o.branchingRatio ∧ o.branchingRatio ≤ 4) then
        .error (.outOfRange "branching_ratio")
      else
        .ok ()

/-- `round6`, with `f64::round`. -/
def round6 (value : ℚ) : ℚ :=
  roundTo roundHalfAway 6 value

/-- `f64::clamp`. -/
def clamp (lo hi value : ℚ) : ℚ :=
  if value < lo then lo else if hi < value then hi else value

/-- `signals`. -/
def signals (o : PhaseObservation) : Except PhaseControlError PhaseSignals := do
  validate o
  let jamPressure :=
    min
      (0.40 * o.queuePressure
        + 0.25 * o.resourcePressure
        + 0.35 * o.debtPressure
        + 0.15 * max o.queueAcceleration 0)
      1
  let orderParameter :=
    clamp 0 1
      (0.35 * o.coherence
        + 0.35 * o.evidenceCompleteness
        + 0.15 * (1 - o.candidateEntropy)
        + 0.15 * (1 - o.verifierDisagreement))
  let transitionPressure :=
    min
      (0.50 * o.verifierDisagreement
        + 0.20 * |o.queueAcceleration|
        + 0.20 * min (o.branchingRatio / 1.5) 1
        + 0.10 * o.contextPressure)
      1
  return {
    orderParameter := round6 orderParameter
    jamPressure := round6 jamPressure
    transitionPressure := round6 transitionPressure
    branchingSupercritical := o.branchingRatio ≥ 1 }

/-- `raw_phase`. -/
def rawPhase (o : PhaseObservation) (s : PhaseSignals) : FactoryPhase :=
  if s.jamPressure ≥ 0.72 ∨ (o.branchingRatio ≥ 1.25 ∧ o.queuePressure ≥ 0.65) then
    .jammed
  else if s.orderParameter ≥ 0.85
      ∧ o.evidenceCompleteness ≥ 0.90
      ∧ o.coherence ≥ 0.85
      ∧ o.candidateEntropy ≤ 0.25
      ∧ o.verifierDisagreement ≤ 0.15
      ∧ s.jamPressure ≤ 0.25
      ∧ o.branchingRatio < 1 then
    .crystal
  else if o.candidateEntropy ≤ 0.40
      ∧ o.mobility ≤ 0.25
      ∧ o.evidenceCompleteness < 0.85
      ∧ o.coherence < 0.85 then
    .glass
  else if o.candidateEntropy ≥ 0.70
      ∧ o.coherence ≤ 0.40
      ∧ o.evidenceCompleteness < 0.75 then
    .gas
  else if s.transitionPressure ≥ 0.55 ∨ o.branchingRatio ≥ 1 then
    .critical
  else
    .liquid

/-- `with_hysteresis`: the guarded arms behind the two early returns. -/
def withHysteresis (raw : FactoryPhase) (previous : Option FactoryPhase)
    (o : PhaseObservation) (s : PhaseSignals) : FactoryPhase :=
  match previous with
  | none => raw
  | some previous =>
      if previous = raw ∨ raw = .crystal ∨ raw = .jammed then
        raw
      else
        match previous with
        | .crystal =>
            if s.orderParameter ≥ 0.78
                ∧ o.evidenceCompleteness ≥ 0.82
                ∧ o.coherence ≥ 0.78
                ∧ o.candidateEntropy ≤ 0.35
                ∧ s.jamPressure < 0.45
                ∧ o.branchingRatio < 1 then
              .crystal
            else
              raw
        | .jammed =>
            if s.jamPressure ≥ 0.50 then .jammed else raw
        | .glass =>
            if o.mobility ≤ 0.35
                ∧ o.evidenceCompleteness < 0.90
                ∧ o.coherence < 0.90
                ∧ s.jamPressure < 0.70 then
              .glass
            else
              raw
        | .gas =>
            if raw = .liquid
                ∧ o.candidateEntropy ≥ 0.58
                ∧ o.coherence ≤ 0.50
                ∧ s.jamPressure < 0.55 then
              .gas
            else
              raw
        | .critical =>
            if raw = .liquid ∧ s.transitionPressure ≥ 0.40 then .critical else raw
        | .liquid =>
            if raw = .gas ∧ o.candidateEntropy < 0.82 then
              .liquid
            else if raw = .critical
                ∧ s.transitionPressure < 0.68
                ∧ o.branchingRatio < 1 then
              .liquid
            else
              raw

/-- `mode`. -/
def mode (phase : FactoryPhase) (o : PhaseObservation) (s : PhaseSignals) :
    ControlMode :=
  match phase with
  | .jammed => .drain
  | .glass => .perturb
  | .crystal => .verify
  | .gas => .diverge
  | .liquid | .critical =>
      if s.orderParameter ≥ 0.65
          ∧ o.evidenceCompleteness ≥ 0.70
          ∧ o.candidateEntropy ≤ 0.50
          ∧ o.verifierDisagreement ≤ 0.35
          ∧ s.jamPressure < 0.45
          ∧ o.branchingRatio < 1 then
        .anneal
      else if phase = .critical then
        .measure
      else
        .coordinate

/-- `recommendation`. -/
def recommendation (mode : ControlMode) (o : PhaseObservation) : PhaseRecommendation :=
  match mode with
  | .diverge =>
      ⟨mode, .increase, .isolated, .fresh, .expand, .admitWork, .normal, .routine, true,
        "High diversity and weak coherence: widen independent search while keeping trajectories decorrelated."⟩
  | .coordinate =>
      ⟨mode, .hold, .specialist,
        if o.contextPressure ≥ 0.85 then .compact else .retain,
        .coordinate, .admitWork, .normal, .routine, true,
        "Productive liquid regime: keep specialist lanes mobile without adding another scheduler."⟩
  | .measure =>
      ⟨mode, .stop, .specialist,
        if o.contextPressure ≥ 0.80 then .compact else .retain,
        .freeze, .hold, .increase, .exception, false,
        "Near a transition: stop widening implementation space and spend budget on independent measurement."⟩
  | .anneal =>
      ⟨mode, .decrease, .forked,
        if o.contextPressure ≥ 0.80 then .compact else .retain,
        .prune, .hold, .increase, .exception, false,
        "Evidence and order are rising: reduce candidate count while increasing verifier independence."⟩
  | .verify =>
      ⟨mode, .stop, .none, .compact, .verify, .hold, .maximum, .authorityBoundary, false,
        "A low-entropy candidate exists: create no new implementation lanes; verify exact bytes before authority."⟩
  | .perturb =>
      ⟨mode, .limited, .isolated, .fresh, .reset, .hold, .increase, .exception, true,
        "Low mobility without sufficient evidence indicates a glassy local minimum: inject a bounded fresh trajectory."⟩
  | .drain =>
      ⟨mode, .stop, .none, .compact, .hold, .drain, .maximum, .exception, false,
        "Queue/resource/debt pressure dominates: stop creating work, drain debt, reclaim resources, and recover."⟩

/-- `assess`. -/
def assess (o : PhaseObservation) (previousPhase : Option FactoryPhase) :
    Except PhaseControlError PhaseAssessment := do
  let s ← signals o
  let raw := rawPhase o s
  let phase := withHysteresis raw previousPhase o s
  return {
    schemaVersion := 1
    authority := "search-only"
    observation := o
    previousPhase := previousPhase
    rawPhase := raw
    phase := phase
    signals := s
    recommendation := recommendation (mode phase o s) o }

end Rust

end Phase
end SwFactory
