import SwFactory.Swarm.Allocation
import SwFactory.Swarm.Information

/-!
# The reserved verifier

A disagreement that no independent verifier has looked at makes the information
budget reserve one: the next round measures, and its compute is at least the
price of one deep agent.  The allocation shrinks that compute once more with the
pressure on resources.  The first lane of a measuring round is the verifier, so
it is seated exactly if its price is still there after the shrinking.
-/

namespace SwFactory
namespace Swarm

open Machine
open Phase

/-- An agent who verifies independently of the work. -/
def Verifies (lane : PopulationLane) : Prop :=
  lane.role = .verifier ∧ lane.independentVerification = true ∧ 1 ≤ lane.count

/-! ## The first lane -/

/-- A measuring round with a deep agent starts with its verifier, and only there. -/
theorem measureLanes_cons
    {b : SwarmBudget}
    (selected : List DisagreementHotspot)
    (hdeep : 1 ≤ b.maxDeepAgents) :
    ∃ first rest, measureLanes b selected = first :: rest ∧
      first.role = .verifier ∧ first.independentVerification = true ∧
      first.computeTier = .deep ∧ 1 ≤ first.count ∧ ∀ lane ∈ rest, lane.role ≠ .verifier := by
  have hne : min b.maxDeepAgents (max 1 selected.length) ≠ 0 := by
    omega
  refine ⟨_, _, rfl, rfl, rfl, if_pos hne, ?_, ?_⟩
  · change 1 ≤ if _ then _ else _
    rw [if_pos hne]
    exact Nat.one_le_iff_ne_zero.mpr hne
  · simp

/-- A positive cap of a role leaves the first lane of the role in its place. -/
theorem capLanes_cons
    {caps : Dict AgentRole Nat}
    {first : PopulationLane}
    {rest : List PopulationLane}
    {cap : Nat}
    (hcap : caps.get? first.role = some cap)
    (hpos : 1 ≤ cap)
    (hcount : 1 ≤ first.count) :
    capLanes caps (first :: rest) = { first with count := min first.count cap } ::
      capLanes (caps.assign first.role (cap - min first.count cap)) rest := by
  have hmin : min first.count cap ≠ 0 := by
    omega
  simp only [capLanes, hcap, if_neg hmin]

/-- There is room for a deep agent exactly if its price is there. -/
theorem roomFor_deep
    (lane : PopulationLane)
    {b : SwarmBudget}
    (hb : b.Valid)
    (hdeep : 1 ≤ b.maxDeepAgents)
    (htier : lane.computeTier = .deep)
    (hcount : 1 ≤ lane.count) :
    roomFor lane b ≠ 0 ↔ 8 ≤ b.maxComputeUnits := by
  have hagents := hb.agents
  have hfloor : 1 ≤ ⌊b.maxComputeUnits / 8⌋ ↔ 8 ≤ b.maxComputeUnits := by
    rw [Int.le_floor, Int.cast_one, le_div_iff₀ (by norm_num), one_mul]
  rw [← hfloor]
  simp only [roomFor, htier, tierCost, Nat.cast_ofNat]
  omega

theorem role_of_narrowed
    {lanes : List PopulationLane}
    {role : AgentRole}
    (h : ∀ lane ∈ lanes, lane.role ≠ role)
    {lane : PopulationLane}
    (hlane : Narrowed lanes lane) :
    lane.role ≠ role := by
  obtain ⟨origin, horigin, n, rfl⟩ := hlane
  exact h origin horigin

/-- In a measuring round a verifier is seated exactly if the budget has its price. -/
theorem verifier_fitted_iff
    {b : SwarmBudget}
    {selected : List DisagreementHotspot}
    {caps : Dict AgentRole Nat}
    {cap : Nat}
    (hb : b.Valid)
    (hdeep : 1 ≤ b.maxDeepAgents)
    (hcap : caps.get? .verifier = some cap)
    (hpos : 1 ≤ cap) :
    (∃ lane ∈ fitBudget (applyRoleCaps (measureLanes b selected) (some caps)) b, Verifies lane) ↔
      8 ≤ b.maxComputeUnits := by
  obtain ⟨first, rest, hlanes, hrole, hindependent, htier, hcount, hrest⟩ :=
    measureLanes_cons selected hdeep
  have hseat := roomFor_deep { first with count := min first.count cap } hb hdeep htier
    (le_min hcount hpos)
  rw [hlanes, applyRoleCaps, capLanes_cons (by rw [hrole]; exact hcap) hpos hcount]
  constructor
  · rintro ⟨lane, hlane, hverifier, -, -⟩
    by_contra hprice
    rcases mem_fitBudget hlane with rfl | ⟨hfitted, -⟩
    · cases hverifier
    · rw [fitLanes, if_pos (not_not.mp (mt hseat.mp hprice))] at hfitted
      have hnarrowed := Narrowed.trans narrowed_capLanes (narrowed_fitLanes lane hfitted).1
      exact role_of_narrowed hrest hnarrowed hverifier
  · intro hprice
    have hroom := hseat.mpr hprice
    rw [fitBudget, fitLanes, if_neg hroom, if_neg (List.cons_ne_nil _ _)]
    exact ⟨_, List.mem_cons_self, hrole, hindependent, Nat.one_le_iff_ne_zero.mpr hroom⟩

/-! ## The decision -/

/-- The compute that the measurement of a report justifies. -/
def fundedCompute (report : PopulationExecutionReport) (base : SwarmBudget)
    (manifest : Option PopulationManifest) (p : InformationBudgetPolicy) : ℚ :=
  ((measuredLanes report manifest p).map (justifiedCompute report base manifest)).getD 0

/-- What a decision with a reserved verifier says. -/
structure Reserving
    (report : PopulationExecutionReport)
    (base : SwarmBudget)
    (manifest : Option PopulationManifest)
    (p : InformationBudgetPolicy)
    (decision : InformationBudgetDecision)
    (lanes : List LaneInformation) : Prop where
  measured : measuredLanes report manifest p = some lanes
  deep : 1 ≤ base.maxDeepAgents
  baseValid : base.Valid
  next : decision.nextBudget = nextBudget report base manifest p lanes 1
  nextValid : decision.nextBudget.Valid
  caps : (reservedCaps lanes 1).Perm decision.roleCaps
  capsKeys : decision.roleCaps.keys.Nodup
  mode : decision.modeOverride = some .measure

/-- A verdict that reserves a verifier measures, and has a deep agent to reserve. -/
theorem verdictOf_reserve
    {t : PopulationTelemetry}
    {base : SwarmBudget}
    {p : InformationBudgetPolicy}
    {lanes : List LaneInformation}
    (h : (verdictOf t base p lanes).2.2 = 1) :
    verdictOf t base p lanes = (some .measure, false, 1) ∧ 1 ≤ base.maxDeepAgents := by
  unfold verdictOf at h ⊢
  split at h
  · cases h
  split at h
  · rename_i hsettled hneeds
    by_cases hdeep : 0 < base.maxDeepAgents
    · rw [if_neg hsettled, if_pos hneeds, if_pos hdeep]
      exact ⟨rfl, hdeep⟩
    · rw [if_neg hdeep] at h
      cases h
  split at h
  · cases h
  · cases h

theorem evaluateInformationBudget_reserve
    {D : Digests}
    {report : PopulationExecutionReport}
    {base : SwarmBudget}
    {manifest : Option PopulationManifest}
    {p : InformationBudgetPolicy}
    {decision : InformationBudgetDecision}
    (h : evaluateInformationBudget D report base manifest p = some decision)
    (hreserve : decision.verifierReserve = 1) :
    ∃ lanes, Reserving report base manifest p decision lanes := by
  simp only [evaluateInformationBudget, Option.bind_eq_bind] at h
  split at h
  swap
  · cases h
  rename_i hchecked
  rw [Option.bind_some] at h
  split at h
  · split at h
    · cases h
      cases hreserve
    · cases h
  obtain ⟨lanes, hlanes, h⟩ := Option.bind_eq_some_iff.mp h
  obtain ⟨hvalid, hdecision⟩ := Option.ite_none_right_eq_some.mp h
  cases hdecision
  obtain ⟨hverdict, hdeep⟩ := verdictOf_reserve hreserve
  simp only [InformationBudgetDecision.valid, Bool.and_eq_true, decide_eq_true_eq] at hvalid
  simp only [hverdict] at hvalid ⊢
  exact ⟨lanes,
    { measured := hlanes
      deep := hdeep
      baseValid := hchecked.2.1
      next := rfl
      nextValid := hvalid.1.1.1.1.1.1.1.1.1.1.2
      caps := (List.mergeSort_perm _ _).symm
      capsKeys := hvalid.1.1.2
      mode := rfl }⟩

/-- The reserved caps hold a verifier. -/
theorem reservedCaps_verifier (lanes : List LaneInformation) :
    ∃ cap, (reservedCaps lanes 1).get? .verifier = some cap ∧ 1 ≤ cap := by
  have hget := Dict.get?_update (roleCapsOf lanes) .verifier 0 (fun cap => max cap 1) .verifier
  rw [if_pos rfl] at hget
  exact ⟨_, hget, le_max_right _ _⟩

/-- The decision caps verifiers by at least one. -/
theorem Reserving.cap
    {report : PopulationExecutionReport}
    {base : SwarmBudget}
    {manifest : Option PopulationManifest}
    {p : InformationBudgetPolicy}
    {decision : InformationBudgetDecision}
    {lanes : List LaneInformation}
    (h : Reserving report base manifest p decision lanes) :
    ∃ cap, decision.roleCaps.get? .verifier = some cap ∧ 1 ≤ cap := by
  obtain ⟨cap, hcap, hpos⟩ := reservedCaps_verifier lanes
  refine ⟨cap, ?_, hpos⟩
  rw [← hcap]
  exact (Dict.get?_of_perm h.capsKeys h.caps.symm .verifier).symm

/-- The decision leaves a deep agent in the next budget. -/
theorem Reserving.nextDeep
    {report : PopulationExecutionReport}
    {base : SwarmBudget}
    {manifest : Option PopulationManifest}
    {p : InformationBudgetPolicy}
    {decision : InformationBudgetDecision}
    {lanes : List LaneInformation}
    (h : Reserving report base manifest p decision lanes) :
    1 ≤ decision.nextBudget.maxDeepAgents := by
  rw [h.next]
  refine le_min (le_min h.deep (le_max_right _ _)) (le_max_left _ _)

/-- The next compute is what the measurement justifies, and the price of the verifier at least. -/
theorem Reserving.nextCompute
    {report : PopulationExecutionReport}
    {base : SwarmBudget}
    {manifest : Option PopulationManifest}
    {p : InformationBudgetPolicy}
    {decision : InformationBudgetDecision}
    {lanes : List LaneInformation}
    (h : Reserving report base manifest p decision lanes)
    (hbase : 8 ≤ base.maxComputeUnits) :
    decision.nextBudget.maxComputeUnits =
      min base.maxComputeUnits (max 8 (fundedCompute report base manifest p)) := by
  have hfunded : fundedCompute report base manifest p =
      justifiedCompute report base manifest lanes := by
    rw [fundedCompute, h.measured]
    rfl
  have hone : (1 : ℚ) ≤ max (justifiedCompute report base manifest lanes) 8 :=
    le_max_of_le_right (by norm_num)
  have hnext : (nextBudget report base manifest p lanes 1).maxComputeUnits =
      min base.maxComputeUnits (max 1
        (max (justifiedCompute report base manifest lanes) (min base.maxComputeUnits 8))) :=
    rfl
  rw [h.next, hfunded, hnext, min_eq_right hbase, max_eq_right hone, max_comm 8]

/-! ## The round -/

/-- A measuring round seats a verifier exactly if the price of a deep agent is left when the
pressure on resources has shrunk its compute. -/
theorem measuring_round
    (assessment : PhaseAssessment)
    {o : SwarmObservation}
    {b : SwarmBudget}
    {hotspots : List DisagreementHotspot}
    {caps : Dict AgentRole Nat}
    {cap : Nat}
    (ho : o.valid = true)
    (hhotspots : hotspots.all DisagreementHotspot.valid = true)
    (hb : b.Valid)
    (hdeep : 1 ≤ b.maxDeepAgents)
    (hcap : caps.get? .verifier = some cap)
    (hpos : 1 ≤ cap) :
    ∃ plan,
      allocatePopulation assessment o b hotspots [] (some .measure) (some caps) = some plan ∧
        ((∃ lane ∈ plan.lanes, Verifies lane) ↔
          8 ≤ b.maxComputeUnits * resourceFactor o.resourcePressure) := by
  have hplanning := planningBudget_valid (o := o) hb
  have hplanningDeep : 1 ≤ (planningBudget o b).maxDeepAgents :=
    le_min hdeep (le_max_left _ _)
  have hprice : 8 ≤ (planningBudget o b).maxComputeUnits ↔
      8 ≤ b.maxComputeUnits * resourceFactor o.resourcePressure :=
    ⟨fun hle => (le_max_iff.mp hle).resolve_left (by norm_num), le_max_of_le_right⟩
  obtain ⟨selected, ready, plan, hplan, hlanes⟩ :=
    allocatePopulation_answers assessment (some .measure) (some caps) ho hb hhotspots
      (rfl : [].all CandidateCrystal.valid = true)
  refine ⟨plan, hplan, ?_⟩
  rw [hlanes, ← hprice]
  exact verifier_fitted_iff hplanning hplanningDeep hcap hpos

/-- The reserved verifier of a decision is seated exactly if the price of a deep agent is left
when the pressure on resources has shrunk the next round's compute. -/
theorem reserved_verifier_iff
    {D : Digests}
    {report : PopulationExecutionReport}
    {base : SwarmBudget}
    {manifest : Option PopulationManifest}
    {p : InformationBudgetPolicy}
    {decision : InformationBudgetDecision}
    (h : evaluateInformationBudget D report base manifest p = some decision)
    (hreserve : decision.verifierReserve = 1)
    (hbase : 8 ≤ base.maxComputeUnits)
    (assessment : PhaseAssessment)
    (o : SwarmObservation)
    (hotspots : List DisagreementHotspot) :
    (∃ plan,
      allocatePopulation assessment o decision.nextBudget hotspots [] decision.modeOverride
          (some decision.roleCaps) = some plan ∧
        ∃ lane ∈ plan.lanes, Verifies lane) ↔
      o.valid = true ∧ hotspots.all DisagreementHotspot.valid = true ∧
        8 ≤ min base.maxComputeUnits (max 8 (fundedCompute report base manifest p)) *
          resourceFactor o.resourcePressure := by
  obtain ⟨lanes, hdecision⟩ := evaluateInformationBudget_reserve h hreserve
  obtain ⟨cap, hcap, hpos⟩ := hdecision.cap
  rw [← hdecision.nextCompute hbase, hdecision.mode]
  constructor
  · rintro ⟨plan, hplan, hverifies⟩
    obtain ⟨ho, hhotspots⟩ := allocatePopulation_valid hplan
    obtain ⟨plan', hplan', hseated⟩ := measuring_round assessment ho hhotspots
      hdecision.nextValid hdecision.nextDeep hcap hpos
    cases hplan.symm.trans hplan'
    exact ⟨ho, hhotspots, hseated.mp hverifies⟩
  · rintro ⟨ho, hhotspots, hprice⟩
    obtain ⟨plan, hplan, hseated⟩ := measuring_round assessment ho hhotspots
      hdecision.nextValid hdecision.nextDeep hcap hpos
    exact ⟨plan, hplan, hseated.mpr hprice⟩

/-! ## One dispute under little pressure -/

/-- Two agents went the same way and came out with different candidates. -/
def disputedReceipt (name : Char) : BehaviorReceipt :=
  { taskId := ['p', 'o', 'p', '_', name]
    state := .answered
    behaviorSignature := ["patch".toList]
    candidateDigest := some (List.replicate 64 name)
    evidenceDigest := none
    costUsd := 0
    durationS := 0 }

def disputeDigests : Digests :=
  { receipt := fun r => r.candidateDigest.getD []
    manifest := fun _ => none }

def disputedReport : PopulationExecutionReport :=
  { populationManifestDigest := List.replicate 64 '0'
    receipts := [disputedReceipt 'a', disputedReceipt 'b']
    telemetry :=
      { manifestDigest := List.replicate 64 '0'
        totalTasks := 2
        receipts := 2
        answered := 2
        independentVerifierAnswers := 0
        uniqueCandidates := 2
        effectiveIndependentSearch := 1
        meanCorrelation := 1
        candidateDisagreement := 1
        totalCostUsd := 0
        totalDurationS := 0
        receiptDigests := [List.replicate 64 'a', List.replicate 64 'b'] }
    cancelled := false
    startedTasks := 2 }

def disputeBase : SwarmBudget :=
  ⟨4, 2, 1, 0, 16⟩

/-- The decision on the dispute, with the price of one deep agent for the next round. -/
def disputeDecision : InformationBudgetDecision :=
  { baseBudget := disputeBase
    nextBudget := ⟨1, 1, 1, 0, 8⟩
    lanes :=
      [{ laneIndex := 0
         role := .explorer
         computeTier := .cheap
         taskCount := 2
         receiptCount := 2
         answered := 2
         uniqueCandidates := 2
         evidenceAnswers := 0
         effectiveIndependentSearch := 1
         meanCorrelation := 1
         expectedInformation := 75 / 100
         computeUnitsPerTask := 1
         marginalInformationValue := 0
         recommendedCount := 1
         action := .shrink }]
    roleCaps := [(.explorer, 1), (.verifier, 1)]
    modeOverride := some .measure
    stopNewWork := false
    verifierReserve := 1 }

theorem disputedReport_valid :
    disputedReport.valid disputeDigests = true := by
  have hsorted : (disputedReport.receipts.map disputeDigests.receipt).mergeSort textLe =
      disputedReport.telemetry.receiptDigests :=
    List.mergeSort_of_pairwise (by decide)
  rw [PopulationExecutionReport.valid, hsorted]
  decide +kernel

theorem disputeCaps :
    (reservedCaps disputeDecision.lanes 1).mergeSort (fun a b => textLe a.1.text b.1.text) =
      disputeDecision.roleCaps := by
  have hcaps : reservedCaps disputeDecision.lanes 1 = disputeDecision.roleCaps := by
    decide +kernel
  rw [hcaps]
  exact List.mergeSort_of_pairwise (by decide)

theorem dispute_decided :
    evaluateInformationBudget disputeDigests disputedReport disputeBase none .default =
      some disputeDecision := by
  have hlanes : measuredLanes disputedReport none .default = some disputeDecision.lanes := by
    decide +kernel
  have hverdict : verdictOf disputedReport.telemetry disputeBase .default disputeDecision.lanes =
      (some .measure, false, 1) := by
    decide +kernel
  have hnext : nextBudget disputedReport disputeBase none .default disputeDecision.lanes 1 =
      disputeDecision.nextBudget := by
    decide +kernel
  have hvalid : disputeDecision.valid = true := by
    decide +kernel
  have hchecked : disputedReport.valid disputeDigests = true ∧ disputeBase.Valid ∧
      InformationBudgetPolicy.default.valid = true ∧
      (none : Option PopulationManifest).all (fun m =>
        disputeDigests.manifest m == some disputedReport.populationManifestDigest) = true :=
    ⟨disputedReport_valid, by decide +kernel, by decide +kernel, rfl⟩
  rw [evaluateInformationBudget, if_pos hchecked]
  simp only [Option.bind_eq_bind, Option.bind_some, hlanes, hverdict, hnext, disputeCaps]
  exact if_pos hvalid

def disputeAssessment : PhaseAssessment :=
  { schemaVersion := 1
    authority := "search-only"
    observation := ⟨1 / 2, 1 / 2, 1 / 2, 0, 0, 1 / 10, 1, 1 / 2, 0, 0, 1⟩
    previousPhase := none
    rawPhase := .critical
    phase := .critical
    signals := ⟨1 / 2, 0, 0, false⟩
    recommendation :=
      ⟨.measure, .limited, .specialist, .compact, .freeze, .hold, .increase, .exception, false, ""⟩ }

/-- What is seen of the dispute under some pressure on resources. -/
def disputeUnder (pressure : ℚ) : SwarmObservation :=
  ⟨1, 1, 1 / 2, 1, 1 / 2, pressure, 0, 1, 1 / 2, 1 / 2⟩

/-- Without pressure the verifier of the dispute is seated. -/
theorem dispute_verified :
    ∃ plan,
      allocatePopulation disputeAssessment (disputeUnder 0) disputeDecision.nextBudget [] []
          disputeDecision.modeOverride (some disputeDecision.roleCaps) = some plan ∧
        ∃ lane ∈ plan.lanes, Verifies lane :=
  (reserved_verifier_iff dispute_decided rfl (by decide +kernel) disputeAssessment (disputeUnder 0)
    []).mpr ⟨by decide +kernel, rfl, by decide +kernel⟩

/-- A tenth of the pressure drops it, although the base budget could pay for two. -/
theorem reserved_verifier_dropped :
    ∃ decision plan,
      evaluateInformationBudget disputeDigests disputedReport disputeBase none .default =
          some decision ∧
        decision.verifierReserve = 1 ∧ 8 ≤ disputeBase.maxComputeUnits ∧
          allocatePopulation disputeAssessment (disputeUnder (1 / 10)) decision.nextBudget [] []
              decision.modeOverride (some decision.roleCaps) = some plan ∧
            ¬ ∃ lane ∈ plan.lanes, Verifies lane := by
  obtain ⟨plan, hplan, hseated⟩ := measuring_round disputeAssessment
    (by decide +kernel : (disputeUnder (1 / 10)).valid = true)
    (rfl : [].all DisagreementHotspot.valid = true)
    (by decide +kernel : disputeDecision.nextBudget.Valid) (by decide)
    (by decide : disputeDecision.roleCaps.get? .verifier = some 1) le_rfl
  refine ⟨disputeDecision, plan, dispute_decided, rfl, by decide +kernel, hplan, ?_⟩
  rw [hseated]
  decide +kernel

end Swarm
end SwFactory
