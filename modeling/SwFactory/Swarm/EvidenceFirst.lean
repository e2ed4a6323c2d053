import Mathlib.Algebra.Order.BigOperators.Group.List
import SwFactory.Swarm.Envelope

/-!
# Evidence before commentary

In a measuring round the verifier stands before the critic and the red team.  It is
deep as soon as there is a deep agent to have, so that a budget that pays for a
standard agent but not for a deep one seats the commentary without the evidence.

Source: `swarm_dynamics.py` (`allocate_population`).
-/

namespace SwFactory
namespace Swarm

open Arithmetic
open Machine
open Phase

/-- An agent of a role is seated. -/
def Seats (lanes : List PopulationLane) (role : AgentRole) : Prop :=
  ∃ lane ∈ lanes, lane.role = role ∧ 1 ≤ lane.count

/-- In a measuring round whose verifiers are not capped to nothing, a critic or a red team is
seated only beside a verifier. -/
def SwarmPlan.EvidenceFirst (plan : SwarmPlan) (caps : Option (Dict AgentRole Nat)) : Prop :=
  plan.mode = .measure ∨ plan.mode = .anneal → capOf caps .verifier ≠ some 0 →
    Seats plan.lanes .critic ∨ Seats plan.lanes .redTeam → Seats plan.lanes .verifier

/-- The commentary of a measuring round finds its price, and the deep verifier does not. -/
structure Outbid (mode : ControlMode) (deepAgents : Nat) (compute : ℚ)
    (caps : Option (Dict AgentRole Nat)) : Prop where
  mode : mode = .measure ∨ mode = .anneal
  verifier : capOf caps .verifier ≠ some 0
  commentary : capOf caps .critic ≠ some 0 ∨ capOf caps .redTeam ≠ some 0
  deep : 1 ≤ deepAgents
  standardPrice : 2 ≤ compute
  deepPrice : compute < 8

/-! ## The first lane of a role -/

section Capping

variable {caps : Option (Dict AgentRole Nat)}

/-- A role that is not capped to nothing keeps its first lane. -/
theorem applyRoleCaps_cons {first : PopulationLane} (rest : List PopulationLane)
    (hcap : capOf caps first.role ≠ some 0) (hcount : 1 ≤ first.count) :
    ∃ n caps', 1 ≤ n ∧
      applyRoleCaps (first :: rest) caps = { first with count := n } :: applyRoleCaps rest caps' ∧
        ∀ role, role ≠ first.role → capOf caps' role = capOf caps role := by
  cases caps with
  | none => exact ⟨first.count, none, hcount, rfl, fun _ _ => rfl⟩
  | some caps =>
      cases hget : caps.get? first.role with
      | none =>
          refine ⟨first.count, some caps, hcount, ?_, fun _ _ => rfl⟩
          simp only [applyRoleCaps, capLanes, hget]
      | some cap =>
          have hpos : 1 ≤ cap := by
            refine Nat.one_le_iff_ne_zero.mpr fun hzero => hcap ?_
            rw [← hzero]
            exact hget
          refine ⟨min first.count cap, some (caps.assign first.role (cap - min first.count cap)),
            le_min hcount hpos, capLanes_cons hget hpos hcount, fun role hrole => ?_⟩
          exact (Dict.get?_assign _ _ _ _).trans (if_neg hrole)

/-- A role that is capped to nothing loses its lane. -/
theorem applyRoleCaps_of_zero {first : PopulationLane} (rest : List PopulationLane)
    (hcap : capOf caps first.role = some 0) :
    ∃ caps', applyRoleCaps (first :: rest) caps = applyRoleCaps rest caps' ∧
      ∀ role, role ≠ first.role → capOf caps' role = capOf caps role := by
  cases caps with
  | none => cases hcap
  | some caps =>
      have hget : caps.get? first.role = some 0 := hcap
      refine ⟨some (caps.assign first.role 0), ?_, fun role hrole => ?_⟩
      · simp only [applyRoleCaps, capLanes, hget, Nat.min_zero, Nat.sub_self, if_true]
      · exact (Dict.get?_assign _ _ _ _).trans (if_neg hrole)

end Capping

/-! ## Seats -/

section Seating

variable {b : SwarmBudget}

/-- There is room for a standard agent exactly if its price is there. -/
theorem roomFor_standard (lane : PopulationLane) (hb : b.Valid)
    (htier : lane.computeTier = .standard) (hcount : 1 ≤ lane.count) :
    roomFor lane b ≠ 0 ↔ 2 ≤ b.maxComputeUnits := by
  have hagents := hb.agents
  have hfloor : 1 ≤ ⌊b.maxComputeUnits / 2⌋ ↔ 2 ≤ b.maxComputeUnits := by
    rw [Int.le_floor, Int.cast_one, le_div_iff₀ (by norm_num), one_mul]
  rw [← hfloor]
  simp only [roomFor, htier, tierCost, Nat.cast_ofNat]
  omega

/-- The first lane is seated if there is room for it. -/
theorem seats_head {first : PopulationLane} (rest : List PopulationLane)
    (hroom : roomFor first b ≠ 0) : Seats (fitBudget (first :: rest) b) first.role := by
  rw [fitBudget, fitLanes, if_neg hroom, if_neg (List.cons_ne_nil _ _)]
  exact ⟨_, List.mem_cons_self, rfl, Nat.one_le_iff_ne_zero.mpr hroom⟩

/-- A first lane without room is passed over. -/
theorem fitBudget_of_no_room {first : PopulationLane} (rest : List PopulationLane)
    (hroom : roomFor first b = 0) : fitBudget (first :: rest) b = fitBudget rest b := by
  rw [fitBudget, fitLanes, if_pos hroom]
  rfl

/-- A seated standard agent has its price in the budget. -/
theorem two_le_of_standard {lanes : List PopulationLane} {lane : PopulationLane}
    (hb : 0 ≤ b.maxComputeUnits) (hlane : lane ∈ fitLanes lanes b)
    (htier : lane.computeTier = .standard) : 2 ≤ b.maxComputeUnits := by
  have hunits : lane.count * tierCost lane.computeTier ≤ wholeUnits (fitLanes lanes b) :=
    List.le_sum_of_mem (List.mem_map_of_mem hlane)
  have hcount := (narrowed_fitLanes lane hlane).2
  have htwo : 2 ≤ wholeUnits (fitLanes lanes b) := by
    rw [htier, tierCost] at hunits
    omega
  exact (by exact_mod_cast htwo : (2 : ℚ) ≤ wholeUnits (fitLanes lanes b)).trans
    (fitLanes_within hb).compute

/-- A role with a cap of nothing has no seat, unless it is the memory. -/
theorem not_seats_of_zero {caps : Option (Dict AgentRole Nat)} {role : AgentRole}
    (hcap : capOf caps role = some 0) (hrole : role ≠ .memory) (lanes : List PopulationLane) :
    ¬ Seats (fitBudget (applyRoleCaps lanes caps) b) role := by
  rintro ⟨lane, hlane, heq, hcount⟩
  rcases countOf_fitBudget_le hcap lanes b with hle | ⟨-, hmemory⟩
  · have hmem : lane.count ≤ countOf (ofRole role) (fitBudget (applyRoleCaps lanes caps) b) :=
      List.le_sum_of_mem (List.mem_map_of_mem (List.mem_filter.mpr ⟨hlane, by simp [ofRole, heq]⟩))
    omega
  · exact hrole hmemory

end Seating

/-! ## A measuring round -/

section Measuring

variable {b : SwarmBudget}
variable {selected : List DisagreementHotspot}
variable {caps : Option (Dict AgentRole Nat)}

/-- The three lanes of a measuring round. -/
theorem measureLanes_eq (b : SwarmBudget) (selected : List DisagreementHotspot) :
    ∃ verifier critic redTeam, measureLanes b selected = [verifier, critic, redTeam] ∧
      (verifier.role = .verifier ∧ 1 ≤ verifier.count ∧
        verifier.computeTier = if 1 ≤ b.maxDeepAgents then .deep else .standard) ∧
      (critic.role = .critic ∧ 1 ≤ critic.count ∧ critic.computeTier = .standard) ∧
      (redTeam.role = .redTeam ∧ 1 ≤ redTeam.count ∧ redTeam.computeTier = .standard) := by
  refine ⟨_, _, _, rfl, ⟨rfl, ?_, ?_⟩, ⟨rfl, le_max_left _ _, rfl⟩, rfl, le_max_left _ _, rfl⟩
  · dsimp only
    split
    · next hdeep => exact Nat.one_le_iff_ne_zero.mpr hdeep
    · exact le_max_left _ _
  · have hiff : min b.maxDeepAgents (max 1 selected.length) ≠ 0 ↔ 1 ≤ b.maxDeepAgents := by
      omega
    exact if_congr hiff rfl rfl

/-- The verifier of a measuring round stays in front of lanes of other roles. -/
theorem applyRoleCaps_measureLanes (hcap : capOf caps .verifier ≠ some 0) :
    ∃ verifier rest, applyRoleCaps (measureLanes b selected) caps = verifier :: rest ∧
      (verifier.role = .verifier ∧ 1 ≤ verifier.count ∧
        verifier.computeTier = if 1 ≤ b.maxDeepAgents then .deep else .standard) ∧
      (∀ lane ∈ rest, lane.role ≠ .verifier ∧ lane.computeTier = .standard) ∧
      (capOf caps .critic ≠ some 0 ∨ capOf caps .redTeam ≠ some 0 →
        ∃ first tail, rest = first :: tail ∧ (first.role = .critic ∨ first.role = .redTeam) ∧
          first.computeTier = .standard ∧ 1 ≤ first.count) := by
  obtain ⟨verifier, critic, redTeam, hlanes, ⟨hverifier, hcount, htier⟩,
    ⟨hcritic, hcriticCount, hcriticTier⟩, hredTeam, hredTeamCount, hredTeamTier⟩ :=
    measureLanes_eq b selected
  obtain ⟨n, caps', hn, hcapped, hothers⟩ := applyRoleCaps_cons [critic, redTeam]
    (by rw [hverifier]; exact hcap) hcount
  have hcapCritic : capOf caps' .critic = capOf caps .critic :=
    hothers .critic (by rw [hverifier]; decide)
  have hcapRedTeam : capOf caps' .redTeam = capOf caps .redTeam :=
    hothers .redTeam (by rw [hverifier]; decide)
  refine ⟨{ verifier with count := n }, applyRoleCaps [critic, redTeam] caps',
    by rw [hlanes, hcapped], ⟨hverifier, hn, htier⟩, fun lane hlane => ?_, fun hcommentary => ?_⟩
  · obtain ⟨origin, horigin, m, rfl⟩ := narrowed_applyRoleCaps lane hlane
    simp only [List.mem_cons, List.not_mem_nil, or_false] at horigin
    rcases horigin with rfl | rfl
    · exact ⟨by rw [hcritic]; decide, hcriticTier⟩
    · exact ⟨by rw [hredTeam]; decide, hredTeamTier⟩
  · by_cases hcritic' : capOf caps .critic = some 0
    · obtain ⟨caps'', hdropped, hothers'⟩ := applyRoleCaps_of_zero [redTeam]
        (by rw [hcritic, hcapCritic]; exact hcritic')
      have hcap'' : capOf caps'' redTeam.role ≠ some 0 := by
        rw [hredTeam, hothers' .redTeam (by rw [hcritic]; decide), hcapRedTeam]
        exact hcommentary.resolve_left fun h => h hcritic'
      obtain ⟨m, _, hm, hkept, -⟩ := applyRoleCaps_cons [] hcap'' hredTeamCount
      exact ⟨_, _, hdropped.trans hkept, Or.inr hredTeam, hredTeamTier, hm⟩
    · obtain ⟨m, _, hm, hkept, -⟩ := applyRoleCaps_cons [redTeam]
        (by rw [hcritic, hcapCritic]; exact hcritic') hcriticCount
      exact ⟨_, _, hkept, Or.inl hcritic, hcriticTier, hm⟩

/-- A measuring round seats commentary only beside a verifier, exactly if the commentary does
not outbid the verifier. -/
theorem measuring_evidence_iff {mode : ControlMode} (hmode : mode = .measure ∨ mode = .anneal)
    (hb : b.Valid) (hcap : capOf caps .verifier ≠ some 0) :
    (Seats (fitBudget (applyRoleCaps (measureLanes b selected) caps) b) .critic ∨
        Seats (fitBudget (applyRoleCaps (measureLanes b selected) caps) b) .redTeam →
      Seats (fitBudget (applyRoleCaps (measureLanes b selected) caps) b) .verifier) ↔
      ¬ Outbid mode b.maxDeepAgents b.maxComputeUnits caps := by
  obtain ⟨verifier, rest, hlanes, ⟨hverifier, hcount, htier⟩, hrest, hfirst⟩ :=
    applyRoleCaps_measureLanes hcap
  have hzero : 0 ≤ b.maxComputeUnits := zero_le_one.trans hb.compute
  constructor
  · intro hevidence houtbid
    have hroom : roomFor verifier b = 0 := by
      rw [if_pos houtbid.deep] at htier
      by_contra hroom
      exact absurd ((roomFor_deep verifier hb houtbid.deep htier hcount).mp hroom)
        (not_le.mpr houtbid.deepPrice)
    rw [hlanes, fitBudget_of_no_room rest hroom] at hevidence
    obtain ⟨first, tail, rfl, hrole, hstandard, hpos⟩ := hfirst houtbid.commentary
    have hseat := seats_head tail
      ((roomFor_standard first hb hstandard hpos).mpr houtbid.standardPrice)
    have hcommentary := hrole.imp (fun heq => heq ▸ hseat) (fun heq => heq ▸ hseat)
    obtain ⟨lane, hlane, heq, -⟩ := hevidence hcommentary
    rcases mem_fitBudget hlane with rfl | ⟨-, origin, horigin, n, rfl⟩
    · cases heq
    · exact (hrest origin horigin).1 heq
  · intro houtbid hcommentary
    rw [hlanes] at hcommentary ⊢
    by_cases hroom : roomFor verifier b = 0
    swap
    · exact hverifier ▸ seats_head rest hroom
    -- The commentary has found its price, and so it has outbid the verifier.
    have hcaps : capOf caps .critic ≠ some 0 ∨ capOf caps .redTeam ≠ some 0 := by
      rw [← hlanes] at hcommentary
      by_contra hnone
      obtain ⟨hcritic, hredTeam⟩ := not_or.mp hnone
      exact hcommentary.elim (not_seats_of_zero (not_not.mp hcritic) (by decide) _)
        (not_seats_of_zero (not_not.mp hredTeam) (by decide) _)
    have hprice : 2 ≤ b.maxComputeUnits := by
      rw [fitBudget_of_no_room rest hroom] at hcommentary
      obtain ⟨lane, hlane, hrole⟩ : ∃ lane ∈ fitBudget rest b, lane.role ≠ .memory := by
        rcases hcommentary with ⟨lane, hlane, heq, -⟩ | ⟨lane, hlane, heq, -⟩
        · exact ⟨lane, hlane, by rw [heq]; decide⟩
        · exact ⟨lane, hlane, by rw [heq]; decide⟩
      rcases mem_fitBudget hlane with rfl | ⟨hfitted, origin, horigin, n, rfl⟩
      · exact absurd rfl hrole
      · exact two_le_of_standard hzero hfitted (hrest origin horigin).2
    have hdeep : 1 ≤ b.maxDeepAgents := by
      by_contra hnone
      rw [if_neg hnone] at htier
      exact (roomFor_standard verifier hb htier hcount).mpr hprice hroom
    rw [if_pos hdeep] at htier
    refine absurd ⟨hmode, hcap, hcaps, hdeep, hprice, ?_⟩ houtbid
    by_contra hrich
    exact (roomFor_deep verifier hb hdeep htier hcount).mpr (not_lt.mp hrich) hroom

/-- The planning budget is outbid as the budget of the caller is under its pressure. -/
theorem outbid_planningBudget {mode : ControlMode} {o : SwarmObservation} :
    Outbid mode (planningBudget o b).maxDeepAgents (planningBudget o b).maxComputeUnits caps ↔
      Outbid mode b.maxDeepAgents
        (b.maxComputeUnits * resourceFactor o.resourcePressure) caps := by
  have hdeep : 1 ≤ (planningBudget o b).maxDeepAgents ↔ 1 ≤ b.maxDeepAgents :=
    le_min_iff.trans (and_iff_left (le_max_left _ _))
  have hprice : 2 ≤ (planningBudget o b).maxComputeUnits ↔
      2 ≤ b.maxComputeUnits * resourceFactor o.resourcePressure :=
    le_max_iff.trans (or_iff_right (by norm_num))
  have hpoor : (planningBudget o b).maxComputeUnits < 8 ↔
      b.maxComputeUnits * resourceFactor o.resourcePressure < 8 :=
    max_lt_iff.trans (and_iff_right (by norm_num))
  constructor
  · rintro ⟨hmode, hverifier, hcommentary, hagents, hstandard, hshort⟩
    exact ⟨hmode, hverifier, hcommentary, hdeep.mp hagents, hprice.mp hstandard, hpoor.mp hshort⟩
  · rintro ⟨hmode, hverifier, hcommentary, hagents, hstandard, hshort⟩
    exact ⟨hmode, hverifier, hcommentary, hdeep.mpr hagents, hprice.mpr hstandard,
      hpoor.mpr hshort⟩

/-- A plan puts evidence first exactly if its commentary does not outbid its verifier. -/
theorem Planned.evidenceFirst_iff {assessment : PhaseAssessment} {o : SwarmObservation}
    {modeOverride : Option ControlMode} {plan : SwarmPlan} {ready : List CandidateCrystal}
    (h : Planned assessment o b modeOverride caps plan selected ready) (hb : b.Valid) :
    plan.EvidenceFirst caps ↔ ¬ Outbid plan.mode b.maxDeepAgents
      (b.maxComputeUnits * resourceFactor o.resourcePressure) caps := by
  rw [← outbid_planningBudget]
  by_cases hmode : plan.mode = .measure ∨ plan.mode = .anneal
  · by_cases hcap : capOf caps .verifier = some 0
    · exact iff_of_true (fun _ hne => absurd hcap hne) fun houtbid => houtbid.verifier hcap
    · have hlanes : lanesOf plan.mode o (planningBudget o b) selected ready =
          measureLanes (planningBudget o b) selected := by
        rcases hmode with heq | heq <;> rw [heq] <;> rfl
      have hvalid : (planningBudget o b).Valid := planningBudget_valid hb
      have hmeasuring := @measuring_evidence_iff (planningBudget o b) selected caps plan.mode hmode
        hvalid hcap
      rw [← hlanes, ← h.lanes] at hmeasuring
      rw [← hmeasuring]
      exact ⟨fun hfirst => hfirst hmode hcap, fun hfirst _ _ => hfirst⟩
  · exact iff_of_true (fun heq => absurd heq hmode) fun houtbid => hmode houtbid.mode

end Measuring

/-! ## The allocation -/

/--
A valid request gets a plan that keeps its envelope, and it puts evidence first exactly if
the commentary of the round does not outbid its verifier.
-/
theorem allocation_kept_iff
    (assessment : PhaseAssessment)
    (o : SwarmObservation)
    (b : SwarmBudget)
    (hotspots : List DisagreementHotspot)
    (crystals : List CandidateCrystal)
    (modeOverride : Option ControlMode)
    (caps : Option (Dict AgentRole Nat))
    (ho : o.valid = true)
    (hb : b.Valid)
    (hhotspots : hotspots.all DisagreementHotspot.valid = true)
    (hcrystals : crystals.all CandidateCrystal.valid = true) :
    (∃ plan,
      allocatePopulation assessment o b hotspots crystals modeOverride caps = some plan ∧
        plan.Kept b caps ∧ plan.EvidenceFirst caps) ↔
      ¬ Outbid (modeOverride.getD assessment.recommendation.mode) b.maxDeepAgents
        (b.maxComputeUnits * resourceFactor o.resourcePressure) caps := by
  obtain ⟨_, _, plan, hplan, -⟩ :=
    allocatePopulation_answers assessment modeOverride caps ho hb hhotspots hcrystals
  obtain ⟨selected, ready, hplanned⟩ := planned_of_allocatePopulation hplan
  have hiff := hplanned.evidenceFirst_iff hb
  rw [hplanned.mode] at hiff
  rw [← hiff]
  constructor
  · rintro ⟨plan', hplan', -, hfirst⟩
    cases hplan.symm.trans hplan'
    exact hfirst
  · exact fun hfirst => ⟨plan, hplan, hplanned.kept ho hb, hfirst⟩

/-- A quiet round of eight agents. -/
theorem allocation_kept_iff_quiet :
    (∃ plan,
      allocatePopulation disputeAssessment (disputeUnder 0) ⟨8, 4, 1, 0, 16⟩ [] [] none none =
          some plan ∧
        plan.Kept ⟨8, 4, 1, 0, 16⟩ none ∧ plan.EvidenceFirst none) ↔
      ¬ Outbid .measure 1 (16 * resourceFactor 0) none :=
  allocation_kept_iff disputeAssessment (disputeUnder 0) ⟨8, 4, 1, 0, 16⟩ [] [] none none
    (by decide +kernel) (by decide +kernel) rfl rfl

/-- The price of a deep agent is one unit short, and the plan is commentary only. -/
theorem evidence_dropped :
    ¬ ∃ plan,
      allocatePopulation disputeAssessment (disputeUnder 0) ⟨4, 2, 1, 0, 7⟩ [] [] none none =
          some plan ∧
        plan.Kept ⟨4, 2, 1, 0, 7⟩ none ∧ plan.EvidenceFirst none := by
  rintro ⟨plan, hplan, -, hfirst⟩
  obtain ⟨selected, ready, hplanned⟩ := planned_of_allocatePopulation hplan
  refine (hplanned.evidenceFirst_iff (by decide +kernel)).mp hfirst ?_
  rw [hplanned.mode]
  exact ⟨Or.inl rfl, by rintro ⟨⟩, Or.inl (by rintro ⟨⟩), le_rfl, by decide +kernel,
    by decide +kernel⟩

end Swarm
end SwFactory
