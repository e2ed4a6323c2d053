import SwFactory.Swarm.Reserve

/-!
# The envelope of a plan

A plan has an agent, keeps within the budget and the caps of the roles, and starts no
new work when it says so.  In a measuring round the verifier comes first, but it is
deep: where the compute that is left pays for a critic and not for a deep agent, the
commentary stays and the evidence goes.

Source: `swarm_dynamics.py` (`allocate_population`, `_apply_role_caps`, `_fit_budget`).
-/

namespace SwFactory
namespace Swarm

open Arithmetic
open Machine
open Phase

/-! ## Caps -/

/-- The lane is of a role. -/
def ofRole (role : AgentRole) (lane : PopulationLane) : Bool :=
  lane.role == role

/-- The cap of a role, if it has one. -/
def capOf (caps : Option (Dict AgentRole Nat)) (role : AgentRole) : Option Nat :=
  caps.bind (fun caps => caps.get? role)

section Caps

variable {caps : Dict AgentRole Nat}
variable {lanes : List PopulationLane}
variable {role : AgentRole}
variable {cap : Nat}

/-- Capped lanes keep the cap of a role. -/
theorem countOf_capLanes_le (h : caps.get? role = some cap) :
    countOf (ofRole role) (capLanes caps lanes) ≤ cap := by
  induction lanes generalizing caps cap with
  | nil => exact Nat.zero_le _
  | cons lane lanes ih =>
      unfold capLanes
      split
      · next hfree =>
          -- A lane without a cap is of another role.
          have hrole : ofRole role lane = false := by
            refine beq_eq_false_iff_ne.mpr fun heq => ?_
            rw [heq, h] at hfree
            cases hfree
          rw [countOf_cons, hrole, if_neg Bool.false_ne_true, Nat.zero_add]
          exact ih h
      · next left hleft =>
          extract_lets count rest
          have hrest : countOf (ofRole role) rest ≤
              if lane.role = role then left - count else cap := by
            refine ih ?_
            rw [Dict.get?_assign]
            split
            · next heq => rw [if_pos heq.symm]
            · next hne => rw [if_neg fun heq => hne heq.symm, h]
          by_cases hrole : lane.role = role
          · rw [hrole, h] at hleft
            cases hleft
            rw [if_pos hrole] at hrest
            have hcount : count ≤ cap := min_le_right _ _
            split
            · exact hrest.trans (Nat.sub_le _ _)
            · rw [countOf_cons]
              have hle : (if ofRole role { lane with count := count } = true then count else 0) ≤
                  count := by
                split
                · exact le_rfl
                · exact Nat.zero_le _
              change (if ofRole role { lane with count := count } = true then count else 0) + _ ≤ cap
              omega
          · rw [if_neg hrole] at hrest
            split
            · exact hrest
            · rw [countOf_cons, ofRole, beq_eq_false_iff_ne.mpr hrole,
                if_neg Bool.false_ne_true, Nat.zero_add]
              exact hrest

/-- Fitting adds no agents of a kind. -/
theorem countOf_fitLanes_le {keep : PopulationLane → Bool}
    (hkeep : ∀ (lane : PopulationLane) (n : Nat), keep { lane with count := n } = keep lane)
    (lanes : List PopulationLane) (b : SwarmBudget) :
    countOf keep (fitLanes lanes b) ≤ countOf keep lanes := by
  induction lanes generalizing b with
  | nil => exact le_rfl
  | cons lane lanes ih =>
      have hroom : roomFor lane b ≤ lane.count := by
        unfold roomFor
        cases lane.computeTier <;> dsimp only <;> omega
      rw [fitLanes, countOf_cons]
      split
      · exact (ih b).trans (Nat.le_add_left _ _)
      · rw [countOf_cons, hkeep]
        refine Nat.add_le_add ?_ (ih _)
        split
        · exact hroom
        · exact le_rfl

/-- The fitted lanes keep the cap of a role, or are the memory lane alone. -/
theorem countOf_fitBudget_le {caps : Option (Dict AgentRole Nat)} (h : capOf caps role = some cap)
    (lanes : List PopulationLane) (b : SwarmBudget) :
    countOf (ofRole role) (fitBudget (applyRoleCaps lanes caps) b) ≤ cap ∨
      fitBudget (applyRoleCaps lanes caps) b = [memoryLane] ∧ role = .memory := by
  cases caps with
  | none => cases h
  | some caps =>
      rw [fitBudget]
      split
      · by_cases hrole : role = .memory
        · exact Or.inr ⟨rfl, hrole⟩
        · refine Or.inl ?_
          have hother : ofRole role memoryLane = false :=
            beq_eq_false_iff_ne.mpr fun heq => hrole heq.symm
          rw [countOf_cons, hother]
          exact Nat.zero_le _
      · exact Or.inl ((countOf_fitLanes_le (fun _ _ => rfl) _ b).trans (countOf_capLanes_le h))

end Caps

/-! ## Plans -/

section Plans

variable {assessment : PhaseAssessment}
variable {o : SwarmObservation}
variable {b : SwarmBudget}
variable {hotspots : List DisagreementHotspot}
variable {crystals : List CandidateCrystal}
variable {modeOverride : Option ControlMode}
variable {caps : Option (Dict AgentRole Nat)}
variable {plan : SwarmPlan}

/-- What a plan is made of. -/
structure Planned (assessment : PhaseAssessment) (o : SwarmObservation) (b : SwarmBudget)
    (modeOverride : Option ControlMode) (caps : Option (Dict AgentRole Nat)) (plan : SwarmPlan)
    (selected : List DisagreementHotspot) (ready : List CandidateCrystal) : Prop where
  valid : plan.Valid b
  mode : plan.mode = modeOverride.getD assessment.recommendation.mode
  lanes : plan.lanes = fitBudget (applyRoleCaps (lanesOf plan.mode o (planningBudget o b)
    selected ready) caps) (planningBudget o b)
  stopNewWork : plan.stopNewWork = (plan.mode == .drain)
  units : plan.estimatedComputeUnits = round6 (plan.lanes.map laneComputeUnits).sum

theorem planned_of_allocatePopulation
    (h : allocatePopulation assessment o b hotspots crystals modeOverride caps = some plan) :
    ∃ selected ready, Planned assessment o b modeOverride caps plan selected ready := by
  simp only [allocatePopulation, Option.bind_eq_bind] at h
  split at h
  swap
  · cases h
  rw [Option.bind_some] at h
  obtain ⟨selected, -, h⟩ := Option.bind_eq_some_iff.mp h
  obtain ⟨ready, -, h⟩ := Option.bind_eq_some_iff.mp h
  obtain ⟨hvalid, hplan⟩ := Option.ite_none_right_eq_some.mp h
  cases hplan
  exact ⟨selected, ready, hvalid, rfl, rfl, rfl, rfl⟩

/-- What a plan keeps, whatever its mode. -/
structure SwarmPlan.Kept (plan : SwarmPlan) (b : SwarmBudget)
    (caps : Option (Dict AgentRole Nat)) : Prop where
  nonempty : 1 ≤ countOf (fun _ => true) plan.lanes
  agents : countOf (fun _ => true) plan.lanes ≤ b.maxAgents
  deep : countOf (onTier .deep) plan.lanes ≤ b.maxDeepAgents
  exactReplays : countOf (onTier .exactReplay) plan.lanes ≤ b.maxExactReplays
  compute : (plan.lanes.map laneComputeUnits).sum ≤ b.maxComputeUnits
  units : plan.estimatedComputeUnits = (plan.lanes.map laneComputeUnits).sum
  caps : ∀ role cap, capOf caps role = some cap →
    countOf (ofRole role) plan.lanes ≤ cap ∨ plan.lanes = [memoryLane] ∧ role = .memory
  stopped : plan.stopNewWork = true →
    ∀ lane ∈ plan.lanes, lane.role ≠ .explorer ∧ lane.role ≠ .mutator

/-- Fitted lanes are not empty, and one of them has an agent. -/
theorem one_le_countOf_fitBudget (lanes : List PopulationLane) (b : SwarmBudget) :
    1 ≤ countOf (fun _ => true) (fitBudget lanes b) := by
  rw [fitBudget]
  split
  · exact le_rfl
  · next hne =>
      obtain ⟨lane, rest, heq⟩ := List.exists_cons_of_ne_nil hne
      have hcount := (narrowed_fitLanes lane (heq ▸ List.mem_cons_self)).2
      rw [heq, countOf_cons, if_pos rfl]
      omega

theorem Planned.kept {selected : List DisagreementHotspot} {ready : List CandidateCrystal}
    (h : Planned assessment o b modeOverride caps plan selected ready) (ho : o.valid = true)
    (hb : b.Valid) : plan.Kept b caps := by
  have hwithin : Within plan.lanes b := by
    rw [h.lanes]
    exact (fitBudget_within (planningBudget_valid hb)).mono (min_le_left _ _) (min_le_left _ _)
      (min_le_left _ _) (planningBudget_compute_le ho hb)
  have hsum := sum_laneComputeUnits plan.lanes
  refine
    { nonempty := ?_
      agents := hwithin.agents
      deep := hwithin.deep
      exactReplays := hwithin.exactReplays
      compute := hsum ▸ hwithin.compute
      units := by rw [h.units, hsum, round6_natCast]
      caps := fun role cap hcap => ?_
      stopped := fun hstop lane hlane => ?_ }
  · rw [h.lanes]
    exact one_le_countOf_fitBudget _ _
  · rw [h.lanes]
    exact countOf_fitBudget_le hcap _ _
  · have hcount := (List.all_eq_true.mp (h.valid.stopped hstop)) lane hlane
    have hpos : lane.count ≠ 0 := by
      rw [h.lanes] at hlane
      rcases mem_fitBudget hlane with rfl | ⟨hfitted, -⟩
      · exact one_ne_zero
      · exact Nat.one_le_iff_ne_zero.mp (narrowed_fitLanes lane hfitted).2
    simp only [Bool.or_eq_true, beq_iff_eq, hpos, false_or, Bool.not_eq_true',
      Bool.or_eq_false_iff, beq_eq_false_iff_ne] at hcount
    exact hcount

end Plans

end Swarm
end SwFactory
