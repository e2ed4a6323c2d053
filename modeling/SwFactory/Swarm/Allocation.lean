import SwFactory.Swarm.Population

/-!
# An allocation stays inside its budget

Fitting is greedy: each lane takes the agents there is room for, and the rest is
fitted into what is left.  So the fitted lanes keep within the planning budget,
which keeps within the budget of the caller, and a valid request gets a plan.
-/

namespace SwFactory
namespace Swarm

open Arithmetic
open Machine
open Phase

/-! ## The planning budget -/

/-- A valid observation has its pressure between nothing and everything. -/
theorem pressure_unit
    {o : SwarmObservation}
    (h : o.valid = true) :
    0 ≤ o.resourcePressure ∧ o.resourcePressure ≤ 1 := by
  simp only [SwarmObservation.valid, List.all_cons, inUnit, Bool.and_eq_true,
    decide_eq_true_eq] at h
  exact h.1.1.2.2.2.2.2.1

theorem resourceFactor_le_one
    {pressure : ℚ}
    (h : 0 ≤ pressure) :
    resourceFactor pressure ≤ 1 := by
  refine max_le (by norm_num) ?_
  linarith

theorem planningBudget_valid
    {o : SwarmObservation}
    {b : SwarmBudget}
    (hb : b.Valid) :
    (planningBudget o b).Valid where
  agents := le_min hb.agents (le_max_left _ _)
  parallel := le_min hb.parallel (le_max_left _ _)
  parallel_le := min_le_min_right _ hb.parallel_le
  deep_le := min_le_min_right _ hb.deep_le
  exact_le := min_le_min_right _ hb.exact_le
  compute := le_max_left _ _

theorem planningBudget_compute_le
    {o : SwarmObservation}
    {b : SwarmBudget}
    (ho : o.valid = true)
    (hb : b.Valid) :
    (planningBudget o b).maxComputeUnits ≤ b.maxComputeUnits := by
  refine max_le hb.compute ?_
  have hfactor := resourceFactor_le_one (pressure_unit ho).1
  have hcompute := hb.compute
  nlinarith only [hfactor, hcompute]

/-! ## The lanes of a mode -/

theorem divergeLanes_valid (o : SwarmObservation) (b : SwarmBudget) :
    (divergeLanes o b).all PopulationLane.valid = true := by
  dsimp only [divergeLanes]
  split <;> norm_num +decide [PopulationLane.valid]

theorem coordinateLanes_valid (b : SwarmBudget) :
    (coordinateLanes b).all PopulationLane.valid = true := by
  norm_num +decide [coordinateLanes, PopulationLane.valid]

theorem measureLanes_valid (b : SwarmBudget) (selected : List DisagreementHotspot) :
    (measureLanes b selected).all PopulationLane.valid = true := by
  norm_num +decide [measureLanes, PopulationLane.valid]

theorem verifyLanes_valid (b : SwarmBudget) (ready : List CandidateCrystal) :
    (verifyLanes b ready).all PopulationLane.valid = true := by
  unfold verifyLanes
  rw [List.all_append, Bool.and_eq_true]
  constructor
  · split <;> norm_num [PopulationLane.valid]
  · split <;> norm_num [PopulationLane.valid]

theorem perturbLanes_valid (b : SwarmBudget) :
    (perturbLanes b).all PopulationLane.valid = true := by
  norm_num +decide [perturbLanes, PopulationLane.valid]

theorem drainLanes_valid (b : SwarmBudget) :
    (drainLanes b).all PopulationLane.valid = true := by
  norm_num +decide [drainLanes, memoryLane, PopulationLane.valid]

/-- Every mode proposes valid lanes. -/
theorem lanesOf_valid
    (mode : ControlMode)
    (o : SwarmObservation)
    (b : SwarmBudget)
    (selected : List DisagreementHotspot)
    (ready : List CandidateCrystal) :
    (lanesOf mode o b selected ready).all PopulationLane.valid = true := by
  cases mode with
  | diverge => exact divergeLanes_valid o b
  | coordinate => exact coordinateLanes_valid b
  | measure => exact measureLanes_valid b selected
  | anneal => exact measureLanes_valid b selected
  | verify => exact verifyLanes_valid b ready
  | perturb => exact perturbLanes_valid b
  | drain => exact drainLanes_valid b

/-! ## Narrowing lanes -/

/-- A lane of the list with agents of its own number. -/
def Narrowed (lanes : List PopulationLane) (lane : PopulationLane) : Prop :=
  ∃ origin ∈ lanes, ∃ n, lane = { origin with count := n }

theorem Narrowed.of_mem {lanes : List PopulationLane} {lane : PopulationLane}
    (h : lane ∈ lanes) : Narrowed lanes lane :=
  ⟨lane, h, lane.count, rfl⟩

theorem Narrowed.tail {first : PopulationLane} {lanes : List PopulationLane}
    {lane : PopulationLane} (h : Narrowed lanes lane) : Narrowed (first :: lanes) lane := by
  obtain ⟨origin, horigin, n, rfl⟩ := h
  exact ⟨origin, List.mem_cons_of_mem _ horigin, n, rfl⟩

theorem Narrowed.head (first : PopulationLane) (lanes : List PopulationLane) (n : Nat) :
    Narrowed (first :: lanes) { first with count := n } :=
  ⟨first, List.mem_cons_self, n, rfl⟩

theorem Narrowed.trans
    {lanes middle : List PopulationLane}
    {lane : PopulationLane}
    (h : ∀ l ∈ middle, Narrowed lanes l)
    (hlane : Narrowed middle lane) :
    Narrowed lanes lane := by
  obtain ⟨l, hl, n, rfl⟩ := hlane
  obtain ⟨origin, horigin, m, rfl⟩ := h l hl
  exact ⟨origin, horigin, n, rfl⟩

/-- Capping only narrows. -/
theorem narrowed_capLanes
    {caps : Dict AgentRole Nat}
    {lanes : List PopulationLane} :
    ∀ lane ∈ capLanes caps lanes, Narrowed lanes lane := by
  induction lanes generalizing caps with
  | nil =>
      intro lane hlane
      cases hlane
  | cons first rest ih =>
      intro lane hlane
      unfold capLanes at hlane
      split at hlane
      · rcases List.mem_cons.mp hlane with rfl | hrest
        · exact Narrowed.of_mem List.mem_cons_self
        · exact (ih lane hrest).tail
      · simp only at hlane
        split at hlane
        · exact (ih lane hlane).tail
        · rcases List.mem_cons.mp hlane with rfl | hrest
          · exact Narrowed.head first rest _
          · exact (ih lane hrest).tail

theorem narrowed_applyRoleCaps
    {caps : Option (Dict AgentRole Nat)}
    {lanes : List PopulationLane} :
    ∀ lane ∈ applyRoleCaps lanes caps, Narrowed lanes lane := by
  cases caps with
  | none => exact fun lane hlane => Narrowed.of_mem hlane
  | some caps => exact narrowed_capLanes

/-- Fitting only narrows, and keeps no empty lane. -/
theorem narrowed_fitLanes
    {lanes : List PopulationLane}
    {b : SwarmBudget} :
    ∀ lane ∈ fitLanes lanes b, Narrowed lanes lane ∧ 1 ≤ lane.count := by
  induction lanes generalizing b with
  | nil =>
      intro lane hlane
      cases hlane
  | cons first rest ih =>
      intro lane hlane
      unfold fitLanes at hlane
      split at hlane
      · exact ⟨(ih lane hlane).1.tail, (ih lane hlane).2⟩
      · rename_i hroom
        rcases List.mem_cons.mp hlane with rfl | hrest
        · exact ⟨Narrowed.head first rest _, Nat.one_le_iff_ne_zero.mpr hroom⟩
        · exact ⟨(ih lane hrest).1.tail, (ih lane hrest).2⟩

/-- A fitted lane is the memory lane, or comes from a lane of the request. -/
theorem mem_fitBudget
    {lanes : List PopulationLane}
    {b : SwarmBudget}
    {lane : PopulationLane}
    (h : lane ∈ fitBudget lanes b) :
    lane = memoryLane ∨ (lane ∈ fitLanes lanes b ∧ Narrowed lanes lane) := by
  simp only [fitBudget] at h
  split at h
  · exact Or.inl (List.mem_singleton.mp h)
  · exact Or.inr ⟨h, (narrowed_fitLanes lane h).1⟩

/-! ## Keeping within the budget -/

/-- The compute of the lanes, all of whose prices are whole. -/
def wholeUnits (lanes : List PopulationLane) : Nat :=
  (lanes.map (fun lane => lane.count * tierCost lane.computeTier)).sum

theorem sum_laneComputeUnits (lanes : List PopulationLane) :
    (lanes.map laneComputeUnits).sum = (wholeUnits lanes : ℚ) := by
  induction lanes with
  | nil => rfl
  | cons lane rest ih =>
      simp only [List.map_cons, List.sum_cons, wholeUnits, Nat.cast_add] at ih ⊢
      rw [ih, laneComputeUnits, Nat.cast_mul]

theorem countOf_cons (keep : PopulationLane → Bool) (lane : PopulationLane)
    (lanes : List PopulationLane) :
    countOf keep (lane :: lanes) = (if keep lane then lane.count else 0) + countOf keep lanes := by
  unfold countOf
  by_cases h : keep lane = true
  · simp [h]
  · simp [h]

/-- What the lanes use up, within what the budget has. -/
structure Within (lanes : List PopulationLane) (b : SwarmBudget) : Prop where
  agents : countOf (fun _ => true) lanes ≤ b.maxAgents
  deep : countOf (onTier .deep) lanes ≤ b.maxDeepAgents
  exactReplays : countOf (onTier .exactReplay) lanes ≤ b.maxExactReplays
  compute : (wholeUnits lanes : ℚ) ≤ b.maxComputeUnits

theorem Within.nil {b : SwarmBudget} (h : 0 ≤ b.maxComputeUnits) : Within [] b :=
  ⟨Nat.zero_le _, Nat.zero_le _, Nat.zero_le _, by simpa [wholeUnits] using h⟩

theorem Within.mono
    {lanes : List PopulationLane}
    {b wider : SwarmBudget}
    (h : Within lanes b)
    (hagents : b.maxAgents ≤ wider.maxAgents)
    (hdeep : b.maxDeepAgents ≤ wider.maxDeepAgents)
    (hexact : b.maxExactReplays ≤ wider.maxExactReplays)
    (hcompute : b.maxComputeUnits ≤ wider.maxComputeUnits) :
    Within lanes wider :=
  ⟨h.agents.trans hagents, h.deep.trans hdeep, h.exactReplays.trans hexact,
    h.compute.trans hcompute⟩

/-- The room for a lane is within each of the limits that concern it. -/
theorem roomFor_le (lane : PopulationLane) {b : SwarmBudget} (h : 0 ≤ b.maxComputeUnits) :
    roomFor lane b ≤ b.maxAgents ∧
      (lane.computeTier = .deep → roomFor lane b ≤ b.maxDeepAgents) ∧
      (lane.computeTier = .exactReplay → roomFor lane b ≤ b.maxExactReplays) ∧
      ((roomFor lane b * tierCost lane.computeTier : Nat) : ℚ) ≤ b.maxComputeUnits := by
  have hcost : 0 < (tierCost lane.computeTier : ℚ) := by
    cases lane.computeTier <;> norm_num [tierCost]
  have hfloor : 0 ≤ ⌊b.maxComputeUnits / tierCost lane.computeTier⌋ :=
    Int.floor_nonneg.mpr (div_nonneg h hcost.le)
  have hcompute : roomFor lane b ≤ ⌊b.maxComputeUnits / tierCost lane.computeTier⌋.toNat := by
    unfold roomFor
    exact min_le_right _ _
  refine ⟨?_, ?_, ?_, ?_⟩
  · unfold roomFor
    cases lane.computeTier <;> simp
  · intro hdeep
    simp [roomFor, hdeep]
  · intro hexact
    simp [roomFor, hexact]
  · have hroom : (roomFor lane b : ℤ) ≤ ⌊b.maxComputeUnits / tierCost lane.computeTier⌋ := by
      omega
    have hratio : (roomFor lane b : ℚ) ≤ b.maxComputeUnits / tierCost lane.computeTier := by
      exact_mod_cast Int.le_floor.mp hroom
    rw [Nat.cast_mul]
    exact (le_div_iff₀ hcost).mp hratio

/-- Seating a lane leaves the budget what its price is short of it. -/
theorem Within.cons
    {lane : PopulationLane}
    {rest : List PopulationLane}
    {b : SwarmBudget}
    (hb : 0 ≤ b.maxComputeUnits)
    (h : Within rest (spend lane (roomFor lane b) b)) :
    Within ({ lane with count := roomFor lane b } :: rest) b := by
  obtain ⟨hagents, hdeep, hexact, hcompute⟩ := roomFor_le lane hb
  refine ⟨?_, ?_, ?_, ?_⟩
  · have := h.agents
    simp only [spend] at this
    rw [countOf_cons, if_pos rfl]
    change roomFor lane b + _ ≤ _
    omega
  · have := h.deep
    simp only [spend] at this
    rw [countOf_cons]
    by_cases htier : lane.computeTier = .deep
    · have := hdeep htier
      simp only [htier, onTier, beq_self_eq_true, if_true] at *
      omega
    · simpa [onTier, htier] using this
  · have := h.exactReplays
    simp only [spend] at this
    rw [countOf_cons]
    by_cases htier : lane.computeTier = .exactReplay
    · have := hexact htier
      simp only [htier, onTier, beq_self_eq_true, if_true] at *
      omega
    · simpa [onTier, htier] using this
  · have := h.compute
    simp only [spend] at this
    simp only [wholeUnits, List.map_cons, List.sum_cons, Nat.cast_add, Nat.cast_mul] at this ⊢
    linarith only [this]

/-- What is left behind a lane is not negative. -/
theorem spend_nonneg
    {lane : PopulationLane}
    {b : SwarmBudget}
    (hb : 0 ≤ b.maxComputeUnits) :
    0 ≤ (spend lane (roomFor lane b) b).maxComputeUnits := by
  have hcompute := (roomFor_le lane hb).2.2.2
  rw [Nat.cast_mul] at hcompute
  exact sub_nonneg.mpr hcompute

/-- The fitted lanes keep within the budget. -/
theorem fitLanes_within
    {lanes : List PopulationLane}
    {b : SwarmBudget}
    (hb : 0 ≤ b.maxComputeUnits) :
    Within (fitLanes lanes b) b := by
  induction lanes generalizing b with
  | nil => exact Within.nil hb
  | cons lane rest ih =>
      unfold fitLanes
      split
      · exact ih hb
      · exact Within.cons hb (ih (spend_nonneg hb))

theorem fitBudget_within
    {lanes : List PopulationLane}
    {b : SwarmBudget}
    (hb : b.Valid) :
    Within (fitBudget lanes b) b := by
  simp only [fitBudget]
  split
  · refine ⟨hb.agents, Nat.zero_le _, Nat.zero_le _, ?_⟩
    simpa [wholeUnits, memoryLane, tierCost] using hb.compute
  · exact fitLanes_within (zero_le_one.trans hb.compute)

/-! ## Plans -/

/-- A whole number is its own rounding. -/
theorem round6_natCast (n : Nat) :
    round6 (n : ℚ) = n := by
  have hcast : (n : ℚ) * 10 ^ 6 = ((n * 10 ^ 6 : Nat) : ℚ) := by
    push_cast
    rfl
  have hround : roundHalfEven ((n : ℚ) * 10 ^ 6) = ((n * 10 ^ 6 : Nat) : ℤ) := by
    unfold roundHalfEven
    rw [hcast, Int.floor_natCast, Int.cast_natCast, sub_self, if_pos (by norm_num)]
  rw [round6, roundTo, hround, Int.cast_natCast, ← hcast, mul_div_cancel_right₀ _ (by norm_num)]

/-- Lanes that are not stopped work: none explores or mutates. -/
theorem drainLanes_stopped (b : SwarmBudget) :
    ∀ lane ∈ drainLanes b, (lane.role == .explorer || lane.role == .mutator) = false := by
  simp [drainLanes, memoryLane]

/-- The agents of the deep tiers, less those that replay, are the deep ones. -/
theorem countOf_deep (lanes : List PopulationLane) :
    countOf (fun l => onTier .deep l || onTier .exactReplay l) lanes -
      countOf (onTier .exactReplay) lanes = countOf (onTier .deep) lanes := by
  have hsum : countOf (fun l => onTier .deep l || onTier .exactReplay l) lanes =
      countOf (onTier .deep) lanes + countOf (onTier .exactReplay) lanes := by
    induction lanes with
    | nil => rfl
    | cons lane rest ih =>
        rw [countOf_cons, countOf_cons, countOf_cons, ih]
        cases htier : lane.computeTier <;> simp [onTier, htier] <;> omega
  omega

theorem prioritizeHotspots_valid
    {hotspots selected : List DisagreementHotspot}
    {limit : Nat}
    (h : prioritizeHotspots hotspots limit = some selected) :
    selected.all DisagreementHotspot.valid = true := by
  unfold prioritizeHotspots at h
  split at h
  · rename_i hvalid
    cases h
    refine List.all_eq_true.mpr fun hotspot hmem => List.all_eq_true.mp hvalid hotspot ?_
    exact List.mem_mergeSort.mp (List.mem_of_mem_take hmem)
  · cases h

theorem readyCrystals_valid
    {crystals ready : List CandidateCrystal}
    {limit : Nat}
    (h : readyCrystals crystals limit = some ready) :
    ready.all CandidateCrystal.valid = true := by
  unfold readyCrystals at h
  split at h
  · rename_i hvalid
    cases h
    refine List.all_eq_true.mpr fun crystal hmem => List.all_eq_true.mp hvalid crystal ?_
    exact (List.mem_filter.mp (List.mem_mergeSort.mp (List.mem_of_mem_take hmem))).1
  · cases h

/-- A property of lanes that does not look at their numbers passes to the fitted ones. -/
theorem fitBudget_all
    {p : PopulationLane → Prop}
    (hcount : ∀ (lane : PopulationLane) (n : Nat), p lane → p { lane with count := n })
    {lanes : List PopulationLane}
    {caps : Option (Dict AgentRole Nat)}
    {b : SwarmBudget}
    (hmemory : p memoryLane)
    (h : ∀ lane ∈ lanes, p lane) :
    ∀ lane ∈ fitBudget (applyRoleCaps lanes caps) b, p lane := by
  intro lane hlane
  rcases mem_fitBudget hlane with rfl | ⟨-, hnarrowed⟩
  · exact hmemory
  · obtain ⟨origin, horigin, n, rfl⟩ := Narrowed.trans narrowed_applyRoleCaps hnarrowed
    exact hcount origin n (h origin horigin)

/-- The plan of a valid request: the lanes of the mode, capped and fitted. -/
theorem allocatePopulation_answers
    (assessment : PhaseAssessment)
    {o : SwarmObservation}
    {b : SwarmBudget}
    {hotspots : List DisagreementHotspot}
    {crystals : List CandidateCrystal}
    (modeOverride : Option ControlMode)
    (roleCaps : Option (Dict AgentRole Nat))
    (ho : o.valid = true)
    (hb : b.Valid)
    (hhotspots : hotspots.all DisagreementHotspot.valid = true)
    (hcrystals : crystals.all CandidateCrystal.valid = true) :
    ∃ selected ready plan,
      allocatePopulation assessment o b hotspots crystals modeOverride roleCaps = some plan ∧
        plan.lanes = fitBudget
          (applyRoleCaps (lanesOf (modeOverride.getD assessment.recommendation.mode) o
            (planningBudget o b) selected ready) roleCaps)
          (planningBudget o b) := by
  obtain ⟨selected, hselected⟩ : ∃ selected,
      prioritizeHotspots hotspots (planningBudget o b).maxDeepAgents = some selected :=
    ⟨_, if_pos hhotspots⟩
  obtain ⟨ready, hready⟩ : ∃ ready,
      readyCrystals crystals (planningBudget o b).maxExactReplays = some ready :=
    ⟨_, if_pos hcrystals⟩
  have hplanning := planningBudget_valid (o := o) hb
  obtain ⟨mode, hmode⟩ : ∃ mode, mode = modeOverride.getD assessment.recommendation.mode :=
    ⟨_, rfl⟩
  obtain ⟨lanes, hlanes⟩ : ∃ lanes, lanes = fitBudget
      (applyRoleCaps (lanesOf mode o (planningBudget o b) selected ready) roleCaps)
      (planningBudget o b) :=
    ⟨_, rfl⟩
  have hwithin : Within lanes b := by
    rw [hlanes]
    exact (fitBudget_within hplanning).mono (min_le_left _ _) (min_le_left _ _)
      (min_le_left _ _) (planningBudget_compute_le ho hb)
  have hvalid : lanes.all PopulationLane.valid = true := by
    rw [hlanes]
    refine List.all_eq_true.mpr (fitBudget_all (p := fun l => l.valid = true) ?_ ?_ ?_)
    · exact fun lane n h => h
    · norm_num +decide [memoryLane, PopulationLane.valid]
    · exact List.all_eq_true.mp (lanesOf_valid mode o (planningBudget o b) selected ready)
  have hstopped : (mode == .drain) = true → lanes.all
      (fun l => l.count == 0 || !(l.role == .explorer || l.role == .mutator)) = true := by
    intro hdrain
    rw [hlanes]
    refine List.all_eq_true.mpr fun lane hlane => ?_
    have hrole := fitBudget_all
      (p := fun l => (l.role == .explorer || l.role == .mutator) = false)
      (fun lane n h => h) rfl
      (by
        rw [eq_of_beq hdrain]
        exact drainLanes_stopped (planningBudget o b)) lane hlane
    rw [hrole, Bool.not_false, Bool.or_true]
  rw [← hmode]
  suffices hplan : ∃ plan,
      allocatePopulation assessment o b hotspots crystals modeOverride roleCaps = some plan ∧
        plan.lanes = lanes by
    rw [hlanes] at hplan
    exact ⟨selected, ready, hplan⟩
  refine
    ⟨{ phase := assessment.phase
       mode := mode
       lanes := lanes
       selectedHotspots := selected
       crystalsToVerify := ready
       stopNewWork := mode == .drain
       estimatedComputeUnits := round6 (lanes.map laneComputeUnits).sum }, ?_, rfl⟩
  simp only [allocatePopulation, ho, hb, hplanning, and_self, if_true, hselected, hready,
    Option.bind_eq_bind, Option.bind_some, ← hmode, ← hlanes]
  refine if_pos ?_
  exact
    { budget := hb
      lanes := hvalid
      hotspots := prioritizeHotspots_valid hselected
      crystals := readyCrystals_valid hready
      agents := hwithin.agents
      deep := (countOf_deep lanes).trans_le hwithin.deep
      exactReplays := hwithin.exactReplays
      compute := by
        rw [sum_laneComputeUnits, round6_natCast]
        exact hwithin.compute.trans (le_add_of_nonneg_right (by norm_num))
      stopped := hstopped }

/-- Only a valid request gets a plan. -/
theorem allocatePopulation_valid
    {assessment : PhaseAssessment}
    {o : SwarmObservation}
    {b : SwarmBudget}
    {hotspots : List DisagreementHotspot}
    {crystals : List CandidateCrystal}
    {modeOverride : Option ControlMode}
    {roleCaps : Option (Dict AgentRole Nat)}
    {plan : SwarmPlan}
    (h : allocatePopulation assessment o b hotspots crystals modeOverride roleCaps = some plan) :
    o.valid = true ∧ hotspots.all DisagreementHotspot.valid = true := by
  unfold allocatePopulation at h
  constructor
  · by_contra ho
    simp [ho] at h
  · by_contra hhotspots
    have hselected : ∀ limit, prioritizeHotspots hotspots limit = none :=
      fun limit => if_neg hhotspots
    simp [hselected] at h

end Swarm
end SwFactory
