import SwFactory.Search.Planning

/-!
# Plans and the declared search space

Every order of the strategies is an order of the allowed ones, and every width
is between one and the number of candidates.  Only the strategy that won the
latest round comes from the history: where it is put in front, the plan stays
inside the declared space exactly if that strategy is declared.
-/

namespace SwFactory
namespace Search

open Arithmetic
open Machine
open Swarm (Text round6 inUnit isBlank textLe)

/-! ## Valid laws -/

theorem inUnit_round6 {x : ℚ} (h0 : 0 ≤ x) (h1 : x ≤ 1) : inUnit (round6 x) = true := by
  have hlow : (0 : ℚ) ≤ round6 x := by
    rw [round6, le_roundTo (n := 0) (by norm_num), le_roundHalfEven_of_even (by decide)]
    push_cast
    linarith
  have hhigh : round6 x ≤ 1 := by
    rw [round6, roundTo_le (n := 1000000) (by norm_num), ← Int.lt_add_one_iff, ← not_le,
      le_roundHalfEven_of_odd (by decide)]
    push_cast
    linarith
  simp [inUnit, hlow, hhigh]

theorem isBlank_append (s t : Text) : isBlank (s ++ t) = (isBlank s && isBlank t) := by
  simp [isBlank, List.all_append]

/-- Every law of the search passes its own check. -/
theorem validate_lawOf (D : Digests) (kind : LawKind) {statement : Text} (confidence : ℚ)
    (support : Int) (strategies : List Strategy) (signals : List RoundSignal)
    (h : isBlank statement = false) :
    (lawOf D kind statement confidence support strategies signals).validate = .ok () := by
  have hid : isBlank ("law_".toList ++
      (D.raw kind statement strategies (signals.map D.signal)).take 24) = false := by
    rw [isBlank_append]
    rfl
  have hunit : inUnit (round6 (max 0 (min 1 confidence))) = true :=
    inUnit_round6 (le_max_left _ _) (max_le zero_le_one (min_le_left _ _))
  have hsupport : ¬ max 1 support < 1 := by
    omega
  simp only [SearchLaw.validate, lawOf, hid, h, hunit, hsupport, Bool.or_self, Bool.not_true,
    Bool.false_eq_true, if_false, ne_eq, not_true_eq_false]

theorem validate_strategyLaws (D : Digests) (minSupport : Int) (signals : List RoundSignal)
    (strategy : Strategy) (row : Totals) :
    ∀ law ∈ strategyLaws D minSupport signals strategy row, law.validate = .ok () := by
  have hprefer : isBlank (preferText strategy) = false := by
    cases strategy <;> rfl
  have hdeprioritize : isBlank (deprioritizeText strategy) = false := by
    cases strategy <;> rfl
  intro law hlaw
  unfold strategyLaws at hlaw
  split at hlaw
  · cases hlaw
  · rcases List.mem_append.mp hlaw with hlaw | hlaw
    · split at hlaw
      · cases List.mem_singleton.mp hlaw
        exact validate_lawOf D _ _ _ _ _ hprefer
      · cases hlaw
    · split at hlaw
      · cases List.mem_singleton.mp hlaw
        exact validate_lawOf D _ _ _ _ _ hdeprioritize
      · cases hlaw

theorem validate_latestLaws (D : Digests) (last : RoundSignal) :
    ∀ law ∈ latestLaws D last, law.validate = .ok () := by
  intro law hlaw
  unfold latestLaws at hlaw
  split at hlaw
  · cases List.mem_singleton.mp hlaw
    exact validate_lawOf D _ _ _ _ _ rfl
  split at hlaw
  · cases List.mem_singleton.mp hlaw
    exact validate_lawOf D _ _ _ _ _ rfl
  split at hlaw
  · cases List.mem_singleton.mp hlaw
    exact validate_lawOf D _ _ _ _ _ rfl
  split at hlaw
  · cases List.mem_singleton.mp hlaw
    exact validate_lawOf D _ _ _ _ _ rfl
  · cases hlaw

theorem digest_of_validate (D : Digests) {law : SearchLaw} (h : law.validate = .ok ()) :
    law.digest D = .ok (D.law law) := by
  rw [SearchLaw.digest, h]
  rfl

theorem uniqueLaws_ok (D : Digests) (laws : List SearchLaw)
    (h : ∀ law ∈ laws, law.validate = .ok ()) :
    ∃ unique, uniqueLaws D laws = .ok unique ∧ ∀ e ∈ unique, e.2.validate = .ok () := by
  refine foldlM_ok ?_ (List.forall_mem_nil _)
  intro unique hunique law hlaw
  refine ⟨unique.assign (D.law law) law, ?_, ?_⟩
  · rw [digest_of_validate D (h law hlaw)]
    rfl
  · intro e he
    rcases Dict.mem_assign he with rfl | he
    · exact h law hlaw
    · exact hunique e he

/-- The laws of any history can be extracted, and each of them has a digest. -/
theorem extractSearchLaws_ok (D : Digests) (signals : List RoundSignal) :
    ∃ laws, extractSearchLaws D signals 2 = .ok laws ∧
      ∃ digests, laws.mapM (SearchLaw.digest D) = .ok digests := by
  unfold extractSearchLaws
  rw [if_neg (by decide)]
  cases signals.getLast? with
  | none =>
      exact ⟨[], rfl, [], rfl⟩
  | some last =>
      dsimp only
      obtain ⟨unique, hunique, hall⟩ := uniqueLaws_ok D
        (((aggregate signals).mergeSort (fun a b => textLe a.1.value b.1.value)).flatMap
          (fun e => strategyLaws D 2 signals e.1 e.2) ++ latestLaws D last)
        (by
          intro law hlaw
          rcases List.mem_append.mp hlaw with hlaw | hlaw
          · obtain ⟨e, -, he⟩ := List.mem_flatMap.mp hlaw
            exact validate_strategyLaws D _ _ _ _ law he
          · exact validate_latestLaws D last law hlaw)
      rw [hunique]
      refine ⟨_, rfl, mapM_ok fun law hlaw => ?_⟩
      obtain ⟨e, he, rfl⟩ := List.mem_map.mp hlaw
      exact ⟨_, digest_of_validate D (hall e (List.mem_mergeSort.mp he))⟩

/-! ## Artifacts of a valid board -/

theorem validate_of_collectIds {ids known : List Text} {board : List ResearchArtifact}
    (h : collectIds ids board = .ok known) : ∀ a ∈ board, a.validate = .ok () := by
  induction board generalizing ids with
  | nil =>
      exact List.forall_mem_nil _
  | cons a rest ih =>
      rw [collectIds] at h
      obtain ⟨u, hvalid, h⟩ := bind_eq_ok h
      split at h
      · cases h
      · exact List.forall_mem_cons.mpr ⟨hvalid, ih h⟩

/-- The artifacts that a plan names have digests. -/
theorem select_digests (D : Digests) {board : ArtifactBlackboard} (tags : List Text) (limit : Int)
    (h : board.validate = .ok ()) :
    ∃ digests, (board.select tags limit).mapM (ResearchArtifact.digest D) = .ok digests := by
  obtain ⟨ids, hids, -⟩ := bind_eq_ok h
  refine mapM_ok fun a ha => ⟨D.artifact a, ?_⟩
  have hmem : a ∈ board :=
    List.mem_of_mem_filter (List.mem_mergeSort.mp (List.mem_of_mem_take ha))
  rw [ResearchArtifact.digest, validate_of_collectIds hids a hmem]
  rfl

/-! ## Widths -/

/-- Strategies that a plan may have: distinct, at least one, no more than candidates. -/
structure Fits (maxCandidates : Int) (strategies : List Strategy) : Prop where
  distinct : strategies.Nodup
  live : strategies ≠ []
  width : (strategies.length : Int) ≤ maxCandidates

/-- The first strategies of a list, as many as a width allows. -/
theorem fits_take {maxCandidates width : Int} {xs : List Strategy} (hnodup : xs.Nodup)
    (hne : xs ≠ []) (hone : 1 ≤ width) (hwidth : width ≤ maxCandidates) :
    Fits maxCandidates (xs.take width.toNat) where
  distinct := hnodup.sublist (List.take_sublist _ _)
  live := by
    have hlength := List.length_pos_iff.mpr hne
    rw [← List.length_pos_iff, List.length_take]
    omega
  width := by
    rw [List.length_take]
    omega

theorem one_le_length {xs : List Strategy} (hne : xs ≠ []) : (1 : Int) ≤ xs.length := by
  have hlength := List.length_pos_iff.mpr hne
  omega

theorem fullWidth_bounds {maxCandidates : Int} {xs : List Strategy} (hmax : 1 ≤ maxCandidates)
    (hne : xs ≠ []) :
    1 ≤ fullWidth maxCandidates xs ∧ fullWidth maxCandidates xs ≤ maxCandidates :=
  ⟨le_min hmax (one_le_length hne), min_le_left _ _⟩

theorem narrowWidth_bounds {maxCandidates : Int} (xs : List Strategy) (hmax : 1 ≤ maxCandidates) :
    1 ≤ narrowWidth maxCandidates xs ∧ narrowWidth maxCandidates xs ≤ maxCandidates :=
  ⟨le_min hmax (le_max_left _ _), min_le_left _ _⟩

theorem measureWidth_bounds {maxCandidates : Int} (xs : List Strategy) (hmax : 1 ≤ maxCandidates) :
    1 ≤ measureWidth maxCandidates xs ∧ measureWidth maxCandidates xs ≤ maxCandidates :=
  ⟨le_min hmax (le_max_of_le_left (by decide)), min_le_left _ _⟩

/-! ## Where the strategies come from -/

/-- The latest round is one whose winner, if it has one, is put in front. -/
def RoundSignal.leads (last : RoundSignal) : Prop :=
  last.answered ≠ 0 ∧
    (last.settled = true ∨ (last.disagreement < 66 / 100 ∧ 50 / 100 ≤ last.novelty))

instance (last : RoundSignal) : Decidable last.leads :=
  inferInstanceAs (Decidable (_ ∧ _))

/-- The winner that a plan puts in front. -/
def leader (signals : List RoundSignal) : Option Strategy :=
  signals.getLast?.bind fun last => if last.leads then last.winnerStrategy else none

/-- The first strategies of an order of the allowed ones, behind the winner if there is one. -/
def Drawn (winner : Option Strategy) (allowed : List Strategy) (maxCandidates : Int)
    (strategies : List Strategy) : Prop :=
  ∃ ordered width, ordered.Perm allowed ∧ 1 ≤ width ∧ width ≤ maxCandidates ∧
    strategies = (winnerFirst winner ordered).take width.toNat

theorem winnerFirst_none (ordered : List Strategy) : winnerFirst none ordered = ordered := by
  simp [winnerFirst]

theorem ne_nil_of_perm {ordered allowed : List Strategy} (hperm : ordered.Perm allowed)
    (hne : allowed ≠ []) : ordered ≠ [] :=
  fun hnil => hne (List.Perm.eq_nil (hnil ▸ hperm).symm)

/-- A draw as wide as the candidates allow. -/
theorem drawn_full {ordered allowed : List Strategy} {maxCandidates : Int}
    (hperm : ordered.Perm allowed) (hne : allowed ≠ []) (hmax : 1 ≤ maxCandidates) :
    Drawn none allowed maxCandidates (ordered.take (fullWidth maxCandidates ordered).toNat) := by
  obtain ⟨hone, hwidth⟩ := fullWidth_bounds hmax (ne_nil_of_perm hperm hne)
  exact ⟨ordered, _, hperm, hone, hwidth, by rw [winnerFirst_none]⟩

/-- A draw behind the winner. -/
theorem drawn_narrow {ordered allowed : List Strategy} {maxCandidates : Int}
    (winner : Option Strategy) (hperm : ordered.Perm allowed) (hmax : 1 ≤ maxCandidates) :
    Drawn winner allowed maxCandidates ((winnerFirst winner ordered).take
      (narrowWidth maxCandidates (winnerFirst winner ordered)).toNat) := by
  obtain ⟨hone, hwidth⟩ := narrowWidth_bounds (winnerFirst winner ordered) hmax
  exact ⟨ordered, _, hperm, hone, hwidth, rfl⟩

theorem drawn_measure {ordered allowed : List Strategy} {maxCandidates : Int}
    (hperm : ordered.Perm allowed) (hmax : 1 ≤ maxCandidates) :
    Drawn none allowed maxCandidates
      (ordered.take (measureWidth maxCandidates ordered).toNat) := by
  obtain ⟨hone, hwidth⟩ := measureWidth_bounds ordered hmax
  exact ⟨ordered, _, hperm, hone, hwidth, by rw [winnerFirst_none]⟩

/-- **The choice by cases**, one for each posture. -/
theorem choose_drawn (signals : List RoundSignal) {allowed : List Strategy} {maxCandidates : Int}
    (hmax : 1 ≤ maxCandidates) (hne : allowed ≠ []) :
    Drawn (leader signals) allowed maxCandidates
      (choose signals allowed maxCandidates).strategies := by
  have hbest : (bestFirst signals allowed).Perm allowed := List.mergeSort_perm _ _
  have htried : (leastTriedFirst signals allowed).Perm allowed := List.mergeSort_perm _ _
  have hnovel : (noveltyFirst signals allowed).Perm allowed := List.mergeSort_perm _ _
  unfold choose leader
  cases signals.getLast? with
  | none =>
      exact drawn_full hbest hne hmax
  | some last =>
      rw [Option.bind_some]
      dsimp only
      unfold chooseAfter
      by_cases hanswered : last.answered = 0
      · have hleads : ¬ last.leads := fun h => h.1 hanswered
        rw [if_pos hanswered, if_neg hleads]
        exact drawn_full htried hne hmax
      by_cases hsettled : last.settled = true
      · have hleads : last.leads := ⟨hanswered, .inl hsettled⟩
        rw [if_neg hanswered, if_pos hsettled, if_pos hleads]
        exact drawn_narrow last.winnerStrategy hbest hmax
      by_cases hdisagree : 66 / 100 ≤ last.disagreement
      · have hleads : ¬ last.leads := by
          rintro ⟨-, h | ⟨h, -⟩⟩
          · exact hsettled h
          · exact absurd hdisagree (not_le.mpr h)
        rw [if_neg hanswered, if_neg hsettled, if_pos hdisagree, if_neg hleads]
        exact drawn_measure hbest hmax
      by_cases hcollapsed : last.novelty < 50 / 100
      · have hleads : ¬ last.leads := by
          rintro ⟨-, h | ⟨-, h⟩⟩
          · exact hsettled h
          · exact absurd hcollapsed (not_lt.mpr h)
        rw [if_neg hanswered, if_neg hsettled, if_neg hdisagree, if_pos hcollapsed, if_neg hleads]
        exact drawn_full hnovel hne hmax
      have hleads : last.leads :=
        ⟨hanswered, .inr ⟨not_le.mp hdisagree, not_lt.mp hcollapsed⟩⟩
      rw [if_neg hanswered, if_neg hsettled, if_neg hdisagree, if_neg hcollapsed, if_pos hleads]
      by_cases hwinner : last.winnerStrategy = none
      · rw [if_neg (not_not.mpr hwinner), hwinner]
        exact drawn_full hbest hne hmax
      · rw [if_pos hwinner]
        exact drawn_narrow last.winnerStrategy hbest hmax

/-! ## The winner in front -/

theorem nodup_winnerFirst {winner : Option Strategy} {ordered : List Strategy}
    (h : ordered.Nodup) : (winnerFirst winner ordered).Nodup := by
  cases winner with
  | none =>
      simpa [winnerFirst] using h
  | some w =>
      refine List.nodup_cons.mpr ⟨?_, h.filter _⟩
      simp

theorem winnerFirst_ne_nil {winner : Option Strategy} {ordered : List Strategy}
    (h : ordered ≠ []) : winnerFirst winner ordered ≠ [] := by
  cases winner with
  | none => simpa [winnerFirst] using h
  | some w => exact List.cons_ne_nil _ _

theorem mem_winnerFirst {winner : Option Strategy} {ordered : List Strategy} {s : Strategy}
    (h : s ∈ winnerFirst winner ordered) : s ∈ winner ∨ s ∈ ordered := by
  rcases List.mem_append.mp h with h | h
  · exact .inl (Option.mem_toList.mp h)
  · exact .inr (List.mem_of_mem_filter h)

/-- The winner is in front, however narrow the round. -/
theorem mem_take_winnerFirst {w : Strategy} (ordered : List Strategy) {width : Int}
    (hone : 1 ≤ width) : w ∈ (winnerFirst (some w) ordered).take width.toNat := by
  obtain ⟨n, hn⟩ : ∃ n, width.toNat = n + 1 := ⟨width.toNat - 1, by omega⟩
  rw [hn]
  exact List.mem_cons_self

/-- What a draw of distinct strategies fits in. -/
theorem Drawn.fits {winner : Option Strategy} {allowed strategies : List Strategy}
    {maxCandidates : Int} (h : Drawn winner allowed maxCandidates strategies)
    (hne : allowed ≠ []) (hnodup : allowed.Nodup) : Fits maxCandidates strategies := by
  obtain ⟨ordered, width, hperm, hone, hwidth, rfl⟩ := h
  exact fits_take (nodup_winnerFirst (hperm.nodup_iff.mpr hnodup))
    (winnerFirst_ne_nil (ne_nil_of_perm hperm hne)) hone hwidth

theorem Drawn.mem {winner : Option Strategy} {allowed strategies : List Strategy}
    {maxCandidates : Int} (h : Drawn winner allowed maxCandidates strategies)
    {s : Strategy} (hs : s ∈ strategies) : s ∈ winner ∨ s ∈ allowed := by
  obtain ⟨ordered, width, hperm, -, -, rfl⟩ := h
  exact (mem_winnerFirst (List.mem_of_mem_take hs)).imp_right hperm.mem_iff.mp

theorem Drawn.winner_mem {w : Strategy} {allowed strategies : List Strategy}
    {maxCandidates : Int} (h : Drawn (some w) allowed maxCandidates strategies) :
    w ∈ strategies := by
  obtain ⟨ordered, width, -, hone, -, rfl⟩ := h
  exact mem_take_winnerFirst ordered hone

/-! ## The plan -/

/-- The plan stays inside the declared search space. -/
structure InSpace (allowed : List Strategy) (maxCandidates maxParallel : Int)
    (plan : RecursiveRoundPlan) : Prop where
  distinct : plan.strategies.Nodup
  declared : ∀ s ∈ plan.strategies, s ∈ allowed
  live : 1 ≤ plan.strategies.length
  width : (plan.strategies.length : Int) ≤ maxCandidates
  parallel : 1 ≤ plan.maxParallel
  parallel_le : plan.maxParallel ≤ maxParallel

/-- Depth, input head and blackboard are what a plan can be made from. -/
structure Plannable (depth : Int) (inputHead : Text) (blackboard : Option ArtifactBlackboard) :
    Prop where
  depth : 0 ≤ depth
  head : isBlank inputHead = false
  board : (blackboard.getD []).validate = .ok ()

/-- A winner that is put in front is an allowed strategy. -/
def LeaderDeclared (signals : List RoundSignal) (allowed : List Strategy) : Prop :=
  ∀ w ∈ leader signals, w ∈ allowed

section Plans

variable {D : Digests}
variable {signals : List RoundSignal}
variable {depth : Int}
variable {inputHead : Text}
variable {blackboard : Option ArtifactBlackboard}
variable {allowed : List Strategy}
variable {maxCandidates maxParallel : Int}

theorem parallelismOf_bounds (choice : Choice) (hparallel : 1 ≤ maxParallel) :
    1 ≤ parallelismOf maxParallel choice ∧ parallelismOf maxParallel choice ≤ maxParallel := by
  unfold parallelismOf
  split
  · exact ⟨le_min hparallel (le_max_of_le_left (by decide)), min_le_left _ _⟩
  · exact ⟨le_min hparallel (le_max_left _ _), min_le_left _ _⟩

/-- What a plan is validated for. -/
theorem validate_eq_ok {plan : RecursiveRoundPlan} :
    plan.validate = .ok () ↔
      0 ≤ plan.depth ∧ isBlank plan.inputHead = false ∧
        (plan.posture ≠ .stop → plan.strategies ≠ []) ∧ plan.strategies.Nodup ∧
        1 ≤ plan.maxParallel ∧ plan.authority = RECURSIVE_SEARCH_AUTHORITY := by
  unfold RecursiveRoundPlan.validate
  by_cases hdepth : plan.depth < 0
  · simp [hdepth]
  by_cases hhead : isBlank plan.inputHead = true
  · simp [hdepth, hhead]
  by_cases hlive : plan.posture ≠ .stop ∧ plan.strategies = []
  · simp [hdepth, hhead, hlive]
  by_cases hdistinct : plan.strategies.Nodup
  · by_cases hparallel : plan.maxParallel < 1
    · simp [hdepth, hhead, hlive, hdistinct, hparallel]
    · have hneeds : plan.posture ≠ .stop → plan.strategies ≠ [] :=
        fun hposture hnil => hlive ⟨hposture, hnil⟩
      rw [if_neg hdepth, if_neg hhead, if_neg hlive, if_neg (not_not.mpr hdistinct),
        if_neg hparallel]
      split
      · rename_i hauthority
        exact ⟨by rintro ⟨⟩, fun h => absurd h.2.2.2.2.2 hauthority⟩
      · rename_i hauthority
        exact ⟨fun _ => ⟨not_lt.mp hdepth, Bool.eq_false_iff.mpr hhead, hneeds, hdistinct,
          not_lt.mp hparallel, not_not.mp hauthority⟩, fun _ => rfl⟩
  · simp [hdepth, hhead, hlive, hdistinct]

/-- What a plan was made from. -/
theorem planNextRound_ok {plan : RecursiveRoundPlan}
    (h : planNextRound D signals depth inputHead blackboard allowed maxCandidates maxParallel =
      .ok plan) :
    Plannable depth inputHead blackboard ∧
      plan.strategies = (choose signals allowed maxCandidates).strategies ∧
      plan.maxParallel = parallelismOf maxParallel (choose signals allowed maxCandidates) := by
  obtain ⟨u, -, h⟩ := bind_eq_ok h
  obtain ⟨u, hboard, h⟩ := bind_eq_ok h
  obtain ⟨laws, -, h⟩ := bind_eq_ok h
  obtain ⟨artifactDigests, -, h⟩ := bind_eq_ok h
  obtain ⟨lawDigests, -, h⟩ := bind_eq_ok h
  obtain ⟨u, hvalid, h⟩ := bind_eq_ok h
  cases h
  obtain ⟨hdepth, hhead, -⟩ := validate_eq_ok.mp hvalid
  exact ⟨⟨hdepth, hhead, hboard⟩, rfl, rfl⟩

/-- From what a plan can be made, a plan is made. -/
theorem exists_plan (hplannable : Plannable depth inputHead blackboard) (hne : allowed ≠ [])
    (hnodup : allowed.Nodup) (hmax : 1 ≤ maxCandidates) (hparallel : 1 ≤ maxParallel) :
    ∃ plan, planNextRound D signals depth inputHead blackboard allowed maxCandidates maxParallel =
      .ok plan := by
  obtain ⟨hdepth, hhead, hboard⟩ := hplannable
  have hchecked : checkRequest depth allowed maxCandidates maxParallel = .ok () := by
    rw [checkRequest, if_neg (not_lt.mpr hdepth), if_neg (by omega), if_neg hne,
      if_neg (not_not.mpr hnodup)]
  have hfits := (choose_drawn signals hmax hne).fits hne hnodup
  obtain ⟨laws, hlaws, lawDigests, hlawDigests⟩ := extractSearchLaws_ok D signals
  obtain ⟨artifactDigests, hartifacts⟩ := select_digests D planTags
    (max 4 (2 * ((choose signals allowed maxCandidates).strategies.length : Int))) hboard
  have hbounds := parallelismOf_bounds (choose signals allowed maxCandidates) hparallel
  let choice := choose signals allowed maxCandidates
  refine ⟨⟨depth, inputHead, choice.posture, choice.strategies, parallelismOf maxParallel choice,
    artifactDigests, lawDigests, choice.reason, RECURSIVE_SEARCH_AUTHORITY⟩, ?_⟩
  rw [planNextRound, hchecked, ok_bind]
  dsimp only [choice]
  rw [hboard, ok_bind, hlaws, ok_bind, hartifacts, ok_bind, hlawDigests, ok_bind,
    validate_eq_ok.mpr ⟨hdepth, hhead, fun _ => hfits.live, hfits.distinct, hbounds.1, rfl⟩]
  rfl

/-- A plan is inside the space exactly if the winner it puts in front is declared. -/
theorem inSpace_iff {plan : RecursiveRoundPlan}
    (h : planNextRound D signals depth inputHead blackboard allowed maxCandidates maxParallel =
      .ok plan)
    (hne : allowed ≠ []) (hnodup : allowed.Nodup) (hmax : 1 ≤ maxCandidates)
    (hparallel : 1 ≤ maxParallel) :
    InSpace allowed maxCandidates maxParallel plan ↔ LeaderDeclared signals allowed := by
  obtain ⟨-, hstrategies, hplan⟩ := planNextRound_ok h
  have hdrawn := choose_drawn signals hmax hne
  have hfits := hdrawn.fits hne hnodup
  have hbounds := parallelismOf_bounds (choose signals allowed maxCandidates) hparallel
  constructor
  · intro hspace w hw
    refine hspace.declared w ?_
    rw [Option.mem_def.mp hw] at hdrawn
    rw [hstrategies]
    exact hdrawn.winner_mem
  · intro hleader
    refine ⟨?_, ?_, ?_, ?_, ?_, ?_⟩
    · rw [hstrategies]
      exact hfits.distinct
    · intro s hs
      rw [hstrategies] at hs
      exact (hdrawn.mem hs).elim (hleader s) id
    · rw [hstrategies]
      exact List.length_pos_iff.mpr hfits.live
    · rw [hstrategies]
      exact hfits.width
    · rw [hplan]
      exact hbounds.1
    · rw [hplan]
      exact hbounds.2

end Plans

/--
**Planned rounds stay inside the declared search space** exactly if there is
something to plan from and the latest round does not put a winner in front that
is no longer declared.
-/
theorem planned_inside_iff
    (D : Digests)
    (signals : List RoundSignal)
    (depth : Int)
    (inputHead : Text)
    (blackboard : Option ArtifactBlackboard)
    {allowed : List Strategy}
    {maxCandidates maxParallel : Int}
    (hne : allowed ≠ [])
    (hnodup : allowed.Nodup)
    (hmax : 1 ≤ maxCandidates)
    (hparallel : 1 ≤ maxParallel) :
    (∃ plan,
        planNextRound D signals depth inputHead blackboard allowed maxCandidates maxParallel =
            .ok plan ∧
          InSpace allowed maxCandidates maxParallel plan) ↔
      Plannable depth inputHead blackboard ∧ LeaderDeclared signals allowed := by
  constructor
  · rintro ⟨plan, hplan, hspace⟩
    exact ⟨(planNextRound_ok hplan).1,
      (inSpace_iff hplan hne hnodup hmax hparallel).mp hspace⟩
  · rintro ⟨hplannable, hleader⟩
    obtain ⟨plan, hplan⟩ : ∃ plan, planNextRound D signals depth inputHead blackboard allowed
        maxCandidates maxParallel = .ok plan :=
      exists_plan hplannable hne hnodup hmax hparallel
    exact ⟨plan, hplan, (inSpace_iff hplan hne hnodup hmax hparallel).mpr hleader⟩

/-! ## A winner that is no longer declared -/

/-- Four worlds, all evidence-complete and all passing, with one and the same output. -/
def settledRound : RoundSignal where
  campaignId := "campaign".toList
  depth := 0
  attempts := 4
  answered := 4
  evidenceComplete := 4
  requiredPasses := 4
  uniqueOutputs := 1
  disagreement := 0
  novelty := 25 / 100
  costUsd := 1
  winnerStrategy := some .rethink
  strategies := [⟨.rethink, 4, 4, 4, 4, 1, 1⟩]

theorem leader_settledRound : leader [settledRound] = some .rethink := by
  decide +kernel

theorem plannable_sample : Plannable 1 "head".toList none :=
  ⟨by decide, rfl, rfl⟩

/-- A round that was won by `rethink` is followed by a plan that runs it, whatever is allowed. -/
theorem planned_outside :
    ¬ ∃ D : Digests, ∀ (signals : List RoundSignal) (depth : Int) (inputHead : Text)
        (blackboard : Option ArtifactBlackboard) (allowed : List Strategy)
        (maxCandidates maxParallel : Int),
      Plannable depth inputHead blackboard → allowed ≠ [] → allowed.Nodup →
        1 ≤ maxCandidates → 1 ≤ maxParallel →
        ∃ plan,
          planNextRound D signals depth inputHead blackboard allowed maxCandidates maxParallel =
              .ok plan ∧
            InSpace allowed maxCandidates maxParallel plan := by
  rintro ⟨D, h⟩
  obtain ⟨plan, hplan, hspace⟩ := h [settledRound] 1 "head".toList none [.repair] 4 3
    plannable_sample (by decide) (by decide) (by decide) (by decide)
  have hleader := (inSpace_iff hplan (by decide) (by decide) (by decide) (by decide)).mp hspace
  exact absurd (hleader .rethink leader_settledRound) (by decide)

theorem planned_inside_default :
    (∃ plan,
        planNextRound ⟨fun _ => [], fun _ => [], fun _ _ _ _ => [], fun _ => []⟩ [settledRound] 1
              "head".toList none [.repair, .rethink, .scratch] 4 3 =
            .ok plan ∧
          InSpace [.repair, .rethink, .scratch] 4 3 plan) ↔
      Plannable 1 "head".toList none ∧
        LeaderDeclared [settledRound] [.repair, .rethink, .scratch] :=
  planned_inside_iff _ [settledRound] 1 "head".toList none (by decide) (by decide) (by decide)
    (by decide)

end Search
end SwFactory
