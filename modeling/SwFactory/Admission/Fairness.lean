import SwFactory.Admission.Conservation
import SwFactory.Machine.Credits

/-!
# Durable admission: fairness between the classes

The rows of `admission_fairness` are the credits of a weighted deficit
round-robin.  A turn of `drain` that admits an order is a round of service; no
other operation writes the credits, so the rounds of all drains of a run, with
everything that happens between them, are one sequence of rounds.
-/

namespace SwFactory
namespace Admission

open Text Machine

instance : Fintype Priority where
  elems := ⟨Priority.all, by decide⟩
  complete p := by cases p <;> decide

theorem sum_weight : ∑ p : Priority, p.weight = 15 := by
  decide

theorem others_weight (p : Priority) : Credits.others p Priority.weight = 15 - p.weight := by
  cases p <;> decide

theorem weight_pos (p : Priority) : 0 < p.weight := by
  cases p <;> decide

section Turns

variable {limits : Limits} {s : Store} {item : Order} {clock : Clock}

/-- The credits of the classes. -/
def Store.credits (s : Store) : Priority → Nat :=
  fun p => (s.fairness p).deficit

/-- The classes that have queued orders. -/
def Store.backlogged (s : Store) : Finset Priority :=
  s.available.toFinset

theorem mem_backlogged {p : Priority} : p ∈ s.backlogged ↔ p ∈ s.available :=
  List.mem_toFinset

theorem topUp_credits :
    s.topUp.credits = Credits.refilled Priority.weight s.backlogged s.credits := by
  have hsame : (∃ q ∈ s.backlogged, 0 < s.credits q) ↔ s.available.any s.credit = true := by
    simp [mem_backlogged, Store.credit, Store.credits]
  unfold Store.topUp Credits.refilled
  by_cases h : s.available.any s.credit = true
  · rw [if_pos h, if_pos (hsame.mpr h)]
  · rw [if_neg h, if_neg (fun hex => h (hsame.mp hex))]
    funext p
    by_cases hp : p ∈ s.available
    · simp [Store.credits, mem_backlogged, hp]
    · simp [Store.credits, mem_backlogged, hp]

theorem credit_eq (p : Priority) : s.credit p = decide (0 < s.credits p) :=
  rfl

/-- Behind the refill, some class with orders has credit. -/
theorem selectedClass_ne_none (h : s.available ≠ []) : s.selectedClass ≠ none := by
  intro hnone
  rw [Store.selectedClass, List.find?_eq_none] at hnone
  obtain ⟨q, hq⟩ := List.exists_mem_of_ne_nil _ h
  have hempty : ¬ ∃ r ∈ s.backlogged, 0 < s.credits r := by
    rintro ⟨r, hr, hpos⟩
    refine hnone r (mem_backlogged.mp hr) ?_
    rw [credit_eq, topUp_credits, Credits.refilled, if_pos ⟨r, hr, hpos⟩]
    exact decide_eq_true hpos
  refine hnone q hq ?_
  rw [credit_eq, topUp_credits, Credits.refilled, if_neg hempty,
    if_pos (mem_backlogged.mpr hq)]
  have hweight := weight_pos q
  exact decide_eq_true (by omega)

theorem candidate_ne_none (h : s.available ≠ []) : ∃ item, s.candidate = some item := by
  cases hselected : s.selectedClass with
  | none => exact absurd hselected (selectedClass_ne_none h)
  | some p =>
      obtain ⟨item, -, -, hcandidate⟩ := candidate_of_selectedClass hselected
      exact ⟨item, hcandidate⟩

/-- A turn that admits its candidate serves the class of it. -/
theorem served_serves (h : s.candidate = some item) :
    Credits.Serves Priority.weight s.backlogged s.credits item.priority
      (s.served item clock).credits := by
  obtain ⟨-, p, hselected, hhead⟩ := candidate_some h
  obtain rfl : item.priority = p := (mem_classRows.mp (List.mem_of_head? hhead)).2.2
  obtain ⟨havailable, hcredit⟩ := selectedClass_some hselected
  refine ⟨mem_backlogged.mpr havailable, ?_, ?_⟩
  · rw [← topUp_credits]
    exact of_decide_eq_true hcredit
  · rw [← topUp_credits]
    funext q
    by_cases hq : q = item.priority
    · subst hq
      rw [Function.update_self]
      simp [Store.credits, Store.served, recordService, Store.opened, Store.update]
    · rw [Function.update_of_ne hq]
      simp [Store.credits, Store.served, recordService, Store.opened, Store.update, hq]

/-- A turn keeps the credits within the weights, whatever it comes to. -/
theorem drainOnce_within (hs : s.Keyed) (h : Credits.Within Priority.weight s.credits) :
    Credits.Within Priority.weight (drainOnce limits clock s).2.credits := by
  have hrefilled : Credits.Within Priority.weight s.topUp.credits := by
    rw [topUp_credits]
    exact h.refilled _
  cases hcandidate : s.candidate with
  | none =>
      have hfair : nextFairCandidate s = (none, (nextFairCandidate s).2) :=
        Prod.ext hcandidate rfl
      have hstore : (drainOnce limits clock s).2 = (nextFairCandidate s).2 := by
        rw [drainOnce, hfair]
      rw [hstore, nextFairCandidate]
      split
      · exact h
      · exact hrefilled
  | some item =>
      cases hblock : s.blockFor limits (clock 0) item with
      | none =>
          rw [drainOnce_served hs hcandidate hblock]
          exact (served_serves hcandidate).within h
      | some block =>
          rw [drainOnce_blocked hcandidate hblock]
          split
          · exact hrefilled
          · exact hrefilled

end Turns

/-! ## The turns of a drain -/

section Loop

variable {limits : Limits} {s : Store}

/-- The readings of the clock and the store with which each turn of the loop begins. -/
def turnsOf (limits : Limits) : Clock → Nat → Store → List (Clock × Store)
  | _, 0, _ => []
  | clock, turns + 1, s =>
      (clock, s) ::
        match drainOnce limits clock s with
        | (.stopped, _) => []
        | (_, s') => turnsOf limits (fun n => clock (n + 3)) turns s'

/-- The order that the turn selects is not blocked, by capacity or by a throttle. -/
def Unblocked (limits : Limits) (turn : Clock × Store) : Prop :=
  ∀ item, turn.2.candidate = some item → turn.2.blockFor limits (turn.1 0) item = none

instance decidableUnblocked (turn : Clock × Store) : Decidable (Unblocked limits turn) :=
  decidable_of_iff
    (turn.2.candidate.all fun item => (turn.2.blockFor limits (turn.1 0) item).isNone)
    (by unfold Unblocked; cases turn.2.candidate <;> simp)

/-- The class of an order. -/
def Store.classOf (s : Store) (workId : String) : Option Priority :=
  (s.row workId).map Order.priority

theorem served_classOf {item : Order} {clock : Clock} (workId : String) :
    (s.served item clock).classOf workId = s.classOf workId := by
  have hrow : (s.served item clock).row workId =
      (s.update item.workId (Order.drain (clock 1))).row workId :=
    Store.row_congr served_orders workId
  rw [Store.classOf, hrow, Store.row_update (f := Order.drain (clock 1)) (fun _ => rfl)]
  unfold Store.classOf
  cases s.row workId with
  | none => rfl
  | some o =>
      rw [Option.map_some, Option.map_some, Option.map_some]
      split <;> rfl

theorem served_keyed {item : Order} {clock : Clock} (hs : s.Keyed) :
    (s.served item clock).Keyed := by
  rw [Store.Keyed, served_orders]
  exact Machine.Keyed.updateRows hs (fun _ => rfl)

theorem candidate_classOf {item : Order} (hs : s.Keyed) (h : s.candidate = some item) :
    s.classOf item.workId = some item.priority := by
  have hrow : s.row item.workId = some item := Machine.Keyed.lookup_eq hs (candidate_mem h).1
  rw [Store.classOf, hrow]
  rfl

/-- A loop in which some class always waits and nothing is blocked is a sequence of rounds. -/
theorem drainLoop_rounds (clock : Clock) (turns : Nat) (hs : s.Keyed)
    (h : ∀ turn ∈ turnsOf limits clock turns s, turn.2.available ≠ [] ∧ Unblocked limits turn) :
    ∃ rounds, Credits.Rounds Priority.weight s.credits rounds
        (drainLoop limits clock turns s).2.credits ∧
      rounds.map Prod.fst = (turnsOf limits clock turns s).map (fun turn => turn.2.backlogged) ∧
      rounds.map Prod.snd = (drainLoop limits clock turns s).1.filterMap s.classOf := by
  induction turns generalizing clock s with
  | zero => exact ⟨[], .nil _, rfl, rfl⟩
  | succ turns ih =>
      obtain ⟨havailable, hfits⟩ := h (clock, s) List.mem_cons_self
      obtain ⟨item, hcandidate⟩ := candidate_ne_none havailable
      have hturn := drainOnce_served hs hcandidate (hfits item hcandidate)
      have hturns : turnsOf limits clock (turns + 1) s =
          (clock, s) :: turnsOf limits (fun n => clock (n + 3)) turns (s.served item clock) := by
        rw [turnsOf, hturn]
      have hloop : drainLoop limits clock (turns + 1) s =
          (item.workId :: (drainLoop limits (fun n => clock (n + 3)) turns
              (s.served item clock)).1,
            (drainLoop limits (fun n => clock (n + 3)) turns (s.served item clock)).2) := by
        rw [drainLoop, hturn]
      rw [hturns] at h ⊢
      obtain ⟨rounds, hrounds, hbacklogged, hserved⟩ :=
        ih (fun n => clock (n + 3)) (served_keyed hs)
          (fun turn hturn => h turn (List.mem_cons_of_mem _ hturn))
      have hclass : (s.served item clock).classOf = s.classOf :=
        funext served_classOf
      refine ⟨(s.backlogged, item.priority) :: rounds, ?_, ?_, ?_⟩
      · rw [hloop]
        exact .cons (served_serves hcandidate) hrounds
      · rw [List.map_cons, List.map_cons, hbacklogged]
      · rw [hloop, List.map_cons, hserved, hclass, List.filterMap_cons,
          candidate_classOf hs hcandidate]

theorem drainLoop_within (clock : Clock) (turns : Nat) (hs : s.Keyed)
    (h : Credits.Within Priority.weight s.credits) :
    Credits.Within Priority.weight (drainLoop limits clock turns s).2.credits := by
  induction turns generalizing clock s with
  | zero => exact h
  | succ turns ih =>
      have hturn := @drainOnce_within limits s clock hs h
      have hkeyed := drainOnce_keyed limits clock hs
      rw [drainLoop]
      cases heq : drainOnce limits clock s with
      | mk pass s' =>
          rw [heq] at hturn hkeyed
          cases pass with
          | stopped => exact hturn
          | deferred => exact ih _ hkeyed hturn
          | admitted workId => exact ih _ hkeyed hturn

end Loop

/-! ## The other calls -/

section Calls

variable {hashes : Hashes} {limits : Limits}

theorem claim_fairness (hashes : Hashes) (inflight : Inflight) (workId : String)
    (lease : Option Int) (now : Time) (s : Store) :
    (claim hashes inflight workId lease now s).2.fairness = s.fairness := by
  unfold claim
  split
  · rfl
  · split <;> rfl

theorem enqueue_fairness {inflight : Inflight} {args : Submission} {clock : Clock}
    (block : Option CapacityBlock) (s : Store) :
    (enqueue hashes inflight args block clock s).2.fairness = s.fairness := by
  cases block with
  | none => exact claim_fairness _ _ _ _ _ (args.insert hashes none (clock 0) s)
  | some block => rfl

theorem submit_fairness {inflight : Inflight} {args : Submission} {clock : Clock} {s s' : Store}
    {decision : AdmissionDecision}
    (h : submit hashes limits inflight args clock s = .ok (decision, s')) :
    s'.fairness = s.fairness := by
  obtain ⟨-, -, h⟩ := bind_eq_ok h
  split at h
  · split at h
    · cases h
    · cases h
      rfl
  · split at h
    · cases h
      rfl
    · dsimp only at h
      split at h
      · cases h
        rfl
      · obtain rfl : _ = s' := congrArg Prod.snd (Except.ok.inj h)
        exact enqueue_fairness _ _

/-- Only a drain writes the credits. -/
theorem exec_credits {p : Nat} {clock : Clock} {c c' : Configuration} {op : Op} {out : Outcome}
    (hs : c.store.Keyed) (h : exec hashes limits p clock c op = .ok (out, c'))
    (hop : ∀ limit, op ≠ .drain limit) : c'.store.credits = c.store.credits := by
  have heffect := exec_effect hs h
  cases op with
  | submit args =>
      obtain ⟨⟨decision, s'⟩, hsubmit, hrest⟩ := bind_eq_ok h
      have hstore : c'.store = s' := by
        cases hrest
        unfold noteClaim
        split <;> rfl
      funext q
      rw [Store.credits, hstore, submit_fairness hsubmit]
      rfl
  | drain limit => exact absurd rfl (hop limit)
  | claimDispatch workId lease =>
      cases heffect with
      | claimed hclaims =>
          cases hclaims with
          | refused => rfl
          | granted o attempt leaseUntil hrow hclaimable => rfl
  | _ => cases heffect <;> rfl

end Calls

/-! ## Whole runs -/

section Runs

variable {hashes : Hashes} {limits : Limits}

/-- The turns of a drain, when the move is one. -/
def Move.turns (limits : Limits) (c : Configuration) : Move → List (Clock × Store)
  | .call _ (.drain limit) clock =>
      turnsOf limits clock (limit.getD limits.globalActive).toNat c.store
  | _ => []

/-- The classes of the orders that a drain admits, in order, when the move is one. -/
def Move.admissions (limits : Limits) (c : Configuration) : Move → List Priority
  | .call _ (.drain limit) clock =>
      (drain limits limit clock c.store).1.filterMap c.store.classOf
  | _ => []

/-- The turns of all drains of a run. -/
def runTurns (hashes : Hashes) (limits : Limits) :
    Configuration → List Move → List (Clock × Store)
  | _, [] => []
  | c, m :: moves => m.turns limits c ++ runTurns hashes limits (step hashes limits c m) moves

/-- The classes of the orders that all drains of a run admit, in order. -/
def runAdmissions (hashes : Hashes) (limits : Limits) :
    Configuration → List Move → List Priority
  | _, [] => []
  | c, m :: moves =>
      m.admissions limits c ++ runAdmissions hashes limits (step hashes limits c m) moves

theorem step_rounds {c : Configuration} (m : Move) (hs : c.store.Keyed)
    (h : ∀ turn ∈ m.turns limits c, turn.2.available ≠ [] ∧ Unblocked limits turn) :
    ∃ rounds, Credits.Rounds Priority.weight c.store.credits rounds
        (step hashes limits c m).store.credits ∧
      rounds.map Prod.fst = (m.turns limits c).map (fun turn => turn.2.backlogged) ∧
      rounds.map Prod.snd = m.admissions limits c := by
  have hidle : ∀ {c' : Configuration}, c'.store.credits = c.store.credits →
      ∃ rounds, Credits.Rounds Priority.weight c.store.credits rounds c'.store.credits ∧
        rounds.map Prod.fst = [] ∧ rounds.map Prod.snd = ([] : List Priority) :=
    fun heq => ⟨[], heq ▸ .nil _, rfl, rfl⟩
  cases m with
  | crash p => exact hidle rfl
  | call p op clock =>
      by_cases hop : ∃ limit, op = .drain limit
      · obtain ⟨limit, rfl⟩ := hop
        exact drainLoop_rounds clock _ hs h
      · have hother : ∀ limit, op ≠ .drain limit := fun limit heq => hop ⟨limit, heq⟩
        have hcredits : (step hashes limits c (.call p op clock)).store.credits =
            c.store.credits :=
          step_call (P := fun c' => c'.store.credits = c.store.credits) rfl
            (fun _ _ hexec => exec_credits hs hexec hother)
        cases op with
        | drain limit => exact absurd rfl (hother limit)
        | _ => exact hidle hcredits

/-- The drains of a run, with everything between them, are one sequence of rounds. -/
theorem run_rounds {c : Configuration} (moves : List Move) (hs : c.store.Keyed)
    (h : ∀ turn ∈ runTurns hashes limits c moves,
      turn.2.available ≠ [] ∧ Unblocked limits turn) :
    ∃ rounds, Credits.Rounds Priority.weight c.store.credits rounds
        (runFrom (step hashes limits) c moves).store.credits ∧
      rounds.map Prod.fst =
        (runTurns hashes limits c moves).map (fun turn => turn.2.backlogged) ∧
      rounds.map Prod.snd = runAdmissions hashes limits c moves := by
  induction moves generalizing c with
  | nil => exact ⟨[], .nil _, rfl, rfl⟩
  | cons m moves ih =>
      obtain ⟨first, hfirst, hfst, hsnd⟩ := @step_rounds hashes limits c m hs
        (fun turn hturn => h turn (List.mem_append_left _ hturn))
      obtain ⟨rest, hrest, hfst', hsnd'⟩ := ih (step_keyed hs)
        (fun turn hturn => h turn (List.mem_append_right _ hturn))
      refine ⟨first ++ rest, hfirst.append hrest, ?_, ?_⟩
      · rw [List.map_append, hfst, hfst', runTurns, List.map_append]
      · rw [List.map_append, hsnd, hsnd', runAdmissions]

theorem step_within {c : Configuration} (m : Move) (hs : c.store.Keyed)
    (h : Credits.Within Priority.weight c.store.credits) :
    Credits.Within Priority.weight (step hashes limits c m).store.credits := by
  cases m with
  | crash p => exact h
  | call p op clock =>
      by_cases hop : ∃ limit, op = .drain limit
      · obtain ⟨limit, rfl⟩ := hop
        exact drainLoop_within clock _ hs h
      · refine step_call (P := fun c' => Credits.Within Priority.weight c'.store.credits) h
          (fun _ _ hexec => ?_)
        rw [exec_credits hs hexec (fun limit heq => hop ⟨limit, heq⟩)]
        exact h

/-- In a reachable store no class has more credit than its weight. -/
theorem reachable_within {throttles : List Throttle} {c : Configuration}
    (hc : Reachable (step hashes limits) (start throttles) c) :
    c.store.Keyed ∧ Credits.Within Priority.weight c.store.credits := by
  refine Reachable.invariant
    (P := fun c => c.store.Keyed ∧ Credits.Within Priority.weight c.store.credits)
    ⟨List.nodup_nil, fun p => Nat.zero_le _⟩ (fun c m h => ?_) hc
  exact ⟨step_keyed h.1, step_within m h.1 h.2⟩

end Runs

/-- **Weighted fairness.**  No class has more credit than its weight; a class that always
has a queued order waits for twice the weights of the others at most; and with all classes
backlogged, each aligned block of 15 admissions serves the classes by their weights. -/
theorem weighted_fairness
    (hashes : Hashes)
    (limits : Limits)
    (throttles : List Throttle)
    (c : Configuration)
    (hc : Reachable (step hashes limits) (start throttles) c) :
    (∀ p, (c.store.fairness p).deficit ≤ p.weight) ∧
      (∀ p moves,
        (∀ turn ∈ runTurns hashes limits c moves,
          p ∈ turn.2.available ∧ Unblocked limits turn) →
        ∀ before window behind,
          runAdmissions hashes limits c moves = before ++ window ++ behind →
          2 * (15 - p.weight) + 1 ≤ window.length → p ∈ window) ∧
      (∀ moves,
        (∀ p, (c.store.fairness p).deficit = 0) →
        (∀ turn ∈ runTurns hashes limits c moves,
          (∀ p, p ∈ turn.2.available) ∧ Unblocked limits turn) →
        ∀ before block behind,
          runAdmissions hashes limits c moves = before ++ block ++ behind →
          15 ∣ before.length → block.length = 15 → ∀ p, block.count p = p.weight) := by
  obtain ⟨hkeyed, hwithin⟩ := reachable_within hc
  refine ⟨hwithin, fun p moves hturns before window behind hsplit hlong => ?_,
    fun moves hzero hturns before block behind hsplit haligned hblock => ?_⟩
  · obtain ⟨rounds, hrounds, hbacklogged, hserved⟩ := @run_rounds hashes limits c moves hkeyed
      (fun turn hturn => ⟨List.ne_nil_of_mem (hturns turn hturn).1, (hturns turn hturn).2⟩)
    have hp : ∀ r ∈ rounds, p ∈ r.1 := by
      intro r hr
      have hmem : r.1 ∈ rounds.map Prod.fst := List.mem_map_of_mem hr
      rw [hbacklogged] at hmem
      obtain ⟨turn, hturn, heq⟩ := List.mem_map.mp hmem
      rw [← heq, mem_backlogged]
      exact (hturns turn hturn).1
    rw [hsplit] at hserved
    obtain ⟨front, back, rfl, hfront, -⟩ := List.map_eq_append_iff.mp hserved
    obtain ⟨first, mid, rfl, -, rfl⟩ := List.map_eq_append_iff.mp hfront
    obtain ⟨d₂, h₂, -⟩ := hrounds.split
    obtain ⟨d₁, hfirst, hmid⟩ := h₂.split
    refine hmid.serves (hfirst.within hwithin) (weight_pos p)
      (fun r hr => hp r (by simp [hr])) ?_
    rw [others_weight]
    rw [List.length_map] at hlong
    omega
  · obtain ⟨rounds, hrounds, hbacklogged, hserved⟩ := @run_rounds hashes limits c moves hkeyed
      (fun turn hturn =>
        ⟨List.ne_nil_of_mem ((hturns turn hturn).1 .hotfix), (hturns turn hturn).2⟩)
    have hall : ∀ r ∈ rounds, r.1 = Finset.univ := by
      intro r hr
      have hmem : r.1 ∈ rounds.map Prod.fst := List.mem_map_of_mem hr
      rw [hbacklogged] at hmem
      obtain ⟨turn, hturn, heq⟩ := List.mem_map.mp hmem
      rw [← heq]
      exact Finset.eq_univ_of_forall fun p => mem_backlogged.mpr ((hturns turn hturn).1 p)
    rw [hsplit] at hserved
    obtain ⟨front, back, rfl, hfront, -⟩ := List.map_eq_append_iff.mp hserved
    obtain ⟨first, mid, rfl, rfl, rfl⟩ := List.map_eq_append_iff.mp hfront
    rw [List.length_map] at haligned hblock
    exact hrounds.aligned hzero hall (by rw [sum_weight]; exact haligned)
      (by rw [sum_weight]; exact hblock)

section Samples

/-- A throttle of the whole factory, over at clock reading `1`. -/
def quota : List Throttle :=
  [⟨.global, "", "quota", 1⟩]

/-- Orders of all classes, submitted while the throttle lasts. -/
def backlog : List Move :=
  [("a", Priority.hotfix), ("b", .hotfix), ("c", .hotfix), ("d", .hotfix), ("e", .hotfix),
    ("f", .hotfix), ("g", .hotfix), ("h", .hotfix), ("i", .hotfix), ("j", .manual),
    ("k", .manual), ("l", .manual), ("m", .manual), ("n", .manual), ("o", .normal),
    ("p", .normal), ("q", .normal), ("r", .background), ("s", .background)].map
    fun e => sampleCall (sampleSubmit e.1 e.1 e.2 [⟨0, e.1, e.1⟩])

/-- The drain behind the throttle serves the classes by their weights. -/
theorem backlog_served_by_weight :
    Priority.all.map (fun p => (runAdmissions sampleHashes {}
      (runFrom (step sampleHashes {}) (start quota) backlog)
      [.call 0 (.drain (some 15)) (fun _ => 1)]).count p) =
      Priority.all.map Priority.weight := by
  refine List.map_congr_left fun p _ => ?_
  refine (weighted_fairness sampleHashes {} quota _ (reachable_runFrom _ backlog)).2.2
    [.call 0 (.drain (some 15)) (fun _ => 1)] ?_ ?_ [] _ [] ?_ ⟨0, rfl⟩ ?_ p
  · decide +kernel
  · decide +kernel
  · rw [List.nil_append, List.append_nil]
  · decide +kernel

end Samples

end Admission
end SwFactory
