import SwFactory.Admission.Lifecycle

/-!
# Durable admission: the outcome of a closed order

Two operations close an order.  `complete` aggregates the states its members
ended in; `cancel` imposes one state on the order and on the members that are
still held, and does not look at the members that ended before.

`worst_outcome_iff` says when the two agree: in every state of a run each closed
order shows the worst of its members exactly if no cancellation imposes a
state on an order of which a member has already ended worse.
-/

namespace SwFactory
namespace Admission

open Text Machine

section Worst

/-- `_worst` looks only at which states occur. -/
theorem worst_congr {a b : List Terminal} (h : ∀ t, t ∈ a ↔ t ∈ b) :
    Terminal.worst a = Terminal.worst b := by
  have hcontains : (fun t => a.contains t) = fun t => b.contains t := by
    funext t
    rw [Bool.eq_iff_iff]
    simpa using h t
  simp only [Terminal.worst, hcontains]

theorem mem_outcomes {o : Order} {t : Terminal} :
    t ∈ o.outcomes ↔ ∃ m ∈ o.members, m.state = .ended t := by
  simp only [Order.outcomes, List.mem_filterMap]
  refine exists_congr fun m => and_congr_right fun _ => ?_
  cases m.state <;> simp

/-- Rewriting members under their states keeps the outcomes. -/
theorem outcomes_congr {o o' : Order} {f : Member → Member}
    (hmembers : o'.members = o.members.map f)
    (hf : ∀ m, (f m).state = m.state) :
    o'.outcomes = o.outcomes := by
  simp [Order.outcomes, hmembers, List.filterMap_map, hf]

end Worst

section Orders

variable {o o' : Order}

/-- A closed order shows the worst outcome of its members. -/
def Order.ShowsWorst (o : Order) : Prop :=
  ∀ t, o.state = .closed t → t = Terminal.worst o.outcomes

/-- The cancellation is no better than what a member has ended in. -/
def CancelIsWorst (o : Order) (outcome : Terminal) : Prop :=
  Terminal.worst (outcome :: o.outcomes) = outcome

/-- A cancelled order shows the worst of the new state and the old ones. -/
theorem worst_cancel {outcome : Terminal} {reason : String} {now : Time}
    (h : o.WellFormed) (hstate : o.state.cancellable) :
    Terminal.worst (o.cancel outcome reason now).outcomes =
      Terminal.worst (outcome :: o.outcomes) := by
  have hheld : ∃ m ∈ o.members, m.state = .held := by
    cases hs : o.state with
    | queued =>
        obtain ⟨m, hm⟩ := List.exists_mem_of_ne_nil _ h.roster.nonempty
        exact ⟨m, hm, ((h.queued hs).2 m hm).1⟩
    | admitted => exact h.holding (by rw [hs]; rfl)
    | dispatching => exact h.holding (by rw [hs]; rfl)
    | bound =>
        rw [hs] at hstate
        cases hstate
    | closed t =>
        rw [hs] at hstate
        cases hstate
  refine worst_congr fun t => ?_
  rw [mem_outcomes, List.mem_cons, mem_outcomes]
  constructor
  · rintro ⟨m, hm, ht⟩
    obtain ⟨m', hm', rfl⟩ := List.mem_map.mp hm
    split at ht
    · left
      simpa using ht.symm
    · exact Or.inr ⟨m', hm', ht⟩
  · rintro (rfl | ⟨m, hm, ht⟩)
    · obtain ⟨m, hm, hm'⟩ := hheld
      exact ⟨_, List.mem_map_of_mem hm, by simp [hm']⟩
    · exact ⟨_, List.mem_map_of_mem hm, by simp [ht]⟩

/-- Changes that leave the members' states alone and close nothing. -/
theorem Order.ShowsWorst.of_frame {f : Member → Member}
    (h : o.ShowsWorst)
    (hmembers : o'.members = o.members.map f)
    (hf : ∀ m, (f m).state = m.state)
    (hstate : ∀ t, o'.state = .closed t → o.state = .closed t) :
    o'.ShowsWorst := by
  intro t ht
  rw [outcomes_congr hmembers hf]
  exact h t (hstate t ht)

/-- Every change, with the cancellations restricted, shows the worst. -/
theorem Change.showsWorst (h : Change CancelIsWorst o o')
    (hwf : o.WellFormed) (ho : o.ShowsWorst) : o'.ShowsWorst := by
  have hid : o.members = o.members.map id := (List.map_id _).symm
  cases h with
  | limited block now => exact ho.of_frame hid (fun _ => rfl) (fun _ => id)
  | cancelled outcome reason now hstate hallowed =>
      rintro t ⟨⟩
      rw [worst_cancel hwf hstate]
      exact hallowed.symm
  | ended cellId epoch outcome now hhits =>
      have hholding := hwf.holding_of_matches hhits
      have hid' : (o.endMember cellId epoch outcome).members =
          (o.endMember cellId epoch outcome).members.map id :=
        (List.map_id _).symm
      intro t ht
      rw [settle_state] at ht
      rw [outcomes_congr (f := id) (settle_members.trans hid') (fun _ => rfl)]
      split at ht
      · cases ht
        rfl
      · rw [show o.state = .closed t from ht] at hholding
        cases hholding
  | unmatched cellId epoch outcome hhits =>
      have hle := countP_matches_le_one hwf.roster.cells cellId epoch
      rw [endMember_of_unmatched (by omega)]
      exact ho
  | claimed inflight attempt token leaseUntil now hclaimable =>
      rintro t ⟨⟩
  | epoch token jobIdx epoch hlease =>
      exact ho.of_frame rfl (by intro m; split <;> rfl) (fun _ => id)
  | recorded token dagRunId now hlease hepochs =>
      refine ho.of_frame (recordDispatch_members.trans hid) (fun _ => rfl) ?_
      rw [recordDispatch_state]
      split <;> simp
  | released token error observation now hlease =>
      refine ho.of_frame (releaseDispatch_members.trans hid) (fun _ => rfl) ?_
      rw [releaseDispatch_state]
      split <;> simp
  | retired error observation now =>
      refine ho.of_frame (markUndeliverable_members.trans hid)
        (fun _ => rfl) ?_
      rw [markUndeliverable_state]
      split <;> simp
  | noted error observation =>
      exact ho.of_frame hid (fun _ => rfl) (fun _ => id)

end Orders

section Runs

variable {hashes : Hashes} {limits : Limits} {s s' : Store}

/-- Transitions with restricted cancellations show the worst outcome. -/
theorem Transition.showsWorst
    (h : Transition CancelIsWorst hashes limits s s')
    (hwf : ∀ o ∈ s.orders, o.WellFormed)
    (hworst : ∀ o ∈ s.orders, o.ShowsWorst) :
    ∀ o ∈ s'.orders, o.ShowsWorst := by
  cases h with
  | books horders hsequence =>
      rw [horders]
      exact hworst
  | change workId f hf hkey =>
      exact forall_updateRows hworst
        (fun o ho hwork h => (hf o ho hwork).showsWorst (hwf o ho) h)
  | deferred workId now =>
      refine forall_updateRows hworst (fun o ho hwork h => ?_)
      split <;> exact h
  | admitted item now hitem hqueued hfits =>
      refine forall_updateRows hworst (fun o ho hwork h => ?_)
      rintro t ⟨⟩
  | submitted args block now hvalid hnew hfits horders hsequence =>
      rw [horders]
      intro o ho
      rcases List.mem_append.mp ho with ho | ho
      · exact hworst o ho
      · rw [List.mem_singleton.mp ho]
        intro t ht
        cases block <;> cases ht

/-- Every closed order of the store shows the worst of its members. -/
def WorstWins (c : Configuration) : Prop :=
  ∀ o ∈ c.store.orders, o.ShowsWorst

/-- The store behind a cancellation that has an effect. -/
theorem cancel_store {c : Configuration} {p : Nat} {clock : Clock}
    {workId reason state : String} {outcome : Terminal} {o : Order}
    (hs : c.store.Keyed) (hparse : Terminal.parse state = some outcome)
    (hrow : c.store.row workId = some o) (hstate : o.state.cancellable) :
    (step hashes limits c
        (.call p (.cancel workId reason state) clock)).store =
      c.store.update workId (Order.cancel outcome reason (clock 0)) := by
  simp only [step, exec, cancel_eq hs hparse hrow hstate]
  rfl

/--
**The worst member outcome.**  In every state of a run each closed order shows
the worst outcome of its members exactly if every cancellation that takes
effect imposes a state at least as bad as those its members have ended in.
-/
theorem worst_outcome_iff
    (hashes : Hashes) (limits : Limits) (throttles : List Throttle)
    (ms : List Move) :
    EveryState (step hashes limits) WorstWins (start throttles) ms ↔
      AlongRun (step hashes limits)
        (fun c m => m.Cancels CancelIsWorst c) (start throttles) ms := by
  constructor
  · intro h
    rw [everyState_iff] at h
    rw [alongRun_iff]
    rintro pre m post rfl
    cases m with
    | crash p => trivial
    | call p op clock =>
        rintro workId reason state outcome o rfl hparse hrow hstate
        -- the state right behind the cancellation shows what it imposed
        have hafter := h (pre ++ [.call p (.cancel workId reason state) clock])
          post (by simp)
        obtain ⟨hkeyed, hwf⟩ :=
          reachable_wellFormed (reachable_runFrom _ pre)
        obtain ⟨ho, -⟩ := Store.row_some hrow
        rw [runFrom_append, runFrom_cons, runFrom_nil] at hafter
        have hclosed := Store.row_update_self
          (f := Order.cancel outcome reason (clock 0)) (fun _ => rfl) hrow
        have hshows : (o.cancel outcome reason (clock 0)).ShowsWorst := by
          refine hafter _ ?_
          rw [cancel_store hkeyed hparse hrow hstate]
          exact (Store.row_some hclosed).1
        rw [CancelIsWorst, ← worst_cancel (hwf o ho) hstate]
        exact (hshows outcome rfl).symm
  · intro h
    refine EveryState.of_reachable_step (fun c m hc hworst hm => ?_)
      (by simp [WorstWins, start]) h
    obtain ⟨hkeyed, hwf⟩ := reachable_wellFormed hc
    refine (step_invariant (P := fun s =>
      (∀ o ∈ s.orders, o.WellFormed) ∧ ∀ o ∈ s.orders, o.ShowsWorst)
      ?_ ⟨hkeyed, hwf, hworst⟩ hm).2.2
    rintro s s' hs ⟨hwf, hworst⟩ htrans
    exact ⟨htrans.wellFormed hs hwf, htrans.showsWorst hwf hworst⟩

/-- A cell of the order is rejected, then the rest is cancelled. -/
def maskedRejection : List Move :=
  [sampleCall (sampleSubmit "w-1" "alice" .normal
      [⟨0, "org/app", "c-1"⟩, ⟨1, "org/app", "c-2"⟩]),
    sampleCall (.recordMemberEpoch "w-1" 0 1
      "94f6940c8644019dd3a2900a1dbc44d6"),
    sampleCall (.complete "w-1" "c-1" 1 "rejected"),
    sampleCall (.cancel "w-1" "operator" "cancelled")]

/-- The order is shown as cancelled although a member was rejected. -/
theorem rejection_masked_by_cancel :
    (runFrom (step sampleHashes {}) (start [])
        maskedRejection).store.orders.map
          (fun o => (o.state, Terminal.worst o.outcomes)) =
        [(.closed .cancelled, .rejected)] ∧
      ¬ EveryState (step sampleHashes {}) WorstWins (start [])
        maskedRejection := by
  have hshown : ∃ o ∈ (runFrom (step sampleHashes {}) (start [])
      maskedRejection).store.orders,
      o.state = .closed .cancelled ∧ Terminal.worst o.outcomes = .rejected := by
    decide
  refine ⟨by decide, fun h => ?_⟩
  obtain ⟨o, ho, hstate, hworst⟩ := hshown
  have hsame := h.last o ho .cancelled hstate
  rw [hworst] at hsame
  cases hsame

end Runs

end Admission
end SwFactory
