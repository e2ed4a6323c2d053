import Mathlib.Data.List.Dedup
import SwFactory.Admission.Calls

/-!
# Durable admission: the life of a reservation

Order, member and dispatch rows are written by different operations.
`Order.WellFormed` says how they fit together in every reachable store: what a
queued, a holding and a closed order looks like, and which dispatch row belongs
to which state.  `reservation_lifecycle` adds what a completion does: it ends
one member, and closes the order exactly when that was the last one.
-/

namespace SwFactory
namespace Admission

open Text Machine

/-- The members of an order: at least one, unique by job and by cell. -/
structure Roster (ms : List Member) : Prop where
  nonempty : ms ≠ []
  jobs : (ms.map Member.jobIdx).Nodup
  cells : (ms.map Member.cellId).Nodup

/-- The rows of one order fit together. -/
structure Order.WellFormed (o : Order) : Prop where
  roster : Roster o.members
  queued : o.state = .queued →
    o.dispatch = none ∧
      ∀ m ∈ o.members, m.state = .held ∧ m.cellEpoch = none
  holding : o.state.holding = true → ∃ m ∈ o.members, m.state = .held
  closed : ∀ t, o.state = .closed t → ∀ m ∈ o.members, m.state ≠ .held
  admitted : o.state = .admitted →
    ∃ d, o.dispatch = some d ∧
      (d.state = .pending ∨ d.state = .undeliverable)
  dispatching : o.state = .dispatching →
    ∃ d, o.dispatch = some d ∧ d.state = .inflight
  bound : o.state = .bound →
    ∃ d, o.dispatch = some d ∧ d.state = .delivered

section Members

variable {o : Order} {f : Member → Member}

/-- Rewriting members under their keys keeps the roster. -/
theorem Roster.map {ms : List Member} (h : Roster ms)
    (hf : ∀ m, (f m).jobIdx = m.jobIdx ∧ (f m).cellId = m.cellId) :
    Roster (ms.map f) where
  nonempty := by simpa using h.nonempty
  jobs := by simpa [Function.comp_def, hf] using h.jobs
  cells := by simpa [Function.comp_def, hf] using h.cells

/-- No member is named by two cells, so a completion names one at most. -/
theorem countP_matches_le_one {ms : List Member}
    (hcells : (ms.map Member.cellId).Nodup) (cellId : String) (epoch : Int) :
    ms.countP (Member.matches_ cellId epoch) ≤ 1 := by
  by_contra h
  have hpos : 0 < ms.countP (Member.matches_ cellId epoch) := by omega
  obtain ⟨m, hm, hmatch⟩ := List.countP_pos_iff.mp hpos
  have hkeyed : Machine.Keyed Member.cellId ms := hcells
  have hone := hkeyed.countP_eq_one hm hmatch (by simp_all [Member.matches_])
  omega

/-- A completion that names no member changes nothing. -/
theorem endMember_of_unmatched {cellId : String} {epoch : Int}
    {outcome : Terminal}
    (h : o.members.countP (Member.matches_ cellId epoch) = 0) :
    o.endMember cellId epoch outcome = o := by
  have hnone : ∀ m ∈ o.members, m.matches_ cellId epoch = false := by
    simpa using List.countP_eq_zero.mp h
  have hmembers : o.members.map (fun m =>
      if m.matches_ cellId epoch then { m with state := .ended outcome }
      else m) = o.members := by
    refine (List.map_congr_left fun m hm => ?_).trans (List.map_id' _)
    simp [hnone m hm]
  rw [Order.endMember, hmembers]

theorem remaining_eq_zero :
    o.remaining = 0 ↔ ∀ m ∈ o.members, m.state ≠ .held := by
  simp [Order.remaining, Member.isHeld]

theorem remaining_ne_zero :
    o.remaining ≠ 0 ↔ ∃ m ∈ o.members, m.state = .held := by
  rw [ne_eq, remaining_eq_zero]
  simp

end Members

section Changes

variable {Q : Order → Terminal → Prop}
variable {o : Order}

/-- A lease is held in the state `dispatching`, or after the order closed. -/
theorem Order.WellFormed.leased {token : String}
    (h : o.WellFormed) (hlease : o.leasedTo token) :
    (∃ d, o.dispatch = some d ∧ d.state = .inflight ∧
        d.leaseToken = some token) ∧
      (o.state = .dispatching ∨ ∃ t, o.state = .closed t) := by
  obtain ⟨d, hd, hguard⟩ := (Option.any_eq_true _ _).mp hlease
  obtain ⟨htoken, hinflight⟩ := by simpa using hguard
  refine ⟨⟨d, hd, hinflight, htoken⟩, ?_⟩
  cases hstate : o.state with
  | queued =>
      rw [(h.queued hstate).1] at hd
      cases hd
  | admitted =>
      obtain ⟨d', hd', hstate'⟩ := h.admitted hstate
      rw [hd] at hd'
      cases hd'
      simp [hinflight] at hstate'
  | dispatching => exact Or.inl rfl
  | bound =>
      obtain ⟨d', hd', hstate'⟩ := h.bound hstate
      rw [hd] at hd'
      cases hd'
      simp [hinflight] at hstate'
  | closed t => exact Or.inr ⟨t, rfl⟩

/-- Only an admitted or dispatching order can be claimed. -/
theorem claimable_some {inflight : Inflight} {now : Time} {attempt : Nat}
    (h : claimable inflight now o = some attempt) :
    (o.state = .admitted ∨ o.state = .dispatching) ∧
      ∃ d, o.dispatch = some d ∧
        (d.state = .pending ∨ d.state = .inflight) ∧
        attempt = d.attempt + 1 ∧ attempt ≤ maxDispatchAttempts ∧
        inflight o.workId = none := by
  unfold claimable at h
  split at h
  · cases h
  · rename_i d hd
    split at h
    · cases h
    · rename_i hlive
      split at h
      · cases h
      · rename_i hstate
        split at h
        · cases h
        · rename_i hinflight
          split at h
          · cases h
          · split at h
            · cases h
            · rename_i hbudget
              cases h
              refine ⟨by tauto, d, hd, ?_, rfl, by omega, by simpa using hinflight⟩
              cases hds : d.state <;> simp_all

theorem Order.WellFormed.cancel
    {outcome : Terminal} {reason : String} {now : Time}
    (h : o.WellFormed) : (o.cancel outcome reason now).WellFormed where
  roster := h.roster.map (by intro m; split <;> exact ⟨rfl, rfl⟩)
  queued hstate := by cases hstate
  holding hstate := by cases hstate
  closed t _ m hm := by
    obtain ⟨m', -, rfl⟩ := List.mem_map.mp hm
    split
    · simp
    · assumption
  admitted hstate := by cases hstate
  dispatching hstate := by cases hstate
  bound hstate := by cases hstate

/-- A completion that names a member finds the order holding. -/
theorem Order.WellFormed.holding_of_matches
    {cellId : String} {epoch : Int} (h : o.WellFormed)
    (hhits : o.members.countP (Member.matches_ cellId epoch) = 1) :
    o.state.holding = true := by
  have hpos : 0 < o.members.countP (Member.matches_ cellId epoch) := by omega
  obtain ⟨m, hm, hmatch⟩ := List.countP_pos_iff.mp hpos
  obtain ⟨-, hepoch, hheld⟩ : m.cellId = cellId ∧
      m.cellEpoch = some epoch ∧ m.state = .held := by
    simpa [Member.matches_] using hmatch
  cases hstate : o.state with
  | queued =>
      rw [((h.queued hstate).2 m hm).2] at hepoch
      cases hepoch
  | closed t => exact absurd hheld (h.closed t hstate m hm)
  | _ => rfl

theorem Order.WellFormed.ended
    {cellId : String} {epoch : Int} {outcome : Terminal} {now : Time}
    (h : o.WellFormed)
    (hhits : o.members.countP (Member.matches_ cellId epoch) = 1) :
    ((o.endMember cellId epoch outcome).settle now).WellFormed := by
  have hholding := h.holding_of_matches hhits
  have hroster : Roster (o.endMember cellId epoch outcome).members :=
    h.roster.map (by intro m; split <;> exact ⟨rfl, rfl⟩)
  unfold Order.settle
  split
  · rename_i hleft
    refine ⟨hroster, fun hstate => ?_, fun _ => remaining_ne_zero.mp hleft,
      fun t hstate => ?_, h.admitted, h.dispatching, h.bound⟩
    · rw [show o.state = .queued from hstate] at hholding
      cases hholding
    · rw [show o.state = .closed t from hstate] at hholding
      cases hholding
  · rename_i hlast
    have hholding' : (o.endMember cellId epoch outcome).state.holding = true :=
      hholding
    rw [if_pos hholding']
    refine ⟨hroster, by simp, by simp [OrderState.holding],
      fun t _ => ?_, by simp, by simp, by simp⟩
    exact remaining_eq_zero.mp (not_not.mp hlast)

theorem Order.WellFormed.claim
    {inflight : Inflight} {attempt : Nat} {token : String}
    {leaseUntil now : Time}
    (h : o.WellFormed) (hclaim : claimable inflight now o = some attempt) :
    (o.claim attempt token leaseUntil now).WellFormed := by
  obtain ⟨hstate, d, hd, -⟩ := claimable_some hclaim
  have hholding : o.state.holding = true := by
    rcases hstate with hstate | hstate <;> simp [hstate, OrderState.holding]
  refine ⟨h.roster, by simp [Order.claim], fun _ => h.holding hholding,
    by simp [Order.claim], by simp [Order.claim], fun _ => ?_,
    by simp [Order.claim]⟩
  simp [Order.claim, hd]

theorem Order.WellFormed.recordMemberEpoch
    {token : String} {jobIdx epoch : Int}
    (h : o.WellFormed) (hlease : o.leasedTo token) :
    (o.recordMemberEpoch jobIdx epoch).WellFormed := by
  obtain ⟨-, hstate⟩ := h.leased hlease
  have hmember : ∀ m ∈ (o.recordMemberEpoch jobIdx epoch).members,
      ∃ m' ∈ o.members, m.state = m'.state := by
    intro m hm
    obtain ⟨m', hm', rfl⟩ := List.mem_map.mp hm
    exact ⟨m', hm', by split <;> rfl⟩
  refine ⟨h.roster.map (by intro m; split <;> exact ⟨rfl, rfl⟩),
    fun hqueued => ?_, fun hholding => ?_, fun t hclosed m hm => ?_,
    h.admitted, h.dispatching, h.bound⟩
  · have hqueued' : o.state = .queued := hqueued
    rcases hstate with hstate | ⟨t, hstate⟩ <;> simp [hstate] at hqueued'
  · obtain ⟨m, hm, hheld⟩ := h.holding hholding
    exact ⟨_, List.mem_map_of_mem hm, by split <;> exact hheld⟩
  · obtain ⟨m', hm', heq⟩ := hmember m hm
    rw [heq]
    exact h.closed t hclosed m' hm'

theorem Order.WellFormed.recordDispatch
    {token dagRunId : String} {now : Time}
    (h : o.WellFormed) (hlease : o.leasedTo token) :
    (o.recordDispatch dagRunId now).WellFormed := by
  obtain ⟨⟨d, hd, -⟩, hstate⟩ := h.leased hlease
  unfold Order.recordDispatch
  rcases hstate with hstate | ⟨t, hstate⟩
  · rw [if_pos hstate]
    refine ⟨h.roster, by simp,
      fun _ => h.holding (by simp [hstate, OrderState.holding]), by simp,
      by simp, by simp, fun _ => ?_⟩
    simp [hd]
  · rw [if_neg (by simp [hstate])]
    exact ⟨h.roster, by simp [hstate], by simp [hstate, OrderState.holding],
      h.closed, by simp [hstate], by simp [hstate], by simp [hstate]⟩

theorem Order.WellFormed.releaseDispatch
    {token error : String} {observation : Option String} {now : Time}
    (h : o.WellFormed) (hlease : o.leasedTo token) :
    (o.releaseDispatch error observation now).WellFormed := by
  obtain ⟨⟨d, hd, -⟩, hstate⟩ := h.leased hlease
  unfold Order.releaseDispatch
  rcases hstate with hstate | ⟨t, hstate⟩
  · rw [if_pos hstate]
    refine ⟨h.roster, by simp,
      fun _ => h.holding (by simp [hstate, OrderState.holding]), by simp,
      fun _ => ?_, by simp, by simp⟩
    simp [hd]
  · rw [if_neg (by simp [hstate])]
    exact ⟨h.roster, by simp [hstate], by simp [hstate, OrderState.holding],
      h.closed, by simp [hstate], by simp [hstate], by simp [hstate]⟩

theorem Order.WellFormed.markUndeliverable
    {error : String} {observation : Option String} {now : Time}
    (h : o.WellFormed) :
    (o.markUndeliverable error observation now).WellFormed := by
  unfold Order.markUndeliverable
  by_cases hstate : o.state = .dispatching
  · obtain ⟨d, hd, hinflight⟩ := h.dispatching hstate
    rw [if_pos hstate]
    refine ⟨h.roster, by simp,
      fun _ => h.holding (by simp [hstate, OrderState.holding]), by simp,
      fun _ => ?_, by simp, by simp⟩
    simp [hd, hinflight]
  · rw [if_neg hstate]
    refine ⟨h.roster, fun hqueued => ⟨?_, (h.queued hqueued).2⟩, h.holding,
      h.closed, fun hadmitted => ?_, fun hdispatching => absurd hdispatching hstate,
      fun hbound => ?_⟩
    · simp [(h.queued hqueued).1]
    · obtain ⟨d, hd, hlive⟩ := h.admitted hadmitted
      rcases hlive with hlive | hlive <;> simp [hd, hlive]
    · obtain ⟨d, hd, hdelivered⟩ := h.bound hbound
      simp [hd, hdelivered]

theorem Order.WellFormed.noteOutcome
    {error : String} {observation : Option String}
    (h : o.WellFormed) : (o.noteOutcome error observation).WellFormed := by
  refine ⟨h.roster, fun hqueued => ⟨?_, (h.queued hqueued).2⟩, h.holding,
    h.closed, fun hadmitted => ?_, fun hdispatching => ?_, fun hbound => ?_⟩
  · simp [Order.noteOutcome, (h.queued hqueued).1]
  · obtain ⟨d, hd, hlive⟩ := h.admitted hadmitted
    simpa [Order.noteOutcome, hd] using hlive
  · obtain ⟨d, hd, hlive⟩ := h.dispatching hdispatching
    simpa [Order.noteOutcome, hd] using hlive
  · obtain ⟨d, hd, hlive⟩ := h.bound hbound
    simpa [Order.noteOutcome, hd] using hlive

/-- Every change keeps an order well formed. -/
theorem Change.wellFormed {o' : Order} (h : Change Q o o')
    (ho : o.WellFormed) : o'.WellFormed := by
  cases h with
  | limited block now =>
      exact ⟨ho.roster, ho.queued, ho.holding, ho.closed, ho.admitted,
        ho.dispatching, ho.bound⟩
  | cancelled outcome reason now hstate hallowed => exact ho.cancel
  | ended cellId epoch outcome now hhits => exact ho.ended hhits
  | unmatched cellId epoch outcome hhits =>
      have hle := countP_matches_le_one ho.roster.cells cellId epoch
      rw [endMember_of_unmatched (by omega)]
      exact ho
  | claimed inflight attempt token leaseUntil now hclaimable =>
      exact ho.claim hclaimable
  | epoch token jobIdx epoch hlease => exact ho.recordMemberEpoch hlease
  | recorded token dagRunId now hlease hepochs =>
      exact ho.recordDispatch hlease
  | released token error observation now hlease =>
      exact ho.releaseDispatch hlease
  | retired error observation now => exact ho.markUndeliverable
  | noted error observation => exact ho.noteOutcome

end Changes

section Reachable

variable {Q : Order → Terminal → Prop}
variable {hashes : Hashes} {limits : Limits}

theorem nodup_of_not_repeats {α : Type} [DecidableEq α] {values : List α}
    (h : repeats values = false) : values.Nodup := by
  have hlength : values.dedup.length = values.length := by
    simpa [repeats] using h
  exact List.dedup_eq_self.mp
    ((List.dedup_sublist values).eq_of_length hlength)

/-- What the checks in front of `submit` give. -/
theorem validateSubmission_ok {args : Submission}
    (h : validateSubmission args = .ok ()) :
    args.members ≠ [] ∧ (args.members.map MemberSpec.jobIdx).Nodup ∧
      (args.members.map MemberSpec.cellId).Nodup := by
  unfold validateSubmission at h
  split at h
  · cases h
  · rename_i hne
    split at h
    · cases h
    · rename_i hunique
      simp only [Bool.or_eq_true, not_or, Bool.not_eq_true] at hunique
      exact ⟨hne, nodup_of_not_repeats hunique.1,
        nodup_of_not_repeats hunique.2⟩

theorem Roster.of_submission {args : Submission}
    (h : validateSubmission args = .ok ()) : Roster args.memberRows := by
  obtain ⟨hne, hjobs, hcells⟩ := validateSubmission_ok h
  have hperm := List.perm_insertionSort
    (fun a b : MemberSpec => a.jobIdx ≤ b.jobIdx) args.members
  constructor
  · intro hnil
    have hsorted := List.map_eq_nil_iff.mp hnil
    rw [hsorted] at hperm
    exact hne hperm.symm.eq_nil
  · simpa [Submission.memberRows, Function.comp_def] using
      (hperm.map MemberSpec.jobIdx).nodup_iff.mpr hjobs
  · simpa [Submission.memberRows, Function.comp_def] using
      (hperm.map MemberSpec.cellId).nodup_iff.mpr hcells

/-- The rows that `submit` inserts are well formed. -/
theorem wellFormed_rows {args : Submission} {block : Option CapacityBlock}
    {sequence : Nat} {now : Time}
    (h : validateSubmission args = .ok ()) :
    (args.rows hashes block sequence now).WellFormed := by
  have hroster := Roster.of_submission h
  have hheld : ∀ m ∈ args.memberRows, m.state = .held ∧ m.cellEpoch = none := by
    intro m hm
    obtain ⟨spec, -, rfl⟩ := List.mem_map.mp hm
    exact ⟨rfl, rfl⟩
  obtain ⟨m, hm⟩ := List.exists_mem_of_ne_nil _ hroster.nonempty
  cases block with
  | some block =>
      refine ⟨hroster, fun _ => ⟨rfl, hheld⟩, ?_, ?_, ?_, ?_, ?_⟩ <;>
        simp [Submission.rows, OrderState.holding]
  | none =>
      refine ⟨hroster, ?_, fun _ => ⟨m, hm, (hheld m hm).1⟩, ?_,
        fun _ => ⟨_, rfl, Or.inl rfl⟩, ?_, ?_⟩ <;>
        simp [Submission.rows]

theorem Order.WellFormed.drain {o : Order} {now : Time}
    (h : o.WellFormed) (hqueued : o.state = .queued) :
    (o.drain now).WellFormed := by
  obtain ⟨hdispatch, hheld⟩ := h.queued hqueued
  obtain ⟨m, hm⟩ := List.exists_mem_of_ne_nil _ h.roster.nonempty
  refine ⟨h.roster, ?_, fun _ => ⟨m, hm, (hheld m hm).1⟩, ?_, fun _ => ?_,
    ?_, ?_⟩
  · simp [Order.drain]
  · simp [Order.drain]
  · simp [Order.drain, hdispatch, openDispatch]
  · simp [Order.drain]
  · simp [Order.drain]

/-- Transitions keep all orders well formed. -/
theorem Transition.wellFormed {s s' : Store}
    (h : Transition Q hashes limits s s') (hs : s.Keyed)
    (hwf : ∀ o ∈ s.orders, o.WellFormed) :
    ∀ o ∈ s'.orders, o.WellFormed := by
  cases h with
  | books horders hsequence =>
      rw [horders]
      exact hwf
  | change workId f hf hkey =>
      exact forall_updateRows hwf
        (fun o ho hwork h => (hf o ho hwork).wellFormed h)
  | deferred workId now =>
      refine forall_updateRows hwf (fun o ho hwork h => ?_)
      split
      · exact ⟨h.roster, h.queued, h.holding, h.closed, h.admitted,
          h.dispatching, h.bound⟩
      · exact h
  | admitted item now hitem hqueued hfits =>
      refine forall_updateRows hwf (fun o ho hwork h => ?_)
      obtain rfl := Machine.Keyed.eq hs ho hitem hwork
      exact h.drain hqueued
  | submitted args block now hvalid hnew hfits horders hsequence =>
      rw [horders]
      intro o ho
      rcases List.mem_append.mp ho with ho | ho
      · exact hwf o ho
      · rw [List.mem_singleton.mp ho]
        exact wellFormed_rows hvalid

theorem Transitions.wellFormed {s s' : Store}
    (h : Transitions Q hashes limits s s') (hs : s.Keyed)
    (hwf : ∀ o ∈ s.orders, o.WellFormed) :
    ∀ o ∈ s'.orders, o.WellFormed := by
  induction h with
  | refl => exact hwf
  | tail hpre hlast ih => exact hlast.wellFormed (Transitions.keyed hpre hs) ih

variable {throttles : List Throttle} {c : Configuration}

/-- In every reachable store the orders are keyed and well formed. -/
theorem reachable_wellFormed
    (hc : Reachable (step hashes limits) (start throttles) c) :
    c.store.Keyed ∧ ∀ o ∈ c.store.orders, o.WellFormed :=
  reachable_store (by simp [start])
    (fun _ _ hs hwf h => h.wellFormed hs hwf) hc

/-- What the rows of an order promise about its units. -/
structure Order.Reserves (o : Order) : Prop where
  queued : o.state = .queued →
    o.dispatch = none ∧
      ∀ m ∈ o.members, m.state = .held ∧ m.cellEpoch = none
  holding : o.state.holding = true → ∃ m ∈ o.members, m.state = .held
  closed : ∀ t, o.state = .closed t → ∀ m ∈ o.members, m.state ≠ .held

/-- One member goes from held to ended, and no other member changes. -/
structure ReleasesOne
    (cellId : String) (epoch : Int) (outcome : Terminal) (o o' : Order) :
    Prop where
  member : ∃ pre m post, o.members = pre ++ m :: post ∧
    m.cellId = cellId ∧ m.cellEpoch = some epoch ∧ m.state = .held ∧
    o'.members = pre ++ { m with state := .ended outcome } :: post
  /-- The order closes exactly when that was its last held member. -/
  closes : (∃ t, o'.state = .closed t) ↔ ∀ m ∈ o'.members, m.state ≠ .held
  stays : (∃ m ∈ o'.members, m.state = .held) → o'.state = o.state

/-- A test passed once splits the list at the element that passes it. -/
theorem split_of_countP_eq_one {α : Type} {p : α → Bool} {l : List α}
    (h : l.countP p = 1) :
    ∃ pre a post, l = pre ++ a :: post ∧ p a = true ∧
      (∀ x ∈ pre, p x = false) ∧ ∀ x ∈ post, p x = false := by
  induction l with
  | nil =>
      cases h
  | cons x l ih =>
      by_cases hx : p x = true
      · have hrest : l.countP p = 0 := by simpa [hx] using h
        exact ⟨[], x, l, rfl, hx, by simp,
          by simpa using List.countP_eq_zero.mp hrest⟩
      · have hrest : l.countP p = 1 := by simpa [hx] using h
        obtain ⟨pre, a, post, rfl, ha, hpre, hpost⟩ := ih hrest
        refine ⟨x :: pre, a, post, rfl, ha, ?_, hpost⟩
        simpa [hx] using hpre

theorem settle_ne_queued {o : Order} {now : Time}
    (h : o.state.holding = true) : (o.settle now).state ≠ .queued := by
  intro hqueued
  rw [settle_state] at hqueued
  split at hqueued
  · cases hqueued
  · rw [hqueued] at h
    cases h

/-- A completion that names a member releases that one unit. -/
theorem releasesOne_ended {o : Order} {cellId : String} {epoch : Int}
    {outcome : Terminal} {now : Time} (h : o.WellFormed)
    (hhits : o.members.countP (Member.matches_ cellId epoch) = 1) :
    ReleasesOne cellId epoch outcome o
      ((o.endMember cellId epoch outcome).settle now) := by
  have hwf : ((o.endMember cellId epoch outcome).settle now).WellFormed :=
    h.ended hhits
  have hholding := h.holding_of_matches hhits
  have hmembers : ((o.endMember cellId epoch outcome).settle now).members =
      (o.endMember cellId epoch outcome).members :=
    settle_members
  refine ⟨?_, ⟨?_, fun hnone => ?_⟩, fun hsome => ?_⟩
  · obtain ⟨pre, m, post, hsplit, hm, hpre, hpost⟩ :=
      split_of_countP_eq_one hhits
    obtain ⟨hcell, hepoch, hheld⟩ : m.cellId = cellId ∧
        m.cellEpoch = some epoch ∧ m.state = .held := by
      simpa [Member.matches_] using hm
    refine ⟨pre, m, post, hsplit, hcell, hepoch, hheld, ?_⟩
    have hsame : ∀ l : List Member,
        (∀ x ∈ l, x.matches_ cellId epoch = false) →
          l.map (fun m => if m.matches_ cellId epoch then
            { m with state := .ended outcome } else m) = l := by
      intro l hl
      refine (List.map_congr_left fun x hx => ?_).trans (List.map_id' l)
      simp [hl x hx]
    rw [hmembers, Order.endMember, hsplit, List.map_append, List.map_cons,
      hsame pre hpre, hsame post hpost, if_pos hm]
  · rintro ⟨t, ht⟩
    exact hwf.closed t ht
  · rw [hmembers] at hnone
    have hlast : (o.endMember cellId epoch outcome).remaining = 0 :=
      remaining_eq_zero.mpr hnone
    have hholding' : (o.endMember cellId epoch outcome).state.holding = true :=
      hholding
    exact ⟨_, by rw [Order.settle, if_neg (by simp [hlast]), if_pos hholding']⟩
  · rw [hmembers] at hsome
    rw [Order.settle, if_pos (remaining_ne_zero.mpr hsome)]
    rfl

/--
**Reservation lifecycle.**  In every reachable store each order reserves what
its state says, and a `complete` call either changes no order at all or
releases exactly one unit of the order it names.
-/
theorem reservation_lifecycle
    (hc : Reachable (step hashes limits) (start throttles) c) :
    (∀ o ∈ c.store.orders, o.Reserves) ∧
      ∀ workId cellId epoch state clock admitted s',
        completeAndDrain limits workId cellId epoch state clock c.store =
          .ok (admitted, s') →
        (admitted = [] ∧ s'.orders = c.store.orders) ∨
          ∃ outcome o o', Terminal.parse state = some outcome ∧
            c.store.row workId = some o ∧ s'.row workId = some o' ∧
            ReleasesOne cellId epoch outcome o o' := by
  obtain ⟨hkeyed, hwf⟩ := reachable_wellFormed hc
  refine ⟨fun o ho => ⟨(hwf o ho).queued, (hwf o ho).holding,
    (hwf o ho).closed⟩, ?_⟩
  intro workId cellId epoch state clock admitted s' hcall
  obtain ⟨⟨last, s₁⟩, hcomplete, hrest⟩ := bind_eq_ok hcall
  obtain ⟨outcome, hparse, ⟨rfl, rfl, hhits⟩ | ⟨o, hrow, hhits, hlast, rfl⟩⟩ :=
    complete_ok hcomplete
  · left
    cases hrest
    refine ⟨rfl, ?_⟩
    refine (List.map_congr_left fun o ho => ?_).trans (List.map_id' _)
    split
    · rename_i hkey
      have hle := countP_matches_le_one (hwf o ho).roster.cells cellId epoch
      have hne := hhits o (hkey ▸ Machine.Keyed.lookup_eq hkeyed ho)
      exact endMember_of_unmatched (by omega)
    · rfl
  · right
    have ho := hwf o (Store.row_some hrow).1
    have hreleases : ReleasesOne cellId epoch outcome o
        ((o.endMember cellId epoch outcome).settle (clock 0)) :=
      releasesOne_ended ho hhits
    have hrow' : (c.store.update workId fun o =>
        (o.endMember cellId epoch outcome).settle (clock 0)).row workId =
          some ((o.endMember cellId epoch outcome).settle (clock 0)) :=
      Store.row_update_self (fun o => (Order.settle_sameWork _ _).workId) hrow
    refine ⟨outcome, o, _, hparse, hrow, ?_, hreleases⟩
    cases last with
    | false =>
        cases hrest
        exact hrow'
    | true =>
        -- the drain that follows the last completion leaves the order alone
        have hs' : (drain limits none (fun n => clock (n + 1)) _).2 = s' :=
          congrArg Prod.snd (Except.ok.inj hrest)
        rw [← hs']
        have hkeyed' : Store.Keyed (c.store.update workId fun o =>
            (o.endMember cellId epoch outcome).settle (clock 0)) :=
          Machine.Keyed.updateRows hkeyed
            (fun o => (Order.settle_sameWork _ _).workId)
        exact drainLoop_row limits _ _ hkeyed' hrow'
          (settle_ne_queued (ho.holding_of_matches hhits))

/-- An order of two cells, one of them activated. -/
def halfActivated : List Move :=
  [sampleCall (sampleSubmit "w-1" "alice" .normal
      [⟨0, "org/app", "c-1"⟩, ⟨1, "org/app", "c-2"⟩]),
    sampleCall (.recordMemberEpoch "w-1" 0 1
      "94f6940c8644019dd3a2900a1dbc44d6")]

/-- The order is dispatching, and its units are reserved. -/
theorem reservation_lifecycle_half_activated :
    (runFrom (step sampleHashes {}) (start []) halfActivated).store.orders.map
        Order.state = [.dispatching] ∧
      ∀ o ∈ (runFrom (step sampleHashes {}) (start [])
        halfActivated).store.orders, o.Reserves :=
  ⟨by decide, (reservation_lifecycle ⟨halfActivated, rfl⟩).1⟩

end Reachable

end Admission
end SwFactory
