import SwFactory.Admission.Fencing

/-!
# Durable admission: stranded orders

An order is owed a delivery while it is `admitted` or `dispatching`.  The
attempt is counted when it is claimed, and an order on its last attempt can
only be settled by the process that still has it in its `_inflight` map: nobody
else may claim it.  So the order is stranded when that entry goes and nothing
has retired the order, which is what `no_silent_strand_iff` says.
-/

namespace SwFactory
namespace Admission

open Text Machine

section Strand

/-- The order is owed a delivery. -/
def Order.Owed (o : Order) : Prop :=
  o.state = .admitted ∨ o.state = .dispatching

/-- The order is owed a delivery and has no attempt left to make it. -/
def Order.Spent (o : Order) : Prop :=
  o.Owed ∧ ∃ d, o.dispatch = some d ∧ d.state ≠ .undeliverable ∧
    maxDispatchAttempts ≤ d.attempt

/-- The dispatch lease is absent or has expired. -/
def Order.Unleased (now : Time) (o : Order) : Prop :=
  ∀ d leaseUntil, o.dispatch = some d → d.leaseUntil = some leaseUntil →
    leaseUntil ≤ now

/-- Some live process has the order in its `_inflight` map. -/
def Delivering (inflight : Nat → Inflight) (workId : String) : Prop :=
  ∃ p, (inflight p workId).isSome

/--
An order that is owed a delivery, with no valid lease and in no `_inflight`
map, can be claimed by everybody or is marked undeliverable.
-/
def NoSilentStrand
    (hashes : Hashes) (now : Time) (c : Configuration) : Prop :=
  ∀ o ∈ c.store.orders, o.Owed → o.Unleased now →
    ¬ Delivering c.inflight o.workId →
    (∀ p lease,
        (claim hashes (c.inflight p) o.workId lease now c.store).1.isSome) ∨
      ∃ d, o.dispatch = some d ∧ d.state = .undeliverable

/-- Every order without an attempt left is being delivered. -/
def Covered (inflight : Nat → Inflight) (rows : List Order) : Prop :=
  ∀ o ∈ rows, o.Spent → Delivering inflight o.workId

variable {hashes : Hashes} {c : Configuration} {o : Order}

/-- An order without an attempt left is not claimable. -/
theorem Order.Spent.not_claimable {inflight : Inflight} {now : Time}
    (h : o.Spent) : claimable inflight now o = none := by
  obtain ⟨-, d, hd, -, hattempt⟩ := h
  cases hclaimable : claimable inflight now o with
  | none => rfl
  | some attempt =>
      obtain ⟨-, d', hd', -, rfl, hle, -⟩ := claimable_some hclaimable
      rw [hd] at hd'
      cases hd'
      omega

/-- An order with an attempt left is claimable once nobody delivers it. -/
theorem claimable_of_owed {inflight : Inflight} {now : Time} {d : Dispatch}
    (howed : o.Owed) (hunleased : o.Unleased now)
    (hd : o.dispatch = some d)
    (hstate : d.state = .pending ∨ d.state = .inflight)
    (hattempt : d.attempt < maxDispatchAttempts)
    (hinflight : inflight o.workId = none) :
    claimable inflight now o = some (d.attempt + 1) := by
  have hlive : ¬ (d.state = .delivered ∨ d.state = .abandoned ∨
      d.state = .undeliverable) := by
    rcases hstate with h | h <;> simp [h]
  have hopen : ¬ (o.state ≠ .admitted ∧ o.state ≠ .dispatching) := by
    rcases howed with h | h <;> simp [h]
  have hexpired : ¬ (o.state = .dispatching ∧
      d.leaseUntil.any (fun until_ => decide (now < until_))) := by
    rintro ⟨-, hlease⟩
    obtain ⟨leaseUntil, hleaseUntil, hnow⟩ :=
      (Option.any_eq_true _ _).mp hlease
    have hle := hunleased d leaseUntil hd hleaseUntil
    exact absurd hle (Nat.not_le_of_lt (by simpa using hnow))
  have hbudget : ¬ maxDispatchAttempts < d.attempt + 1 := by omega
  unfold claimable
  simp only [hd]
  rw [if_neg hlive, if_neg hopen, if_neg (by simp [hinflight]),
    if_neg hexpired, if_neg hbudget]

/-- The dispatch row of an order that is owed a delivery. -/
theorem Order.WellFormed.owed (h : o.WellFormed) (howed : o.Owed) :
    ∃ d, o.dispatch = some d ∧
      (d.state = .pending ∨ d.state = .inflight ∨
        d.state = .undeliverable) := by
  rcases howed with hstate | hstate
  · obtain ⟨d, hd, hds⟩ := h.admitted hstate
    exact ⟨d, hd, by tauto⟩
  · obtain ⟨d, hd, hds⟩ := h.dispatching hstate
    exact ⟨d, hd, by tauto⟩

theorem claim_isSome {inflight : Inflight} {workId : String}
    {lease : Option Int} {now : Time} {s : Store} {attempt : Nat}
    (hrow : s.row workId = some o)
    (hclaimable : claimable inflight now o = some attempt) :
    (claim hashes inflight workId lease now s).1.isSome := by
  simp [claim, hrow, hclaimable]

theorem claim_eq_none {inflight : Inflight} {workId : String}
    {lease : Option Int} {now : Time} {s : Store}
    (hrow : s.row workId = some o)
    (hclaimable : claimable inflight now o = none) :
    (claim hashes inflight workId lease now s).1 = none := by
  simp [claim, hrow, hclaimable]

/-- At all times, no order is stranded exactly if the last attempts are covered. -/
theorem noSilentStrand_iff
    (hs : c.store.Keyed) (hwf : ∀ o ∈ c.store.orders, o.WellFormed) :
    (∀ now, NoSilentStrand hashes now c) ↔
      Covered c.inflight c.store.orders := by
  constructor
  · intro h o ho hspent
    have ⟨howed, d, hd, hstate, _⟩ := hspent
    by_contra hnone
    -- the lease, if there is one, expires
    have hunleased : o.Unleased (d.leaseUntil.getD 0) := by
      intro d' leaseUntil hd' hlease
      rw [hd] at hd'
      cases hd'
      simp [hlease]
    rcases h _ o ho howed hunleased hnone with hclaim | ⟨d', hd', hstate'⟩
    · have hrow : c.store.row o.workId = some o :=
        Machine.Keyed.lookup_eq hs ho
      have hfirst := hclaim 0 none
      rw [claim_eq_none hrow hspent.not_claimable] at hfirst
      cases hfirst
    · rw [hd] at hd'
      cases hd'
      exact hstate hstate'
  · intro h now o ho howed hunleased hnone
    obtain ⟨d, hd, hstate⟩ := (hwf o ho).owed howed
    by_cases hretired : d.state = .undeliverable
    · exact Or.inr ⟨d, hd, hretired⟩
    · left
      intro p lease
      have hattempt : d.attempt < maxDispatchAttempts := by
        by_contra hspent
        exact hnone (h o ho ⟨howed, d, hd, hretired, by omega⟩)
      have hinflight : c.inflight p o.workId = none := by
        by_contra hsome
        exact hnone ⟨p, Option.isSome_iff_ne_none.mpr hsome⟩
      exact claim_isSome (Machine.Keyed.lookup_eq hs ho)
        (claimable_of_owed howed hunleased hd (by tauto) hattempt hinflight)

end Strand

section Moves

variable {hashes : Hashes} {limits : Limits}
variable {c c' : Configuration} {o : Order} {p : Nat}
variable {inflight : Nat → Inflight} {rows : List Order} {workId : String}
variable {f : Order → Order}

/--
The move takes the order out of the `_inflight` map of process `p` without
settling it: the process stops, hands the intent back, or only notes what it
could not prove.
-/
def Move.Drops (c : Configuration) (p : Nat) (workId : String) : Move → Prop
  | .crash q => q = p
  | .call q (.releaseDispatch w token _ _) _ =>
      q = p ∧ w = workId ∧
        ∃ o, c.store.row workId = some o ∧ o.leasedTo token
  | .call q (.noteOutcome w _ _) _ => q = p ∧ w = workId
  | .call _ _ _ => False

/-- No process that is the last to deliver a spent order drops it. -/
def LastHolderStays (c : Configuration) (m : Move) : Prop :=
  ∀ o ∈ c.store.orders, o.Spent → ∀ p, m.Drops c p o.workId →
    (c.inflight p o.workId).isSome →
    ∃ q, q ≠ p ∧ (c.inflight q o.workId).isSome

theorem setInflight_other {token : Option String} {q : Nat} {w : String}
    (h : q ≠ p ∨ w ≠ workId) :
    setInflight inflight p workId token q w = inflight q w := by
  unfold setInflight
  by_cases hq : q = p
  · subst hq
    rw [Function.update_self, Function.update_of_ne (h.resolve_left (by simp))]
  · rw [Function.update_of_ne hq]

theorem setInflight_self {token : Option String} :
    setInflight inflight p workId token p workId = token := by
  simp [setInflight]

/-- What a process does with one order is not seen on the others. -/
theorem Delivering.set {token : Option String} {w : String}
    (h : Delivering inflight w) (hne : w ≠ workId) :
    Delivering (setInflight inflight p workId token) w := by
  obtain ⟨q, hq⟩ := h
  refine ⟨q, ?_⟩
  rw [setInflight_other (Or.inr hne)]
  exact hq

/-- A change that spends no attempt. -/
theorem Covered.update
    (h : Covered inflight rows)
    (hkey : ∀ o, (f o).workId = o.workId)
    (hf : ∀ o ∈ rows, o.workId = workId → (f o).Spent → o.Spent) :
    Covered inflight (updateRows Order.workId workId f rows) := by
  refine forall_updateRows h (fun o ho hwork hcovered hspent => ?_)
  rw [hkey]
  exact hcovered (hf o ho hwork hspent)

/-- A change of one order together with its entry in one map. -/
theorem Covered.set {token : Option String}
    (h : Covered inflight rows)
    (hf : ∀ o ∈ rows, o.workId = workId → (f o).Spent →
      (f o).workId = workId ∧
        Delivering (setInflight inflight p workId token) workId) :
    Covered (setInflight inflight p workId token)
      (updateRows Order.workId workId f rows) := by
  intro o' ho' hspent
  obtain ⟨o, ho, rfl⟩ := mem_updateRows.mp ho'
  split at hspent
  · rename_i hwork
    obtain ⟨hkey, hdelivering⟩ := hf o ho hwork hspent
    rw [if_pos hwork, hkey]
    exact hdelivering
  · rename_i hwork
    rw [if_neg hwork]
    exact (h o ho hspent).set hwork

/-- If one process leaves a delivery and is not the last, another goes on. -/
theorem Delivering.other
    (h : Delivering inflight workId)
    (hlast : (inflight p workId).isSome →
      ∃ q, q ≠ p ∧ (inflight q workId).isSome) :
    ∃ q, q ≠ p ∧ (inflight q workId).isSome := by
  obtain ⟨q, hq⟩ := h
  by_cases hqp : q = p
  · subst hqp
    exact hlast hq
  · exact ⟨q, hqp, hq⟩

/-- What is not owed has nothing to be covered. -/
theorem Order.not_spent_of_state (h : ¬ o.Owed) : ¬ o.Spent :=
  fun hspent => h hspent.1

theorem Order.Spent.of_settle {now : Time} (h : (o.settle now).Spent) :
    o.Spent := by
  obtain ⟨howed, hdispatch⟩ := h
  rw [settle_dispatch] at hdispatch
  refine ⟨?_, hdispatch⟩
  unfold Order.Owed at howed
  rw [settle_state] at howed
  split at howed
  · simp at howed
  · exact howed

/-- A recorded delivery is owed no more. -/
theorem recordDispatch_not_spent {token dagRunId : String} {now : Time}
    (hwf : o.WellFormed) (hlease : o.leasedTo token) :
    ¬ (o.recordDispatch dagRunId now).Spent := by
  refine Order.not_spent_of_state ?_
  rcases (hwf.leased hlease).2 with hstate | ⟨t, hstate⟩
  · simp [Order.Owed, recordDispatch_state, hstate]
  · simp [Order.Owed, recordDispatch_state, hstate]

/-- Handing an intent back leaves the order as spent as it was. -/
theorem releaseDispatch_spent {token error : String}
    {observation : Option String} {now : Time} (hlease : o.leasedTo token) :
    (o.releaseDispatch error observation now).Spent ↔ o.Spent := by
  obtain ⟨d, hd, hstate, -⟩ := Order.leasedTo_iff.mp hlease
  have howed : (o.releaseDispatch error observation now).Owed ↔ o.Owed := by
    by_cases hdispatching : o.state = .dispatching
    · simp [Order.Owed, releaseDispatch_state, hdispatching]
    · simp [Order.Owed, releaseDispatch_state, hdispatching]
  simp [Order.Spent, howed, releaseDispatch_dispatch, hd, hstate]

/-- A retired order is not spent. -/
theorem markUndeliverable_not_spent {error : String}
    {observation : Option String} {now : Time} (hwf : o.WellFormed) :
    ¬ (o.markUndeliverable error observation now).Spent := by
  rintro ⟨howed, d, hd, hstate, -⟩
  rw [markUndeliverable_dispatch] at hd
  obtain ⟨d', hd', rfl⟩ := Option.map_eq_some_iff.mp hd
  split at hstate
  · exact hstate rfl
  · rename_i hdelivered
    have howed' : o.Owed := by
      by_cases hdispatching : o.state = .dispatching
      · exact Or.inr hdispatching
      · simpa [Order.Owed, markUndeliverable_state, hdispatching] using howed
    obtain ⟨d'', hd'', hopen⟩ := hwf.owed howed'
    rw [hd'] at hd''
    cases hd''
    rw [not_not] at hdelivered
    simp [hdelivered] at hopen

theorem noteOutcome_spent {error : String} {observation : Option String} :
    (o.noteOutcome error observation).Spent ↔ o.Spent := by
  cases hd : o.dispatch <;>
    simp [Order.Spent, Order.Owed, Order.noteOutcome, hd]

/-- A new order has all its attempts. -/
theorem rows_not_spent {args : Submission} {block : Option CapacityBlock}
    {sequence : Nat} {now : Time} :
    ¬ (args.rows hashes block sequence now).Spent := by
  cases block <;>
    simp [Order.Spent, Submission.rows, openDispatch, maxDispatchAttempts]

/-- A claim is covered by the process that makes it. -/
theorem Claims.covered {now : Time}
    (h : Claims hashes p workId now c c')
    (hc : Covered c.inflight c.store.orders) :
    Covered c'.inflight c'.store.orders := by
  cases h with
  | refused => exact hc
  | granted o attempt leaseUntil hrow hclaimable =>
      refine Covered.set hc (fun o' _ hwork _ => ⟨hwork, p, ?_⟩)
      rw [setInflight_self]
      rfl

theorem insert_covered {args : Submission} {block : Option CapacityBlock}
    {now : Time} {base : Store}
    (h : Covered inflight base.orders) :
    Covered inflight (args.insert hashes block now base).orders := by
  intro o ho hspent
  rcases List.mem_append.mp ho with ho | ho
  · exact h o ho hspent
  · rw [List.mem_singleton.mp ho] at hspent
    exact absurd hspent rows_not_spent

/-- What a turn of `drain` keeps: queued orders have no dispatch row. -/
theorem Turn.covered {o' : Order} (h : Turn o o')
    (ho : (o.state = .queued → o.dispatch = none) ∧
      (o.Spent → Delivering inflight o.workId)) :
    (o'.state = .queued → o'.dispatch = none) ∧
      (o'.Spent → Delivering inflight o'.workId) := by
  cases h with
  | limited block now => exact ho
  | deferred sequence now hqueued => exact ho
  | admitted now hqueued =>
      refine ⟨by simp [Order.drain], fun hspent => ?_⟩
      simp [Order.Spent, Order.drain, ho.1 hqueued, openDispatch,
        maxDispatchAttempts] at hspent

/-- A drop that is not the last one leaves the order covered. -/
theorem Covered.drop {m : Move} (h : Covered c.inflight c.store.orders)
    (hm : LastHolderStays c m) (ho : o ∈ c.store.orders) (hspent : o.Spent)
    (hdrops : m.Drops c p o.workId) :
    ∃ q, q ≠ p ∧ (c.inflight q o.workId).isSome :=
  (h o ho hspent).other (hm o ho hspent p hdrops)

/-- Every call keeps the spent orders covered. -/
theorem Effect.covered {clock : Clock} {op : Op}
    (h : Effect hashes limits p clock c op c')
    (hs : c.store.Keyed) (hwf : ∀ o ∈ c.store.orders, o.WellFormed)
    (hc : Covered c.inflight c.store.orders)
    (hm : LastHolderStays c (.call p op clock)) :
    Covered c'.inflight c'.store.orders := by
  cases h with
  | answered horders hsequence => exact fun o ho => hc o (horders ▸ ho)
  | queued hvalid hnew horders hsequence =>
      exact insert_covered (horders ▸ hc)
  | accepted hvalid hnew hfits horders hsequence hclaims =>
      exact hclaims.covered (insert_covered (horders ▸ hc))
  | drained =>
      have hall : ∀ o ∈ c.store.orders,
          (o.state = .queued → o.dispatch = none) ∧
            (o.Spent → Delivering c.inflight o.workId) :=
        fun o ho => ⟨fun hqueued => ((hwf o ho).queued hqueued).1, hc o ho⟩
      exact fun o ho => (drainLoop_forall limits clock _
        (fun _ _ hturn ho => hturn.covered ho) hs hall o ho).2
  | kept => exact hc
  | cancelled hparse hrow hstate =>
      refine Covered.set hc (fun o _ _ hspent => absurd hspent ?_)
      exact Order.not_spent_of_state (by simp [Order.Owed, Order.cancel])
  | unmatched hhits =>
      exact hc.update (fun _ => rfl) (fun _ _ _ hspent => hspent)
  | ended hrow hhits =>
      exact hc.update (fun o => (Order.settle_sameWork _ _).workId)
        (fun _ _ _ hspent => hspent.of_settle)
  | claimed hclaims => exact hclaims.covered hc
  | epoch hrow hlease =>
      exact hc.update (fun _ => rfl) (fun _ _ _ hspent => hspent)
  | recorded hrow hlease hepochs =>
      refine Covered.set hc (fun o' ho' hwork hspent => absurd hspent ?_)
      obtain rfl := hs.of_row hrow ho' hwork
      exact recordDispatch_not_spent (hwf o' ho') hlease
  | released hrow hlease =>
      refine Covered.set hc (fun o' ho' hwork hspent => ?_)
      obtain rfl := hs.of_row hrow ho' hwork
      obtain rfl := hwork
      obtain ⟨q, hqp, hq⟩ := hc.drop hm ho'
        ((releaseDispatch_spent hlease).mp hspent)
        ⟨rfl, rfl, o', hrow, hlease⟩
      refine ⟨(o'.releaseDispatch_sameWork _ _ _).workId, q, ?_⟩
      rw [setInflight_other (Or.inl hqp)]
      exact hq
  | retired =>
      exact Covered.set hc (fun o ho _ hspent =>
        absurd hspent (markUndeliverable_not_spent (hwf o ho)))
  | noted =>
      refine Covered.set hc (fun o ho hwork hspent => ⟨hwork, ?_⟩)
      obtain rfl := hwork
      obtain ⟨q, hqp, hq⟩ := hc.drop hm ho (noteOutcome_spent.mp hspent)
        ⟨rfl, rfl⟩
      refine ⟨q, ?_⟩
      rw [setInflight_other (Or.inl hqp)]
      exact hq

/-- Every move that drops no last holder keeps the spent orders covered. -/
theorem step_covered {m : Move}
    (hs : c.store.Keyed) (hwf : ∀ o ∈ c.store.orders, o.WellFormed)
    (h : Covered c.inflight c.store.orders) (hm : LastHolderStays c m) :
    Covered (step hashes limits c m).inflight
      (step hashes limits c m).store.orders := by
  cases m with
  | call p op clock =>
      exact step_call
        (P := fun c' => Covered c'.inflight c'.store.orders) h
        (fun _ _ hexec => (exec_effect hs hexec).covered hs hwf h hm)
  | crash p =>
      intro o ho hspent
      obtain ⟨q, hqp, hq⟩ := h.drop hm ho hspent rfl
      refine ⟨q, ?_⟩
      simp only [step]
      rw [Function.update_of_ne hqp]
      exact hq

/-- The store and the maps behind a release that has an effect. -/
theorem releaseDispatch_step {token error : String}
    {observation : Option String} {clock : Clock}
    (hrow : c.store.row workId = some o) (hlease : o.leasedTo token) :
    (step hashes limits c (.call p
        (.releaseDispatch workId token error observation) clock)).store =
        c.store.update workId
          (Order.releaseDispatch error observation (clock 0)) ∧
      (step hashes limits c (.call p
        (.releaseDispatch workId token error observation) clock)).inflight =
        setInflight c.inflight p workId none := by
  simp [step, exec, releaseDispatch, assertLease, hrow, hlease, bind,
    Except.bind]

theorem not_delivering_set
    (honly : ∀ q, q ≠ p → ¬ (inflight q workId).isSome) :
    ¬ Delivering (setInflight inflight p workId none) workId := by
  rintro ⟨q, hq⟩
  by_cases hqp : q = p
  · subst hqp
    rw [setInflight_self] at hq
    cases hq
  · rw [setInflight_other (Or.inl hqp)] at hq
    exact honly q hqp hq

/-- A spent order that its last process drops is not covered any more. -/
theorem Move.Drops.uncovers {m : Move} (hs : c.store.Keyed)
    (ho : o ∈ c.store.orders) (hspent : o.Spent)
    (hdrops : m.Drops c p o.workId)
    (honly : ∀ q, q ≠ p → ¬ (c.inflight q o.workId).isSome) :
    ¬ Covered (step hashes limits c m).inflight
      (step hashes limits c m).store.orders := by
  intro h
  have hrow : c.store.row o.workId = some o := Machine.Keyed.lookup_eq hs ho
  cases m with
  | crash q =>
      obtain rfl : q = p := hdrops
      obtain ⟨q', hq'⟩ := h o ho hspent
      simp only [step] at hq'
      by_cases hqq : q' = q
      · subst hqq
        simp at hq'
      · rw [Function.update_of_ne hqq] at hq'
        exact honly q' hqq hq'
  | call q op clock =>
      cases op with
      | releaseDispatch workId token error observation =>
          obtain ⟨rfl, rfl, o', hrow', hlease⟩ := hdrops
          rw [hrow] at hrow'
          cases hrow'
          rw [(releaseDispatch_step hrow hlease).1,
            (releaseDispatch_step hrow hlease).2] at h
          have hrow' := Store.row_update_self
            (f := Order.releaseDispatch error observation (clock 0))
            (fun o => (o.releaseDispatch_sameWork error observation _).workId)
            hrow
          have hcovered := h _ (Store.row_some hrow').1
            ((releaseDispatch_spent hlease).mpr hspent)
          rw [(Store.row_some hrow').2] at hcovered
          exact not_delivering_set honly hcovered
      | noteOutcome workId error observation =>
          obtain ⟨rfl, rfl⟩ := hdrops
          have hrow' := Store.row_update_self
            (f := Order.noteOutcome error observation) (fun _ => rfl) hrow
          have hcovered := h _ (Store.row_some hrow').1
            (noteOutcome_spent.mpr hspent)
          rw [(Store.row_some hrow').2] at hcovered
          exact not_delivering_set honly hcovered
      | _ => exact hdrops.elim

/--
**No silent strand.**  In every state of a run, at any time, every order that
is owed a delivery is being delivered, leased, claimable or undeliverable,
exactly if no process that is the last to deliver an order on its last attempt
stops, hands the intent back or merely notes the outcome.
-/
theorem no_silent_strand_iff
    (hashes : Hashes) (limits : Limits) (throttles : List Throttle)
    (ms : List Move) :
    EveryState (step hashes limits)
        (fun c => ∀ now, NoSilentStrand hashes now c) (start throttles) ms ↔
      AlongRun (step hashes limits) LastHolderStays (start throttles) ms := by
  have hcovered : EveryState (step hashes limits)
        (fun c => ∀ now, NoSilentStrand hashes now c) (start throttles) ms ↔
      EveryState (step hashes limits)
        (fun c => Covered c.inflight c.store.orders) (start throttles) ms := by
    rw [everyState_iff, everyState_iff]
    refine forall_congr' fun pre => forall_congr' fun post =>
      forall_congr' fun _ => ?_
    obtain ⟨hkeyed, hwf⟩ := reachable_wellFormed (reachable_runFrom _ pre)
    exact noSilentStrand_iff hkeyed hwf
  rw [hcovered]
  constructor
  · intro h
    rw [everyState_iff] at h
    rw [alongRun_iff]
    rintro pre m post rfl o ho hspent p hdrops -
    have hafter := h (pre ++ [m]) post (by simp)
    rw [runFrom_append, runFrom_cons, runFrom_nil] at hafter
    obtain ⟨hkeyed, -⟩ := reachable_wellFormed (reachable_runFrom _ pre)
    by_contra honly
    push Not at honly
    exact hdrops.uncovers hkeyed ho hspent (by simpa using honly) hafter
  · intro h
    refine EveryState.of_reachable_step (fun c m hc hcovers hm => ?_)
      (by simp [Covered, start]) h
    obtain ⟨hkeyed, hwf⟩ := reachable_wellFormed hc
    exact step_covered hkeyed hwf hcovers hm

/-- Four attempts fail, and the process stops during the fifth. -/
def crashOnLastAttempt : List Move :=
  [sampleCall (sampleSubmit "w-1" "alice" .normal [⟨0, "org/app", "c-1"⟩]),
    sampleCall (.releaseDispatch "w-1"
      "94f6940c8644019dd3a2900a1dbc44d6" "503" none),
    sampleCall (.claimDispatch "w-1" none),
    sampleCall (.releaseDispatch "w-1"
      "f4f14c8a7a7816e15019763fde8b70bd" "503" none),
    sampleCall (.claimDispatch "w-1" none),
    sampleCall (.releaseDispatch "w-1"
      "c81e61652936a5680b2fa8eb8b157bba" "503" none),
    sampleCall (.claimDispatch "w-1" none),
    sampleCall (.releaseDispatch "w-1"
      "c7319b54a17050210fba64a1759839a4" "503" none),
    sampleCall (.claimDispatch "w-1" none),
    .crash 0]

/-- The order is left dispatching; after its lease nobody can claim it. -/
theorem stranded_by_crash :
    (runFrom (step sampleHashes {}) (start [])
        crashOnLastAttempt).store.orders.map
          (fun o => (o.state, o.dispatch.map Dispatch.state,
            o.dispatch.bind Dispatch.leaseUntil)) =
        [(.dispatching, some .inflight, some 300)] ∧
      ¬ EveryState (step sampleHashes {})
        (fun c => ∀ now, NoSilentStrand sampleHashes now c) (start [])
        crashOnLastAttempt := by
  have hleft : ∃ o ∈ (runFrom (step sampleHashes {}) (start [])
      crashOnLastAttempt).store.orders,
      o.workId = "w-1" ∧ o.state = .dispatching ∧
        o.dispatch.map (fun d => (d.state, d.attempt)) =
          some (.inflight, 5) := by
    decide
  have hempty : ¬ Delivering (runFrom (step sampleHashes {}) (start [])
      crashOnLastAttempt).inflight "w-1" := by
    rintro ⟨q, hq⟩
    cases q <;> cases hq
  refine ⟨by decide, fun h => ?_⟩
  obtain ⟨hkeyed, hwf⟩ :=
    reachable_wellFormed (reachable_runFrom (start []) crashOnLastAttempt)
  have hcovered := (noSilentStrand_iff hkeyed hwf).mp h.last
  obtain ⟨o, ho, hwork, hstate, hdispatch⟩ := hleft
  obtain ⟨d, hd, hattempt⟩ := Option.map_eq_some_iff.mp hdispatch
  obtain ⟨hinflight, hfive⟩ := Prod.mk.inj hattempt
  refine hempty (hwork ▸ hcovered o ho ⟨Or.inr hstate, d, hd, ?_, ?_⟩)
  · simp [hinflight]
  · exact Nat.le_of_eq hfive.symm

end Moves

end Admission
end SwFactory
