import SwFactory.Admission.Lifecycle
import SwFactory.Admission.Fencing

/-!
# Durable admission: the seats of an order

A member is a seat: a job of the order and the Cell it runs in.  The seats are
fixed when the order is submitted, and so is its payload.  A call records a
Cell epoch on one seat, and only `record_member_epoch` does; so what a delivery
attempt has read when it claimed its intent stays true of the stored order.
-/

namespace SwFactory
namespace Admission

open Text Machine

/-- The job of a member and its Cell. -/
def Member.seat (m : Member) : Int × String :=
  (m.jobIdx, m.cellId)

/-- What one call can do to the seats of an order. -/
structure Seated (op : Op) (o o' : Order) : Prop where
  workId : o'.workId = o.workId
  order : o'.order = o.order
  seats : o'.members.map Member.seat = o.members.map Member.seat
  recorded : ∀ m' ∈ o'.members, ∀ epoch, m'.cellEpoch = some epoch →
    (∃ m ∈ o.members, m.seat = m'.seat ∧ m.cellEpoch = some epoch) ∨
      ∃ token, op = .recordMemberEpoch o.workId m'.jobIdx epoch token

/-- The members, the id and the payload are untouched. -/
structure SameSeats (o o' : Order) : Prop where
  members : o'.members = o.members
  workId : o'.workId = o.workId
  order : o'.order = o.order

section Orders

variable {op : Op} {o o' o'' : Order}

/-- The members may be rewritten as long as they keep seat and epoch. -/
theorem Seated.of_map {f : Member → Member}
    (hmembers : o'.members = o.members.map f)
    (hf : ∀ m, (f m).seat = m.seat ∧ (f m).cellEpoch = m.cellEpoch)
    (hworkId : o'.workId = o.workId) (horder : o'.order = o.order) :
    Seated op o o' where
  workId := hworkId
  order := horder
  seats := by
    rw [hmembers, List.map_map]
    exact List.map_congr_left (fun m _ => (hf m).1)
  recorded := by
    intro m' hm' epoch hepoch
    rw [hmembers] at hm'
    obtain ⟨m, hm, rfl⟩ := List.mem_map.mp hm'
    exact Or.inl ⟨m, hm, (hf m).1.symm, (hf m).2.symm.trans hepoch⟩

/-- A change behind a call that the seats do not see. -/
theorem Seated.trans_same (h : Seated op o o') (hsame : SameSeats o' o'') :
    Seated op o o'' where
  workId := hsame.workId.trans h.workId
  order := hsame.order.trans h.order
  seats := by
    rw [hsame.members]
    exact h.seats
  recorded := by
    rw [hsame.members]
    exact h.recorded

theorem Seated.refl (op : Op) (o : Order) : Seated op o o :=
  .of_map (f := id) (by simp) (fun _ => ⟨rfl, rfl⟩) rfl rfl

theorem Seated.of_same (h : SameSeats o o') : Seated op o o' :=
  (Seated.refl op o).trans_same h

theorem seated_endMember {cellId : String} {epoch : Int} {outcome : Terminal} :
    Seated op o (o.endMember cellId epoch outcome) := by
  refine .of_map rfl (fun m => ?_) rfl rfl
  split <;> exact ⟨rfl, rfl⟩

theorem seated_cancel {outcome : Terminal} {reason : String} {now : Time} :
    Seated op o (o.cancel outcome reason now) := by
  refine .of_map rfl (fun m => ?_) rfl rfl
  split <;> exact ⟨rfl, rfl⟩

/-- `record_member_epoch` writes the seat that it names. -/
theorem seated_epoch {jobIdx epoch : Int} {token : String} :
    Seated (.recordMemberEpoch o.workId jobIdx epoch token) o
      (o.recordMemberEpoch jobIdx epoch) where
  workId := rfl
  order := rfl
  seats := by
    rw [Order.recordMemberEpoch, List.map_map]
    refine List.map_congr_left (fun m _ => ?_)
    simp only [Function.comp_apply]
    split <;> rfl
  recorded := by
    intro m' hm' epoch' hepoch'
    obtain ⟨m, hm, rfl⟩ := List.mem_map.mp hm'
    split at hepoch'
    · rename_i hjob
      cases hepoch'
      refine Or.inr ⟨token, ?_⟩
      rw [if_pos hjob, hjob]
    · rename_i hjob
      rw [if_neg hjob]
      exact Or.inl ⟨m, hm, rfl, hepoch'⟩

theorem Turn.sameSeats (h : Turn o o') : SameSeats o o' := by
  cases h with
  | limited | deferred | admitted => exact ⟨rfl, rfl, rfl⟩

theorem settle_sameSeats (now : Time) (o : Order) : SameSeats o (o.settle now) :=
  ⟨settle_members, (Order.settle_sameWork now o).workId,
    (Order.settle_sameWork now o).order⟩

end Orders

/-- The order that a submission has inserted. -/
structure Submission.Inserted (args : Submission) (o : Order) : Prop where
  workId : o.workId = args.workId
  payload : o.order.payload = args.order
  members : o.members = args.memberRows

theorem Submission.Inserted.trans_same {args : Submission} {o o' : Order}
    (h : args.Inserted o) (hsame : SameSeats o o') : args.Inserted o' where
  workId := hsame.workId.trans h.workId
  payload := (congrArg WorkOrder.payload hsame.order).trans h.payload
  members := hsame.members.trans h.members

section Calls

variable {hashes : Hashes} {limits : Limits} {p : Nat} {clock : Clock}
variable {c c' : Configuration} {op : Op} {out : Outcome}

/-- The orders behind an `UPDATE` of one order. -/
theorem seated_update {s : Store} {workId : String} {f : Order → Order}
    (hf : ∀ o, o.workId = workId → Seated op o (f o)) :
    ∀ o' ∈ (s.update workId f).orders, ∃ o ∈ s.orders, Seated op o o' := by
  intro o' ho'
  obtain ⟨o, ho, rfl⟩ := mem_updateRows.mp ho'
  refine ⟨o, ho, ?_⟩
  split
  · rename_i hwork
    exact hf o hwork
  · exact .refl op o

theorem inserted_rows {args : Submission} {block : Option CapacityBlock}
    {sequence : Nat} {now : Time} :
    args.Inserted (args.rows hashes block sequence now) :=
  ⟨rfl, rfl, rfl⟩

/-- The orders behind an `INSERT`. -/
theorem seated_insert {args : Submission} {block : Option CapacityBlock}
    {base : Store} {now : Time} (horders : base.orders = c.store.orders) :
    ∀ o' ∈ (args.insert hashes block now base).orders,
      (∃ o ∈ c.store.orders, Seated op o o') ∨ args.Inserted o' := by
  intro o' ho'
  rcases List.mem_append.mp ho' with ho' | ho'
  · exact Or.inl ⟨o', horders ▸ ho', .refl op o'⟩
  · rw [List.mem_singleton.mp ho']
    exact Or.inr inserted_rows

/-- A claim leaves the seats alone. -/
theorem Claims.seats {P : Order → Prop} {workId : String} {now : Time}
    (h : Claims hashes p workId now c c')
    (hP : ∀ o o', SameSeats o o' → P o → P o')
    (hc : ∀ o ∈ c.store.orders, P o) : ∀ o ∈ c'.store.orders, P o := by
  cases h with
  | refused => exact hc
  | granted o attempt leaseUntil hrow hclaimable =>
      exact forall_updateRows hc (fun o _ _ ho => hP o _ ⟨rfl, rfl, rfl⟩ ho)

/-- **Seats.**  Every order behind a call stood before it, or was inserted. -/
theorem exec_seated (hs : c.store.Keyed)
    (h : exec hashes limits p clock c op = .ok (out, c')) :
    ∀ o' ∈ c'.store.orders,
      (∃ o ∈ c.store.orders, Seated op o o') ∨
        ∃ args, op = .submit args ∧ validateSubmission args = .ok () ∧
          c.store.row args.workId = none ∧ args.Inserted o' := by
  have hsame : ∀ {op}, ∀ o ∈ c.store.orders,
      ∃ o₁ ∈ c.store.orders, Seated op o₁ o :=
    fun o ho => ⟨o, ho, .refl _ o⟩
  intro o' ho'
  cases exec_effect hs h with
  | answered horders hsequence =>
      exact Or.inl (hsame o' (horders ▸ ho'))
  | queued hvalid hnew horders hsequence =>
      rcases seated_insert horders o' ho' with hold | hinserted
      · exact Or.inl hold
      · exact Or.inr ⟨_, rfl, hvalid, hnew, hinserted⟩
  | @accepted args _ _ hvalid hnew hfits horders hsequence hclaims =>
      -- the claim that follows the insertion sees no seat
      have hkept : ∀ o o', SameSeats o o' →
          ((∃ o₁ ∈ c.store.orders, Seated (.submit args) o₁ o) ∨
            args.Inserted o) →
          (∃ o₁ ∈ c.store.orders, Seated (.submit args) o₁ o') ∨
            args.Inserted o' := by
        rintro o o' hseats (⟨o₁, ho₁, hold⟩ | hinserted)
        · exact Or.inl ⟨o₁, ho₁, hold.trans_same hseats⟩
        · exact Or.inr (hinserted.trans_same hseats)
      rcases hclaims.seats hkept (seated_insert horders) o' ho' with
        hold | hinserted
      · exact Or.inl hold
      · exact Or.inr ⟨_, rfl, hvalid, hnew, hinserted⟩
  | drained =>
      exact Or.inl (drainLoop_forall limits clock _
        (fun o o' hturn ⟨o₁, ho₁, hold⟩ =>
          ⟨o₁, ho₁, hold.trans_same hturn.sameSeats⟩) hs hsame o' ho')
  | kept =>
      exact Or.inl (hsame o' ho')
  | cancelled hparse hrow hstate =>
      exact Or.inl (seated_update (fun o _ => seated_cancel) o' ho')
  | unmatched hhits =>
      exact Or.inl (seated_update (fun o _ => seated_endMember) o' ho')
  | ended hrow hhits =>
      exact Or.inl (seated_update (fun o _ =>
        seated_endMember.trans_same (settle_sameSeats _ _)) o' ho')
  | claimed hclaims =>
      exact Or.inl (hclaims.seats
        (fun o o' hseats ⟨o₁, ho₁, hold⟩ =>
          ⟨o₁, ho₁, hold.trans_same hseats⟩) hsame o' ho')
  | epoch hrow hlease =>
      refine Or.inl (seated_update (fun o hwork => ?_) o' ho')
      rw [← hwork]
      exact seated_epoch
  | @recorded _ _ dagRunId _ hrow hlease hepochs =>
      refine Or.inl (seated_update (fun o _ => .of_same ⟨?_, ?_, ?_⟩) o' ho')
      · exact recordDispatch_members
      · exact (o.recordDispatch_sameWork dagRunId (clock 0)).workId
      · exact (o.recordDispatch_sameWork dagRunId (clock 0)).order
  | @released _ _ error observation _ hrow hlease =>
      refine Or.inl (seated_update (fun o _ => .of_same ⟨?_, ?_, ?_⟩) o' ho')
      · exact releaseDispatch_members
      · exact (o.releaseDispatch_sameWork error observation (clock 0)).workId
      · exact (o.releaseDispatch_sameWork error observation (clock 0)).order
  | @retired _ error observation =>
      refine Or.inl (seated_update (fun o _ => .of_same ⟨?_, ?_, ?_⟩) o' ho')
      · exact markUndeliverable_members
      · exact (o.markUndeliverable_sameWork error observation (clock 0)).workId
      · exact (o.markUndeliverable_sameWork error observation (clock 0)).order
  | @noted _ error observation =>
      exact Or.inl (seated_update (f := Order.noteOutcome error observation)
        (fun o _ => .of_same ⟨rfl, rfl, rfl⟩) o' ho')

/-- A stored order stays stored, with its seats. -/
theorem exec_row (hs : c.store.Keyed)
    (h : exec hashes limits p clock c op = .ok (out, c'))
    {workId : String} {o : Order} (hrow : c.store.row workId = some o) :
    ∃ o', c'.store.row workId = some o' ∧ Seated op o o' := by
  have hadvances : c.store.Advances c'.store :=
    ((exec_effect hs h).transitions (Q := fun _ _ => True) hs
      (fun _ _ _ _ _ _ _ _ _ => trivial)).advances hs
  obtain ⟨o', hrow', -⟩ := hadvances workId o hrow
  refine ⟨o', hrow', ?_⟩
  obtain ⟨ho', hwork'⟩ := Store.row_some hrow'
  rcases exec_seated hs h o' ho' with
    ⟨o₁, ho₁, hseated⟩ | ⟨args, -, -, hnew, hinserted⟩
  · obtain rfl := hs.of_row hrow ho₁ (hseated.workId.symm.trans hwork')
    exact hseated
  · rw [← hinserted.workId, hwork', hrow] at hnew
    cases hnew

/-- The call closes the order under the id, or may do so. -/
def Op.closes (workId : String) : Op → Prop
  | .cancel workId' _ _ => workId' = workId
  | .complete workId' _ _ _ => workId' = workId
  | _ => False

/-- The order under the id is closed. -/
def Store.Closed (s : Store) (workId : String) : Prop :=
  ∃ o ∈ s.orders, o.workId = workId ∧ ∃ outcome, o.state = .closed outcome

/-- What is closed behind an update was closed before it. -/
theorem closed_update {s : Store} {target workId : String} {f : Order → Order}
    (h : (s.update target f).Closed workId)
    (hkey : ∀ o, (f o).workId = o.workId)
    (hf : ∀ o outcome, o.workId = workId → o.workId = target →
      (f o).state = .closed outcome → o.state = .closed outcome) :
    s.Closed workId := by
  obtain ⟨o', ho', hwork, outcome, hclosed⟩ := h
  obtain ⟨o, ho, rfl⟩ := mem_updateRows.mp ho'
  split at hwork
  · rename_i htarget
    rw [if_pos htarget] at hclosed
    rw [hkey] at hwork
    exact ⟨o, ho, hwork, outcome, hf o outcome hwork htarget hclosed⟩
  · rename_i htarget
    rw [if_neg htarget] at hclosed
    exact ⟨o, ho, hwork, outcome, hclosed⟩

theorem closed_insert {args : Submission} {block : Option CapacityBlock}
    {base s : Store} {now : Time} {workId : String}
    (horders : base.orders = s.orders)
    (h : (args.insert hashes block now base).Closed workId) :
    s.Closed workId := by
  obtain ⟨o, ho, hwork, outcome, hclosed⟩ := h
  rcases List.mem_append.mp ho with hold | hnew
  · exact ⟨o, horders ▸ hold, hwork, outcome, hclosed⟩
  · rw [List.mem_singleton.mp hnew] at hclosed
    have hstate : (if block.isSome then OrderState.queued else .admitted) =
        .closed outcome := hclosed
    split at hstate <;> cases hstate

/-- A claim closes nothing. -/
theorem Claims.closed {target workId : String} {now : Time}
    (h : Claims hashes p target now c c') (hclosed : c'.store.Closed workId) :
    c.store.Closed workId := by
  cases h with
  | refused => exact hclosed
  | granted o attempt leaseUntil hrow hclaimable =>
      refine closed_update hclosed (fun _ => rfl) ?_
      intro o outcome _ _ hstate
      cases hstate

/-- **Closing.**  Only a cancellation or a completion closes an order. -/
theorem exec_closed (hs : c.store.Keyed)
    (h : exec hashes limits p clock c op = .ok (out, c'))
    {workId : String} (hop : ¬ op.closes workId)
    (hclosed : c'.store.Closed workId) : c.store.Closed workId := by
  cases exec_effect hs h with
  | answered horders hsequence =>
      obtain ⟨o, ho, hrest⟩ := hclosed
      exact ⟨o, horders ▸ ho, hrest⟩
  | queued hvalid hnew horders hsequence =>
      exact closed_insert horders hclosed
  | accepted hvalid hnew hfits horders hsequence hclaims =>
      exact closed_insert horders (hclaims.closed hclosed)
  | drained =>
      obtain ⟨o, ho, hwork, outcome, hstate⟩ := hclosed
      have hturns : ∀ o o', Turn o o' →
          (o.workId = workId → ∀ outcome, o.state = .closed outcome →
            c.store.Closed workId) →
          o'.workId = workId → ∀ outcome, o'.state = .closed outcome →
            c.store.Closed workId := by
        intro o o' hturn ho hwork outcome hstate
        cases hturn with
        | limited => exact ho hwork outcome hstate
        | deferred => exact ho hwork outcome hstate
        | admitted => cases hstate
      exact drainLoop_forall limits clock _ hturns hs
        (fun o ho hwork outcome hstate => ⟨o, ho, hwork, outcome, hstate⟩)
        o ho hwork outcome hstate
  | kept => exact hclosed
  | cancelled hparse hrow hstate =>
      refine closed_update hclosed (fun _ => rfl) ?_
      intro o outcome hwork htarget _
      exact absurd (htarget.symm.trans hwork) hop
  | unmatched hhits =>
      refine closed_update hclosed (fun _ => rfl) ?_
      intro o outcome hwork htarget _
      exact absurd (htarget.symm.trans hwork) hop
  | ended hrow hhits =>
      refine closed_update hclosed (fun o => ?_) ?_
      · exact (Order.settle_sameWork _ _).workId
      · intro o outcome hwork htarget _
        exact absurd (htarget.symm.trans hwork) hop
  | claimed hclaims => exact hclaims.closed hclosed
  | epoch hrow hlease =>
      exact closed_update hclosed (fun _ => rfl) (fun _ _ _ _ h => h)
  | @recorded _ _ dagRunId _ hrow hlease hepochs =>
      refine closed_update hclosed
        (fun o => (o.recordDispatch_sameWork dagRunId (clock 0)).workId) ?_
      intro o outcome _ _ hstate
      unfold Order.recordDispatch at hstate
      split at hstate
      · cases hstate
      · exact hstate
  | @released _ _ error observation _ hrow hlease =>
      refine closed_update hclosed
        (fun o => (o.releaseDispatch_sameWork error observation (clock 0)).workId)
        ?_
      intro o outcome _ _ hstate
      unfold Order.releaseDispatch at hstate
      split at hstate
      · cases hstate
      · exact hstate
  | @retired _ error observation =>
      refine closed_update hclosed
        (fun o => (o.markUndeliverable_sameWork error observation (clock 0)).workId)
        ?_
      intro o outcome _ _ hstate
      unfold Order.markUndeliverable at hstate
      split at hstate
      · cases hstate
      · exact hstate
  | @noted _ error observation =>
      exact closed_update hclosed (fun _ => rfl) (fun _ _ _ _ h => h)

/-- The stored order is the one that the intent was claimed for. -/
def DispatchIntent.Holds (i : DispatchIntent) (s : Store) : Prop :=
  ∃ o, s.row i.workId = some o ∧ o.order = i.order ∧
    o.members.map Member.seat = i.members.map Member.seat

theorem exec_holds (hs : c.store.Keyed)
    (h : exec hashes limits p clock c op = .ok (out, c'))
    {i : DispatchIntent} (hi : i.Holds c.store) : i.Holds c'.store := by
  obtain ⟨o, hrow, horder, hseats⟩ := hi
  obtain ⟨o', hrow', hseated⟩ := exec_row hs h hrow
  exact ⟨o', hrow', hseated.order.trans horder, hseated.seats.trans hseats⟩

/-- What a claim answers is what it leaves in the store. -/
theorem claim_holds {inflight : Inflight} {workId : String}
    {lease : Option Int} {now : Time} {s : Store} {i : DispatchIntent}
    (h : (claim hashes inflight workId lease now s).1 = some i) :
    i.Holds (claim hashes inflight workId lease now s).2 := by
  unfold claim at h ⊢
  cases hrow : s.row workId with
  | none =>
      simp [hrow] at h
  | some o =>
      simp only [hrow] at h ⊢
      cases hclaimable : claimable inflight now o with
      | none =>
          simp [hclaimable] at h
      | some attempt =>
          simp only [hclaimable, Option.some.injEq] at h ⊢
          subst h
          exact ⟨_, Store.row_update_self (fun _ => rfl) hrow, rfl, rfl⟩

/-- An intent is for the order that was asked for. -/
theorem claim_workId {inflight : Inflight} {workId : String}
    {lease : Option Int} {now : Time} {s : Store} {i : DispatchIntent}
    (h : (claim hashes inflight workId lease now s).1 = some i) :
    i.workId = workId := by
  unfold claim at h
  cases hrow : s.row workId with
  | none =>
      simp [hrow] at h
  | some o =>
      simp only [hrow] at h
      cases hclaimable : claimable inflight now o with
      | none =>
          simp [hclaimable] at h
      | some attempt =>
          simp only [hclaimable, Option.some.injEq] at h
          rw [← h]

theorem exec_claim_workId {workId : String} {lease : Option Int}
    {i : DispatchIntent}
    (h : exec hashes limits p clock c (.claimDispatch workId lease) =
      .ok (.intent (some i), c')) : i.workId = workId := by
  simp only [exec, Except.ok.injEq, Prod.mk.injEq, Outcome.intent.injEq] at h
  exact claim_workId h.1

theorem exec_submit_workId {args : Submission} {decision : AdmissionDecision}
    {i : DispatchIntent} (hi : decision.intent = some i)
    (h : exec hashes limits p clock c (.submit args) =
      .ok (.decision decision, c')) : i.workId = args.workId := by
  obtain ⟨⟨decision', s'⟩, hsubmit, hrest⟩ := bind_eq_ok h
  cases hrest
  rcases submit_ok hsubmit with
    ⟨-, -, hnone⟩ | ⟨block, -, -, -, base, -, -, heq⟩
  · rw [hnone] at hi
    cases hi
  · cases block with
    | some block =>
        cases heq
        cases hi
    | none =>
        cases heq
        exact claim_workId hi

theorem exec_claim_holds {workId : String} {lease : Option Int}
    {i : DispatchIntent}
    (h : exec hashes limits p clock c (.claimDispatch workId lease) =
      .ok (.intent (some i), c')) : i.Holds c'.store := by
  simp only [exec, Except.ok.injEq, Prod.mk.injEq, Outcome.intent.injEq] at h
  obtain ⟨hintent, rfl⟩ := h
  have hholds := claim_holds hintent
  unfold noteClaim
  split <;> exact hholds

theorem exec_submit_holds {args : Submission} {decision : AdmissionDecision}
    {i : DispatchIntent} (hi : decision.intent = some i)
    (h : exec hashes limits p clock c (.submit args) =
      .ok (.decision decision, c')) : i.Holds c'.store := by
  obtain ⟨⟨decision', s'⟩, hsubmit, hrest⟩ := bind_eq_ok h
  cases hrest
  have hstore : i.Holds s' := by
    rcases submit_ok hsubmit with
      ⟨-, -, hnone⟩ | ⟨block, -, -, -, base, -, -, heq⟩
    · rw [hnone] at hi
      cases hi
    · cases block with
      | some block =>
          cases heq
          cases hi
      | none =>
          cases heq
          exact claim_holds hi
  unfold noteClaim
  split <;> exact hstore

end Calls

end Admission
end SwFactory
