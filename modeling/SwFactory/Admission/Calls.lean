import SwFactory.Admission.Transitions
import SwFactory.Machine.Fallible

/-!
# Durable admission: calls

What each operation has found and written when it returns.  `Effect` collects
it for a call on the whole configuration, `exec_effect` is the inversion of a
call, and `Effect.transitions` says that its transaction is a sequence of
transitions.  With it every invariant of the transitions holds along every run
(`reachable_store`).
-/

namespace SwFactory
namespace Admission

open Text Machine Relation

section Calls

variable {Q : Order → Terminal → Prop}
variable {hashes : Hashes} {limits : Limits} {s s' : Store}
variable {workId token : String} {now : Time}

/-- A change of the order that was found under the key. -/
theorem update_transition {o : Order} {f : Order → Order} (hs : s.Keyed)
    (hrow : s.row workId = some o)
    (hchange : Change Q o (f o))
    (hkey : ∀ o, (f o).workId = o.workId) :
    Transition Q hashes limits s (s.update workId f) := by
  refine .change workId f (fun o' ho' hwork => ?_) hkey
  obtain rfl := hs.of_row hrow ho' hwork
  exact hchange

/-- A lease that is asserted is on the order under the key. -/
theorem assertLease_ok {u : Unit} (h : assertLease workId token s = .ok u) :
    ∃ o, s.row workId = some o ∧ o.leasedTo token := by
  unfold assertLease at h
  split at h
  · rename_i hlease
    exact (Option.any_eq_true _ _).mp hlease
  · cases h

/-- What a successful `record_member_epoch` found and wrote. -/
theorem recordMemberEpoch_ok {jobIdx epoch : Int}
    (h : recordMemberEpoch workId jobIdx epoch token s = .ok s') :
    ∃ o, s.row workId = some o ∧ o.leasedTo token ∧
      s' = s.update workId (Order.recordMemberEpoch jobIdx epoch) := by
  unfold recordMemberEpoch at h
  simp only [bind, Except.bind] at h
  split at h
  · cases h
  · split at h
    · cases h
    · rename_i hlease
      obtain ⟨o, hrow, hleased⟩ := assertLease_ok hlease
      split at h
      · cases h
      · exact ⟨o, hrow, hleased, (Except.ok.inj h).symm⟩

/-- What a successful `record_dispatch` found and wrote. -/
theorem recordDispatch_ok {dagRunId : String}
    (h : recordDispatch workId token dagRunId now s = .ok s') :
    ∃ o, s.row workId = some o ∧ o.leasedTo token ∧ o.missingEpochs = 0 ∧
      s' = s.update workId (Order.recordDispatch dagRunId now) := by
  unfold recordDispatch at h
  simp only [bind, Except.bind] at h
  split at h
  · cases h
  · rename_i hlease
    obtain ⟨o, hrow, hleased⟩ := assertLease_ok hlease
    split at h
    · cases h
    · rename_i hmissing
      refine ⟨o, hrow, hleased, ?_, (Except.ok.inj h).symm⟩
      simpa [hrow] using hmissing

/-- What a successful `release_dispatch` found and wrote. -/
theorem releaseDispatch_ok {error : String} {observation : Option String}
    (h : releaseDispatch workId token error observation now s = .ok s') :
    ∃ o, s.row workId = some o ∧ o.leasedTo token ∧
      s' = s.update workId (Order.releaseDispatch error observation now) := by
  unfold releaseDispatch at h
  simp only [bind, Except.bind] at h
  split at h
  · cases h
  · rename_i hlease
    obtain ⟨o, hrow, hleased⟩ := assertLease_ok hlease
    exact ⟨o, hrow, hleased, (Except.ok.inj h).symm⟩

/-- What `cancel` found and wrote, if it had an effect. -/
theorem cancel_ok {reason state : String} {effective : Bool} (hs : s.Keyed)
    (h : cancel workId reason state now s = .ok (effective, s')) :
    (effective = false ∧ s' = s ∧
        ∀ o, s.row workId = some o → o.state.cancellable = false) ∨
      ∃ outcome o, Terminal.parse state = some outcome ∧ effective = true ∧
        s.row workId = some o ∧ o.state.cancellable ∧
        s' = s.update workId (Order.cancel outcome reason now) := by
  unfold cancel at h
  split at h
  · cases h
  · rename_i outcome hparse
    split at h
    · rename_i hcount
      cases h
      refine Or.inl ⟨rfl, rfl, fun o hrow => ?_⟩
      by_contra hstate
      obtain ⟨ho, rfl⟩ := Store.row_some hrow
      refine hcount (Machine.Keyed.countP_eq_one hs ho ?_ (by simp +contextual))
      simpa using hstate
    · rename_i hcount
      cases h
      have hpos : 0 < s.rowcount workId (fun o => o.state.cancellable) := by
        omega
      obtain ⟨o, ho, hguard⟩ := List.countP_pos_iff.mp hpos
      obtain ⟨rfl, hstate⟩ : o.workId = workId ∧ o.state.cancellable := by
        simpa using hguard
      refine Or.inr ⟨outcome, o, hparse, rfl,
        Machine.Keyed.lookup_eq hs ho, hstate, ?_⟩
      unfold Store.updateWhere Store.update updateRows
      congr 1
      refine List.map_congr_left fun o' ho' => ?_
      by_cases hkey : o'.workId = o.workId
      · obtain rfl := Machine.Keyed.eq hs ho' ho hkey
        simp [hstate]
      · simp [hkey]

/-- A cancellable order is cancelled. -/
theorem cancel_eq {reason state : String} {outcome : Terminal} {o : Order}
    (hs : s.Keyed) (hparse : Terminal.parse state = some outcome)
    (hrow : s.row workId = some o) (hstate : o.state.cancellable) :
    cancel workId reason state now s =
      .ok (true, s.update workId (Order.cancel outcome reason now)) := by
  cases h : cancel workId reason state now s with
  | error e =>
      unfold cancel at h
      simp only [hparse] at h
      split at h <;> cases h
  | ok result =>
      rcases cancel_ok hs h with
        ⟨-, -, hnone⟩ | ⟨outcome', o', hparse', heffective, -, -, hstore⟩
      · rw [hnone o hrow] at hstate
        cases hstate
      · rw [hparse] at hparse'
        cases hparse'
        exact congrArg _ (Prod.ext heffective hstore)

/-- What `complete` found and wrote. -/
theorem complete_ok {cellId state : String} {epoch : Int} {last : Bool}
    (h : complete workId cellId epoch state now s = .ok (last, s')) :
    ∃ outcome, Terminal.parse state = some outcome ∧
      ((last = false ∧
          s' = s.update workId (Order.endMember cellId epoch outcome) ∧
          ∀ o, s.row workId = some o →
            o.members.countP (Member.matches_ cellId epoch) ≠ 1) ∨
        ∃ o, s.row workId = some o ∧
          o.members.countP (Member.matches_ cellId epoch) = 1 ∧
          last = decide ((o.endMember cellId epoch outcome).remaining = 0) ∧
          s' = s.update workId (fun o =>
            (o.endMember cellId epoch outcome).settle now)) := by
  unfold complete at h
  split at h
  · cases h
  · rename_i outcome hparse
    refine ⟨outcome, hparse, ?_⟩
    dsimp only at h
    split at h
    · rename_i hhits
      cases h
      refine Or.inl ⟨rfl, rfl, fun o hrow => ?_⟩
      simpa [hrow] using hhits
    · rename_i hhits
      cases hrow : s.row workId with
      | none => simp [hrow] at hhits
      | some o =>
          right
          cases h
          refine ⟨o, rfl, by simpa [hrow] using hhits, ?_, ?_⟩
          · have hkey : ∀ o : Order,
                (o.endMember cellId epoch outcome).workId = o.workId :=
              fun _ => rfl
            rw [Store.row_update_self hkey hrow]
            rfl
          · exact Store.update_update (fun _ => rfl)

/-- What `submit` found and wrote. -/
theorem submit_ok {inflight : Inflight} {args : Submission} {clock : Clock}
    {decision : AdmissionDecision}
    (h : submit hashes limits inflight args clock s = .ok (decision, s')) :
    (s'.orders = s.orders ∧ s'.sequence = s.sequence ∧
        decision.intent = none) ∨
      ∃ block, validateSubmission args = .ok () ∧
        s.row args.workId = none ∧
        (block = none →
          capacityBlock limits s args.repos args.actor args.blueprint =
            none) ∧
        ∃ base, base.orders = s.orders ∧ base.sequence = s.sequence ∧
          (decision, s') = enqueue hashes inflight args block clock base := by
  unfold submit at h
  simp only [bind, Except.bind] at h
  split at h
  · cases h
  · rename_i u hvalid
    split at h
    · split at h
      · cases h
      · rename_i existing hrow hdigest
        cases h
        refine Or.inl ⟨rfl, rfl, ?_⟩
        cases existing.state <;> rfl
    · rename_i hrow
      split at h
      · cases h
        exact Or.inl ⟨rfl, rfl, rfl⟩
      · split at h
        · cases h
          exact Or.inl ⟨rfl, rfl, rfl⟩
        · refine Or.inr ⟨_, hvalid, hrow, ?_, _, ?_, ?_,
            (Except.ok.inj h).symm⟩
          · intro hnone
            unfold blockOf rateLimited at hnone
            dsimp only at hnone
            split at hnone
            · cases hnone
            · exact hnone
          · rfl
          · rfl

/-- The `INSERT`s are one transition. -/
theorem insert_transition {args : Submission}
    {block : Option CapacityBlock} {base : Store}
    (hvalid : validateSubmission args = .ok ())
    (hnew : s.row args.workId = none)
    (hfits : block = none →
      capacityBlock limits s args.repos args.actor args.blueprint = none)
    (horders : base.orders = s.orders)
    (hsequence : base.sequence = s.sequence) :
    Transition Q hashes limits s (args.insert hashes block now base) := by
  refine .submitted args block now hvalid hnew hfits ?_ ?_
  · simp [Submission.insert, Store.nextSequence, horders, hsequence]
  · simp [Submission.insert, Store.nextSequence, hsequence]

/-- What a claim by process `p` comes to. -/
inductive Claims
    (hashes : Hashes) (p : Nat) (workId : String) (now : Time)
    (c : Configuration) : Configuration → Prop
  | refused : Claims hashes p workId now c c
  | granted (o : Order) (attempt : Nat) (leaseUntil : Time)
      (hrow : c.store.row workId = some o)
      (hclaimable : claimable (c.inflight p) now o = some attempt) :
      Claims hashes p workId now c
        { store := c.store.update workId (Order.claim attempt
            (hashes.leaseToken workId attempt now) leaseUntil now)
          inflight := setInflight c.inflight p workId
            (some (hashes.leaseToken workId attempt now))
          log := .claimed workId (hashes.leaseToken workId attempt now) ::
            c.log }

/-- What a call that returns has found and done, case by case. -/
inductive Effect
    (hashes : Hashes) (limits : Limits) (p : Nat) (clock : Clock)
    (c : Configuration) : Op → Configuration → Prop
  /-- A duplicate, or an order that can never be admitted. -/
  | answered {args : Submission} {s : Store}
      (horders : s.orders = c.store.orders)
      (hsequence : s.sequence = c.store.sequence) :
      Effect hashes limits p clock c (.submit args) { c with store := s }
  | queued {args : Submission} {block : CapacityBlock} {base : Store}
      (hvalid : validateSubmission args = .ok ())
      (hnew : c.store.row args.workId = none)
      (horders : base.orders = c.store.orders)
      (hsequence : base.sequence = c.store.sequence) :
      Effect hashes limits p clock c (.submit args)
        { c with store := args.insert hashes (some block) (clock 0) base }
  | accepted {args : Submission} {base : Store} {c' : Configuration}
      (hvalid : validateSubmission args = .ok ())
      (hnew : c.store.row args.workId = none)
      (hfits : capacityBlock limits c.store args.repos args.actor
        args.blueprint = none)
      (horders : base.orders = c.store.orders)
      (hsequence : base.sequence = c.store.sequence)
      (hclaims : Claims hashes p args.workId (clock 2)
        { c with store := args.insert hashes none (clock 0) base } c') :
      Effect hashes limits p clock c (.submit args) c'
  | drained {limit : Option Int} :
      Effect hashes limits p clock c (.drain limit)
        { c with store := (drain limits limit clock c.store).2 }
  | kept {workId reason state : String} :
      Effect hashes limits p clock c (.cancel workId reason state) c
  | cancelled {workId reason state : String} {outcome : Terminal} {o : Order}
      (hparse : Terminal.parse state = some outcome)
      (hrow : c.store.row workId = some o)
      (hstate : o.state.cancellable) :
      Effect hashes limits p clock c (.cancel workId reason state)
        { store := c.store.update workId
            (Order.cancel outcome reason (clock 0))
          inflight := setInflight c.inflight p workId none
          log := .cancelled workId :: c.log }
  | unmatched {workId cellId state : String} {epoch : Int}
      {outcome : Terminal}
      (hhits : ∀ o, c.store.row workId = some o →
        o.members.countP (Member.matches_ cellId epoch) ≠ 1) :
      Effect hashes limits p clock c (.complete workId cellId epoch state)
        { c with store :=
          c.store.update workId (Order.endMember cellId epoch outcome) }
  | ended {workId cellId state : String} {epoch : Int} {outcome : Terminal}
      {o : Order}
      (hrow : c.store.row workId = some o)
      (hhits : o.members.countP (Member.matches_ cellId epoch) = 1) :
      Effect hashes limits p clock c (.complete workId cellId epoch state)
        { c with store := c.store.update workId (fun o =>
          (o.endMember cellId epoch outcome).settle (clock 0)) }
  | claimed {workId : String} {lease : Option Int} {c' : Configuration}
      (hclaims : Claims hashes p workId (clock 0) c c') :
      Effect hashes limits p clock c (.claimDispatch workId lease) c'
  | epoch {workId token : String} {jobIdx epoch : Int} {o : Order}
      (hrow : c.store.row workId = some o)
      (hlease : o.leasedTo token) :
      Effect hashes limits p clock c
        (.recordMemberEpoch workId jobIdx epoch token)
        { c with store :=
          c.store.update workId (Order.recordMemberEpoch jobIdx epoch) }
  | recorded {workId token dagRunId : String} {o : Order}
      (hrow : c.store.row workId = some o)
      (hlease : o.leasedTo token)
      (hepochs : o.missingEpochs = 0) :
      Effect hashes limits p clock c (.recordDispatch workId token dagRunId)
        { store := c.store.update workId
            (Order.recordDispatch dagRunId (clock 0))
          inflight := setInflight c.inflight p workId none
          log := .recorded workId :: c.log }
  | released {workId token error : String} {observation : Option String}
      {o : Order}
      (hrow : c.store.row workId = some o)
      (hlease : o.leasedTo token) :
      Effect hashes limits p clock c
        (.releaseDispatch workId token error observation)
        { store := c.store.update workId
            (Order.releaseDispatch error observation (clock 0))
          inflight := setInflight c.inflight p workId none
          log := .released workId :: c.log }
  | retired {workId error : String} {observation : Option String} :
      Effect hashes limits p clock c
        (.markUndeliverable workId error observation)
        { store := c.store.update workId
            (Order.markUndeliverable error observation (clock 0))
          inflight := setInflight c.inflight p workId none
          log := .retired workId :: c.log }
  | noted {workId error : String} {observation : Option String} :
      Effect hashes limits p clock c (.noteOutcome workId error observation)
        { c with
          store := c.store.update workId
            (Order.noteOutcome error observation)
          inflight := setInflight c.inflight p workId none }

theorem claim_claims
    (hashes : Hashes) (p : Nat) (workId : String) (lease : Option Int)
    (now : Time) (c : Configuration) :
    Claims hashes p workId now c
      (noteClaim p (claim hashes (c.inflight p) workId lease now c.store).1
        { c with store :=
          (claim hashes (c.inflight p) workId lease now c.store).2 }) := by
  unfold claim
  split
  · exact .refused
  · rename_i o hrow
    split
    · exact .refused
    · rename_i attempt hclaimable
      exact .granted o attempt _ hrow hclaimable

/-- **Inversion of a call.** -/
theorem exec_effect {p : Nat} {clock : Clock} {c c' : Configuration}
    {op : Op} {out : Outcome} (hs : c.store.Keyed)
    (h : exec hashes limits p clock c op = .ok (out, c')) :
    Effect hashes limits p clock c op c' := by
  cases op with
  | submit args =>
      obtain ⟨⟨decision, s'⟩, hsubmit, hrest⟩ := bind_eq_ok h
      cases hrest
      rcases submit_ok hsubmit with
        ⟨horders, hsequence, hintent⟩ |
          ⟨block, hvalid, hnew, hfits, base, horders, hsequence, heq⟩
      · rw [hintent]
        exact .answered horders hsequence
      · cases block with
        | some block =>
            cases heq
            exact .queued hvalid hnew horders hsequence
        | none =>
            cases heq
            exact .accepted hvalid hnew (hfits rfl) horders hsequence
              (claim_claims hashes p args.workId none (clock 2)
                { c with store := args.insert hashes none (clock 0) base })
  | drain limit =>
      cases h
      exact .drained
  | cancel workId reason state =>
      obtain ⟨⟨effective, s'⟩, hcancel, hrest⟩ := bind_eq_ok h
      rcases cancel_ok hs hcancel with
        ⟨rfl, rfl, -⟩ | ⟨outcome, o, hparse, rfl, hrow, hstate, rfl⟩
      · cases hrest
        exact .kept
      · cases hrest
        exact .cancelled hparse hrow hstate
  | complete workId cellId epoch state =>
      obtain ⟨⟨last, s'⟩, hcomplete, hrest⟩ := bind_eq_ok h
      cases hrest
      obtain ⟨outcome, -, ⟨-, rfl, hhits⟩ | ⟨o, hrow, hhits, -, rfl⟩⟩ :=
        complete_ok hcomplete
      · exact .unmatched hhits
      · exact .ended hrow hhits
  | claimDispatch workId lease =>
      cases h
      exact .claimed (claim_claims hashes p workId lease (clock 0) c)
  | recordMemberEpoch workId jobIdx epoch token =>
      obtain ⟨s', hrecord, hrest⟩ := bind_eq_ok h
      cases hrest
      obtain ⟨o, hrow, hlease, rfl⟩ := recordMemberEpoch_ok hrecord
      exact .epoch hrow hlease
  | recordDispatch workId token dagRunId =>
      obtain ⟨s', hrecord, hrest⟩ := bind_eq_ok h
      cases hrest
      obtain ⟨o, hrow, hlease, hepochs, rfl⟩ := recordDispatch_ok hrecord
      exact .recorded hrow hlease hepochs
  | releaseDispatch workId token error observation =>
      obtain ⟨s', hrelease, hrest⟩ := bind_eq_ok h
      cases hrest
      obtain ⟨o, hrow, hlease, rfl⟩ := releaseDispatch_ok hrelease
      exact .released hrow hlease
  | markUndeliverable workId error observation =>
      cases h
      exact .retired
  | noteOutcome workId error observation =>
      cases h
      exact .noted

/-- A cancellation that has an effect is one that `Q` allows. -/
def Op.Cancels (Q : Order → Terminal → Prop) (s : Store) (op : Op) : Prop :=
  ∀ workId reason state outcome o,
    op = .cancel workId reason state →
    Terminal.parse state = some outcome → s.row workId = some o →
    o.state.cancellable → Q o outcome

theorem Claims.transitions {p : Nat} {c c' : Configuration}
    (h : Claims hashes p workId now c c') (hs : c.store.Keyed) :
    Transitions Q hashes limits c.store c'.store := by
  cases h with
  | refused => exact .refl
  | granted o attempt leaseUntil hrow hclaimable =>
      exact .single (update_transition hs hrow
        (.claimed o (c.inflight p) attempt _ leaseUntil now hclaimable)
        (fun _ => rfl))

/-- **Every transaction is a sequence of transitions.** -/
theorem Effect.transitions {p : Nat} {clock : Clock} {c c' : Configuration}
    {op : Op} (h : Effect hashes limits p clock c op c') (hs : c.store.Keyed)
    (hcancels : op.Cancels Q c.store) :
    Transitions Q hashes limits c.store c'.store := by
  cases h with
  | answered horders hsequence =>
      exact .single (.books horders (Nat.le_of_eq hsequence.symm))
  | queued hvalid hnew horders hsequence =>
      exact .single
        (insert_transition hvalid hnew (by simp) horders hsequence)
  | @accepted args base _ hvalid hnew hfits horders hsequence hclaims =>
      have hinsert : Transition Q hashes limits c.store
          (args.insert hashes none (clock 0) base) :=
        insert_transition hvalid hnew (fun _ => hfits) horders hsequence
      exact (ReflTransGen.single hinsert).trans
        (hclaims.transitions (hinsert.keyed hs))
  | drained => exact drainLoop_transitions hashes limits clock _ hs
  | kept => exact .refl
  | cancelled hparse hrow hstate =>
      exact .single (update_transition hs hrow
        (.cancelled _ _ _ _ hstate
          (hcancels _ _ _ _ _ rfl hparse hrow hstate)) (fun _ => rfl))
  | unmatched hhits =>
      refine .single (.change _ _ (fun o ho hkey => ?_) (fun _ => rfl))
      subst hkey
      exact .unmatched o _ _ _ (hhits o (Machine.Keyed.lookup_eq hs ho))
  | ended hrow hhits =>
      exact .single (update_transition hs hrow (.ended _ _ _ _ _ hhits)
        (fun o => (Order.settle_sameWork _ _).workId))
  | claimed hclaims => exact hclaims.transitions hs
  | epoch hrow hlease =>
      exact .single (update_transition hs hrow (.epoch _ _ _ _ hlease)
        (fun _ => rfl))
  | recorded hrow hlease hepochs =>
      exact .single (update_transition hs hrow
        (.recorded _ _ _ _ hlease hepochs)
        (fun o => (o.recordDispatch_sameWork _ _).workId))
  | released hrow hlease =>
      exact .single (update_transition hs hrow (.released _ _ _ _ _ hlease)
        (fun o => (o.releaseDispatch_sameWork _ _ _).workId))
  | retired =>
      exact .single (.change _ _ (fun o _ _ => .retired o _ _ _)
        (fun o => (o.markUndeliverable_sameWork _ _ _).workId))
  | noted =>
      exact .single (.change _ _ (fun o _ _ => .noted o _ _) (fun _ => rfl))

/-- The call of a move, if it cancels, is one that `Q` allows. -/
def Move.Cancels (Q : Order → Terminal → Prop) (c : Configuration) :
    Move → Prop
  | .call _ op _ => op.Cancels Q c.store
  | .crash _ => True

/-- Every move is allowed when every cancellation is. -/
theorem Move.cancels_true (c : Configuration) (m : Move) :
    m.Cancels (fun _ _ => True) c := by
  cases m with
  | call p op clock => exact fun _ _ _ _ _ _ _ _ _ => trivial
  | crash p => trivial

/-- A call that raises changes nothing, so only those that return matter. -/
theorem step_call {P : Configuration → Prop} {c : Configuration} {p : Nat}
    {op : Op} {clock : Clock}
    (hraise : P c)
    (hreturn : ∀ out c', exec hashes limits p clock c op = .ok (out, c') →
      P c') :
    P (step hashes limits c (.call p op clock)) := by
  cases h : exec hashes limits p clock c op with
  | error e =>
      simp only [step, h]
      exact hraise
  | ok result =>
      simp only [step, h]
      exact hreturn result.1 result.2 h

/-- One move of the system, seen from the store. -/
theorem step_transitions {c : Configuration} {m : Move}
    (hs : c.store.Keyed) (hm : m.Cancels Q c) :
    Transitions Q hashes limits c.store (step hashes limits c m).store := by
  cases m with
  | call p op clock =>
      exact step_call
        (P := fun c' => Transitions Q hashes limits c.store c'.store) .refl
        (fun _ _ h => (exec_effect hs h).transitions hs hm)
  | crash p => exact .refl

/-- A move keeps the keys apart. -/
theorem step_keyed {c : Configuration} {m : Move} (hs : c.store.Keyed) :
    (step hashes limits c m).store.Keyed :=
  Transitions.keyed (step_transitions hs (m.cancels_true c)) hs

/-- What every transition preserves is preserved by a move. -/
theorem step_invariant {P : Store → Prop} {c : Configuration} {m : Move}
    (hstep : ∀ s s', s.Keyed → P s → Transition Q hashes limits s s' → P s')
    (hc : c.store.Keyed ∧ P c.store) (hm : m.Cancels Q c) :
    (step hashes limits c m).store.Keyed ∧
      P (step hashes limits c m).store := by
  have hrun :
      Transitions Q hashes limits c.store (step hashes limits c m).store :=
    step_transitions hc.1 hm
  refine ⟨hrun.keyed hc.1, ?_⟩
  generalize (step hashes limits c m).store = s' at hrun
  induction hrun with
  | refl => exact hc.2
  | tail hpre hlast ih =>
      exact hstep _ _ (Transitions.keyed hpre hc.1) ih hlast

/--
**Invariant rule.**  What holds of an empty store and survives every
transition of a keyed store holds in every reachable configuration.
-/
theorem reachable_store {P : Store → Prop} {throttles : List Throttle}
    {c : Configuration}
    (hinit : P (start throttles).store)
    (hstep : ∀ s s', s.Keyed → P s →
      Transition (fun _ _ => True) hashes limits s s' → P s')
    (hc : Reachable (step hashes limits) (start throttles) c) :
    c.store.Keyed ∧ P c.store := by
  refine Reachable.invariant (P := fun c => c.store.Keyed ∧ P c.store)
    ⟨List.nodup_nil, hinit⟩ (fun c m h => ?_) hc
  exact step_invariant hstep h (m.cancels_true c)

end Calls

end Admission
end SwFactory
