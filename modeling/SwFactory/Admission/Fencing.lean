import SwFactory.Admission.Lifecycle
import SwFactory.Admission.Draining

/-!
# Durable admission: fencing of dispatch attempts

A claim hands out a token; the calls that record or release a delivery must
show it.  The invariant ties the lease in the dispatch row to the log: a row
that is `inflight` under a token was claimed with that token, and nothing has
happened to the order's intent since.  Leases expire without any write, so
expiry does not occur in the argument: a token dies when somebody else claims.

The second part follows the state of an order: `bound` leads to a terminal
state only, a terminal state to none, so an order is bound once.
-/

namespace SwFactory
namespace Admission

open Text Machine Relation

section Holders

/-- The order an event is about. -/
def Event.workId : Event → String
  | .claimed workId _ => workId
  | .released workId => workId
  | .cancelled workId => workId
  | .retired workId => workId
  | .recorded workId => workId

/--
The latest claim of the order returned `token`, and no claim, release,
cancellation, retirement or recorded delivery of it came after.
-/
def Holds (workId token : String) (log : List Event) : Prop :=
  ∃ since before, log = since ++ .claimed workId token :: before ∧
    ∀ e ∈ since, e.workId ≠ workId

variable {workId token : String} {log : List Event}

theorem holds_claimed : Holds workId token (.claimed workId token :: log) :=
  ⟨[], log, rfl, by simp⟩

/-- What happens to another order takes nothing away. -/
theorem Holds.cons {e : Event}
    (h : Holds workId token log) (he : e.workId ≠ workId) :
    Holds workId token (e :: log) := by
  obtain ⟨since, before, rfl, hsince⟩ := h
  refine ⟨e :: since, before, rfl, ?_⟩
  rintro e' (_ | ⟨_, he'⟩)
  · exact he
  · exact hsince e' he'

end Holders

section Leases

variable {o o' : Order} {token : String} {now : Time}

/-- What the lease of an order is read from. -/
theorem Order.leasedTo_iff :
    o.leasedTo token ↔
      ∃ d, o.dispatch = some d ∧ d.state = .inflight ∧
        d.leaseToken = some token := by
  simp [Order.leasedTo, Option.any_eq_true, and_comm]

/-- A turn of `drain` hands out no lease. -/
theorem Turn.leased (h : Turn o o') (hlease : o'.leasedTo token) :
    o.leasedTo token := by
  cases h with
  | limited block now => exact hlease
  | deferred sequence now hqueued => exact hlease
  | admitted now hqueued =>
      obtain ⟨d, hd, hstate, htoken⟩ := Order.leasedTo_iff.mp hlease
      cases hdispatch : o.dispatch with
      | none =>
          rw [Order.drain, hdispatch] at hd
          cases hd
          cases hstate
      | some d' =>
          rw [Order.drain, hdispatch] at hd
          cases hd
          simp only [openDispatch] at hstate htoken
          split at hstate
          · cases hstate
          · rename_i habandoned
            rw [if_neg habandoned] at htoken
            exact Order.leasedTo_iff.mpr ⟨d', hdispatch, hstate, htoken⟩

/-- The token of a claim is the only one it leaves valid. -/
theorem claim_leased {attempt : Nat} {leaseUntil : Time} {token' : String}
    (hlease : (o.claim attempt token leaseUntil now).leasedTo token') :
    token' = token := by
  obtain ⟨d, hd, -, htoken⟩ := Order.leasedTo_iff.mp hlease
  obtain ⟨d', -, rfl⟩ := Option.map_eq_some_iff.mp hd
  exact (Option.some.inj htoken).symm

/-- A row that is not `inflight` is leased to nobody. -/
theorem not_leased_of_map {f : Dispatch → Dispatch}
    (hdispatch : o'.dispatch = o.dispatch.map f)
    (hf : ∀ d, (f d).state ≠ .inflight) : ¬ o'.leasedTo token := by
  intro hlease
  obtain ⟨d', hd', hstate, -⟩ := Order.leasedTo_iff.mp hlease
  rw [hdispatch] at hd'
  obtain ⟨d, -, rfl⟩ := Option.map_eq_some_iff.mp hd'
  exact hf d hstate

/-- A write under `WHERE state!='delivered'`. -/
theorem not_inflight_of_undelivered {d d' : Dispatch} (h : d'.state ≠ .inflight) :
    (if d.state ≠ .delivered then d' else d).state ≠ .inflight := by
  split
  · exact h
  · rename_i hdelivered
    rw [not_not.mp hdelivered]
    exact nofun

theorem cancel_not_leased {outcome : Terminal} {reason : String} :
    ¬ (o.cancel outcome reason now).leasedTo token :=
  not_leased_of_map rfl (fun _ => not_inflight_of_undelivered nofun)

theorem recordDispatch_not_leased {dagRunId : String} :
    ¬ (o.recordDispatch dagRunId now).leasedTo token :=
  not_leased_of_map recordDispatch_dispatch (fun _ => nofun)

theorem releaseDispatch_not_leased
    {error : String} {observation : Option String} :
    ¬ (o.releaseDispatch error observation now).leasedTo token :=
  not_leased_of_map releaseDispatch_dispatch (fun _ => nofun)

theorem markUndeliverable_not_leased
    {error : String} {observation : Option String} :
    ¬ (o.markUndeliverable error observation now).leasedTo token :=
  not_leased_of_map markUndeliverable_dispatch
    (fun _ => not_inflight_of_undelivered nofun)

theorem noteOutcome_leased {error : String} {observation : Option String}
    (hlease : (o.noteOutcome error observation).leasedTo token) :
    o.leasedTo token := by
  obtain ⟨d, hd, hstate, htoken⟩ := Order.leasedTo_iff.mp hlease
  obtain ⟨d', hd', rfl⟩ := Option.map_eq_some_iff.mp hd
  exact Order.leasedTo_iff.mpr ⟨d', hd', hstate, htoken⟩

end Leases

section Invariant

variable {hashes : Hashes} {limits : Limits} {c c' : Configuration}
variable {log : List Event} {rows : List Order}
variable {workId : String} {f : Order → Order}

/-- Whoever the dispatch row is leased to is the holder by the log. -/
def Order.Fenced (log : List Event) (o : Order) : Prop :=
  ∀ token, o.leasedTo token → Holds o.workId token log

/-- The leases of all orders agree with the log. -/
def Fenced (c : Configuration) : Prop :=
  ∀ o ∈ c.store.orders, o.Fenced c.log

/-- A change that hands out no lease. -/
theorem fenced_update
    (hkey : ∀ o, (f o).workId = o.workId)
    (hf : ∀ o token, (f o).leasedTo token → o.leasedTo token)
    (h : ∀ o ∈ rows, o.Fenced log) :
    ∀ o ∈ updateRows Order.workId workId f rows, o.Fenced log := by
  refine forall_updateRows h (fun o _ _ ho token hlease => ?_)
  rw [hkey]
  exact ho token (hf o token hlease)

/-- An event of one order leaves the holders of the others alone. -/
theorem fenced_event {e : Event}
    (hf : ∀ o ∈ rows, o.workId = e.workId → (f o).Fenced (e :: log))
    (h : ∀ o ∈ rows, o.Fenced log) :
    ∀ o ∈ updateRows Order.workId e.workId f rows, o.Fenced (e :: log) := by
  intro o' ho'
  obtain ⟨o, ho, rfl⟩ := mem_updateRows.mp ho'
  split
  · rename_i hwork
    exact hf o ho hwork
  · rename_i hwork
    exact fun token hlease => (h o ho token hlease).cons (Ne.symm hwork)

/-- A claim makes its own token the valid one. -/
theorem Claims.fenced {p : Nat} {now : Time}
    (h : Claims hashes p workId now c c') (hc : Fenced c) : Fenced c' := by
  cases h with
  | refused => exact hc
  | granted o attempt leaseUntil hrow hclaimable =>
      refine fenced_event (e := .claimed workId _) ?_ hc
      intro o' _ hwork token hlease
      rw [claim_leased hlease,
        show (o'.claim _ _ _ _).workId = workId from hwork]
      exact holds_claimed

theorem insert_fenced {args : Submission} {block : Option CapacityBlock}
    {now : Time} {base : Store}
    (h : ∀ o ∈ base.orders, o.Fenced log) :
    ∀ o ∈ (args.insert hashes block now base).orders, o.Fenced log := by
  intro o ho
  rcases List.mem_append.mp ho with ho | ho
  · exact h o ho
  · -- the dispatch row of a new order is pending, if there is one
    rw [List.mem_singleton.mp ho]
    intro token hlease
    cases block <;> simp [Submission.rows, Order.leasedTo, openDispatch] at hlease

/-- Every call keeps the leases fenced. -/
theorem Effect.fenced {p : Nat} {clock : Clock} {op : Op}
    (h : Effect hashes limits p clock c op c')
    (hs : c.store.Keyed) (hc : Fenced c) : Fenced c' := by
  cases h with
  | answered horders hsequence => exact fun o ho => hc o (horders ▸ ho)
  | queued hvalid hnew horders hsequence =>
      exact insert_fenced (horders ▸ hc)
  | accepted hvalid hnew hfits horders hsequence hclaims =>
      exact hclaims.fenced (insert_fenced (horders ▸ hc))
  | drained =>
      refine drainLoop_forall limits clock _ (fun o o' hturn ho => ?_) hs hc
      intro token hlease
      have hwork : o'.workId = o.workId := by cases hturn <;> rfl
      rw [hwork]
      exact ho token (hturn.leased hlease)
  | kept => exact hc
  | @cancelled workId =>
      exact fenced_event (e := .cancelled workId)
        (fun _ _ _ _ hlease => absurd hlease cancel_not_leased) hc
  | unmatched hhits => exact fenced_update (fun _ => rfl) (fun _ _ => id) hc
  | ended hrow hhits =>
      refine fenced_update (fun o => (Order.settle_sameWork _ _).workId)
        (fun o token hlease => ?_) hc
      unfold Order.leasedTo at hlease
      rwa [settle_dispatch] at hlease
  | claimed hclaims => exact hclaims.fenced hc
  | epoch hrow hlease => exact fenced_update (fun _ => rfl) (fun _ _ => id) hc
  | @recorded workId =>
      exact fenced_event (e := .recorded workId)
        (fun _ _ _ _ hlease => absurd hlease recordDispatch_not_leased) hc
  | @released workId =>
      exact fenced_event (e := .released workId)
        (fun _ _ _ _ hlease => absurd hlease releaseDispatch_not_leased) hc
  | @retired workId =>
      exact fenced_event (e := .retired workId)
        (fun _ _ _ _ hlease => absurd hlease markUndeliverable_not_leased) hc
  | noted =>
      exact fenced_update (fun _ => rfl) (fun _ _ => noteOutcome_leased) hc

end Invariant

section Progress

variable {Q : Order → Terminal → Prop}
variable {o o' : Order}

/-- Where the state of an order can go from its last states. -/
structure Order.Advances (o o' : Order) : Prop where
  closed : ∀ t, o.state = .closed t → o'.state = .closed t
  bound : o.state = .bound → o'.state = .bound ∨ ∃ t, o'.state = .closed t

theorem Order.Advances.of_eq (h : o'.state = o.state) : o.Advances o' :=
  ⟨fun _ ht => h.trans ht, fun hbound => Or.inl (h.trans hbound)⟩

/-- An order that is not in one of its last states may go anywhere. -/
theorem Order.Advances.of_early
    (h : o.state = .queued ∨ o.state = .admitted ∨ o.state = .dispatching) :
    o.Advances o' := by
  constructor
  · intro _ ht
    simp [ht] at h
  · intro hbound
    simp [hbound] at h

theorem Order.Advances.trans {a b c : Order}
    (hab : a.Advances b) (hbc : b.Advances c) : a.Advances c where
  closed := fun t ht => hbc.closed t (hab.closed t ht)
  bound := by
    intro hbound
    rcases hab.bound hbound with hb | ⟨t, ht⟩
    · exact hbc.bound hb
    · exact Or.inr ⟨t, hbc.closed t ht⟩

/-- A write under `WHERE state='dispatching'`. -/
theorem Order.Advances.of_dispatching
    (h : o.state ≠ .dispatching → o'.state = o.state) : o.Advances o' := by
  by_cases hstate : o.state = .dispatching
  · exact .of_early (Or.inr (Or.inr hstate))
  · exact .of_eq (h hstate)

theorem settle_advances {now : Time} : o.Advances (o.settle now) := by
  constructor
  · intro t ht
    rw [settle_state, ht, if_neg (by simp [OrderState.holding])]
  · intro hbound
    rw [settle_state]
    split
    · exact Or.inr ⟨_, rfl⟩
    · exact Or.inl hbound

/-- Every change advances the order. -/
theorem Change.advances (h : Change Q o o') : o.Advances o' := by
  cases h with
  | cancelled outcome reason now hstate hallowed =>
      refine .of_early ?_
      cases hs : o.state <;> simp [hs, OrderState.cancellable] at hstate ⊢
  | ended cellId epoch outcome now hhits =>
      have hended : o.Advances (o.endMember cellId epoch outcome) := .of_eq rfl
      exact hended.trans settle_advances
  | claimed inflight attempt token leaseUntil now hclaimable =>
      exact .of_early (Or.inr (claimable_some hclaimable).1)
  | recorded token dagRunId now hlease hepochs =>
      exact .of_dispatching (fun h => recordDispatch_state.trans (if_neg h))
  | released token error observation now hlease =>
      exact .of_dispatching (fun h => releaseDispatch_state.trans (if_neg h))
  | retired error observation now =>
      exact .of_dispatching
        (fun h => markUndeliverable_state.trans (if_neg h))
  | _ => exact .of_eq rfl

variable {hashes : Hashes} {limits : Limits} {s s' : Store}

/-- Every order of `s` is still there in `s'`, and has advanced. -/
def Store.Advances (s s' : Store) : Prop :=
  ∀ workId o, s.row workId = some o →
    ∃ o', s'.row workId = some o' ∧ o.Advances o'

theorem Store.advances_update {w : String} {f : Order → Order}
    (hkey : ∀ o, (f o).workId = o.workId)
    (hf : ∀ o ∈ s.orders, o.workId = w → o.Advances (f o)) :
    s.Advances (s.update w f) := by
  intro workId o hrow
  rw [Store.row_update hkey, hrow]
  refine ⟨_, rfl, ?_⟩
  dsimp only
  split
  · rename_i hwork
    exact hf o (Store.row_some hrow).1 hwork
  · exact .of_eq rfl

theorem Transition.advances (h : Transition Q hashes limits s s')
    (hs : s.Keyed) : s.Advances s' := by
  cases h with
  | books horders hsequence =>
      intro workId o hrow
      exact ⟨o, (Store.row_congr horders workId).trans hrow, .of_eq rfl⟩
  | change workId f hf hkey =>
      exact Store.advances_update hkey (fun o ho hwork => (hf o ho hwork).advances)
  | deferred workId now =>
      refine Store.advances_update (s := s.nextSequence.2) (fun o => ?_)
        (fun o _ _ => .of_eq ?_) <;> split <;> rfl
  | admitted item now hitem hqueued hfits =>
      refine Store.advances_update (fun _ => rfl) (fun o ho hwork => ?_)
      obtain rfl := Machine.Keyed.eq hs ho hitem hwork
      exact .of_early (Or.inl hqueued)
  | submitted args block now hvalid hnew hfits horders hsequence =>
      intro workId o hrow
      refine ⟨o, ?_, .of_eq rfl⟩
      unfold Store.row lookup at hrow ⊢
      rw [horders, List.find?_append, hrow]
      rfl

theorem Transitions.advances (h : Transitions Q hashes limits s s')
    (hs : s.Keyed) : s.Advances s' := by
  induction h with
  | refl => exact fun workId o hrow => ⟨o, hrow, .of_eq rfl⟩
  | tail hpre hlast ih =>
      intro workId o hrow
      obtain ⟨o₁, hrow₁, hadvances₁⟩ := ih workId o hrow
      obtain ⟨o₂, hrow₂, hadvances₂⟩ :=
        hlast.advances (Transitions.keyed hpre hs) workId o₁ hrow₁
      exact ⟨o₂, hrow₂, hadvances₁.trans hadvances₂⟩

/-- A bound order has a Factory Cell epoch for every member. -/
def Order.Activated (o : Order) : Prop :=
  o.state = .bound → ∀ m ∈ o.members, m.cellEpoch ≠ none

/-- Members may be rewritten as long as no epoch is lost. -/
theorem Order.Activated.of_map {f : Member → Member}
    (h : o.Activated)
    (hstate : o'.state = .bound → o.state = .bound)
    (hmembers : o'.members = o.members.map f)
    (hf : ∀ m, m.cellEpoch ≠ none → (f m).cellEpoch ≠ none) :
    o'.Activated := by
  intro hbound m hm
  rw [hmembers] at hm
  obtain ⟨m', hm', rfl⟩ := List.mem_map.mp hm
  exact hf m' (h (hstate hbound) m' hm')

theorem Order.Activated.of_not_bound (h : o.state ≠ .bound) : o.Activated :=
  fun hbound => absurd hbound h

/-- A change of the state that does not bind. -/
theorem Order.Activated.of_members (h : o.Activated)
    (hstate : o'.state = .bound → o.state = .bound)
    (hmembers : o'.members = o.members) : o'.Activated := by
  intro hbound
  rw [hmembers]
  exact h (hstate hbound)

/-- Only a recorded delivery binds, and it needs the epochs. -/
theorem Change.activated (h : Change Q o o') (ho : o.Activated) :
    o'.Activated := by
  have hended : ∀ cellId epoch outcome,
      (o.endMember cellId epoch outcome).Activated := fun _ _ _ =>
    ho.of_map (fun h => h) rfl (by intro m hm; split <;> exact hm)
  cases h with
  | limited block now => exact ho
  | cancelled outcome reason now hstate hallowed =>
      exact .of_not_bound (by simp [Order.cancel])
  | ended cellId epoch outcome now hhits =>
      refine (hended cellId epoch outcome).of_members ?_ settle_members
      rw [settle_state]
      split <;> simp
  | unmatched cellId epoch outcome hhits => exact hended cellId epoch outcome
  | claimed inflight attempt token leaseUntil now hclaimable =>
      exact .of_not_bound (by simp [Order.claim])
  | epoch token jobIdx epoch hlease =>
      refine ho.of_map (fun h => h) rfl (fun m hm => ?_)
      split
      · simp
      · exact hm
  | recorded token dagRunId now hlease hepochs =>
      have hall : ∀ m ∈ o.members, m.cellEpoch ≠ none := by
        simpa [Order.missingEpochs] using hepochs
      intro _
      rw [recordDispatch_members]
      exact hall
  | released token error observation now hlease =>
      refine ho.of_members ?_ releaseDispatch_members
      rw [releaseDispatch_state]
      split <;> simp
  | retired error observation now =>
      refine ho.of_members ?_ markUndeliverable_members
      rw [markUndeliverable_state]
      split <;> simp
  | noted error observation => exact ho

theorem Transition.activated (h : Transition Q hashes limits s s')
    (hall : ∀ o ∈ s.orders, o.Activated) : ∀ o ∈ s'.orders, o.Activated := by
  cases h with
  | books horders hsequence => exact horders ▸ hall
  | change workId f hf hkey =>
      exact forall_updateRows hall
        (fun o ho hwork h => (hf o ho hwork).activated h)
  | deferred workId now =>
      refine forall_updateRows hall (fun o ho hwork h => ?_)
      split <;> exact h
  | admitted item now hitem hqueued hfits =>
      exact forall_updateRows hall
        (fun o ho hwork h => .of_not_bound (by simp [Order.drain]))
  | submitted args block now hvalid hnew hfits horders hsequence =>
      rw [horders]
      intro o ho
      rcases List.mem_append.mp ho with ho | ho
      · exact hall o ho
      · rw [List.mem_singleton.mp ho]
        refine .of_not_bound ?_
        cases block <;> simp [Submission.rows]

end Progress

section Fencing

variable {hashes : Hashes} {limits : Limits} {throttles : List Throttle}
variable {c : Configuration} {m : Move}

/-- The order and the token that a call must hold the lease for. -/
def Op.lease : Op → Option (String × String)
  | .recordMemberEpoch workId _ _ token => some (workId, token)
  | .recordDispatch workId token _ => some (workId, token)
  | .releaseDispatch workId token _ _ => some (workId, token)
  | _ => none

/-- A call on a lease succeeds for the holder only. -/
def HolderOnly
    (hashes : Hashes) (limits : Limits) (c : Configuration) : Move → Prop
  | .call p op clock =>
      ∀ workId token result, op.lease = some (workId, token) →
        exec hashes limits p clock c op = .ok result →
        Holds workId token c.log
  | .crash _ => True

/-- The move makes the order bound. -/
def Binds
    (hashes : Hashes) (limits : Limits) (workId : String)
    (c : Configuration) (m : Move) : Prop :=
  (∀ o, c.store.row workId = some o → o.state ≠ .bound) ∧
    ∃ o, (step hashes limits c m).store.row workId = some o ∧
      o.state = .bound

/-- The move leaves every terminal order in its terminal state. -/
def KeepsTerminal
    (hashes : Hashes) (limits : Limits) (c : Configuration) (m : Move) :
    Prop :=
  ∀ workId o t, c.store.row workId = some o → o.state = .closed t →
    ∃ o', (step hashes limits c m).store.row workId = some o' ∧
      o'.state = .closed t

theorem step_advances (hs : c.store.Keyed) :
    c.store.Advances (step hashes limits c m).store :=
  Transitions.advances (step_transitions hs (m.cancels_true c)) hs

/-- A lease that is valid belongs to the holder. -/
theorem Fenced.holderOnly (h : Fenced c) (hs : c.store.Keyed) :
    HolderOnly hashes limits c m := by
  cases m with
  | crash p => trivial
  | call p op clock =>
      rintro workId token ⟨out, c'⟩ hop hexec
      have hleased : ∃ o, c.store.row workId = some o ∧ o.leasedTo token := by
        cases exec_effect hs hexec with
        | epoch hrow hlease =>
            cases hop
            exact ⟨_, hrow, hlease⟩
        | recorded hrow hlease hepochs =>
            cases hop
            exact ⟨_, hrow, hlease⟩
        | released hrow hlease =>
            cases hop
            exact ⟨_, hrow, hlease⟩
        | _ => cases hop
      obtain ⟨o, hrow, hlease⟩ := hleased
      obtain ⟨ho, rfl⟩ := Store.row_some hrow
      exact h o ho token hlease

theorem reachable_fenced
    (hc : Reachable (step hashes limits) (start throttles) c) :
    c.store.Keyed ∧ Fenced c := by
  refine Reachable.invariant (P := fun c => c.store.Keyed ∧ Fenced c)
    ⟨List.nodup_nil, by simp [Fenced, start]⟩ (fun c m h => ?_) hc
  refine ⟨step_keyed h.1, ?_⟩
  cases m with
  | call p op clock =>
      exact step_call h.2
        (fun _ _ hexec => (exec_effect h.1 hexec).fenced h.1 h.2)
  | crash p => exact h.2

/-- Once bound, an order is bound or terminal in every later state. -/
theorem settled_run {workId : String} {o : Order}
    (hs : c.store.Keyed) (hrow : c.store.row workId = some o)
    (hstate : o.state = .bound ∨ ∃ t, o.state = .closed t) (ms : List Move) :
    ∃ o', (runFrom (step hashes limits) c ms).store.row workId = some o' ∧
      (o'.state = .bound ∨ ∃ t, o'.state = .closed t) := by
  induction ms generalizing c o with
  | nil =>
      exact ⟨o, hrow, hstate⟩
  | cons m ms ih =>
      obtain ⟨o', hrow', hadvances⟩ := step_advances hs workId o hrow
      refine ih (step_keyed hs) hrow' ?_
      rcases hstate with hbound | ⟨t, ht⟩
      · exact hadvances.bound hbound
      · exact Or.inr ⟨t, hadvances.closed t ht⟩

/-- **An order is bound once.** -/
theorem binds_once {workId : String} {m m' : Move} {mid : List Move}
    (hs : c.store.Keyed)
    (hfirst : Binds hashes limits workId c m) :
    ¬ Binds hashes limits workId
      (runFrom (step hashes limits) c (m :: mid)) m' := by
  rintro ⟨hunbound, o', hrow', hbound'⟩
  obtain ⟨-, o, hrow, hbound⟩ := hfirst
  obtain ⟨o₁, hrow₁, hstate₁⟩ :=
    settled_run (step_keyed hs) hrow (Or.inl hbound) mid
  have hkeyed : (runFrom (step hashes limits) c (m :: mid)).store.Keyed :=
    Reachable.invariant (P := fun c : Configuration => c.store.Keyed) hs
      (fun _ _ hs => step_keyed hs) ⟨m :: mid, rfl⟩
  -- the order is terminal by then, and no move makes it bound again
  obtain ⟨t, ht⟩ := hstate₁.resolve_left (hunbound o₁ hrow₁)
  obtain ⟨o₂, hrow₂, hadvances⟩ := step_advances hkeyed workId o₁ hrow₁
  rw [hrow₂] at hrow'
  cases hrow'
  rw [hadvances.closed t ht] at hbound'
  cases hbound'

/--
**Dispatch fencing.**  In every run, with any number of processes and leases
that expire at any time: a call on a lease succeeds only for the token of the
latest claim, with nothing that ends the intent since; a bound order has an
epoch for every member; no order is bound twice; and no terminal state is left.
-/
theorem dispatch_fenced
    (hashes : Hashes) (limits : Limits) (throttles : List Throttle)
    (ms : List Move) :
    AlongRun (step hashes limits)
        (fun c m => HolderOnly hashes limits c m ∧
          KeepsTerminal hashes limits c m)
        (start throttles) ms ∧
      EveryState (step hashes limits)
        (fun c => ∀ o ∈ c.store.orders, o.Activated) (start throttles) ms ∧
      ∀ workId pre m mid m' post, ms = pre ++ m :: mid ++ m' :: post →
        ¬ (Binds hashes limits workId
              (runFrom (step hashes limits) (start throttles) pre) m ∧
            Binds hashes limits workId
              (runFrom (step hashes limits) (start throttles)
                (pre ++ m :: mid)) m') := by
  refine ⟨?_, ?_, ?_⟩
  · rw [alongRun_iff]
    intro pre m post _
    obtain ⟨hkeyed, hfenced⟩ := reachable_fenced (reachable_runFrom _ pre)
    refine ⟨hfenced.holderOnly hkeyed, fun workId o t hrow ht => ?_⟩
    obtain ⟨o', hrow', hadvances⟩ := step_advances hkeyed workId o hrow
    exact ⟨o', hrow', hadvances.closed t ht⟩
  · rw [everyState_iff]
    intro pre post _
    exact (reachable_store (P := fun s => ∀ o ∈ s.orders, o.Activated)
      (by simp [start]) (fun _ _ _ hall h => h.activated hall)
      (reachable_runFrom _ pre)).2
  · rintro workId pre m mid m' post - ⟨hfirst, hsecond⟩
    rw [runFrom_append] at hsecond
    exact binds_once (reachable_fenced (reachable_runFrom _ pre)).1 hfirst hsecond

end Fencing

end Admission
end SwFactory
