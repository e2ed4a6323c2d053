import Mathlib.Logic.Relation
import SwFactory.Machine.Runs
import SwFactory.Admission.Scheduling

/-!
# Durable admission: the system and its transitions

Any number of processes call operations on one store; a call is one
transaction.  A crash loses the `_inflight` map of a process and nothing else.
The configuration also keeps a log of what happened to the dispatch intents,
latest first: it is no part of the program, the properties talk about it.

Everything a transaction can do to a store is said once.  `Change` lists what can
happen to a single order, with the guard under which the operation does it;
`Transition` lists the atomic changes of a store, and every transaction is a
sequence of them.  The invariants of the following modules are proved over
these two relations, not over the operations.  The drain is taken apart here,
turn by turn; the other calls are in `Calls`.
-/

namespace SwFactory
namespace Admission

open Text Machine Relation

/-! ## The system -/

/-- The calls of the store, with their arguments. -/
inductive Op
  | submit (args : Submission)
  | drain (limit : Option Int)
  | cancel (workId reason state : String)
  | complete (workId cellId : String) (epoch : Int) (state : String)
  | claimDispatch (workId : String) (lease : Option Int)
  | recordMemberEpoch (workId : String) (jobIdx epoch : Int) (token : String)
  | recordDispatch (workId token dagRunId : String)
  | releaseDispatch
      (workId token error : String) (observation : Option String)
  | markUndeliverable
      (workId error : String) (observation : Option String)
  | noteOutcome (workId error : String) (observation : Option String)
deriving DecidableEq, Repr

/-- What a call returns. -/
inductive Outcome
  | decision (decision : AdmissionDecision)
  | admitted (workIds : List String)
  /-- Whether the transaction had the effect that a drain follows. -/
  | drains (follows : Bool)
  | intent (intent : Option DispatchIntent)
  | nothing
deriving DecidableEq, Repr

/--
What the log of the dispatch intents records: claims that returned an intent,
and the calls that end one.  A call that raises is not recorded, nor is a
`cancel` that finds nothing to cancel.
-/
inductive Event
  | claimed (workId token : String)
  | released (workId : String)
  | cancelled (workId : String)
  | retired (workId : String)
  | recorded (workId : String)
deriving DecidableEq, Repr

/-- The store, the memory of every process, and the log. -/
structure Configuration where
  store : Store
  inflight : Nat → Inflight
  log : List Event

/-- What happens next: a process makes a call, or stops. -/
inductive Move
  | call (pid : Nat) (op : Op) (clock : Clock)
  | crash (pid : Nat)

/-- `self._inflight[work_id] = token`, or `pop` when there is no token. -/
def setInflight
    (inflight : Nat → Inflight) (p : Nat) (workId : String)
    (token : Option String) : Nat → Inflight :=
  Function.update inflight p (Function.update (inflight p) workId token)

/-- The claim an answer carries, in the memory of its process. -/
def noteClaim (p : Nat) (intent : Option DispatchIntent)
    (c : Configuration) : Configuration :=
  match intent with
  | none => c
  | some i =>
      { c with
        inflight := setInflight c.inflight p i.workId (some i.leaseToken)
        log := .claimed i.workId i.leaseToken :: c.log }

section Step

variable (hashes : Hashes) (limits : Limits)

/-- One call of process `p`; an exception changes nothing. -/
def exec (p : Nat) (clock : Clock) (c : Configuration) :
    Op → Except AdmissionError (Outcome × Configuration)
  | .submit args => do
      let (decision, s) ←
        submit hashes limits (c.inflight p) args clock c.store
      .ok (.decision decision, noteClaim p decision.intent { c with store := s })
  | .drain limit =>
      let out := drain limits limit clock c.store
      .ok (.admitted out.1, { c with store := out.2 })
  | .cancel workId reason state => do
      let (effective, s) ← cancel workId reason state (clock 0) c.store
      if effective then
        .ok (.drains true,
          { store := s
            inflight := setInflight c.inflight p workId none
            log := .cancelled workId :: c.log })
      else .ok (.drains false, { c with store := s })
  | .complete workId cellId epoch state => do
      let (last, s) ← complete workId cellId epoch state (clock 0) c.store
      .ok (.drains last, { c with store := s })
  | .claimDispatch workId lease =>
      let out :=
        claim hashes (c.inflight p) workId lease (clock 0) c.store
      .ok (.intent out.1, noteClaim p out.1 { c with store := out.2 })
  | .recordMemberEpoch workId jobIdx epoch token => do
      let s ← recordMemberEpoch workId jobIdx epoch token c.store
      .ok (.nothing, { c with store := s })
  | .recordDispatch workId token dagRunId => do
      let s ← recordDispatch workId token dagRunId (clock 0) c.store
      .ok (.nothing,
        { store := s
          inflight := setInflight c.inflight p workId none
          log := .recorded workId :: c.log })
  | .releaseDispatch workId token error observation => do
      let s ←
        releaseDispatch workId token error observation (clock 0) c.store
      .ok (.nothing,
        { store := s
          inflight := setInflight c.inflight p workId none
          log := .released workId :: c.log })
  | .markUndeliverable workId error observation =>
      .ok (.nothing,
        { store := markUndeliverable workId error observation (clock 0) c.store
          inflight := setInflight c.inflight p workId none
          log := .retired workId :: c.log })
  | .noteOutcome workId error observation =>
      .ok (.nothing,
        { c with
          store := noteOutcome workId error observation c.store
          inflight := setInflight c.inflight p workId none })

/-- One move of the system. -/
def step (c : Configuration) : Move → Configuration
  | .call p op clock =>
      match exec hashes limits p clock c op with
      | .ok (_, c') => c'
      | .error _ => c
  | .crash p =>
      { c with inflight := Function.update c.inflight p (fun _ => none) }

end Step

/--
An empty store.  Nothing in the program writes the table of throttles, so it
may hold anything.
-/
def start (throttles : List Throttle) : Configuration where
  store := { throttles := throttles }
  inflight := fun _ _ => none
  log := []

section Samples

/-- The payload of the sample orders. -/
def samplePayload : Payload :=
  ⟨1, "\x7b\"schema_version\":1\x7d"⟩

/-- SHA-256 on the inputs of the sample runs, all at clock reading `0`. -/
def sampleHashes : Hashes where
  requestDigest _ :=
    "sha256:a9d5f6d002d956b8af5787a05e0ca000d45c03977ffa54ee8fbed719fed5fd23"
  multiRepoKey _ := "multi:"
  leaseToken workId attempt _ :=
    if workId = "w-1" then
      match attempt with
      | 1 => "94f6940c8644019dd3a2900a1dbc44d6"
      | 2 => "f4f14c8a7a7816e15019763fde8b70bd"
      | 3 => "c81e61652936a5680b2fa8eb8b157bba"
      | 4 => "c7319b54a17050210fba64a1759839a4"
      | _ => "b9132e26653eba6259a6a9a6056f0590"
    else if workId = "w-2" then "d2e7c8d9e1d5ea9ffc3fa3684b7edded"
    else if workId = "w-3" then "4789a13c4650ca1ee4704053ea789194"
    else "991d2bd46b7356823ec2d9e6710add48"

/-- A submission of the sample payload. -/
def sampleSubmit
    (workId actor : String) (priority : Priority)
    (members : List MemberSpec) : Op :=
  .submit
    { workId := workId
      actor := actor
      blueprint := "feature"
      order := samplePayload
      members := members
      priority := priority }

/-- A call of process `0` at clock reading `0`. -/
def sampleCall (op : Op) : Move :=
  .call 0 op (fun _ => 0)

end Samples

/-! ## Transitions -/

/--
What can happen to one order, apart from admission and deferral.  `Q` restricts
the outcomes that orders are cancelled with.
-/
inductive Change (Q : Order → Terminal → Prop) : Order → Order → Prop
  | limited (o : Order) (block : CapacityBlock) (now : Time) :
      Change Q o { o with limiting := some block, updatedAt := now }
  | cancelled (o : Order) (outcome : Terminal) (reason : String) (now : Time)
      (hstate : o.state.cancellable)
      (hallowed : Q o outcome) :
      Change Q o (o.cancel outcome reason now)
  | ended (o : Order)
      (cellId : String) (epoch : Int) (outcome : Terminal) (now : Time)
      (hhits : o.members.countP (Member.matches_ cellId epoch) = 1) :
      Change Q o ((o.endMember cellId epoch outcome).settle now)
  | unmatched (o : Order)
      (cellId : String) (epoch : Int) (outcome : Terminal)
      (hhits : o.members.countP (Member.matches_ cellId epoch) ≠ 1) :
      Change Q o (o.endMember cellId epoch outcome)
  | claimed (o : Order)
      (inflight : Inflight) (attempt : Nat) (token : String)
      (leaseUntil now : Time)
      (hclaimable : claimable inflight now o = some attempt) :
      Change Q o (o.claim attempt token leaseUntil now)
  | epoch (o : Order) (token : String) (jobIdx epoch : Int)
      (hlease : o.leasedTo token) :
      Change Q o (o.recordMemberEpoch jobIdx epoch)
  | recorded (o : Order) (token dagRunId : String) (now : Time)
      (hlease : o.leasedTo token)
      (hepochs : o.missingEpochs = 0) :
      Change Q o (o.recordDispatch dagRunId now)
  | released (o : Order) (token error : String)
      (observation : Option String) (now : Time)
      (hlease : o.leasedTo token) :
      Change Q o (o.releaseDispatch error observation now)
  | retired (o : Order) (error : String) (observation : Option String)
      (now : Time) :
      Change Q o (o.markUndeliverable error observation now)
  | noted (o : Order) (error : String) (observation : Option String) :
      Change Q o (o.noteOutcome error observation)

/-- The atomic changes of a store. -/
inductive Transition
    (Q : Order → Terminal → Prop) (hashes : Hashes) (limits : Limits) :
    Store → Store → Prop
  /-- Fairness, throttles and the sequence counter. -/
  | books {s s' : Store}
      (horders : s'.orders = s.orders)
      (hsequence : s.sequence ≤ s'.sequence) :
      Transition Q hashes limits s s'
  | change {s : Store} (workId : String) (f : Order → Order)
      (hf : ∀ o ∈ s.orders, o.workId = workId → Change Q o (f o))
      (hkey : ∀ o, (f o).workId = o.workId) :
      Transition Q hashes limits s (s.update workId f)
  | deferred {s : Store} (workId : String) (now : Time) :
      Transition Q hashes limits s (deferSequence workId now s)
  | admitted {s : Store} (item : Order) (now : Time)
      (hitem : item ∈ s.orders)
      (hqueued : item.state = .queued)
      (hfits : capacityBlock limits s (item.members.map Member.repo)
        item.actor item.blueprint = none) :
      Transition Q hashes limits s (s.update item.workId (Order.drain now))
  | submitted {s s' : Store} (args : Submission)
      (block : Option CapacityBlock) (now : Time)
      (hvalid : validateSubmission args = .ok ())
      (hnew : s.row args.workId = none)
      (hfits : block = none →
        capacityBlock limits s args.repos args.actor args.blueprint = none)
      (horders : s'.orders =
        s.orders ++ [args.rows hashes block (s.sequence + 1) now])
      (hsequence : s'.sequence = s.sequence + 1) :
      Transition Q hashes limits s s'

/-- A sequence of atomic changes. -/
abbrev Transitions
    (Q : Order → Terminal → Prop) (hashes : Hashes) (limits : Limits) :
    Store → Store → Prop :=
  ReflTransGen (Transition Q hashes limits)

section Fields

variable {o : Order} {now : Time}
variable {dagRunId error : String} {observation : Option String}

@[simp] theorem settle_members : (o.settle now).members = o.members := by
  unfold Order.settle
  split
  · rfl
  · split <;> rfl

@[simp] theorem settle_dispatch : (o.settle now).dispatch = o.dispatch := by
  unfold Order.settle
  split
  · rfl
  · split <;> rfl

@[simp] theorem settle_sequence : (o.settle now).sequence = o.sequence := by
  unfold Order.settle
  split
  · rfl
  · split <;> rfl

theorem settle_state :
    (o.settle now).state =
      if o.remaining = 0 ∧ o.state.holding then
        .closed (Terminal.worst o.outcomes)
      else o.state := by
  unfold Order.settle
  by_cases hlast : o.remaining = 0
  · by_cases hholding : o.state.holding = true
    · simp [hlast, hholding]
    · simp [hlast, hholding]
  · simp [hlast]

@[simp] theorem recordDispatch_members :
    (o.recordDispatch dagRunId now).members = o.members := by
  unfold Order.recordDispatch
  dsimp only
  split <;> rfl

@[simp] theorem recordDispatch_sequence :
    (o.recordDispatch dagRunId now).sequence = o.sequence := by
  unfold Order.recordDispatch
  dsimp only
  split <;> rfl

theorem recordDispatch_state :
    (o.recordDispatch dagRunId now).state =
      if o.state = .dispatching then .bound else o.state := by
  unfold Order.recordDispatch
  dsimp only
  split <;> rfl

theorem recordDispatch_dispatch :
    (o.recordDispatch dagRunId now).dispatch =
      o.dispatch.map (fun d =>
        { d with
          state := .delivered
          leaseToken := none
          leaseUntil := none
          dagRunId := some dagRunId
          lastError := none }) := by
  unfold Order.recordDispatch
  dsimp only
  split <;> rfl

@[simp] theorem releaseDispatch_members :
    (o.releaseDispatch error observation now).members = o.members := by
  unfold Order.releaseDispatch
  dsimp only
  split <;> rfl

@[simp] theorem releaseDispatch_sequence :
    (o.releaseDispatch error observation now).sequence = o.sequence := by
  unfold Order.releaseDispatch
  dsimp only
  split <;> rfl

theorem releaseDispatch_state :
    (o.releaseDispatch error observation now).state =
      if o.state = .dispatching then .admitted else o.state := by
  unfold Order.releaseDispatch
  dsimp only
  split <;> rfl

theorem releaseDispatch_dispatch :
    (o.releaseDispatch error observation now).dispatch =
      o.dispatch.map (fun d =>
        { d with
          state := .pending
          leaseToken := none
          leaseUntil := none
          lastError := some (truncate 2000 error)
          observation := observation }) := by
  unfold Order.releaseDispatch
  dsimp only
  split <;> rfl

@[simp] theorem markUndeliverable_members :
    (o.markUndeliverable error observation now).members = o.members := by
  unfold Order.markUndeliverable
  dsimp only
  split <;> rfl

@[simp] theorem markUndeliverable_sequence :
    (o.markUndeliverable error observation now).sequence = o.sequence := by
  unfold Order.markUndeliverable
  dsimp only
  split <;> rfl

theorem markUndeliverable_state :
    (o.markUndeliverable error observation now).state =
      if o.state = .dispatching then .admitted else o.state := by
  unfold Order.markUndeliverable
  dsimp only
  split <;> rfl

theorem markUndeliverable_dispatch :
    (o.markUndeliverable error observation now).dispatch =
      o.dispatch.map (fun d =>
        if d.state ≠ .delivered then
          { d with
            state := .undeliverable
            leaseToken := none
            leaseUntil := none
            lastError := some (truncate 2000 error)
            observation := observation }
        else d) := by
  unfold Order.markUndeliverable
  dsimp only
  split <;> rfl

end Fields

section Keys

variable {Q : Order → Terminal → Prop}

/-- What an order is: nothing but its place in the queue ever changes. -/
structure SameWork (o o' : Order) : Prop where
  workId : o'.workId = o.workId
  repo : o'.repo = o.repo
  actor : o'.actor = o.actor
  blueprint : o'.blueprint = o.blueprint
  priority : o'.priority = o.priority
  order : o'.order = o.order
  repos : o'.members.map Member.repo = o.members.map Member.repo

/-- The members may be rewritten as long as they keep their repositories. -/
theorem map_repo_map {f : Member → Member}
    (hf : ∀ m, (f m).repo = m.repo) (ms : List Member) :
    (ms.map f).map Member.repo = ms.map Member.repo := by
  simp [Function.comp_def, hf]

theorem Order.settle_sameWork (now : Time) (o : Order) :
    SameWork o (o.settle now) := by
  unfold Order.settle
  split
  · exact ⟨rfl, rfl, rfl, rfl, rfl, rfl, rfl⟩
  · split <;> exact ⟨rfl, rfl, rfl, rfl, rfl, rfl, rfl⟩

theorem Order.recordDispatch_sameWork
    (dagRunId : String) (now : Time) (o : Order) :
    SameWork o (o.recordDispatch dagRunId now) := by
  unfold Order.recordDispatch
  dsimp only
  split <;> exact ⟨rfl, rfl, rfl, rfl, rfl, rfl, rfl⟩

theorem Order.releaseDispatch_sameWork
    (error : String) (observation : Option String) (now : Time) (o : Order) :
    SameWork o (o.releaseDispatch error observation now) := by
  unfold Order.releaseDispatch
  dsimp only
  split <;> exact ⟨rfl, rfl, rfl, rfl, rfl, rfl, rfl⟩

theorem Order.markUndeliverable_sameWork
    (error : String) (observation : Option String) (now : Time) (o : Order) :
    SameWork o (o.markUndeliverable error observation now) := by
  unfold Order.markUndeliverable
  dsimp only
  split <;> exact ⟨rfl, rfl, rfl, rfl, rfl, rfl, rfl⟩

theorem Order.endMember_sameWork
    (cellId : String) (epoch : Int) (outcome : Terminal) (o : Order) :
    SameWork o (o.endMember cellId epoch outcome) :=
  ⟨rfl, rfl, rfl, rfl, rfl, rfl,
    map_repo_map (by intro m; split <;> rfl) o.members⟩

theorem Order.recordMemberEpoch_sameWork (jobIdx epoch : Int) (o : Order) :
    SameWork o (o.recordMemberEpoch jobIdx epoch) :=
  ⟨rfl, rfl, rfl, rfl, rfl, rfl,
    map_repo_map (by intro m; split <;> rfl) o.members⟩

theorem Order.cancel_sameWork
    (outcome : Terminal) (reason : String) (now : Time) (o : Order) :
    SameWork o (o.cancel outcome reason now) :=
  ⟨rfl, rfl, rfl, rfl, rfl, rfl,
    map_repo_map (by intro m; split <;> rfl) o.members⟩

theorem SameWork.trans {a b c : Order}
    (hab : SameWork a b) (hbc : SameWork b c) : SameWork a c :=
  ⟨hbc.workId.trans hab.workId, hbc.repo.trans hab.repo,
    hbc.actor.trans hab.actor, hbc.blueprint.trans hab.blueprint,
    hbc.priority.trans hab.priority, hbc.order.trans hab.order,
    hbc.repos.trans hab.repos⟩

/-- No change touches what an order is. -/
theorem Change.sameWork {o o' : Order} (h : Change Q o o') : SameWork o o' := by
  cases h with
  | cancelled outcome reason now => exact o.cancel_sameWork outcome reason now
  | ended cellId epoch outcome now =>
      exact (o.endMember_sameWork cellId epoch outcome).trans
        (Order.settle_sameWork now _)
  | unmatched cellId epoch outcome =>
      exact o.endMember_sameWork cellId epoch outcome
  | epoch token jobIdx epoch => exact o.recordMemberEpoch_sameWork jobIdx epoch
  | recorded token dagRunId now => exact o.recordDispatch_sameWork dagRunId now
  | released token error observation now =>
      exact o.releaseDispatch_sameWork error observation now
  | retired error observation now =>
      exact o.markUndeliverable_sameWork error observation now
  | _ => exact ⟨rfl, rfl, rfl, rfl, rfl, rfl, rfl⟩

/-- The orders of a store have different work ids. -/
def Store.Keyed (s : Store) : Prop :=
  Machine.Keyed Order.workId s.orders

theorem Store.row_some {s : Store} {workId : String} {o : Order}
    (h : s.row workId = some o) : o ∈ s.orders ∧ o.workId = workId :=
  lookup_some h

/-- Under a known key there is one order only. -/
theorem Store.Keyed.of_row {s : Store} (h : s.Keyed)
    {workId : String} {o o' : Order}
    (hrow : s.row workId = some o)
    (ho' : o' ∈ s.orders) (hkey : o'.workId = workId) : o' = o := by
  obtain ⟨ho, hwork⟩ := Store.row_some hrow
  exact Machine.Keyed.eq h ho' ho (hkey.trans hwork.symm)

/-- An update is seen under its key and nowhere else. -/
theorem Store.row_update {s : Store} {w : String} {f : Order → Order}
    (hf : ∀ o, (f o).workId = o.workId) (workId : String) :
    (s.update w f).row workId =
      (s.row workId).map (fun o => if o.workId = w then f o else o) :=
  lookup_updateRows hf workId

theorem Store.row_update_self {s : Store} {w : String} {f : Order → Order}
    {o : Order}
    (hf : ∀ o, (f o).workId = o.workId) (hrow : s.row w = some o) :
    (s.update w f).row w = some (f o) := by
  rw [Store.row_update hf, hrow, Option.map_some,
    if_pos (Store.row_some hrow).2]

theorem Store.row_update_ne {s : Store} {w workId : String}
    {f : Order → Order}
    (hf : ∀ o, (f o).workId = o.workId) (hne : workId ≠ w) :
    (s.update w f).row workId = s.row workId := by
  rw [Store.row_update hf]
  cases hrow : s.row workId with
  | none => rfl
  | some o =>
      rw [Option.map_some, if_neg]
      rwa [(Store.row_some hrow).2]

theorem Store.update_update {s : Store} {w : String} {f g : Order → Order}
    (hf : ∀ o, (f o).workId = o.workId) :
    (s.update w f).update w g = s.update w (fun o => g (f o)) := by
  simp only [Store.update, updateRows_updateRows hf]

/-- Transitions keep the keys apart. -/
theorem Transition.keyed
    {hashes : Hashes} {limits : Limits} {s s' : Store}
    (h : Transition Q hashes limits s s') (hs : s.Keyed) : s'.Keyed := by
  cases h with
  | books horders hsequence =>
      rw [Store.Keyed, horders]
      exact hs
  | change workId f hf hkey =>
      exact Machine.Keyed.updateRows hs hkey
  | deferred workId now =>
      refine Machine.Keyed.updateRows hs (fun o => ?_)
      split <;> rfl
  | admitted item now hitem hqueued hfits =>
      exact Machine.Keyed.updateRows hs (fun o => rfl)
  | submitted args block now hvalid hnew hfits horders hsequence =>
      rw [Store.Keyed, Machine.Keyed, horders, List.map_append,
        List.nodup_append]
      refine ⟨hs, by simp, ?_⟩
      rintro w hw w' hw' rfl
      obtain ⟨o, ho, rfl⟩ := List.mem_map.mp hw
      have hargs : o.workId = args.workId := by
        simpa [Submission.rows] using hw'
      exact lookup_none hnew ho hargs

theorem Transitions.keyed
    {hashes : Hashes} {limits : Limits} {s s' : Store}
    (h : Transitions Q hashes limits s s') (hs : s.Keyed) : s'.Keyed := by
  induction h with
  | refl => exact hs
  | tail _ hstep ih => exact hstep.keyed ih

end Keys

section Turns

variable {Q : Order → Terminal → Prop}
variable {limits : Limits} {clock : Clock} {s : Store}

@[simp] theorem Store.topUp_orders : s.topUp.orders = s.orders := by
  unfold Store.topUp
  split <;> rfl

@[simp] theorem Store.topUp_sequence : s.topUp.sequence = s.sequence := by
  unfold Store.topUp
  split <;> rfl

@[simp] theorem Store.topUp_throttles : s.topUp.throttles = s.throttles := by
  unfold Store.topUp
  split <;> rfl

/-- The order that `drain` looks at next. -/
def Store.candidate (s : Store) : Option Order :=
  (nextFairCandidate s).1

/-- The bookkeeping of a turn of `drain` in front of its decision. -/
def Store.opened (s : Store) (now : Time) : Store :=
  { s.topUp with
    throttles := s.throttles.filter (fun t => decide (now < t.untilAt)) }

@[simp] theorem Store.opened_orders {now : Time} :
    (s.opened now).orders = s.orders :=
  Store.topUp_orders

/-- What stands in the way of an order, the rate limit included. -/
def Store.blockFor
    (limits : Limits) (s : Store) (now : Time) (o : Order) :
    Option CapacityBlock :=
  rateLimited (s.throttle o.repo now).1
    (capacityBlock limits s (o.members.map Member.repo) o.actor o.blueprint)

theorem mem_queuedRows {o : Order} :
    o ∈ s.queuedRows ↔ o ∈ s.orders ∧ o.state = .queued := by
  simp [Store.queuedRows]

theorem mem_classRows {p : Priority} {o : Order} :
    o ∈ s.classRows p ↔ o ∈ s.orders ∧ o.state = .queued ∧ o.priority = p := by
  simp [Store.classRows, mem_queuedRows, and_assoc]

/-- The candidate heads the queue of the selected class. -/
theorem candidate_some {item : Order} (h : s.candidate = some item) :
    s.queuedRows ≠ [] ∧
      ∃ p, s.selectedClass = some p ∧ (s.classRows p).head? = some item := by
  unfold Store.candidate nextFairCandidate at h
  split at h
  · cases h
  · rename_i hrows
    exact ⟨hrows, Option.bind_eq_some_iff.mp h⟩

theorem candidate_mem {item : Order} (h : s.candidate = some item) :
    item ∈ s.orders ∧ item.state = .queued := by
  obtain ⟨-, p, -, hhead⟩ := candidate_some h
  have hmem := mem_classRows.mp (List.mem_of_head? hhead)
  exact ⟨hmem.1, hmem.2.1⟩

/-- A queued order is under its key exactly once. -/
theorem Store.Keyed.rowcount_queued (hs : s.Keyed) {item : Order}
    (hitem : item ∈ s.orders) (hqueued : item.state = .queued) :
    s.rowcount item.workId (fun o => decide (o.state = .queued)) = 1 :=
  Machine.Keyed.countP_eq_one hs hitem (by simp [hqueued]) (by simp +contextual)

theorem capacityBlock_congr {s s' : Store} (h : s'.orders = s.orders) :
    capacityBlock limits s' = capacityBlock limits s := by
  unfold capacityBlock Store.heldMembers
  rw [h]

/-- A turn without a candidate stops. -/
theorem drainOnce_none
    (limits : Limits) (clock : Clock) (h : s.candidate = none) :
    ∃ s', drainOnce limits clock s = (.stopped, s') ∧
      s'.orders = s.orders ∧ s'.sequence = s.sequence := by
  have hfair : nextFairCandidate s = (none, (nextFairCandidate s).2) :=
    Prod.ext h rfl
  refine ⟨(nextFairCandidate s).2, ?_, ?_, ?_⟩
  · rw [drainOnce, hfair]
  · unfold nextFairCandidate
    split
    · rfl
    · exact Store.topUp_orders
  · unfold nextFairCandidate
    split
    · rfl
    · exact Store.topUp_sequence

theorem nextFairCandidate_eq {item : Order} (h : s.candidate = some item) :
    nextFairCandidate s = (some item, s.topUp) := by
  refine Prod.ext h ?_
  rw [nextFairCandidate, if_neg (candidate_some h).1]

theorem blockOf_topUp (item : Order) (now : Time) :
    blockOf limits s.topUp (item.members.map Member.repo) item.repo
        item.actor item.blueprint now =
      (s.blockFor limits now item, s.opened now) := by
  simp [blockOf, Store.blockFor, Store.throttle, Store.opened,
    capacityBlock_congr Store.topUp_orders]

/-- Writing down what limits an order changes no candidate. -/
theorem anyOtherCandidate_setLimiting
    (w : String) (block : CapacityBlock) (now : Time) (workId : String) :
    (setLimiting w block now s).anyOtherCandidate workId =
      s.anyOtherCandidate workId := by
  simp only [Store.anyOtherCandidate, setLimiting, Store.update, updateRows,
    List.any_map]
  congr 1
  funext o
  simp only [Function.comp_apply]
  split <;> rfl

theorem anyOtherCandidate_opened (now : Time) (workId : String) :
    (s.opened now).anyOtherCandidate workId = s.anyOtherCandidate workId := by
  simp [Store.anyOtherCandidate, Store.opened]

/-- A turn with a candidate that does not fit. -/
theorem drainOnce_blocked {item : Order} {block : CapacityBlock}
    (h : s.candidate = some item)
    (hblock : s.blockFor limits (clock 0) item = some block) :
    drainOnce limits clock s =
      if s.anyOtherCandidate item.workId then
        (.deferred, deferSequence item.workId (clock 2)
          (setLimiting item.workId block (clock 1) (s.opened (clock 0))))
      else
        (.stopped,
          setLimiting item.workId block (clock 1) (s.opened (clock 0))) := by
  rw [drainOnce, nextFairCandidate_eq h]
  simp only [blockOf_topUp, hblock, anyOtherCandidate_setLimiting,
    anyOtherCandidate_opened]

/-- A turn with a candidate that fits. -/
theorem drainOnce_fits {item : Order} (hs : s.Keyed)
    (h : s.candidate = some item)
    (hblock : s.blockFor limits (clock 0) item = none) :
    drainOnce limits clock s =
      (.admitted item.workId,
        recordService item.priority
          ((s.opened (clock 0)).updateWhere item.workId
            (fun o => decide (o.state = .queued))
            (Order.drain (clock 1)))) := by
  obtain ⟨hitem, hqueued⟩ := candidate_mem h
  have hcount : (s.opened (clock 0)).rowcount item.workId
      (fun o => decide (o.state = .queued)) = 1 := by
    refine Store.Keyed.rowcount_queued (s := s.opened (clock 0)) ?_ ?_ hqueued
    · simpa [Store.Keyed, Store.opened] using hs
    · simpa [Store.opened] using hitem
  rw [drainOnce, nextFairCandidate_eq h]
  simp only [blockOf_topUp, hblock, hcount, if_true]

/-- The candidate is the only order under its key. -/
theorem update_candidate {item : Order} {f : Order → Order} (hs : s.Keyed)
    (hitem : item ∈ s.orders) (hqueued : item.state = .queued) :
    s.updateWhere item.workId (fun o => decide (o.state = .queued)) f =
      s.update item.workId f := by
  unfold Store.updateWhere Store.update updateRows
  congr 1
  refine List.map_congr_left fun o ho => ?_
  by_cases hkey : o.workId = item.workId
  · obtain rfl := Machine.Keyed.eq hs ho hitem hkey
    simp [hqueued]
  · simp [hkey]

theorem Store.row_congr {s s' : Store} (h : s'.orders = s.orders)
    (workId : String) : s'.row workId = s.row workId := by
  unfold Store.row
  rw [h]

/-- A turn of `drain` leaves alone what is not queued. -/
theorem drainOnce_row
    (limits : Limits) (clock : Clock) (hs : s.Keyed)
    {workId : String} {o : Order}
    (hrow : s.row workId = some o) (hstate : o.state ≠ .queued) :
    (drainOnce limits clock s).2.row workId = some o := by
  cases h : s.candidate with
  | none =>
      obtain ⟨s', heq, horders, -⟩ := drainOnce_none limits clock h
      rw [heq, Store.row_congr horders, hrow]
  | some item =>
      obtain ⟨hitem, hqueued⟩ := candidate_mem h
      have hne : workId ≠ item.workId := by
        rintro rfl
        have := hs.of_row hrow hitem rfl
        exact hstate (this ▸ hqueued)
      have hopened : (s.opened (clock 0)).row workId = some o :=
        (Store.row_congr Store.opened_orders workId).trans hrow
      cases hblock : s.blockFor limits (clock 0) item with
      | some block =>
          have hlimited : (setLimiting item.workId block (clock 1)
              (s.opened (clock 0))).row workId = some o := by
            exact (Store.row_update_ne (by simp) hne).trans hopened
          rw [drainOnce_blocked h hblock]
          split
          · refine (Store.row_update_ne (fun o => ?_) hne).trans hlimited
            split <;> rfl
          · exact hlimited
      | none =>
          rw [drainOnce_fits hs h hblock]
          refine (Store.row_update_ne (fun o => ?_) hne).trans hopened
          split <;> rfl

/-- A turn of `drain` is a sequence of transitions. -/
theorem drainOnce_transitions
    (hashes : Hashes) (limits : Limits) (clock : Clock) (hs : s.Keyed) :
    Transitions Q hashes limits s (drainOnce limits clock s).2 := by
  have hopened : Transition Q hashes limits s (s.opened (clock 0)) :=
    .books (by simp [Store.opened]) (by simp [Store.opened])
  cases h : s.candidate with
  | none =>
      obtain ⟨s', heq, horders, hsequence⟩ :=
        drainOnce_none limits clock h
      rw [heq]
      exact .single (.books horders (Nat.le_of_eq hsequence.symm))
  | some item =>
      obtain ⟨hitem, hqueued⟩ := candidate_mem h
      cases hblock : s.blockFor limits (clock 0) item with
      | some block =>
          have hlimited : Transition Q hashes limits (s.opened (clock 0))
              (setLimiting item.workId block (clock 1) (s.opened (clock 0))) :=
            .change _ _ (fun o _ _ => .limited o block (clock 1))
              (fun _ => rfl)
          rw [drainOnce_blocked h hblock]
          split
          · exact ((ReflTransGen.single hopened).tail hlimited).tail
              (.deferred _ _)
          · exact (ReflTransGen.single hopened).tail hlimited
      | none =>
          rw [drainOnce_fits hs h hblock]
          have horders : (s.opened (clock 0)).orders = s.orders := by
            simp [Store.opened]
          have hitem' : item ∈ (s.opened (clock 0)).orders :=
            horders ▸ hitem
          have hfits : capacityBlock limits (s.opened (clock 0))
              (item.members.map Member.repo) item.actor item.blueprint =
                none := by
            rw [capacityBlock_congr horders]
            unfold Store.blockFor rateLimited at hblock
            split at hblock
            · cases hblock
            · exact hblock
          rw [update_candidate (hopened.keyed hs) hitem' hqueued]
          refine ((ReflTransGen.single hopened).tail
            (.admitted item (clock 1) hitem' hqueued hfits)).tail ?_
          exact .books rfl (Nat.le_refl _)

theorem drainLoop_transitions
    (hashes : Hashes) (limits : Limits) (clock : Clock) (turns : Nat)
    (hs : s.Keyed) :
    Transitions Q hashes limits s (drainLoop limits clock turns s).2 := by
  induction turns generalizing s clock with
  | zero =>
      exact .refl
  | succ turns ih =>
      have hfirst : Transitions Q hashes limits s
          (drainOnce limits clock s).2 :=
        drainOnce_transitions hashes limits clock hs
      rw [drainLoop]
      cases hturn : drainOnce limits clock s with
      | mk pass s' =>
          rw [hturn] at hfirst
          cases pass with
          | stopped =>
              exact hfirst
          | deferred =>
              exact hfirst.trans (ih _ (hfirst.keyed hs))
          | admitted workId =>
              exact hfirst.trans (ih _ (hfirst.keyed hs))

theorem drainOnce_keyed
    (limits : Limits) (clock : Clock) (hs : s.Keyed) :
    (drainOnce limits clock s).2.Keyed :=
  Transitions.keyed (Q := fun _ _ => True)
    (drainOnce_transitions sampleHashes limits clock hs) hs

/-- `drain` leaves alone what is not queued. -/
theorem drainLoop_row
    (limits : Limits) (clock : Clock) (turns : Nat) (hs : s.Keyed)
    {workId : String} {o : Order}
    (hrow : s.row workId = some o) (hstate : o.state ≠ .queued) :
    (drainLoop limits clock turns s).2.row workId = some o := by
  induction turns generalizing s clock with
  | zero =>
      exact hrow
  | succ turns ih =>
      have hfirst := drainOnce_row limits clock hs hrow hstate
      have hkeyed := drainOnce_keyed limits clock hs
      rw [drainLoop]
      cases hturn : drainOnce limits clock s with
      | mk pass s' =>
          rw [hturn] at hfirst hkeyed
          cases pass with
          | stopped => exact hfirst
          | deferred => exact ih _ hkeyed hfirst
          | admitted workId => exact ih _ hkeyed hfirst

end Turns

end Admission
end SwFactory
