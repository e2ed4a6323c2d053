import SwFactory.Autonomy.Views

/-!
# Only the sealed publication is merged

In every interleaving of approvals, publications, policy edits, epoch changes
and merge requests, a call of `merge_verified` is grounded under the policy
that its request loaded.  The policy is not loaded again before the call.
-/

namespace SwFactory
namespace Autonomy

open Machine
open Gates (GateName)

section Invariant

variable (service : Service) (requests : Nat → Request)

/-- The seals of a Cell at an epoch. -/
abbrev State.sealsAt (st : State) (cellId : String) (epoch : Nat) : List Seal :=
  st.seals.filter (fun s => s.cellId == cellId && s.epoch == epoch)

/-- What is bound was bound by the rules. -/
structure Bound (st : State) : Prop where
  gates : ∀ cellId epoch gate decision,
    st.decisions (.gate cellId epoch gate) = some decision →
      decision.Approves cellId epoch gate
  sealed : ∀ cellId epoch publication,
    st.decisions (.publication cellId epoch) = some publication →
      ∃ s, st.sealsAt cellId epoch = [s] ∧ s.publication = publication ∧
        Publishes service (requests s.pid) st.decisions cellId epoch publication
  unsealed : ∀ cellId epoch,
    st.decisions (.publication cellId epoch) = none → st.sealsAt cellId epoch = []

/-- What the processes know is true, and every call is grounded. -/
structure Consistent (loc : Nat → View) (st : State) : Prop where
  request : ∀ p, (loc p).request = requests p
  known : ∀ p (key : Key) (value : key.Value),
    (loc p).decisions key = some value → st.decisions key = some value
  loaded : ∀ p, st.loaded p = (loc p).loaded
  seen : ∀ p, st.seen p = (loc p).seen
  bound : Bound service requests st
  calls : ∀ call ∈ st.calls, ∃ policy g, call.loaded = some policy ∧
    Grounded service requests st call policy g

variable {service requests}

theorem Publishes.mono {request : Request} {decisions decisions' : Decisions}
    {cellId : String} {epoch : Nat} {publication : Publication}
    (h : Publishes service request decisions cellId epoch publication)
    (hgrows : ∀ (key : Key) (value : key.Value),
      decisions key = some value → decisions' key = some value) :
    Publishes service request decisions' cellId epoch publication := by
  obtain ⟨body, intent, plan, hrequest, hintent, hplan, hrest⟩ := h
  exact ⟨body, intent, plan, hrequest, hgrows _ _ hintent, hgrows _ _ hplan, hrest⟩

/-- A value that keeps to the protocol may be bound. -/
theorem Bound.bind {st : State} {pid : Nat} {key : Key} {value : key.Value} {l : View}
    (h : Bound service requests st)
    (hrequest : l.request = requests pid)
    (hknown : ∀ (key : Key) (value : key.Value),
      l.decisions key = some value → st.decisions key = some value)
    (hallow : (protocol service).allow l (.bind key value)) :
    Bound service requests (st.bind pid key value) := by
  have hgrows := extends_bind st pid key value
  have hnew : ∀ (key' : Key) (value' : key'.Value),
      (st.bind pid key value).decisions key' = some value' →
        st.decisions key' = some value' ∨
          (st.decisions key' = none ∧ ∃ heq : key' = key, heq ▸ value' = value) := by
    intro key' value' h'
    by_cases heq : key' = key
    · subst heq
      simp only [State.bind, Decisions.insert_self, Option.some.injEq] at h'
      cases hold : st.decisions key' with
      | none =>
          rw [hold] at h'
          exact Or.inr ⟨rfl, rfl, h'.symm⟩
      | some old =>
          rw [hold] at h'
          exact Or.inl (congrArg some h')
    · simp only [State.bind, Decisions.insert_of_ne heq] at h'
      exact Or.inl h'
  constructor
  · intro cellId epoch gate decision hbound
    rcases hnew _ _ hbound with hold | ⟨-, rfl, rfl⟩
    · exact h.gates _ _ _ _ hold
    · exact hallow
  · intro cellId epoch publication hbound
    rcases hnew _ _ hbound with hold | ⟨hnone, rfl, rfl⟩
    · obtain ⟨s, hs, heq, hpublishes⟩ := h.sealed _ _ _ hold
      refine ⟨s, ?_, heq, hpublishes.mono hgrows.decisions⟩
      exact (hgrows.seals cellId epoch (by rw [hold]; rfl)).trans hs
    · refine ⟨⟨pid, cellId, epoch, publication⟩, ?_, rfl, ?_⟩
      · have hbefore := h.unsealed _ _ hnone
        simp only [State.sealsAt, State.bind, List.filter_append, hnone, Option.isSome_none,
          Bool.false_eq_true, if_false, sealOf] at hbefore ⊢
        rw [hbefore]
        simp
      · rw [← hrequest]
        exact Publishes.mono hallow
          (fun key value hl => hgrows.decisions key value (hknown key value hl))
  · intro cellId epoch hnone
    have hold : st.decisions (.publication cellId epoch) = none := by
      cases hold : st.decisions (.publication cellId epoch) with
      | none => rfl
      | some publication =>
          rw [hgrows.decisions _ _ hold] at hnone
          cases hnone
    have hbefore := h.unsealed _ _ hold
    simp only [State.sealsAt, State.bind, List.filter_append, hbefore, List.nil_append]
    split
    · rfl
    cases key with
    | gate => rfl
    | blockedGate => rfl
    | publication cellId' epoch' =>
        have hne : ¬ (cellId' = cellId ∧ epoch' = epoch) := by
          rintro ⟨rfl, rfl⟩
          simp [State.bind, Decisions.insert_self] at hnone
        simpa [sealOf] using hne

/-- A process that asks for a merge has grounds for it. -/
theorem Bound.grounded {st : State} {l : View} {call : MergeCall}
    (h : Bound service requests st)
    (hrequest : l.request = requests call.pid)
    (hknown : ∀ (key : Key) (value : key.Value),
      l.decisions key = some value → st.decisions key = some value)
    (hloaded : call.loaded = l.loaded)
    (hseen : call.seen = l.seen)
    (hmerged : ∀ head, call.merged = some head → head = call.sha)
    (hmergeable : Mergeable service l call.number call.sha) :
    ∃ policy g, call.loaded = some policy ∧
      Grounded service requests st call policy g := by
  obtain ⟨body, publication, policy, hholds, rows, snapshot, hrows, hsnapshot, hhead,
    hready⟩ := hmergeable
  have hrecorded := hknown _ _ hholds.recorded
  obtain ⟨s, hs, rfl, published, intent, plan, hpublisher, hintent, hplan, hinputs, hpaths,
    hplanned⟩ := h.sealed _ _ _ hrecorded
  obtain ⟨_, hpolicy, hready⟩ := bind_eq_ok hready
  obtain ⟨_, hsame, hready⟩ := bind_eq_ok hready
  rw [ensure_eq_ok, sameSet_eq_true] at hsame
  obtain ⟨verdict, hchecks, hready⟩ := bind_eq_ok hready
  have hverdict : verdict = none := by
    cases verdict with
    | none =>
        rfl
    | some state =>
        cases hready
        exact (checksVerdict_ne_ready hchecks rfl).elim
  subst hverdict
  refine ⟨policy, ⟨body, s, published, intent, plan, snapshot⟩, hloaded.trans hholds.loaded,
    ?_⟩
  constructor
  · exact hrequest.symm.trans hholds.request
  · exact hs
  · exact hrecorded
  · exact hpublisher
  · exact hholds.revision
  · exact hholds.number
  · exact hholds.sha
  · exact hintent
  · exact hplan
  · exact ⟨h.gates _ _ _ _ hintent, h.gates _ _ _ _ hplan⟩
  · exact hinputs
  · intro path hpath
    rw [← hpaths] at hpath
    obtain ⟨hcanonical, hgranted⟩ :=
      Policy.checkPaths_ok hpolicy path ((hsame path).mpr hpath)
    refine ⟨hcanonical, ?_⟩
    rcases hgranted with ⟨directory, heq, hbelow⟩ | hallows
    · cases heq
      exact Or.inl hbelow
    · exact (hplanned path hpath).imp_right (fun hplan => ⟨hallows, hplan⟩)
  · exact ⟨rows, hseen.trans hrows, hsnapshot⟩
  · refine ⟨hhead, fun path => ?_, checksVerdict_eq_none hchecks⟩
    rw [hsame path, hpaths]
  · exact hmerged

/-- A process that only learns something else leaves the rest as it is. -/
theorem Consistent.learn {loc : Nat → View} {st st' : State} {p : Nat} {l : View}
    (h : Consistent service requests loc st)
    (hrequest : l.request = (loc p).request)
    (hknown : ∀ (key : Key) (value : key.Value),
      l.decisions key = some value → st.decisions key = some value)
    (hloaded : st'.loaded = Function.update st.loaded p l.loaded)
    (hseen : st'.seen = Function.update st.seen p l.seen)
    (hdecisions : st'.decisions = st.decisions)
    (hseals : st'.seals = st.seals)
    (hcalls : ∀ call ∈ st'.calls, ∃ policy g, call.loaded = some policy ∧
      Grounded service requests st' call policy g) :
    Consistent service requests (Function.update loc p l) st' := by
  constructor
  · intro q
    rw [proj_update View.request loc hrequest q]
    exact h.request q
  · intro q key value hq
    rw [hdecisions]
    by_cases heq : q = p
    · subst heq
      rw [Function.update_self] at hq
      exact hknown key value hq
    · rw [Function.update_of_ne heq] at hq
      exact h.known q key value hq
  · intro q
    rw [hloaded]
    by_cases heq : q = p
    · subst heq
      simp
    · simp [heq, h.loaded q]
  · intro q
    rw [hseen]
    by_cases heq : q = p
    · subst heq
      simp
    · simp [heq, h.seen q]
  · have hbound := h.bound
    constructor
    · rw [hdecisions]
      exact hbound.gates
    · rw [hdecisions]
      simp only [State.sealsAt, hseals]
      exact hbound.sealed
    · rw [hdecisions]
      simp only [State.sealsAt, hseals]
      exact hbound.unsealed
  · exact hcalls

/-- The calls of a state are still grounded when the store has grown. -/
theorem Consistent.calls_mono {loc : Nat → View} {st st' : State}
    (h : Consistent service requests loc st) (hst : Extends st st') :
    ∀ call ∈ st.calls, ∃ policy g, call.loaded = some policy ∧
      Grounded service requests st' call policy g := by
  intro call hcall
  obtain ⟨policy, g, hloaded, hg⟩ := h.calls call hcall
  exact ⟨policy, g, hloaded, hg.mono hst⟩

/-- A statement that is allowed keeps the system consistent. -/
theorem Consistent.exec {loc : Nat → View} {st : State} {p : Nat} {stmt : Stmt}
    {i : Input}
    (h : Consistent service requests loc st)
    (hallow : (protocol service).allow (loc p) stmt) :
    Consistent service requests
      (Function.update loc p
        ((protocol service).next (loc p) stmt (exec p stmt i st).1))
      (exec p stmt i st).2 := by
  have hgrows := extends_exec p stmt i st
  have hquiet : Consistent service requests (Function.update loc p (loc p)) st := by
    rw [Function.update_eq_self]
    exact h
  cases stmt with
  | cell cellId => exact hquiet
  | time => exact hquiet
  | issue ref => exact hquiet
  | publish branch patch => exact hquiet
  | begin operationKey => exact hquiet
  | lease capability => exact hquiet
  | policy =>
      refine h.learn rfl (h.known p) rfl ?_ rfl rfl (h.calls_mono hgrows)
      exact (Function.update_eq_self_iff.mpr (h.seen p).symm).symm
  | snapshot number sha =>
      refine h.learn rfl (h.known p) ?_ rfl rfl rfl (h.calls_mono hgrows)
      exact (Function.update_eq_self_iff.mpr (h.loaded p).symm).symm
  | get key =>
      cases hget : st.decisions key with
      | none =>
          simpa [Autonomy.exec, protocol, hget] using h
      | some value =>
          have hlearn : Consistent service requests
              (Function.update loc p ((loc p).learn key value)) st := by
            refine h.learn rfl (fun key' value' hl => ?_)
              (Function.update_eq_self_iff.mpr (h.loaded p).symm).symm
              (Function.update_eq_self_iff.mpr (h.seen p).symm).symm rfl rfl h.calls
            by_cases heq : key' = key
            · subst heq
              rw [View.learn_self] at hl
              rw [hget, ← hl]
            · rw [View.learn_of_ne _ _ heq] at hl
              exact h.known p key' value' hl
          simpa [Autonomy.exec, protocol, hget] using hlearn
  | bind key value =>
      have hnext : (protocol service).next (loc p) (.bind key value)
          (Autonomy.exec p (.bind key value) i st).1 = loc p := rfl
      rw [hnext, Function.update_eq_self]
      exact ⟨h.request, fun q key' value' hq => hgrows.decisions _ _ (h.known q _ _ hq),
        h.loaded, h.seen, h.bound.bind (h.request p) (h.known p) hallow,
        h.calls_mono hgrows⟩
  | mergeVerified number sha =>
      have hnext : (protocol service).next (loc p) (.mergeVerified number sha)
          (Autonomy.exec p (.mergeVerified number sha) i st).1 = loc p := rfl
      rw [hnext, Function.update_eq_self]
      refine ⟨h.request, h.known, h.loaded, h.seen,
        ⟨h.bound.gates, h.bound.sealed, h.bound.unsealed⟩, fun call hcall => ?_⟩
      rcases List.mem_append.mp hcall with hcall | hcall
      · exact h.calls_mono hgrows call hcall
      · cases List.mem_singleton.mp hcall
        have hmerged : ∀ head, i.world.merge i.accepted number sha = some head →
            head = sha := by
          intro head hhead
          simp only [World.merge] at hhead
          split at hhead
          · rename_i haccepted
            simp only [Bool.and_eq_true, beq_iff_eq] at haccepted
            rw [haccepted.2] at hhead
            exact (Option.some.inj hhead).symm
          · cases hhead
        let call : MergeCall :=
          ⟨p, number, sha, st.loaded p, st.seen p, i.world.policy,
            i.world.merge i.accepted number sha⟩
        have hgrounded : ∃ policy g, call.loaded = some policy ∧
            Grounded service requests st call policy g :=
          h.bound.grounded (h.request p) (h.known p) (h.loaded p) (h.seen p) hmerged hallow
        obtain ⟨policy, g, hloaded, hg⟩ := hgrounded
        exact ⟨policy, g, hloaded, hg.mono hgrows⟩

theorem empty_consistent :
    Consistent service requests (fun p => .initial (requests p)) .empty := by
  refine ⟨fun _ => rfl, ?_, fun _ => rfl, fun _ => rfl, ⟨?_, ?_, fun _ _ _ => rfl⟩, ?_⟩
  · rintro p key value ⟨⟩
  · rintro cellId epoch gate decision ⟨⟩
  · rintro cellId epoch publication ⟨⟩
  · rintro call ⟨⟩

theorem start_composed :
    Composed (protocol service) (fun _ _ => True) (Consistent service requests)
      (start service requests) :=
  ⟨fun p => .initial (requests p), empty_consistent,
    fun p => Request.prog_keeps (requests p) _ rfl⟩

/-- The run of any requests is consistent in every state. -/
theorem run_consistent (moves : List (Move Input)) :
    Composed (protocol service) (fun _ _ => True) (Consistent service requests)
      (runFrom system.step (start service requests) moves) := by
  have hany : AlongRun system.step (Performs (fun _ _ _ => True))
      (start service requests) moves := by
    rw [alongRun_iff]
    intro pre m post _ p i stmt k _ _
    trivial
  have hrun : EveryState system.step
      (Composed (protocol service) (fun _ _ => True) (Consistent service requests))
      (start service requests) moves := by
    refine System.composition system ?_ ?_ start_composed hany
    · intro loc st p stmt i h hallow _
      exact ⟨trivial, h.exec hallow⟩
    · intro loc st p h
      exact h
  exact (everyState_iff _ _ _ _).mp hrun moves [] (List.append_nil _).symm

end Invariant

/--
**Only the sealed publication is merged.**  Whatever requests are served side by
side, and however the policy, the Cells and the pull requests move: a call of
`merge_verified` is grounded under the policy that its request loaded, and stays
grounded from then on.
-/
theorem merged_as_sealed
    (service : Service)
    (requests : Nat → Request)
    (moves : List (Move Input))
    (call : MergeCall)
    (hcall : call ∈ (after service requests moves).calls) :
    ∃ policy g, call.loaded = some policy ∧
      ∀ later, Grounded service requests (after service requests (moves ++ later)) call
        policy g := by
  obtain ⟨loc, hconsistent, -⟩ : Composed (protocol service) (fun _ _ => True)
      (Consistent service requests)
      (runFrom system.step (start service requests) moves) :=
    run_consistent moves
  obtain ⟨policy, g, hloaded, hg⟩ := hconsistent.calls call hcall
  refine ⟨policy, g, hloaded, fun later => hg.mono ?_⟩
  rw [after, runFrom_append]
  exact extends_run _ later

/-! ## A policy that is edited during a merge -/

namespace Edited

def hex (n : Nat) : String :=
  String.ofList (List.replicate n 'a')

def service : Service where
  repo := "o/r"
  issue := fun _ => "7"
  stableId := fun _ _ _ => "cell"
  jobPolicyDigest := fun _ _ => "job"
  patchContentDigest := fun _ => "content"
  sha256 := fun content => content

/-- The policy that the requests load. -/
def policy : Policy where
  enabled := true
  repository := "o/r"
  baseBranch := "main"
  requiredLabels := []
  deniedLabels := []
  allowedPaths := ["src".toList]
  protectedPaths := []
  budgetUsd := 1
  requiredChecks := ["ci"]
  checksAppId := 1
  maxFiles := 10
  revision := "first"

/-- The next revision protects the path of the change. -/
def stricter : Policy :=
  { policy with protectedPaths := ["src".toList], revision := "second" }

def fence : Fence where
  cellId := "cell"
  epoch := 1
  policyDigest := "job"
  operationKey := "key"

def gateBody (gate : String) : GateBody where
  toFence := fence
  revision := some "first"
  baseBranch := none
  gate := gate
  costUsd := some 0
  budgetUsd := some 1
  paths := ["src/x".toList]
  artifactSha256 := some (hex 64)
  inputsDigest := some "inputs"
  planSha256 := some (hex 64)

def approval (gate : GateName) : Gates.Approval String :=
  (gateDecision policy (gateBody "") gate 0).approval

def publishBody : PublishBody where
  toFence := fence
  revision := some "first"
  baseBranch := none
  branch := "factory/7"
  labels := []
  allowedPrefixes := some []
  patch := "diff --git a/src/x b/src/x\n".toList.map (fun c => c.toNat.toUInt8)
  evidence := some {
    agent := "claude"
    testsPassed := true
    reviewVerdict := "approve"
    blockers := 0
    costUsd := some 0
    budgetUsd := some 1
    approvals := [approval .intent, approval .plan]
    artifactDigests := artifactNames.map (fun name => (name, hex 64)) }

def mergeBody : MergeBody where
  toFence := fence
  revision := some "first"
  baseBranch := none

def requests : Nat → Request
  | 0 => .gate (gateBody "intent")
  | 1 => .gate (gateBody "plan")
  | 2 => .publish publishBody
  | _ => .merge mergeBody

def rows : Rows where
  pr := {
    headSha := some (hex 40)
    headRepo := some "o/r"
    baseRef := some "main"
    baseRepo := some "o/r"
    merged := false
    state := "open"
    draft := false
    changedFiles := some 1 }
  files := [⟨"src/x".toList, none, "modified"⟩]
  content := fun _ => hex 64
  checks := [⟨some 1, some "ci", some 1, some (hex 40), some "completed", some "success"⟩]
  reviews := []

/-- A world that answers every statement, under a policy. -/
def under (policy : Policy) : Input where
  world := {
    policy := policy
    cells := fun _ => some ⟨1, "running", some line, some "run", some "job"⟩
    heads := fun _ => some (hex 40) }
  issue := .ok ⟨"open", [], "title", "body"⟩
  published := .ok ⟨"", "o/r", "main", hex 40, "content", "factory/7", some 5, "open"⟩
  begun := .ok .execute
  rows := .ok rows
  accepted := true

/-- Two approvals, the publication, and the merge up to its call. -/
def untilCall : List (Move Input) :=
  List.replicate 6 (.run 0 (under policy)) ++ List.replicate 7 (.run 1 (under policy)) ++
    List.replicate 10 (.run 2 (under policy)) ++ List.replicate 10 (.run 3 (under policy))

/-- The policy is edited in front of the call. -/
def moves : List (Move Input) :=
  untilCall ++ [.run 3 (under stricter)]

theorem called :
    (after service requests moves).calls.map
        (fun call => (call.pid, call.inForce.revision)) = [(3, "second")] ∧
      ((after service requests moves).decisions (.publication "cell" 1)).map
        (fun publication => publication.revision) = some "first" := by
  decide +kernel

theorem exists_call :
    ∃ call ∈ (after service requests moves).calls,
      call.pid = 3 ∧ call.inForce.revision = "second" := by
  have hmem : (3, "second") ∈ (after service requests moves).calls.map
      (fun call => (call.pid, call.inForce.revision)) := by
    rw [called.1]
    exact List.mem_cons_self
  obtain ⟨call, hcall, heq⟩ := List.mem_map.mp hmem
  exact ⟨call, hcall, (Prod.mk.inj heq).1, (Prod.mk.inj heq).2⟩

end Edited

/-- The policy in force at the call may be another one than the publication's. -/
theorem merged_under_older_policy :
    ∃ call ∈ (after Edited.service Edited.requests Edited.moves).calls,
      ¬ ∃ g, Grounded Edited.service Edited.requests
        (after Edited.service Edited.requests Edited.moves) call call.inForce g := by
  obtain ⟨call, hcall, hpid, hforce⟩ := Edited.exists_call
  refine ⟨call, hcall, ?_⟩
  rintro ⟨g, hg⟩
  have hbody : g.body = Edited.mergeBody := by
    have hrequest := hg.request
    rw [hpid] at hrequest
    exact (Request.merge.inj hrequest).symm
  have hrecorded := hg.recorded
  rw [hbody] at hrecorded
  have hrevision := Edited.called.2
  change Option.map _ ((after Edited.service Edited.requests Edited.moves).decisions
    (.publication Edited.mergeBody.cellId Edited.mergeBody.epoch)) = _ at hrevision
  rw [hrecorded, Option.map_some, hg.revision, hforce] at hrevision
  exact absurd hrevision (by decide)

/-- The call of the run is grounded under the policy its request loaded. -/
theorem merged_as_sealed_edited :
    ∃ call ∈ (after Edited.service Edited.requests Edited.moves).calls,
      ∃ policy g, call.loaded = some policy ∧
        Grounded Edited.service Edited.requests
          (after Edited.service Edited.requests (Edited.moves ++ [])) call policy g := by
  obtain ⟨call, hcall, -⟩ := Edited.exists_call
  obtain ⟨policy, g, hloaded, hg⟩ :=
    merged_as_sealed Edited.service Edited.requests Edited.moves call hcall
  exact ⟨call, hcall, policy, g, hloaded, hg []⟩

end Autonomy
end SwFactory
