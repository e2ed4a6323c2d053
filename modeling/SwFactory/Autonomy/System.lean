import SwFactory.Autonomy.Requests

/-!
# Requests side by side

Any number of processes serve requests; between two statements the policy may
be edited, a Cell may enter its next epoch and a pull request may move.  Every
merge that GitHub is asked for is remembered with what its process had read
last.  `Grounded` says what such a call rests on; what is bound stays bound, so
a call that is grounded stays so.
-/

namespace SwFactory
namespace Autonomy

open Machine
open Gates (GateName)

/-! ## The system -/

/-- What moves on its own: the policy, the Cells and the pull requests. -/
structure World where
  policy : Policy
  cells : String → Option CellRow
  heads : Nat → Option String

/-- The world in which a statement is performed, and the answers from outside. -/
structure Input where
  world : World
  now : Text.Time := 0
  issue : Except Refusal Issue := .error (.stage "")
  published : Except Refusal Receipt := .error (.stage "")
  begun : Except Refusal Begun := .error (.stage "")
  leased : Except Refusal Unit := .ok ()
  rows : Except Refusal Rows := .error (.stage "")
  /-- GitHub is able to merge -/
  accepted : Bool := false
  answered : Except Refusal Unit := .ok ()

/-- A publication that was bound, and the process that bound it. -/
structure Seal where
  pid : Nat
  cellId : String
  epoch : Nat
  publication : Publication

/-- A call of `merge_verified`. -/
structure MergeCall where
  pid : Nat
  number : Nat
  sha : String
  /-- the policy its process loaded last -/
  loaded : Option Policy
  /-- the evidence its process read last -/
  seen : Option Rows
  /-- the policy in force at the call -/
  inForce : Policy
  /-- the head that GitHub merged -/
  merged : Option String

/-- The decision store, and what is remembered of the processes. -/
structure State where
  decisions : Decisions
  seals : List Seal
  loaded : Nat → Option Policy
  seen : Nat → Option Rows
  calls : List MergeCall

def State.empty : State where
  decisions := fun _ => none
  seals := []
  loaded := fun _ => none
  seen := fun _ => none
  calls := []

/-- The seal of a row that is inserted. -/
def sealOf (pid : Nat) : (key : Key) → key.Value → List Seal
  | .publication cellId epoch, publication => [⟨pid, cellId, epoch, publication⟩]
  | .gate _ _ _, _ => []
  | .blockedGate _, _ => []

/-- `bind` -/
def State.bind (st : State) (pid : Nat) (key : Key) (value : key.Value) : State :=
  { st with
    decisions := st.decisions.insert key value
    seals := st.seals ++ if (st.decisions key).isSome then [] else sealOf pid key value }

/-- GitHub compares the head with the one it is given, and merges, at once. -/
def World.merge (world : World) (accepted : Bool) (number : Nat) (sha : String) :
    Option String :=
  if accepted && world.heads number == some sha then world.heads number else none

def exec (pid : Nat) (stmt : Stmt) (i : Input) (st : State) : Ans stmt × State :=
  match stmt with
  | .cell cellId => (i.world.cells cellId, st)
  | .policy =>
      (i.world.policy,
        { st with loaded := Function.update st.loaded pid (some i.world.policy) })
  | .time => (i.now, st)
  | .issue _ => (i.issue, st)
  | .get key => (st.decisions key, st)
  | .bind key value =>
      (if (st.decisions key).getD value = value then
          .ok ()
        else
          .error (.stage "autonomous decision changed at the same Cell epoch"),
        st.bind pid key value)
  | .publish _ _ => (i.published, st)
  | .begin _ => (i.begun, st)
  | .lease _ => (i.leased, st)
  | .snapshot _ _ =>
      (i.rows, { st with seen := Function.update st.seen pid i.rows.toOption })
  | .mergeVerified number sha =>
      (i.answered,
        { st with calls := st.calls ++ [{
            pid := pid
            number := number
            sha := sha
            loaded := st.loaded pid
            seen := st.seen pid
            inForce := i.world.policy
            merged := i.world.merge i.accepted number sha }] })

def system : System Stmt Ans State Input where
  exec := exec
  crash _ st := st

/-- Process `p` is about to serve `requests p`. -/
def start (service : Service) (requests : Nat → Request) :
    Config Stmt Ans Refusal Reply State where
  shared := .empty
  procs p := .running ((requests p).prog service)

/-- The state after the moves. -/
def after (service : Service) (requests : Nat → Request) (moves : List (Move Input)) :
    State :=
  (runFrom system.step (start service requests) moves).shared

/-! ## What a merge rests on -/

/-- A path of the sealed patch is the issue's artifact, or allowed and planned. -/
structure PathAuthorized (policy : Policy) (artifactPrefix : Path) (planned : List Path)
    (path : Path) : Prop where
  canonical : Paths.Canonical path
  granted : below artifactPrefix path = true ∨ (policy.Allows path ∧ path ∈ planned)

/-- The evidence of a snapshot, for the head and the paths of a sealed patch. -/
structure Verified (policy : Policy) (snapshot : Snapshot) (sha : String)
    (sealed : List Path) : Prop where
  head : snapshot.pr.headSha = some sha
  diff : ∀ path, path ∈ snapshot.paths ↔ path ∈ sealed
  checks : ∀ name ∈ policy.requiredChecks, Succeeded policy snapshot.checks sha name

/-- The approval of a gate of the Cell at the epoch. -/
structure GateDecision.Approves (decision : GateDecision) (cellId : String) (epoch : Nat)
    (gate : GateName) : Prop where
  ofGate : decision.approval.gate = gate
  approves : decision.approval.decision = .approve
  ofCell : decision.approval.cellId = some cellId
  ofEpoch : decision.approval.cellEpoch = some epoch

/-- What the call names, and the records behind it. -/
structure Grounds where
  body : MergeBody
  sealed : Seal
  published : PublishBody
  intent : GateDecision
  plan : GateDecision
  snapshot : Snapshot

section Claims

variable (service : Service) (requests : Nat → Request)

/-- The call has its authority under the policy in the state. -/
structure Grounded (st : State) (call : MergeCall) (policy : Policy) (g : Grounds) :
    Prop where
  request : requests call.pid = .merge g.body
  onlySeal : st.seals.filter
      (fun s => s.cellId == g.body.cellId && s.epoch == g.body.epoch) = [g.sealed]
  recorded : st.decisions (.publication g.body.cellId g.body.epoch) =
    some g.sealed.publication
  publisher : requests g.sealed.pid = .publish g.published
  revision : g.sealed.publication.revision = policy.revision
  number : g.sealed.publication.receipt.prNumber = some call.number
  sha : g.sealed.publication.receipt.headRevision = call.sha
  intent : st.decisions (.gate g.body.cellId g.body.epoch .intent) = some g.intent
  plan : st.decisions (.gate g.body.cellId g.body.epoch .plan) = some g.plan
  approved : g.intent.Approves g.body.cellId g.body.epoch .intent ∧
    g.plan.Approves g.body.cellId g.body.epoch .plan
  inputs : g.intent.approval.inputsDigest = g.plan.approval.inputsDigest
  paths : ∀ path ∈ Patch.patchPaths g.published.patch,
    PathAuthorized policy (service.artifactPrefix g.body.cellId) g.plan.paths path
  read : ∃ rows, call.seen = some rows ∧
    autonomousSnapshot service.sha256 g.sealed.publication.evidence.artifactDigests rows =
      .ok g.snapshot
  verified : Verified policy g.snapshot call.sha (Patch.patchPaths g.published.patch)
  merged : ∀ head, call.merged = some head → head = call.sha

end Claims

/-! ## What is bound stays -/

section Persistence

variable {service : Service} {requests : Nat → Request}

/-- The state of the store has grown. -/
structure Extends (st st' : State) : Prop where
  decisions : ∀ (key : Key) (value : key.Value),
    st.decisions key = some value → st'.decisions key = some value
  seals : ∀ cellId epoch, (st.decisions (.publication cellId epoch)).isSome →
    st'.seals.filter (fun s => s.cellId == cellId && s.epoch == epoch) =
      st.seals.filter (fun s => s.cellId == cellId && s.epoch == epoch)

theorem Extends.refl (st : State) : Extends st st :=
  ⟨fun _ _ h => h, fun _ _ _ => rfl⟩

theorem Extends.trans {st st' st'' : State}
    (h : Extends st st') (h' : Extends st' st'') :
    Extends st st'' := by
  refine ⟨fun key value hkey => h'.decisions key value (h.decisions key value hkey),
    fun cellId epoch hsome => ?_⟩
  rw [h'.seals cellId epoch, h.seals cellId epoch hsome]
  obtain ⟨publication, hpublication⟩ := Option.isSome_iff_exists.mp hsome
  rw [h.decisions _ _ hpublication]
  rfl

theorem extends_bind (st : State) (pid : Nat) (key : Key) (value : key.Value) :
    Extends st (st.bind pid key value) := by
  refine ⟨fun key' value' h => Decisions.insert_of_some h, fun cellId epoch hsome => ?_⟩
  simp only [State.bind, List.filter_append]
  split
  · simp
  · rename_i hnone
    cases key with
    | publication cellId' epoch' =>
        have hne : ¬ (cellId' = cellId ∧ epoch' = epoch) := by
          rintro ⟨rfl, rfl⟩
          exact hnone hsome
        simp only [sealOf, List.filter_cons, List.filter_nil]
        rw [if_neg (by simpa using hne)]
        simp
    | gate =>
        simp [sealOf]
    | blockedGate =>
        simp [sealOf]

theorem extends_exec (pid : Nat) (stmt : Stmt) (i : Input) (st : State) :
    Extends st (exec pid stmt i st).2 := by
  cases stmt with
  | bind key value =>
      exact extends_bind st pid key value
  | _ =>
      exact ⟨fun _ _ h => h, fun _ _ _ => rfl⟩

theorem extends_step (c : Config Stmt Ans Refusal Reply State) (m : Move Input) :
    Extends c.shared (system.step c m).shared := by
  rcases system.step_cases c m with
    ⟨-, heq⟩ | ⟨p, i, s, k, rfl, hp, heq⟩ | ⟨p, s, k, rfl, hp, heq⟩
  · rw [heq]
    exact .refl _
  · rw [heq]
    exact extends_exec p s i c.shared
  · rw [heq]
    exact .refl _

theorem extends_run (c : Config Stmt Ans Refusal Reply State) (ms : List (Move Input)) :
    Extends c.shared (runFrom system.step c ms).shared := by
  induction ms generalizing c with
  | nil =>
      exact .refl _
  | cons m ms ih =>
      exact (extends_step c m).trans (ih _)

theorem Grounded.mono {st st' : State} {call : MergeCall} {policy : Policy}
    {g : Grounds}
    (h : Grounded service requests st call policy g) (hst : Extends st st') :
    Grounded service requests st' call policy g where
  request := h.request
  onlySeal := by
    rw [hst.seals _ _ (by rw [h.recorded]; rfl)]
    exact h.onlySeal
  recorded := hst.decisions _ _ h.recorded
  publisher := h.publisher
  revision := h.revision
  number := h.number
  sha := h.sha
  intent := hst.decisions _ _ h.intent
  plan := hst.decisions _ _ h.plan
  approved := h.approved
  inputs := h.inputs
  paths := h.paths
  read := h.read
  verified := h.verified
  merged := h.merged

end Persistence

end Autonomy
end SwFactory
