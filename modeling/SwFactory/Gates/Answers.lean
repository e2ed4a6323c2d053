import SwFactory.Gates.Inputs
import SwFactory.Text

/-!
# Who may satisfy a release gate

`approval_policy`: a response of the operator, a declared replay fixture or the
person at the terminal becomes an `Approval`; the recorded decision is checked
once more where the run continues.  The digests of artifacts and of accepted
inputs are values of a type `D`.  `casefold` is the case folding of the
language.
-/

namespace SwFactory
namespace Gates

open Text (Time)

inductive ApprovalMode
  | human
  | auto
  | replay
  | policy
deriving DecidableEq, Repr

/-- One gate decision and the evidence that binds it. -/
structure Approval (D : Type) where
  gate : GateName
  decision : Decision
  actor : String
  recorded : Time
  artifactSha256 : Option D
  mode : ApprovalMode
  cellId : Option String
  cellEpoch : Option Nat
  inputsDigest : Option D
  respondedAt : Option Time
deriving DecidableEq

/-- A decision that is not bound to anything yet. -/
def Approval.unbound
    {D : Type}
    (gate : GateName)
    (decision : Decision)
    (actor : String)
    (mode : ApprovalMode)
    (now : Time)
    (respondedAt : Option Time) :
    Approval D where
  gate := gate
  decision := decision
  actor := actor
  recorded := now
  artifactSha256 := none
  mode := mode
  cellId := none
  cellEpoch := none
  inputsDigest := none
  respondedAt := respondedAt

/-- Why a task is refused, `StageError("policy", ...)`. -/
inductive Refusal
  -- admission
  | unreadableInputs
  | noAcceptedInputs
  | earlierBuild
  | otherInputs
  | noActorOrReason
  | managedCell
  -- answers
  | unreadableFixture
  | malformedFixture
  | fixtureForManaged (gate : GateName)
  | fixtureForScm (gate : GateName) (scm : String)
  | answeredByBackend
  | noResponse (gate : GateName)
  | malformedResponse (gate : GateName) (kind : String)
  | noSingleOption (gate : GateName)
  | noIdentity (gate : GateName)
  | reservedActor (gate : GateName) (actor : String)
  | noAnswerTime (gate : GateName)
  | approvedByConfiguration (gate : GateName)
  -- recording and continuation
  | invalidBinding
  | missingArtifact (artifact : String)
  | unknownGate (gate : GateName)
  | otherCell (gate : GateName)
  | otherArtifact (gate : GateName)
  | answeredBeforeAdmission (gate : GateName)
  | givenForOtherInputs (gate : GateName)
  | duplicateApproval (gate : GateName)
  | missingDecision (gate : GateName)
  | otherGate (gate : GateName)
  | noPolicyDecision
  | stalePolicy
  | automaticDecision (gate : GateName)
  | replayForManaged (gate : GateName)
  | outOfSequence
deriving DecidableEq, Repr

/-- `raise` unless the condition holds. -/
def ensure (condition : Bool) (refusal : Refusal) : Except Refusal Unit :=
  if condition then .ok () else .error refusal

@[simp] theorem ensure_eq_ok {condition : Bool} {refusal : Refusal} {u : Unit} :
    ensure condition refusal = .ok u ↔ condition = true := by
  cases condition <;> simp [ensure]

/-! ## Actors -/

def autoActor : String :=
  "auto"

def replayActorPrefix : String :=
  "replay:"

def policyActorPrefix : String :=
  "policy:"

/-- `value.startswith(start)`. -/
def startsWith (value start : String) : Bool :=
  start.toList.isPrefixOf value.toList

/-- `actor` is a name the runtime issues to itself, in whatever case. -/
def claimsReserved (casefold : String → String) (actor : String) : Bool :=
  casefold actor == casefold autoActor ||
    startsWith (casefold actor) (casefold replayActorPrefix) ||
    startsWith (casefold actor) policyActorPrefix

/-- The spellings that the check of a recorded decision knows. -/
def knownReserved (actor : String) : Bool :=
  actor == autoActor || startsWith actor replayActorPrefix

/-- A value of a response, by its type. -/
inductive Value
  | absent
  | text (value : String)
  | other
deriving DecidableEq, Repr

/-- `value.get(a) or value.get(b)`. -/
def Value.orElse : Value → Value → Value
  | .absent, v => v
  | .text value, v => if value = "" then v else .text value
  | .other, _ => .other

inductive RespondedBy
  | value (v : Value)
  | mapping (name id : Value)
deriving DecidableEq, Repr

/-- The identity behind a response, or `none` when it carries none. -/
def actorOf (respondedByUser : RespondedBy) : Option String :=
  let value :=
    match respondedByUser with
    | .value v => v
    | .mapping name id => name.orElse id
  match value with
  | .text name => if Text.strip name = "" then none else some (Text.strip name)
  | _ => none

/-! ## Replay fixtures -/

/-- What `load_replay_fixture` makes of the declared file. -/
def loadReplayFixture :
    Option ReplayFile → Except Refusal (Option (List (GateName × ReplayEntry)))
  | none => .ok none
  | some .unreadable => .error .unreadableFixture
  | some (.malformed _) => .error .malformedFixture
  | some (.fixture _ entries) => .ok (some entries)

/-- Why this run may not use a replay fixture, or `none` when it may. -/
def replayRefusal (gate : GateName) (managed : Bool) (scm : String) : Option Refusal :=
  if managed then
    some (.fixtureForManaged gate)
  else if scm ≠ "local" then
    some (.fixtureForScm gate scm)
  else
    none

/-- The fixture's answer for `gate`, or `none` when no fixture declares one. -/
def replayApproval
    {D : Type}
    (gate : GateName)
    (gateReplay : Option ReplayFile)
    (managed : Bool)
    (scm : String)
    (now : Time) :
    Except Refusal (Option (Approval D)) := do
  match ← loadReplayFixture gateReplay with
  | none => return none
  | some entries =>
      match replayRefusal gate managed scm with
      | some refusal => throw refusal
      | none =>
          return (entries.find? (fun e => e.1 == gate)).map (fun e =>
            .unbound gate e.2.decision (replayActorPrefix ++ e.2.actor) .replay
              now none)

/-! ## Responses -/

/-- One recorded gate response. -/
inductive Response
  | missing
  | malformed (kind : String)
  /-- `chosen` is `none` where the options are not a list -/
  | mapping
      (chosen : Option (List String))
      (respondedByUser : RespondedBy)
      (respondedAt : Option Time)
deriving DecidableEq, Repr

/-- The one option that was chosen, as a decision. -/
def chosenDecision : Option (List String) → Option Decision
  | some ["Approve"] => some .approve
  | some ["Reject"] => some .reject
  | _ => none

/-- Turn one recorded gate response into an approval, or refuse to invent one. -/
def approvalFromResponse
    {D : Type}
    (casefold : String → String)
    (gate : GateName)
    (gateMode : GateMode)
    (response : Response)
    (gateReplay : Option ReplayFile)
    (managed : Bool)
    (scm : String)
    (now : Time) :
    Except Refusal (Approval D) := do
  ensure (gateMode != .policy) .answeredByBackend
  match response with
  | .missing =>
      match ← replayApproval gate gateReplay managed scm now with
      | some replay => return replay
      | none => throw (.noResponse gate)
  | .malformed kind => throw (.malformedResponse gate kind)
  | .mapping chosen respondedByUser respondedAt =>
      match chosenDecision chosen with
      | none => throw (.noSingleOption gate)
      | some decision =>
          match actorOf respondedByUser with
          | none =>
              -- no identity: the operator's own declared default fired
              ensure (gateMode == .auto) (.noIdentity gate)
              return .unbound gate decision autoActor .auto now none
          | some actor =>
              ensure (!claimsReserved casefold actor) (.reservedActor gate actor)
              match respondedAt with
              | none => throw (.noAnswerTime gate)
              | some t => return .unbound gate decision actor .human now (some t)

/-! ## The backend -/

/-- What the backend's `approve` decides on. -/
structure PolicyDecision (D : Type) where
  now : Time
  revision : String
  artifactSha256 : D
  inputsDigest : D
  cellId : String
  cellEpoch : Nat

/-- The approval that the backend answers a policy gate with. -/
def policyApproval {D : Type} (gate : GateName) (d : PolicyDecision D) : Approval D where
  gate := gate
  decision := .approve
  actor := policyActorPrefix ++ d.revision
  recorded := d.now
  artifactSha256 := some d.artifactSha256
  mode := .policy
  cellId := some d.cellId
  cellEpoch := some d.cellEpoch
  inputsDigest := some d.inputsDigest
  respondedAt := none

/-! ## The terminal -/

/-- What the declared fixture, the person and the backend would answer. -/
structure Surroundings (D : Type) where
  fixture : Option ReplayFile
  /-- `getpass.getuser()` -/
  user : String
  confirmed : Bool
  decision : Except Refusal (PolicyDecision D)

/-- Local replay's approver. -/
def cliApprover
    {D : Type}
    (ctx : Ctx)
    (gate : Gate)
    (evidence : Except Refusal (Option String × Option Nat × Bool))
    (around : Surroundings D)
    (now : Time) :
    Except Refusal (Approval D) := do
  match gate.mode with
  | .policy => return policyApproval gate.name (← around.decision)
  | .auto => return .unbound gate.name .approve autoActor .auto now none
  | .human =>
      let (_, _, managed) ← evidence
      match ← replayApproval gate.name around.fixture managed ctx.cfg.scm now with
      | some replay => return replay
      | none =>
          ensure (ctx.cfg.approve != "auto") (.approvedByConfiguration gate.name)
          let decision := if around.confirmed then Decision.approve else .reject
          return .unbound gate.name decision around.user .human now none

/-! ## Continuation -/

/-- Re-check one recorded decision at continuation time. -/
def checkRecorded
    {D : Type} [DecidableEq D]
    (gate : Gate)
    (approval : Approval D)
    (managed : Bool)
    (cellId : Option String)
    (cellEpoch : Option Nat)
    (inputsDigest : D)
    (revision : String) :
    Except Refusal Unit := do
  ensure (approval.gate == gate.name) (.otherGate gate.name)
  ensure (approval.inputsDigest == some inputsDigest) (.givenForOtherInputs gate.name)
  ensure (approval.cellId == cellId && approval.cellEpoch == cellEpoch)
    (.otherCell gate.name)
  ensure
    (!(gate.mode == .policy &&
      (approval.mode != .policy || !startsWith approval.actor policyActorPrefix)))
    .noPolicyDecision
  ensure
    (!(approval.mode == .policy &&
      (!managed || gate.mode != .policy ||
        approval.actor != policyActorPrefix ++ revision)))
    .stalePolicy
  ensure
    (!(gate.mode == .human && (approval.mode == .auto || approval.mode == .policy)))
    (.automaticDecision gate.name)
  ensure (!(approval.mode == .replay && managed)) (.replayForManaged gate.name)
  ensure
    (!(approval.mode == .human && knownReserved approval.actor))
    (.reservedActor gate.name approval.actor)

end Gates
end SwFactory
