import SwFactory.Autonomy.Records
import SwFactory.Machine.Interaction

/-!
# Policy gates, publications and merges

The requests of `autonomous_service` as programs.  A statement reads a Cell,
the checked-in policy, the clock or GitHub, or is one transaction of the
decision store.  What the journal makes of a mutation is an answer of the
environment, as is what GitHub does.

Sources: `backend/autonomous_service.py`, `backend/scm_service.py` (`publish`),
`backend/service.py` (`fenced`).
-/

namespace SwFactory
namespace Autonomy

open Machine
open Gates (GateName Approval)
open Text (Time)

/-- The columns of a Cell that the requests read; its issue never changes. -/
structure CellRow where
  epoch : Nat
  state : String
  airflowDagId : Option String
  airflowRunId : Option String
  policyDigest : Option String

/-- The repository of the backend, the issue of each Cell, and the digests. -/
structure Service where
  repo : String
  issue : String → String
  /-- `identity_for_job(job).stable_id()`, from repository, branch and issue -/
  stableId : String → String → String → String
  jobPolicyDigest : Policy → String → String
  patchContentDigest : List UInt8 → String
  sha256 : String → String

/-- What the journal lets a mutation do first. -/
inductive Begun
  | committed (state : MergeState)
  | observe
  | execute

/-! ## Statements -/

inductive Stmt
  | cell (cellId : String)
  | policy
  | time
  | issue (ref : String)
  | get (key : Key)
  | bind (key : Key) (value : key.Value)
  /-- the journalled publication of a patch -/
  | publish (branch : String) (patch : List UInt8)
  /-- the journal row of a mutation -/
  | begin (operationKey : String)
  | lease (capability : String)
  | snapshot (number : Nat) (sha : String)
  | mergeVerified (number : Nat) (sha : String)

abbrev Ans : Stmt → Type
  | .cell _ => Option CellRow
  | .policy => Policy
  | .time => Time
  | .issue _ => Except Refusal Issue
  | .get key => Option key.Value
  | .bind _ _ => Except Refusal Unit
  | .publish _ _ => Except Refusal Receipt
  | .begin _ => Except Refusal Begun
  | .lease _ => Except Refusal Unit
  | .snapshot _ _ => Except Refusal Rows
  | .mergeVerified _ _ => Except Refusal Unit

abbrev Method (α : Type) :=
  Prog Stmt Ans Refusal α

/-- Perform a statement. -/
def ask (stmt : Stmt) : Method (Ans stmt) :=
  Prog.perform stmt

/-- `raise` unless the condition holds. -/
def check (condition : Bool) (refusal : Refusal) : Method Unit :=
  .ofExcept (ensure condition refusal)

/-- A statement that may fail. -/
def attempt {α : Type} (answer : Method (Except Refusal α)) : Method α := do
  Prog.ofExcept (← answer)

/-! ## Authority -/

def line : String :=
  "autonomous"

/-- `LIVE_CELL_STATES` -/
def liveCellStates : List String :=
  ["dispatching", "queued", "running"]

/-- `airflow_binding` finds a run. -/
def CellRow.bound (row : CellRow) : Bool :=
  row.airflowDagId.any (· != "") && row.airflowRunId.any (· != "")

/-- `Factory._cell` -/
def readCell (cellId : String) : Method CellRow := do
  match ← ask (.cell cellId) with
  | none => .raise (.refused 404 ("no Factory Cell " ++ cellId))
  | some row => return row

/-- `Factory.fenced` -/
def fenced (fence : Fence) : Method CellRow := do
  check (1 ≤ fence.epoch) (.value "epoch must be a positive integer")
  let row ← readCell fence.cellId
  check (row.epoch == fence.epoch) (.refused 409 "stale Factory Cell epoch")
  check (row.policyDigest == some fence.policyDigest)
    (.refused 409 "Factory Cell policy digest changed; publication is stale")
  check row.bound (.refused 409 "Factory Cell is not bound to an authoritative Airflow run")
  return row

section Methods

variable (service : Service)

/-- The checks of `authority` behind its two reads. -/
def authorityChecks (policy : Policy) (row : CellRow) (fence : Fence)
    (revision baseBranch : Option String) : Except Refusal Unit := do
  ensure (policy.enabled && service.repo == policy.repository &&
      row.airflowDagId == some line)
    (.refused 403 "Cell is outside autonomous policy")
  ensure (liveCellStates.contains row.state)
    (.refused 409 "autonomous Cell is no longer live")
  ensure
    (service.stableId service.repo policy.baseBranch (service.issue fence.cellId) ==
      fence.cellId)
    (.refused 403 "autonomous target is outside policy")
  ensure
    (row.policyDigest == some (service.jobPolicyDigest policy service.repo) &&
      revision == some policy.revision)
    (.refused 409 "autonomous policy revision moved; a new Cell epoch is required")
  ensure (baseBranch.getD policy.baseBranch == policy.baseBranch)
    (.refused 403 "autonomous base branch is outside policy")

/-- `authority` -/
def authority (fence : Fence) (revision baseBranch : Option String) :
    Method Policy := do
  let row ← fenced fence
  let policy ← ask .policy
  Prog.ofExcept (authorityChecks service policy row fence revision baseBranch)
  return policy

/-- `_require_eligible` -/
def requireEligible (policy : Policy) (cellId verb : String) : Method Unit := do
  let issue ← attempt (ask (.issue (service.issue cellId)))
  match policy.issueReason issue service.repo with
  | none => return ()
  | some reason => .raise (.refused 403 ("autonomous " ++ verb ++ " blocked: " ++ reason))

/-- The host-generated chain of the issue. -/
def Service.artifactPrefix (service : Service) (cellId : String) : Path :=
  "docs/factory/".toList ++ (service.issue cellId).toList

/-! ## Gates -/

def gateName (gate : String) : Except Refusal GateName :=
  if gate = "intent" then .ok .intent
  else if gate = "plan" then .ok .plan
  else .error (.value "policy gate must be intent or plan")

/-- The check of the plan gate on the decision of the intent gate. -/
def planFollows (body : GateBody) (intent : Option GateDecision) : Bool :=
  intent.any (fun decision => decision.approval.inputsDigest == body.inputsDigest)

/-- The decision that `approve` binds. -/
def gateDecision (policy : Policy) (body : GateBody) (gate : GateName) (now : Time) :
    GateDecision where
  approval := {
    (Approval.unbound gate .approve ("policy:" ++ policy.revision) .policy now none : Approval String) with
    artifactSha256 := body.artifactSha256
    inputsDigest := body.inputsDigest
    cellId := some body.cellId
    cellEpoch := some body.epoch }
  paths := body.paths
  budgetUsd := body.budgetUsd
  planSha256 := body.planSha256

/-- The time of an earlier decision stays. -/
def GateDecision.at (decision : GateDecision) (previous : Option GateDecision) :
    GateDecision :=
  match previous with
  | none => decision
  | some previous =>
      { decision with approval :=
        { decision.approval with recorded := previous.approval.recorded } }

/-- What `approve` asks of the plan gate only. -/
def followsIntent (policy : Policy) (body : GateBody) (gate : GateName) : Method Unit :=
  if gate = .plan then do
    let intent ← ask (.get (.gate body.cellId body.epoch .intent))
    check (planFollows body intent)
      (.refused 403 "plan gate requires intent approval for the same accepted inputs")
    Prog.ofExcept (policy.checkPaths body.paths none)
  else
    return ()

/-- `approve` -/
def approve (body : GateBody) : Method (Approval String) := do
  let policy ← authority service body.toFence body.revision body.baseBranch
  let gate ← Prog.ofExcept (gateName body.gate)
  requireEligible service policy body.cellId "triage"
  check (body.costUsd.isSome && body.budgetUsd.isSome)
    (.value "cost_usd and budget_usd must be numbers")
  Prog.ofExcept (policy.checkBudget body.costUsd body.budgetUsd)
  followsIntent policy body gate
  let now ← ask .time
  check (body.artifactSha256.isSome && body.inputsDigest.isSome)
    (.value "policy decisions require artifact and accepted-input digests")
  check (gate != .plan || body.planSha256.any (isHex 64))
    (.value "plan approval requires the structured plan digest")
  let previous ←
    ask (.get (.gate body.cellId body.epoch gate))
  let decision := (gateDecision policy body gate now).at previous
  attempt (ask (.bind (.gate body.cellId body.epoch gate) decision))
  return decision.approval

/-- `policy_gate`: a blocked gate is on record. -/
def policyGate (body : GateBody) : Method (Approval String) :=
  (approve service body).handle fun error =>
    match error with
    | .value _ => .raise error
    | _ => do
        attempt (ask (.bind (.blockedGate body) error))
        .raise error

/-! ## Publications -/

def artifactNames : List String :=
  ["intent.md", "plan.md", "plan.json", "review.json", "metrics.json", "approvals.json"]

/-- The checks of the host evidence on its own. -/
def checkEvidence (policy : Policy) (evidence : Evidence) : Except Refusal Unit := do
  ensure (evidence.agent == "claude")
    (.refused 403 "scripted replay cannot authorize autonomous publication or merge")
  ensure (evidence.testsPassed && evidence.reviewVerdict == "approve" &&
      evidence.blockers == 0)
    (.refused 403 "autonomous tests or review did not pass")
  policy.checkBudget evidence.costUsd evidence.budgetUsd

/-- The gate decision behind a key that must be answered. -/
def answered (gate : String) : Option GateDecision → Except Refusal GateDecision
  | none => .error (.refused 403 ("autonomous " ++ gate ++ " gate is unanswered"))
  | some decision => .ok decision

/-- The checks of evidence and patch against the two gate decisions. -/
def checkGates (policy : Policy) (artifactPrefix : Path) (evidence : Evidence)
    (changed : List Path) (intent plan : GateDecision) : Except Refusal Unit := do
  ensure (evidence.approvals == [intent.approval, plan.approval])
    (.refused 409 "publication does not carry backend-owned gate decisions")
  ensure (intent.approval.inputsDigest == plan.approval.inputsDigest)
    (.refused 409 "autonomous gates approved different accepted inputs")
  policy.checkPaths changed (some artifactPrefix)
  ensure (changed.all (fun path => plan.paths.contains path || below artifactPrefix path))
    (.refused 403 "published diff contains unapproved plan paths")
  ensure
    (artifactNames.all (fun name => (evidence.artifactDigests.lookup name).any (isHex 64)))
    (.value "publication requires artifact digests")
  ensure (evidence.artifactDigests.lookup "plan.json" == plan.planSha256)
    (.refused 409 "structured plan moved after approval")
  ensure
    (evidence.artifactDigests.lookup "intent.md" == intent.approval.artifactSha256 &&
      evidence.artifactDigests.lookup "plan.md" == plan.approval.artifactSha256)
    (.refused 409 "approved artifact moved before publication")

/-- A publication that is sealed already is this one. -/
def sameAsSealed (decision : PublicationDecision) (body : PublishBody)
    (previous : Option Publication) : Bool :=
  previous.all (fun publication =>
    publication.toPublicationDecision == decision &&
      publication.receipt.branch == body.branch &&
      publication.receipt.contentDigest == service.patchContentDigest body.patch)

/-- `validate_publication` -/
def validatePublication (body : PublishBody) : Method (Option PublicationDecision) := do
  let row ← readCell body.cellId
  if row.airflowDagId ≠ some line then
    return none
  else
    let policy ← authority service body.toFence body.revision body.baseBranch
    requireEligible service policy body.cellId "publication"
    match body.evidence with
    | none => .raise (.refused 403 "autonomous publication lacks host evidence")
    | some evidence =>
        Prog.ofExcept (checkEvidence policy evidence)
        let intent ← ask (.get (.gate body.cellId body.epoch .intent))
        let intent ← Prog.ofExcept (answered "intent" intent)
        let plan ← ask (.get (.gate body.cellId body.epoch .plan))
        let plan ← Prog.ofExcept (answered "plan" plan)
        Prog.ofExcept
          (checkGates policy (service.artifactPrefix body.cellId) evidence
            (Patch.patchPaths body.patch) intent plan)
        let decision : PublicationDecision :=
          ⟨policy.revision, evidence, Patch.patchPaths body.patch⟩
        let previous ← ask (.get (.publication body.cellId body.epoch))
        check (sameAsSealed service decision body previous)
          (.refused 409 "publication is already sealed for this Cell epoch")
        return some decision

/-- `CONTROL_PLANE_EXEMPTION_LABEL` -/
def controlPlaneExemptionLabel : String :=
  "control-plane-maintenance"

/-- `publish` -/
def publish (body : PublishBody) : Method Receipt := do
  let _ ← fenced body.toFence
  check ("factory/".toList.isPrefixOf body.branch.toList)
    (.refused 403 "publication branch must be under factory/")
  check body.allowedPrefixes.isSome
    (.refused 403 "publication must name the target's allowed_prefixes")
  check (!body.labels.contains controlPlaneExemptionLabel)
    (.refused 403 "publication may not carry the control-plane label")
  check (body.patch.length ≤ 12 * 1024 * 1024)
    (.value "patch exceeds backend publication limit")
  let autonomous ← validatePublication service body
  let receipt ← attempt (ask (.publish body.branch body.patch))
  match autonomous with
  | none => return receipt
  | some decision =>
      -- `remember_publication`
      attempt (ask (.bind (.publication body.cellId body.epoch) ⟨decision, receipt⟩))
      return receipt

/-! ## Merges -/

/-- The checks of a pull request on its place; whether it is merged. -/
def placed (policy : Policy) (snapshot : Snapshot) (sha : String) :
    Except Refusal Bool := do
  ensure (snapshot.pr.headSha == some sha && snapshot.pr.baseRef == some policy.baseBranch)
    (.refused 409 "PR moved after publication or targets another branch")
  ensure (snapshot.pr.headRepo == some service.repo && snapshot.pr.baseRepo == some service.repo)
    (.refused 403 "PR belongs to another repository")
  if snapshot.pr.merged then
    return true
  else
    ensure (snapshot.pr.state == "open" && !snapshot.pr.draft)
      (.refused 403 "PR is not open and ready for merge")
    return false

/-- The checks of the diff, the required checks and the reviews. -/
def verifiedState (policy : Policy) (artifactPrefix : Path) (sealed : List Path)
    (snapshot : Snapshot) (sha : String) : Except Refusal MergeState := do
  policy.checkPaths snapshot.paths (some artifactPrefix)
  ensure (sameSet snapshot.paths sealed)
    (.refused 409 "PR diff moved after publication")
  match ← checksVerdict policy snapshot.checks sha policy.requiredChecks with
  | some state => return state
  | none =>
      ensure
        (!(decisiveReviews snapshot.reviews).any (fun entry =>
          entry.2 == "CHANGES_REQUESTED"))
        (.refused 403 "GitHub review has unresolved blockers")
      return .ready

/-- `inspect` -/
def inspect (policy : Policy) (cellId : String) (publication : Publication)
    (number : Nat) (sha : String) : Method MergeState := do
  let rows ← attempt (ask (.snapshot number sha))
  let snapshot ← Prog.ofExcept
    (autonomousSnapshot service.sha256 publication.evidence.artifactDigests rows)
  if ← Prog.ofExcept (placed service policy snapshot sha) then
    return .merged
  else
    requireEligible service policy cellId "merge"
    Prog.ofExcept
      (verifiedState policy (service.artifactPrefix cellId) publication.paths snapshot sha)

/-- `apply` of the merge -/
def applyMerge (policy : Policy) (cellId : String) (publication : Publication)
    (number : Nat) (sha : String) : Method MergeState := do
  attempt (ask (.lease "github.publish"))
  match ← inspect service policy cellId publication number sha with
  | .merged => return .merged
  | .pending _ => .raise (.refused 409 "merge evidence changed before mutation")
  | .ready =>
      attempt (ask (.mergeVerified number sha))
      match ← inspect service policy cellId publication number sha with
      | .merged => return .merged
      | _ => .raise (.stage "merge response is unverified")

/-- `reconcile` of the merge; `none` where the evidence is ambiguous. -/
def reconcileMerge (policy : Policy) (cellId : String) (publication : Publication)
    (number : Nat) (sha : String) : Method (Option MergeState) :=
  (do
    attempt (ask (.lease "github.read"))
    let state ← inspect service policy cellId publication number sha
    return some state : Method (Option MergeState)).handle fun error =>
      match error with
      | .value _ => .raise error
      | _ => return none

/-- The sealed head and number of a publication, where GitHub can merge them. -/
def Publication.target (publication : Publication) : Except Refusal (Nat × String) :=
  match publication.receipt.prNumber with
  | some number =>
      if isHex 40 publication.receipt.headRevision then
        .ok (number, publication.receipt.headRevision)
      else
        .error (.refused 409 "publication lacks an immutable GitHub head")
  | none => .error (.refused 409 "publication lacks an immutable GitHub head")

/-- The publication that the policy authorized for the Cell epoch. -/
def authorized (policy : Policy) : Option Publication → Except Refusal Publication
  | none =>
      .error (.refused 403 "no policy-authorized publication exists for this Cell epoch")
  | some publication =>
      if publication.revision = policy.revision then
        .ok publication
      else
        .error (.refused 403 "no policy-authorized publication exists for this Cell epoch")

/-- `merge` -/
def merge (body : MergeBody) : Method MergeState := do
  let policy ← authority service body.toFence body.revision body.baseBranch
  let recorded ← ask (.get (.publication body.cellId body.epoch))
  let publication ← Prog.ofExcept (authorized policy recorded)
  let (number, sha) ← Prog.ofExcept publication.target
  attempt (ask (.lease "github.read"))
  match ← inspect service policy body.cellId publication number sha with
  | .pending reason => return .pending reason
  | _ =>
      match ← attempt (ask (.begin body.operationKey)) with
      | .committed state => return state
      | .execute => applyMerge service policy body.cellId publication number sha
      | .observe =>
          match ← reconcileMerge service policy body.cellId publication number sha with
          | none => .raise (.stage "operation is in doubt")
          | some .merged => return .merged
          | some _ => do
              -- observed to be absent: the attempt is claimed in the journal
              let _ ← attempt (ask (.begin body.operationKey))
              applyMerge service policy body.cellId publication number sha

/-! ## Serving -/

inductive Reply
  | approval (approval : Approval String)
  | receipt (receipt : Receipt)
  | state (state : MergeState)

def Request.prog : Request → Method Reply
  | .gate body => do return .approval (← policyGate service body)
  | .publish body => do return .receipt (← Autonomy.publish service body)
  | .merge body => do return .state (← Autonomy.merge service body)

end Methods

end Autonomy
end SwFactory
