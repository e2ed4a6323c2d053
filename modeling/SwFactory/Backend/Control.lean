import SwFactory.Backend.Dispatch

/-!
# The backend: transitions and managed effects

`_transition` moves a Cell, journals the cancellation of its Airflow run and
releases its capacity.  `execute_external` is the path of every managed effect:
it checks the request against the Cell, journals the effect, and then records
it on the timeline of the Cell under the same key.

The work that a transition resumes is a request of its own here.

Sources: `backend/service.py` (`_transition`, `_journal_airflow_cancel`),
`control_kernel.py` (`release_cell`, `mutate_core`), `core_capabilities.py`
(`execute_external`), `authority.py`, `security_contract.py` and
`backend/followups.py` (the two records).
-/

namespace SwFactory
namespace Backend

open Text Machine Cells Restore

variable {V : Type}
variable (setup : Setup V)

section Transition

/-- `_cell`. -/
def readCell (cellId : String) : Method V Cell := do
  let found : Except CellError Cell ← perform (.getCell cellId)
  match found with
  | .ok cell => return cell
  | .error _ => .raise (.transition (.noCell cellId))

/-- `_cell_at`. -/
def cellAt (cellId : String) (epoch : Int) : Method V Cell := do
  let cell ← readCell cellId
  if cell.epoch ≠ epoch then
    .raise (.transition (.staleEpoch epoch cell.epoch))
  else return cell

/-- The patch of `_transition`; a repeated key counts as applied. -/
def patchOnce (r : Factory.Request) (fields : Fields) : Method V Cell := do
  let patched : Except CellError Cell ←
    perform (.patch r.cellId r.epoch r.operationKey fields)
  match patched with
  | .ok updated => return updated
  | .error (.duplicateOperation _) => readCell r.cellId
  | .error e => .raise (.cell e)

/-- The loop of `release_cell`. -/
def completeAll (cellId : String) (epoch : Int) (state : String) :
    List String → Method V Unit
  | [] => .ret ()
  | workId :: workIds => do
      let outcome ← onAdmission (.complete workId cellId epoch state)
      if outcome = .drains true then do
        let _ ← onAdmission (.drain none)
        completeAll cellId epoch state workIds
      else
        completeAll cellId epoch state workIds

/-- `release_cell`. -/
def releaseCell (cellId : String) (epoch : Int) (state : String) :
    Method V Unit := do
  let workIds : List String ← perform (.membersForCell cellId epoch)
  completeAll cellId epoch state workIds

/-- The state of a Cell, as the column spells it. -/
def cellStateName : CellState → String
  | .created => "created"
  | .dispatching => "dispatching"
  | .queued => "queued"
  | .running => "running"
  | .success => "success"
  | .failed => "failed"
  | .cancelled => "cancelled"
  | .rejected => "rejected"
  | .cleaned => "cleaned"

variable [DecidableEq V]

/-- `_journal_airflow_cancel`. -/
def journalAirflowCancel (cell : Cell) : Method V Unit :=
  let dagId := cell.airflowDagId.getD ""
  let runId := cell.airflowRunId.getD ""
  if dagId = "" ∨ runId = "" then .ret ()
  else do
    let _ ← mutate
      (buildRef setup cell.cellId cell.epoch "airflow_cancel" [dagId, runId])
      true true
    return ()

/-- The branch of `_transition` for `cleaned`. -/
def clean (r : Factory.Request) (cleanup : String) : Method V Unit := do
  let updated ← patchOnce r { cleanup := some cleanup }
  if updated.state.isTerminal then
    releaseCell r.cellId r.epoch (cellStateName updated.state)
  else return ()

/-- The branch of `_transition` for every other state. -/
def moveCell (r : Factory.Request) (current : Cell) : Method V Unit := do
  .ofExcept ((Factory.checkTransition current.state r.requested).mapError
    .transition)
  let updated ← patchOnce r { state := some r.requested }
  if Factory.cancelsRun r updated then
    journalAirflowCancel setup updated
  if r.requested.isTerminal then
    releaseCell r.cellId r.epoch (cellStateName r.requested)

/-- `_transition`; `cleanup` is the document of a cleanup. -/
def transition (body : Factory.Body) (cleanup : String) : Method V Unit := do
  let r ← .ofExcept (body.parse.mapError .transition)
  let current ← cellAt r.cellId r.epoch
  if r.requested = .cleaned then clean r cleanup
  else moveCell setup r current

end Transition

section Requests

/-- `ResourceKind`. -/
inductive ResourceKind
  | cell
  | airflowRun
  | sandbox
  | githubPublication
  | modelCall
  | cleanup
  | admission
  | evidence
  | generation
deriving DecidableEq, Repr

/-- `rule_for(resource).owner`. -/
def ResourceKind.owner : ResourceKind → String
  | airflowRun => "airflow"
  | _ => "python-backend"

/-- `TERMINAL_EFFECT_RESOURCES`. -/
def ResourceKind.onTerminal : ResourceKind → Bool
  | cleanup | evidence => true
  | _ => false

/-- `Capability`. -/
inductive Capability
  | readSource
  | writeWorkspace
  | readCache
  | writeCache
  | useModel
  | publishGit
  | readSecret
  | adminRepair
deriving DecidableEq, Repr

/-- `AirflowBinding`. -/
structure AirflowBinding where
  cellId : String
  epoch : Int
  dagId : String
  runId : String
  mapIndex : Option Int := none
deriving DecidableEq, Repr

/-- `SecurityContext`. -/
structure SecurityContext where
  tenant : String
  cellId : String
  epoch : Int
  capabilities : List Capability
  secretScopes : List String := []
deriving DecidableEq, Repr

/-- `CoreMutationRequest`. -/
structure CoreMutationRequest where
  airflow : AirflowBinding
  security : SecurityContext
  resource : ResourceKind
  capability : Capability
  actor : String
  kind : String
  expectedPolicyDigest : String
  targetTenant : String
  parts : List String := []
  secretScope : Option String := none
  replaySafe : Option Bool := none
  externalOperationKey : Option String := none
  intentDigest : Option String := none
deriving DecidableEq, Repr

/-- `AirflowBinding.validate`. -/
def AirflowBinding.validate (b : AirflowBinding) : Except BackendError Unit :=
  if !isCellId b.cellId then
    .error (.other "Airflow binding requires a Factory Cell id")
  else if b.epoch < 1 then
    .error (.other "Airflow binding epoch must be positive")
  else if isBlank b.dagId || isBlank b.runId then
    .error (.other "Airflow binding requires dag_id and run_id")
  else if b.mapIndex.any (fun i => decide (i < 0)) then
    .error (.other "Airflow map_index cannot be negative")
  else .ok ()

/-- `SecurityContext.validate`. -/
def SecurityContext.validate (c : SecurityContext) : Except BackendError Unit :=
  if isBlank c.tenant then .error (.other "tenant is required")
  else if !isCellId c.cellId then .error (.other "invalid cell id")
  else if c.epoch < 1 then .error (.other "epoch must be positive")
  else .ok ()

/-- `value.startswith("policy:")`. -/
def hasPolicyScheme (value : String) : Bool :=
  value.toList.take 7 == "policy:".toList

/-- `CoreMutationRequest.validate`. -/
def CoreMutationRequest.validate (r : CoreMutationRequest) :
    Except BackendError Unit := do
  r.airflow.validate
  r.security.validate
  if r.security.cellId ≠ r.airflow.cellId ∨ r.security.epoch ≠ r.airflow.epoch then
    .error (.other
      "security and Airflow identities must name the same Cell epoch")
  else if isBlank r.actor then .error (.other "mutation actor is required")
  else if isBlank r.kind || decide (128 < r.kind.length) then
    .error (.other "mutation kind must be nonempty and bounded")
  else if !hasPolicyScheme r.expectedPolicyDigest then
    .error (.other "mutation requires a canonical expected policy digest")
  else if isBlank r.targetTenant then .error (.other "target tenant is required")
  else if r.externalOperationKey.any (fun key =>
      isBlank key || decide (256 < key.length)) then
    .error (.other "external operation key must be nonempty and bounded")
  else
    (Journal.validateDigest r.intentDigest).mapError .operation

/-- `require_current_policy_digest`: `policy:v1:` and 64 lowercase hex digits. -/
def isCurrentPolicy (digest : String) : Bool :=
  let hex := digest.toList.drop 10
  digest.toList.take 10 == "policy:v1:".toList &&
    hex.length == 64 && hex.all isLowerHex

/-- `authorize`. -/
def SecurityContext.authorizes (c : SecurityContext) (capability : Capability)
    (tenant : String) (secretScope : Option String) : Bool :=
  decide (tenant = c.tenant) && c.capabilities.contains capability &&
    (decide (capability ≠ .readSecret) ||
      secretScope.any (fun scope => c.secretScopes.contains scope))

/-- `_require_airflow_owner` and `_require_policy`. -/
def checkOwner (r : CoreMutationRequest) (cell : Cell) :
    Except BackendError String :=
  if cell.airflowDagId ≠ some r.airflow.dagId ∨
      cell.airflowRunId ≠ some r.airflow.runId ∨
      cell.mapIndex ≠ r.airflow.mapIndex then
    .error (.other "external mutation is not owned by the bound Airflow run")
  else if !hasPolicyScheme (cell.policyDigest.getD "") then
    .error (.other "Cell has no canonical policy digest")
  else .ok (cell.policyDigest.getD "")

/-- The envelope, the capability and the authority of a mutation. -/
def checkAuthority (r : CoreMutationRequest) (key currentPolicy : String)
    (cell : Cell) : Except BackendError Unit :=
  if key = "" ∨ 256 < key.length then
    .error (.other "operation key must be nonempty and bounded")
  else if !isCurrentPolicy r.expectedPolicyDigest then
    .error (.other "mutation requires the current policy digest family")
  else if 128 < r.actor.length then
    .error (.other "actor must be nonempty and bounded")
  else if r.expectedPolicyDigest ≠ currentPolicy then
    .error (.other "mutation policy digest is stale")
  else if !r.security.authorizes r.capability r.targetTenant r.secretScope then
    .error (.other "role lacks the capability for the tenant")
  else if r.airflow.epoch ≠ cell.epoch then
    .error (.other "stale epoch")
  else if r.actor ≠ r.resource.owner then
    .error (.other "mutations of the resource belong to its owner")
  else if isBlank key then
    .error (.other "mutation must carry an operation key")
  else .ok ()

/-- The digests of a mutation and the text of its event. -/
structure CoreDigests (V : Type) where
  request : CoreMutationRequest → String → String
  result : Option V → String
  document : ResourceKind → Capability → String → String → String

/-- `request.external_operation_key or operation_key(...)`. -/
def coreKey (r : CoreMutationRequest) : String :=
  if Factory.isSet r.externalOperationKey then r.externalOperationKey.getD ""
  else
    r.kind ++ ":" ++ setup.digest
      ("\x00".intercalate (r.kind :: r.airflow.cellId ::
        toString r.airflow.epoch :: r.parts))

/-- `request.intent_digest or self._request_digest(...)`. -/
def coreIntent (digests : CoreDigests V) (r : CoreMutationRequest) : String :=
  if Factory.isSet r.intentDigest then r.intentDigest.getD ""
  else digests.request r (coreKey setup r)

end Requests

section Effects

/-- `_already_committed`. -/
def alreadyCommitted (key : String) : Method V Bool :=
  (onKey key (Journal.get key)).finish (fun
    | .ok row => .ret (decide (row.state = .committed))
    | .error (.operation (.keyError _)) => .ret false
    | .error e => .raise e)

/-- What `_cell_effect_once` finds under the key of a repeated effect. -/
def sameEffect (m : Mutation) (events : List Event) : Except BackendError Unit :=
  match events.reverse.find? (fun e => decide (e.operationKey = m.operationKey)) with
  | none =>
      .error (.other
        "duplicate Cell operation was reported but no matching event exists")
  | some event =>
      if event.kind ≠ m.kind ∨ event.payload ≠ m.payload then
        .error (.other "operation key already names a different Cell effect")
      else .ok ()

/-- `_cell_effect_once`. -/
def cellEffectOnce (m : Mutation) : Method V Unit := do
  let recorded : Except CellError Unit ← perform (.record m)
  match recorded with
  | .ok () => return ()
  | .error (.duplicateOperation _) => do
      let events : List Event ← perform (.history m.cellId)
      .ofExcept (sameEffect m events)
  | .error e => .raise (.cell e)

/-- The event of a managed effect. -/
def effectOf (digests : CoreDigests V) (r : CoreMutationRequest)
    (result : Option V) : Mutation where
  cellId := r.airflow.cellId
  epoch := r.airflow.epoch
  operationKey := coreKey setup r
  kind := .externalMutation
  payload := .document (digests.document r.resource r.capability
    (coreIntent setup digests r) (digests.result result))

/-- The Cell of a mutation, while its epoch is the current one. -/
def currentCell (cellId : String) (epoch : Int) : Method V Cell := do
  let found : Except CellError Cell ← perform (.getCell cellId)
  let cell ← cellCall found
  if cell.epoch ≠ epoch then
    .raise (.cell (.staleEpoch cellId (.current epoch cell.epoch)))
  else return cell

/-- `_refuse_terminal_effect`, for an effect that is not replayed. -/
def refuseTerminal (r : CoreMutationRequest) (cell : Cell) (replayed : Bool) :
    Except BackendError Unit :=
  if !replayed && cell.state.isTerminal && !r.resource.onTerminal then
    .error (.other "terminal Cell may not create a new external effect")
  else .ok ()

variable [DecidableEq V]

/-- `mutate_core` and `execute_external`. -/
def mutateCore (digests : CoreDigests V) (r : CoreMutationRequest)
    (reconciles : Bool) (budget : Option Journal.RetryBudget) :
    Method V (Option V) := do
  let gate : Except String Bool ← perform (.mustObserve r.airflow.cellId)
  let observes ← outside gate
  .ofExcept r.validate
  let cell ← currentCell r.airflow.cellId r.airflow.epoch
  let policy ← .ofExcept (checkOwner r cell)
  .ofExcept (checkAuthority r (coreKey setup r) policy cell)
  let replayed ← alreadyCommitted (coreKey setup r)
  .ofExcept (refuseTerminal r cell replayed)
  let result ← onKey (coreKey setup r) (Journal.execute
    { ref := ⟨r.airflow.cellId, r.airflow.epoch.toNat, r.kind, coreKey setup r⟩
      replaySafe := r.replaySafe
      reconciles := reconciles
      budget := budget
      intentDigest := some (coreIntent setup digests r)
      observeBeforeFirstAttempt := observes })
  cellEffectOnce (effectOf setup digests r result)
  let noted : Except String Unit ← perform .evidence
  outside noted
  return result

end Effects

section Followups

/-- The records of `followups.py`: a follow-up, or its dismissal. -/
def followup (cellId : String) (epoch : Int) (identifier text : String)
    (dismissed : Bool) : Mutation where
  cellId := cellId
  epoch := epoch
  operationKey := if dismissed then "dismiss:" ++ identifier else identifier
  kind := if dismissed then .githubFollowupDismissed else .githubFollowup
  payload := .document text

/-- The record of a follow-up; a repeated one is suppressed. -/
def recordFollowup (cellId identifier text : String) (dismissed : Bool) :
    Method V Unit := do
  let cell ← readCell cellId
  let recorded : Except CellError Unit ←
    perform (.record (followup cell.cellId cell.epoch identifier text dismissed))
  match recorded with
  | .ok () => return ()
  | .error (.duplicateOperation _) => return ()
  | .error e => .raise (.cell e)

end Followups

end Backend
end SwFactory
