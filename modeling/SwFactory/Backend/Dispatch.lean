import SwFactory.Backend.Statements

/-!
# The backend: delivery and cancellation of work orders

`_dispatch_intent` hands one admitted command to Airflow: it activates the Cell
of every member, or adopts an activation that the history of the Cell proves to
be its own, records the epochs, journals the dispatch, and binds the Cells to
the run.  A failure is recovered by the attempt itself.  The operator cancels
an order by closing the Cells whose epochs are recorded, and then the order.

A thread performs these steps one by one; nothing is atomic across the stores.

The deliveries that a request resumes for other orders are requests of their
own here, and the responses of the requests are left out.

Source: `backend/service.py` (`submit`, `_deliver` to `_compensate`),
`backend/routes.py` (`_queue_cancel`), `control_kernel.py` (`mutate`).
-/

namespace SwFactory
namespace Backend

open Text Machine Cells Restore

variable {V : Type}
variable (setup : Setup V)

/-- `_cell_actor`. -/
def cellActor (actor workId : String) : String :=
  "backend:" ++ actor ++ ":" ++ workId

/-- `identity_for_job`. -/
def identityForJob (job : Job) : CellIdentity where
  repo := strip job.repo
  target := setup.cellTarget job
  issue := strip job.issue

/-- The members that `submit` declares for the jobs of an order. -/
def memberSpecs (body : WorkBody) : List Admission.MemberSpec :=
  body.jobs.map (fun job =>
    ⟨job.jobIdx, job.repo, setup.stableId (identityForJob setup job)⟩)

/-- `{int(job["job_idx"]): job for job in order["jobs"]}`: the last one counts. -/
def WorkBody.job (body : WorkBody) (jobIdx : Int) : Option Job :=
  lookup Job.jobIdx jobIdx body.jobs.reverse

/-- `OperationRef.build`. -/
def buildRef (cellId : String) (epoch : Int) (kind : String)
    (parts : List String) : Journal.OperationRef where
  cellId := cellId
  epoch := epoch.toNat
  kind := kind
  key := kind ++ ":" ++ setup.digest
    ("\x00".intercalate (cellId :: toString epoch :: kind :: parts))

/-- A call of the admission store, or its exception. -/
def onAdmission (op : Admission.Op) : Method V Admission.Outcome := do
  let answer ← perform (.admission op)
  admissionCall answer

section Members

/-- The newest `activated` event of the epoch names this actor. -/
def wasActivatedBy (events : List Event) (epoch : Int) (owner : String) : Bool :=
  match events.reverse.find? (fun e =>
      decide (e.kind = .activated ∧ e.epoch = epoch)) with
  | some event => decide (event.payload = .actor owner)
  | none => false

/-- `_activated_by`. -/
def activatedBy (cell : Cell) (owner : String) : Method V Bool := do
  let events : List Event ← perform (.history cell.cellId)
  return wasActivatedBy events cell.epoch owner

/-- `record_member_epoch` of the Cell that a member has. -/
def recordEpoch (intent : Admission.DispatchIntent) (member : Admission.Member)
    (cell : Cell) : Method V Cell := do
  let _ ← onAdmission (.recordMemberEpoch intent.workId member.jobIdx cell.epoch
    intent.leaseToken)
  return cell

/-- The activation of `_member_cell`. -/
def activateMember (intent : Admission.DispatchIntent)
    (member : Admission.Member) (job : Job) (owner : String) :
    Method V Cell := do
  let activated : Except CellError Cell ←
    perform (.activate (identityForJob setup job) owner)
  match activated with
  | .ok cell => recordEpoch intent member cell
  | .error (.cellBusy cellId epoch state) =>
      .raise (.refused 409 (setup.str (.cell (.cellBusy cellId epoch state))))
  | .error e => .raise (.cell e)

/-- `_member_cell`. -/
def memberCell (intent : Admission.DispatchIntent) (member : Admission.Member)
    (job : Job) (actor : String) : Method V Cell := do
  let owner := cellActor actor intent.workId
  let found : Except CellError Cell ← perform (.getCell member.cellId)
  match found, member.cellEpoch with
  | .ok cell, some epoch =>
      if cell.epoch = epoch ∧ cell.state.isLive then
        return cell
      else if epoch < cell.epoch ∨ cell.state.isTerminal then
        .raise (.refused 409
          "Factory Cell moved past the epoch this work order was admitted for")
      else activateMember setup intent member job owner
  | .ok cell, none =>
      if cell.state.isLive then do
        -- an earlier attempt of this order may have died before its record
        let own ← activatedBy cell owner
        if own then recordEpoch intent member cell
        else activateMember setup intent member job owner
      else activateMember setup intent member job owner
  | .error _, _ => activateMember setup intent member job owner

/-- The check of `_bind_cell_policy` on the row it has bound. -/
def checkPolicy (policyDigest : String) (bound : Cell) : Method V Cell :=
  if bound.policyDigest ≠ some policyDigest then
    .raise (.refused 409
      "active Factory Cell policy differs from retried submission")
  else .ret bound

/-- `_bind_cell_policy`. -/
def bindCellPolicy (cell : Cell) (operationKey policyDigest generation : String) :
    Method V Cell :=
  if cell.policyDigest ≠ none ∧ cell.policyDigest ≠ some policyDigest then
    .raise (.refused 409
      ("active Factory Cell already carries a different policy digest; " ++
        "reactivate it at a new epoch before rebinding policy authority"))
  else do
    let patched : Except CellError Cell ←
      perform (.patch cell.cellId cell.epoch operationKey
        { policyDigest := some (some policyDigest)
          factoryGeneration := some (some generation) })
    match patched with
    | .ok bound => checkPolicy policyDigest bound
    | .error (.duplicateOperation _) => do
        let found : Except CellError Cell ← perform (.getCell cell.cellId)
        let bound ← cellCall found
        checkPolicy policyDigest bound
    | .error e => .raise (.cell e)

/-- One entry of `_factory_cells`. -/
structure Binding where
  jobIdx : Int
  cellId : String
  epoch : Int
  repo : String
  policyDigest : String
  factoryGeneration : String
  snapshotDigest : String
deriving DecidableEq, Repr

/-- `_snapshot_digest`. -/
def snapshotDigest (body : WorkBody) : String :=
  if hasDigestScheme body.requestDigest then
    String.ofList (body.requestDigest.toList.drop 7)
  else body.requestDigest

/-- The entry for one member. -/
def binding (body : WorkBody) (member : Admission.Member) (job : Job)
    (cell : Cell) : Binding where
  jobIdx := member.jobIdx
  cellId := cell.cellId
  epoch := cell.epoch
  repo := member.repo
  policyDigest := job.policyDigest
  factoryGeneration :=
    if Factory.isSet cell.factoryGeneration then cell.factoryGeneration.getD ""
    else body.generation
  snapshotDigest := snapshotDigest body

/-- One turn of `_bind_members`. -/
def bindMember (intent : Admission.DispatchIntent) (body : WorkBody)
    (member : Admission.Member) : Method V Binding :=
  match body.job member.jobIdx with
  | none =>
      .raise (.refused 500
        "work order member has no job in its immutable payload")
  | some job => do
      let cell ← memberCell setup intent member job body.actor
      let cell ← bindCellPolicy cell
        ("policy:" ++ intent.workId ++ ":" ++ toString member.jobIdx)
        job.policyDigest body.generation
      return binding body member job cell

/-- `_bind_members`. -/
def bindMembers (intent : Admission.DispatchIntent) (body : WorkBody) :
    List Admission.Member → Method V (List Binding)
  | [] => .ret []
  | member :: members => do
      let first ← bindMember setup intent body member
      let rest ← bindMembers intent body members
      return first :: rest

end Members

section Runs

/-- The patch of `_bind_run`. -/
def runFields (line runId : String) (jobIdx : Int) : Fields where
  state := some .queued
  airflowDagId := some (some line)
  airflowRunId := some (some runId)
  mapIndex := some (some jobIdx)

/-- One turn of `_bind_run`. -/
def bindCell (line runId : String) (b : Binding) : Method V Unit := do
  let found : Except CellError Cell ← perform (.getCell b.cellId)
  let current ← cellCall found
  if current.state = .dispatching then do
    let patched : Except CellError Cell ←
      perform (.patch b.cellId b.epoch
        ("airflow-bind:" ++ runId ++ ":" ++ toString b.jobIdx)
        (runFields line runId b.jobIdx))
    match patched with
    | .ok _ => do
        let noted : Except String Unit ← perform .evidence
        outside noted
    | .error (.duplicateOperation _) => .ret ()
    | .error e => .raise (.cell e)
  else if current.airflowRunId ≠ none ∧ current.airflowRunId ≠ some runId then
    .raise (.refused 409 "Factory Cell is bound to a different Airflow run")
  else .ret ()

/-- `_bind_run`. -/
def bindRun (line runId : String) : List Binding → Method V Unit
  | [] => .ret ()
  | b :: bindings => do
      bindCell line runId b
      bindRun line runId bindings

/-- `_attached_run`. -/
def attachedRun (dagId runId : String) : Method V Unit := do
  let answer : Except BackendError (Nat × Option RunDocument) ←
    perform (.getRun dagId runId)
  match answer with
  | .error e => .raise e
  | .ok (status, document) =>
      if status = 404 then
        .raise (.refused 409 "scheduled Airflow run does not exist")
      else
        match document with
        | none =>
            .raise (.other
              ("Airflow run state unavailable (HTTP " ++ toString status ++ ")"))
        | some run =>
            if status ≠ 200 then
              .raise (.other
                ("Airflow run state unavailable (HTTP " ++ toString status ++ ")"))
            else if run.runType ≠ "scheduled" then
              .raise (.refused 409
                "only an Airflow-scheduled run can attach to a work order")
            else if run.state ≠ "queued" ∧ run.state ≠ "running" then
              .raise (.refused 409
                ("scheduled Airflow run is already " ++ run.state))
            else .ret ()

end Runs

section Closing

/-- One turn of `_cancel_activations`: whether it has closed the Cell. -/
def cancelMember (tag : String) (member : Admission.Member) : Method V Bool :=
  match member.cellEpoch with
  | none => .ret false
  | some epoch => do
      let found : Except CellError Cell ← perform (.getCell member.cellId)
      match found with
      | .error _ => return false
      | .ok cell =>
          if cell.epoch ≠ epoch ∨ cell.state.isLive = false then
            return false
          else if Factory.isSet cell.airflowRunId then
            return false
          else do
            let patched : Except CellError Cell ←
              perform (.patch member.cellId epoch
                (tag ++ ":" ++ toString member.jobIdx)
                { state := some .cancelled })
            match patched with
            | .ok _ => return true
            | .error (.duplicateOperation _) => return false
            | .error (.staleEpoch _ _) => return false
            | .error e => .raise (.cell e)

/-- The loop of `_cancel_activations`: the Cells it has closed. -/
def cancelMembers (tag : String) :
    List Admission.Member → Method V (List String)
  | [] => .ret []
  | member :: members => do
      let closed ← cancelMember tag member
      let rest ← cancelMembers tag members
      return if closed then member.cellId :: rest else rest

/-- `admission.members`. -/
def readMembers (workId : String) : Method V (List Admission.Member) := do
  let row : Option Admission.Order ← perform (.work workId)
  return (row.map Admission.Order.members).getD []

/-- `admission.cancel`, with the drain that follows. -/
def cancelOrder (workId reason state : String)
    (closing : List Admission.Member) : Method V Unit := do
  let answer : Except Admission.AdmissionError Admission.Outcome ←
    perform (.close workId reason state closing)
  let outcome ← admissionCall answer
  if outcome = .drains true then do
    let _ ← onAdmission (.drain none)
    return ()
  else return ()

/-- `_cancel_activations`, and the order behind it. -/
def closeOrder (workId tag reason state : String) :
    Method V (List String) := do
  let members ← readMembers workId
  let closed ← cancelMembers tag members
  cancelOrder workId reason state members
  return closed

/-- `_compensate`. -/
def compensate (intent : Admission.DispatchIntent) (detail : String) :
    Method V Unit := do
  let _ ← closeOrder intent.workId
    ("compensate:" ++ intent.workId ++ ":" ++ toString intent.attempt)
    ("activation_failed: " ++ detail) "failed"
  return ()

/-- `_queue_cancel`. -/
def queueCancel (workId reason : String) : Method V (List String) := do
  let row : Option Admission.Order ← perform (.work workId)
  match row with
  | none => .raise (.refused 404 ("no admission work " ++ workId))
  | some order =>
      if order.state = .bound then
        .raise (.refused 409
          "a dispatched work order is cancelled through its Factory Cells")
      else
        closeOrder workId ("queue-cancel:" ++ workId) reason "cancelled"

end Closing

section Recovery

/-- `assert_lease`. -/
def assertLease (workId token : String) : Method V Unit := do
  let row : Option Admission.Order ← perform (.work workId)
  if row.any (Admission.Order.leasedTo token) then return ()
  else .raise (.admission (.leaseLost workId))

/-- `attempts_exhausted`. -/
def attemptsExhausted (workId : String) : Method V Bool := do
  let row : Option Admission.Order ← perform (.work workId)
  return (row.bind Admission.Order.dispatch).any
    (fun d => decide (Admission.maxDispatchAttempts ≤ d.attempt))

/-- `_observe_dispatch`. -/
def observeDispatch (observes : Bool) : Method V (Journal.MutationOutcome V) :=
  if observes then do
    let answer : Except String (Journal.MutationOutcome V) ← perform .observeRun
    match answer with
    | .ok outcome => return outcome
    | .error detail => return ⟨.ambiguous, none, none, some (truncate 512 detail)⟩
  else
    .ret ⟨.ambiguous, none, none, some "no reconciler for this dispatch"⟩

/-- The `remote` of an outcome, as `mark_undeliverable` notes it. -/
def remoteName : Journal.OutcomeStatus → String
  | .committed => "committed"
  | .definitelyAbsent => "definitely_absent"
  | .ambiguous => "unknown"
  | .divergent => "divergent"
  | .refused => "refused"

/-- The error of an order that is given up. -/
def undeliverable (intent : Admission.DispatchIntent) (detail : String) : String :=
  "undeliverable after " ++ toString intent.attempt ++ " attempts: " ++ detail

/-- `_retire_dispatch`. -/
def retireDispatch (intent : Admission.DispatchIntent) (detail : String)
    (compensates observes : Bool) : Method V Unit :=
  if compensates then compensate intent detail
  else do
    let outcome ← observeDispatch observes
    if outcome.status = .definitelyAbsent then
      compensate intent (undeliverable intent detail)
    else do
      let _ ← onAdmission (.markUndeliverable intent.workId
        (undeliverable intent detail)
        (some (setup.dumps
          { remote := remoteName outcome.status
            detail := truncate 512
              (if Factory.isSet outcome.detail then outcome.detail.getD ""
                else detail)
            evidence := outcome.evidence })))
      return ()

/-- `DispatchLeaseLost`. -/
def isLeaseLost : BackendError → Bool
  | .admission (.leaseLost _) => true
  | .admission (.membersWithoutEpoch _ _) => true
  | _ => false

/-- `_recover_dispatch`. -/
def recoverDispatch (intent : Admission.DispatchIntent) (error : BackendError)
    (compensates observes : Bool) : Method V Unit :=
  let detail := truncate 2000 (setup.str error)
  let observation :=
    if compensates then none
    else some (setup.dumps
      { remote := "unknown", detail := truncate 512 detail })
  Prog.handle
    (do
      let exhausted ← attemptsExhausted intent.workId
      if exhausted then do
        assertLease intent.workId intent.leaseToken
        retireDispatch setup intent detail compensates observes
      else do
        let _ ← onAdmission (.releaseDispatch intent.workId intent.leaseToken detail
          observation)
        return ())
    (fun raised =>
      if isLeaseLost raised then do
        let _ ← onAdmission (.noteOutcome intent.workId detail observation)
        return ()
      else .raise raised)

/-- `except Exception as error: ...; raise`. -/
def recovering {α : Type} (p : Method V α) (recover : BackendError → Method V Unit) :
    Method V α :=
  p.handle (fun error => do
    recover error
    .raise error)

end Recovery

section Delivery

variable [DecidableEq V]

/-- `ControlKernel.mutate`. -/
def mutate (ref : Journal.OperationRef) (replaySafe reconciles : Bool)
    (budget : Option Journal.RetryBudget := none) : Method V (Option V) := do
  let gate : Except String Bool ← perform (.mustObserve ref.cellId)
  let observes ← outside gate
  onKey ref.key (Journal.execute
    { ref := ref
      replaySafe := some replaySafe
      reconciles := reconciles
      budget := budget
      observeBeforeFirstAttempt := observes })

/-- `min(bindings, key=...)`: the first of the least. -/
def authority : List Binding → Option Binding
  | [] => none
  | b :: bindings =>
      match authority bindings with
      | none => some b
      | some least => some (if least.cellId < b.cellId then least else b)

/-- The journaled unpause and dispatch of `_dispatch_intent`. -/
def sendRun (intent : Admission.DispatchIntent) (body : WorkBody) (b : Binding) :
    Method V (Option V) := do
  let _ ← mutate (buildRef setup b.cellId b.epoch "airflow_unpause" [body.line])
    true true
  mutate (buildRef setup b.cellId b.epoch "airflow_dispatch" [intent.workId])
    true true (some ⟨Admission.maxDispatchAttempts, 1, 30⟩)

/-- The Cells are bound to the run, and the order is delivered. -/
def bindOrder (intent : Admission.DispatchIntent) (body : WorkBody)
    (bindings : List Binding) (runId : String) : Method V String := do
  bindRun body.line runId bindings
  let _ ← onAdmission (.recordDispatch intent.workId intent.leaseToken runId)
  return runId

/-- The dispatch of an order that has no run yet. -/
def dispatchRun (intent : Admission.DispatchIntent) (body : WorkBody)
    (bindings : List Binding) : Method V String :=
  match authority bindings with
  | none => .raise (.other "min() iterable argument is empty")
  | some b => do
      let result ← recovering (sendRun setup intent body b)
        (fun error => recoverDispatch setup intent error false true)
      match result with
      | none => .raise (.other "NoneType object has no attribute get")
      | some document =>
          bindOrder intent body bindings
            ((setup.runIdOf document).getD body.dagRunId)

/-- The check of a run that an order asks to attach to. -/
def checkAttached (intent : Admission.DispatchIntent) (body : WorkBody)
    (attached : String) : Method V Unit :=
  (attachedRun body.line attached).handle (fun error =>
    match error with
    | .refused status detail => do
        assertLease intent.workId intent.leaseToken
        compensate intent (setup.str (.refused status detail))
        .raise error
    | _ => do
        recoverDispatch setup intent error true false
        .raise error)

/-- `_dispatch_intent`. -/
def dispatchIntent (intent : Admission.DispatchIntent) : Method V String := do
  let body := setup.loads intent.order.payload
  match body.airflowRunId with
  | some attached => do
      checkAttached setup intent body attached
      let bindings ← recovering (bindMembers setup intent body intent.members)
        (fun error => recoverDispatch setup intent error true false)
      bindOrder intent body bindings attached
  | none => do
      let bindings ← recovering (bindMembers setup intent body intent.members)
        (fun error => recoverDispatch setup intent error true false)
      dispatchRun setup intent body bindings

/-- `_deliver`. -/
def deliver (workId : String) : Method V Unit := do
  let outcome ← onAdmission (.claimDispatch workId none)
  match outcome with
  | .intent (some intent) => do
      let _ ← dispatchIntent setup intent
      return ()
  | _ => return ()

/-- `_work_id`: a prefix and a digest, so there is no colon in it. -/
structure WorkId where
  text : String
  plain : ':' ∉ text.toList

/-- The call of `admission.submit` for a payload. -/
def submission (workId : WorkId) (payload : Admission.Payload)
    (priority : Admission.Priority) : Admission.Submission where
  workId := workId.text
  actor := (setup.loads payload).actor
  blueprint := (setup.loads payload).line
  order := payload
  members := memberSpecs setup (setup.loads payload)
  priority := priority

/-- The state of an order, as the column spells it. -/
def stateName : Admission.OrderState → String
  | .queued => "queued"
  | .admitted => "admitted"
  | .dispatching => "dispatching"
  | .bound => "bound"
  | .closed .success => "success"
  | .closed .failed => "failed"
  | .closed .cancelled => "cancelled"
  | .closed .rejected => "rejected"
  | .closed .cleaned => "cleaned"

/-- `submit`, from the call of the admission store on. -/
def submit (workId : WorkId) (payload : Admission.Payload)
    (priority : Admission.Priority) : Method V Unit := do
  let answer : Except Admission.AdmissionError Admission.Outcome ←
    perform (.admission (.submit (submission setup workId payload priority)))
  match answer with
  | .error (.workOrderConflict id) =>
      .raise (.refused 409 (setup.str (.admission (.workOrderConflict id))))
  | .error e => .raise (.admission e)
  | .ok (.decision decision) =>
      if decision.reason = "duplicate_terminal" then
        .raise (.refused 409
          ("work order already finished as " ++ stateName decision.state))
      else if decision.state = .queued ∨ decision.state = .closed .rejected then
        return ()
      else
        match decision.intent with
        | some intent => do
            let _ ← dispatchIntent setup intent
            return ()
        | none => deliver setup workId.text
  | .ok _ => return ()

end Delivery

end Backend
end SwFactory
