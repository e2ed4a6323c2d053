import SwFactory.Billing.Observations
import SwFactory.Machine.Parallel

/-!
# The import of a billing observation

An invocation reads the ledger, the descriptor of the call and the operator's
file, archives the evidence, and appends one row to the ledger.  The archive and
the row are its durable steps; the run is locked meanwhile, and the rows that the
lock itself writes are not part of the model.

Sources: `call_observations.py` (`_records`, `_descriptor`, `_cleanup_time`,
`reconcile_call`), `call_accounting.py` (`CallLedger.reconcile`).
-/

namespace SwFactory
namespace Billing

open Machine

/-! ## The ledger -/

/-- The document that an import archives. -/
structure Evidence where
  actor : String
  reason : String
  importedAt : String
  source : String
  observationSha256 : Option String
  observation : Option Observation
deriving DecidableEq

/-- `observation` of a ledger row. -/
structure Observed where
  status : String
  evidence : Option Evidence
  detail : Option String
deriving DecidableEq

/-- A row of one call. -/
structure CallRow where
  callId : String
  stage : String
  iteration : Nat
  state : String
  reservedUsd : Scalar
  costUsd : Scalar
  observation : Option Observed
deriving DecidableEq

/-- A row of `agent_calls.jsonl`. -/
inductive Entry
  | floor (usd : Scalar)
  | call (row : CallRow)
  /-- no object, or one whose `call_id` is no text -/
  | foreign
deriving DecidableEq

structure CallRecord where
  callId : String
  stage : String
  iteration : Nat
  state : String
  reservedUsd : Rat
  settledUsd : Option Rat
  observation : Option Observed
deriving DecidableEq

def CallRecord.charge (record : CallRecord) : Rat :=
  record.settledUsd.getD record.reservedUsd

abbrev Records := Dict String CallRecord

/-- The amounts of a row, where they are amounts. -/
def Codec.amounts (codec : Codec) (row : CallRow) : Option (Rat × Option Rat) := do
  let reserved ← codec.amount row.reservedUsd
  let cost ← codec.optional row.costUsd
  return (reserved, cost)

/-- `folded[row["call_id"]] = CallRecord(...)` -/
def foldCall (records : Records) (row : CallRow) (amounts : Rat × Option Rat) : Records :=
  let prior := records.get? row.callId
  records.assign row.callId
    { callId := row.callId
      stage := row.stage
      iteration := row.iteration
      state := row.state
      reservedUsd := amounts.1
      settledUsd := amounts.2
      observation := row.observation <|> prior.bind CallRecord.observation }

/-- One row of `_records`, checked before it is folded. -/
def foldEntry (codec : Codec) (records : Records) : Entry → Except Failure Records
  | .foreign => .error (.invalid "invalid agent call journal record")
  | .floor usd =>
      match codec.amount usd with
      | some _ => .ok records
      | none => .error (.invalid "invalid floor_usd in agent call journal")
  | .call row =>
      if row.callId = "" then
        .error (.invalid "invalid agent call identity")
      else
        match codec.amounts row with
        | some amounts => .ok (foldCall records row amounts)
        | none => .error (.invalid "invalid amount in agent call journal")

/-- `_records` -/
def checkedRecords (codec : Codec) (calls : List Entry) : Except Failure Records :=
  calls.foldlM (foldEntry codec) []

/-! ## What the factory wrote down -/

/-- The admitted profile, by its canonical text and the one of its manifest. -/
structure Binding where
  canonical : String
  manifest : String
  manifestSha256 : String
deriving DecidableEq

/-- `_Descriptor` -/
structure Descriptor where
  runId : String
  callId : String
  acceptedInputsDigest : Option String
  profile : Binding
  profileBindingSha256 : String
  stage : String
  iteration : Nat
  reservedUsd : Rat
  sandbox : String
  /-- the resolved path of `workdir`, by its components -/
  workdir : List String
  sandboxLabels : Dict String String
deriving DecidableEq

/-- A row of `external-processes.jsonl`. -/
structure ProcessRow where
  callId : Scalar
  event : Scalar
  containerIdRequired : Scalar
  labels : Option (Dict String String)
  container : Scalar
  containerId : Scalar
  at_ : Scalar
deriving DecidableEq

/-- The durable state of the run. -/
structure World where
  calls : List Entry
  /-- `external-calls/<key>.json`: absent, or unreadable as a descriptor, or read -/
  descriptors : String → Option (Option Descriptor)
  /-- rows that are no object are `none` -/
  processes : List (Option ProcessRow)
  /-- `external-observations/<key>/<digest>.json`; a file that holds no object is `none` -/
  archives : Dict (String × String) (Option Evidence)

section Reconciliation

variable (codec : Codec)
variable (sha256 : Bytes → String)

/-- `hashlib.sha256(text.encode()).hexdigest()` -/
def hashText (text : String) : String :=
  sha256 (Lexical.Utf8.encode (text.toList.map Char.toNat))

/-- `_descriptor`, behind its file. -/
def checkDescriptor (record : CallRecord) (descriptor : Descriptor) : Bool :=
  descriptor.callId == record.callId && descriptor.stage == record.stage &&
    descriptor.iteration == record.iteration && descriptor.reservedUsd == record.reservedUsd &&
    descriptor.profileBindingSha256 == hashText sha256 descriptor.profile.canonical &&
    descriptor.profile.manifestSha256 == hashText sha256 descriptor.profile.manifest &&
    isInputs (descriptor.acceptedInputsDigest.getD "")

/-- `_descriptor` -/
def readDescriptor (record : CallRecord) :
    Option (Option Descriptor) → Except Failure Descriptor
  | none => .error (.refused
      "call lacks a factory pre-launch descriptor; legacy evidence cannot be inferred")
  | some none => .error (.invalid "invalid billing evidence fields")
  | some (some descriptor) =>
      if checkDescriptor sha256 record descriptor then .ok descriptor
      else .error (.refused
        "factory call descriptor does not match the call ledger and admitted binding")

/-! ## Cleanup -/

/-- Two objects with the same members. -/
def sameLabels (a b : Dict String String) : Bool :=
  (a.keys ++ b.keys).all (fun key => a.get? key == b.get? key)

/-- `SandboxIdentity.from_labels(...) is not None` -/
def ownedLabels (labels : Dict String String) : Bool :=
  labels.get? "swfactory.owned" == some "true" &&
    (labels.get? "swfactory.cell").any (fun cell => cell != "") &&
    ((labels.get? "swfactory.epoch").bind codec.integer).any (fun epoch => 0 < epoch) &&
    (labels.get? "swfactory.attempt").any (fun attempt => attempt != "")

/-- The labels that the containers of the call carry. -/
def expectedLabels (descriptor : Descriptor) : Dict String String :=
  (descriptor.sandboxLabels.assign "swfactory.external" "true").assign "swfactory.external-call"
    (String.ofList ((hashText sha256 descriptor.callId).toList.take 16))

/-- `descriptor.sandbox.partition(":")[0] == "docker"` -/
def inDocker (descriptor : Descriptor) : Bool :=
  descriptor.sandbox.toList.takeWhile (· != ':') == "docker".toList

/-- The rows of the call tell of one launch and end with its cleanup. -/
def terminalCleanup (expected : Dict String String) (rows : List ProcessRow) : Bool :=
  match rows.head?, rows.getLast? with
  | some first, some last =>
      first.event == .text "intent" && first.containerIdRequired == .bool true &&
        last.event == .text "cleaned" &&
        rows.all (fun row => row.labels.any (sameLabels · expected) &&
          row.container == first.container)
  | _, _ => false

/-- The container ids that were acknowledged. -/
def createdIds (rows : List ProcessRow) : List Scalar :=
  (rows.filter (fun row =>
    row.event == .text "created" || row.event == .text "start_intent")).map ProcessRow.containerId

def isSameId (ids : List Scalar) : Bool :=
  match ids with
  | .text id :: rest => isSha id && rest.all (· == .text id)
  | _ => false

/-- `_cleanup_time` -/
def cleanupTime (descriptor : Descriptor) (journal : List (Option ProcessRow)) :
    Except Failure Rat :=
  let rows := (journal.filterMap id).filter (fun row => row.callId == .text descriptor.callId)
  if !inDocker descriptor then
    .error (.refused
      "billing imports require factory-observed Docker teardown; local dev is unqualified")
  else if journal.any Option.isNone then
    .error (.refused "external process journal contains an invalid record")
  else if !ownedLabels codec descriptor.sandboxLabels then
    .error (.refused "factory descriptor lacks complete Docker ownership labels")
  else if !terminalCleanup (expectedLabels sha256 descriptor) rows then
    .error (.refused
      "call has no matching terminal Docker cleanup; recover execution before billing")
  else if !isSameId (createdIds rows) then
    .error (.refused "Docker cleanup lacks the acknowledged creation identity")
  else
    match rows.getLast?.bind (fun row => codec.amount row.at_) with
    | some cleanedAt => .ok cleanedAt
    | none => .error (.refused "Docker cleanup has an invalid observation time")

/-! ## Invocations -/

/-- The operator's file, as the invocation finds it. -/
structure OperatorFile where
  /-- the resolved path, by its components -/
  path : List String
  symlink : Bool
  regular : Bool
  links : Nat
  owned : Bool
  raw : Bytes

/-- One invocation of `reconcile_call` on the run. -/
structure Invocation where
  runId : String
  callId : String
  actor : String
  reason : String
  /-- the resolved root of the runs, by its components -/
  root : List String
  /-- a file that cannot be opened is `none` -/
  file : Option OperatorFile
  /-- the path of the file as text -/
  source : String
  now : String
  /-- another process owns the run -/
  busy : Bool := false

/-- The bytes of the observation, where they are an operator's file. -/
def Invocation.read (inv : Invocation) (descriptor : Descriptor) : Except Failure Bytes :=
  match inv.file with
  | none => .error .unreadable
  | some file =>
      if inv.root.isPrefixOf file.path || descriptor.workdir.isPrefixOf file.path ||
          file.symlink then
        .error (.refused
          "billing observations must be operator files outside factory state and checkout")
      else if !file.regular || file.links != 1 || !file.owned then
        .error (.refused
          "billing observation must be an operator-owned regular file without hardlinks")
      else
        .ok (file.raw.take (maxBytes + 1))

/-- The observation is about this run, this call, its inputs and its profile. -/
structure Matches (inv : Invocation) (descriptor : Descriptor) (observed : Observation) : Prop where
  run : observed.runId = inv.runId
  owner : descriptor.runId = inv.runId
  call : observed.callId = inv.callId
  inputs : descriptor.acceptedInputsDigest = some observed.acceptedInputsDigest
  profile : observed.profileBindingSha256 = descriptor.profileBindingSha256

instance decidableMatches (inv : Invocation) (descriptor : Descriptor) (observed : Observation) :
    Decidable (Matches inv descriptor observed) :=
  decidable_of_iff
    (observed.runId = inv.runId ∧ descriptor.runId = inv.runId ∧ observed.callId = inv.callId ∧
      descriptor.acceptedInputsDigest = some observed.acceptedInputsDigest ∧
      observed.profileBindingSha256 = descriptor.profileBindingSha256)
    ⟨fun ⟨run, owner, call, inputs, profile⟩ => ⟨run, owner, call, inputs, profile⟩,
      fun h => ⟨h.run, h.owner, h.call, h.inputs, h.profile⟩⟩

/-! ## The program -/

inductive Stmt
  | calls
  | descriptor (callId : String)
  | processes
  | archived (name : String × String)
  | archive (name : String × String) (evidence : Evidence)
  | append (row : CallRow)

abbrev Ans : Stmt → Type
  | .calls => List Entry
  | .descriptor _ => Option (Option Descriptor)
  | .processes => List (Option ProcessRow)
  | .archived _ => Option (Option Evidence)
  | .archive _ _ => Unit
  | .append _ => Unit

abbrev Method (α : Type) :=
  Prog Stmt Ans Failure α

def ask (stmt : Stmt) : Method (Ans stmt) :=
  Prog.perform stmt

/-- The outside decides nothing while a statement is performed. -/
def exec : Effect Stmt Ans World Unit
  | .calls, _, w => (w.calls, w)
  | .descriptor callId, _, w => (w.descriptors callId, w)
  | .processes, _, w => (w.processes, w)
  | .archived name, _, w => (w.archives.get? name, w)
  | .archive name evidence, _, w =>
      ((), { w with archives := w.archives.assign name (some evidence) })
  | .append row, _, w => ((), { w with calls := w.calls ++ [.call row] })

/-- `MutationOutcome` of an observation. -/
structure MutationOutcome where
  status : Status
  result : Option Rat
  evidence : Evidence

/-- The outcome that an observation reports. -/
def Observation.outcome (observed : Observation) (evidence : Evidence) : MutationOutcome :=
  ⟨observed.status, observed.costUsd, evidence⟩

/-- `_usage_of`, and what a release without a charge settles at. -/
def MutationOutcome.usage (outcome : MutationOutcome) : Option Rat :=
  match outcome.status with
  | .committed => outcome.result
  | .definitelyAbsent => some 0
  | .ambiguous => none

/-- `_state_for` -/
def stateFor (usage : Option Rat) : String :=
  if usage.isSome then "committed" else "reconciling"

/-- The row that `CallLedger.reconcile` appends. -/
def observedRow (record : CallRecord) (outcome : MutationOutcome) : CallRow where
  callId := record.callId
  stage := record.stage
  iteration := record.iteration
  state := stateFor outcome.usage
  reservedUsd := .float record.reservedUsd
  costUsd := outcome.usage.elim .null .float
  observation := some
    ⟨outcome.status.name, some outcome.evidence,
      some "explicit operator billing attestation"⟩

/-- `CallLedger.record` -/
def record (callId : String) : Method CallRecord := do
  let records ← Prog.ofExcept (checkedRecords codec (← ask .calls))
  match records.get? callId with
  | some record => return record
  | none => .raise (.invalid "KeyError")

/-- `CallLedger.reconcile` -/
def reconcile (callId : String) (outcome : MutationOutcome) : Method CallRecord := do
  let found ← record codec callId
  if found.settledUsd.isSome then
    .raise (.refused "call is already settled")
  else if outcome.status ≠ .ambiguous ∧ outcome.usage = none then
    .raise (.refused "observation claims a charge with no usage attached")
  else do
    ask (.append (observedRow found outcome))
    record codec callId

/-- What an invocation returns. -/
structure Report where
  callId : String
  alreadyApplied : Bool
  settledUsd : Option Rat
deriving DecidableEq

/-- A final observation is not older than the cleanup. -/
def checkCleanup (descriptor : Descriptor) (observed : Observation) : Method Unit :=
  if observed.status = .ambiguous then
    return ()
  else do
    let stoppedAt ← Prog.ofExcept (cleanupTime codec sha256 descriptor (← ask .processes))
    if (observed.instant codec).any (fun instant => instant < stoppedAt) then
      .raise (.refused "final billing observation predates terminal Docker cleanup")
    else
      return ()

/-- The evidence, as the first import of the observation archived it. -/
def retain (name : String × String) (evidence : Evidence) : Method Evidence := do
  match ← ask (.archived name) with
  | none => do
      ask (.archive name evidence)
      return evidence
  | some none => .raise (.invalid "expected one JSON object")
  | some (some retained) =>
      if retained.observationSha256 ≠ evidence.observationSha256 ∨
          retained.observation ≠ evidence.observation then
        .raise (.refused "archived observation does not match the imported evidence")
      else
        return retained

/-- The document of this import. -/
def Invocation.evidence (inv : Invocation) (digest : String) (observed : Observation) : Evidence :=
  ⟨Text.strip inv.actor, Text.strip inv.reason, inv.now, inv.source, some digest, some observed⟩

/-- `record.observation["evidence"]["observation_sha256"]`, if it is there. -/
def CallRecord.evidenceSha256 (record : CallRecord) : Option String :=
  (record.observation.bind Observed.evidence).bind Evidence.observationSha256

/-- The part of `reconcile_call` behind its checks. -/
def apply (inv : Invocation) (found : CallRecord) (descriptor : Descriptor) (digest : String)
    (observed : Observation) : Method Report :=
  match found.settledUsd with
  | some usd =>
      if found.evidenceSha256 = some digest then
        return ⟨inv.callId, true, some usd⟩
      else
        .raise (.refused "settled charges are immutable; conflicting or unrelated replay refused")
  | none => do
      checkCleanup codec sha256 descriptor observed
      let evidence ← retain (hashText sha256 inv.callId, digest) (inv.evidence digest observed)
      let settled ← reconcile codec inv.callId (observed.outcome evidence)
      return ⟨inv.callId, false, settled.settledUsd⟩

/-- The actor and the reason say something, and not too much. -/
def Invocation.attested (inv : Invocation) : Bool :=
  !Text.isBlank inv.actor && !Text.isBlank inv.reason && inv.actor.length ≤ 256 &&
    inv.reason.length ≤ 2000

/-- `reconcile_call` -/
def reconcileCall (inv : Invocation) : Method Report :=
  if !inv.attested then
    .raise (.invalid "billing reconciliation requires a nonblank bounded actor and reason")
  else if inv.busy then
    .raise .busy
  else do
    let records ← Prog.ofExcept (checkedRecords codec (← ask .calls))
    match records.get? inv.callId with
    | none => .raise (.refused "call is not recorded in this run")
    | some found => do
        let descriptor ←
          Prog.ofExcept (readDescriptor sha256 found (← ask (.descriptor inv.callId)))
        let raw ← Prog.ofExcept (inv.read descriptor)
        let observed ← Prog.ofExcept (parseObservation codec raw)
        if Matches inv descriptor observed then
          apply codec sha256 inv found descriptor (sha256 raw) observed
        else
          .raise (.refused
            "observation does not match this run, call, admitted inputs and profile")

/-! ## Runs -/

/-- An invocation, and how many of its steps it performs before it is killed, if it is. -/
structure Life where
  inv : Invocation
  steps : Nat

/-- What the life returned or raised, if it was not killed, and the state it leaves. -/
def Life.play (life : Life) (w : World) : Option (Except Failure Report) × World :=
  Machine.play exec (reconcileCall codec sha256 life.inv) (List.replicate life.steps ()) w

/-- One invocation after the other. -/
def World.after (w : World) (lives : List Life) : World :=
  lives.foldl (fun w life => (life.play codec sha256 w).2) w

/-- The settled amount of the call, where the ledger is one. -/
def World.settled (w : World) (callId : String) : Option Rat :=
  match checkedRecords codec w.calls with
  | .ok records => (records.get? callId).bind CallRecord.settledUsd
  | .error _ => none

/-- `charged_usd`, over any way to add up and round. -/
def World.chargedUsd (w : World) (total : List Rat → Rat) : Except Failure Rat :=
  (checkedRecords codec w.calls).map (fun records =>
    total (records.map (fun entry => entry.2.charge)))

end Reconciliation

end Billing
end SwFactory
