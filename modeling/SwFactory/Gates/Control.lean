import SwFactory.Gates.Answers
import SwFactory.Machine.Fallible
import SwFactory.Machine.Runs

/-!
# The control files of a run

`accepted_inputs.admit` pins a snapshot in four files that are written one
after the other, `reaccept` retires it file by file, and `_record_approval`
writes the decisions.  Each of them reads what it decides on before its first
write, so an operation is the list of its writes; a process that is killed has
performed the first of them.
-/

namespace SwFactory
namespace Gates

open Machine
open Text (Time)

variable {D : Type}

/-! ## The directory -/

/-- A control file: not there, not parseable, or the value it holds. -/
inductive Control (α : Type)
  | absent
  | unreadable
  | holds (value : α)
deriving DecidableEq

/-- `cell.json`. -/
inductive CellFile
  | absent
  | unreadable
  | notObject
  | object (binding : CellBinding)

inductive HistoryRecord (D : Type)
  | accepted (inputs : AcceptedInputs) (digest : D)
  | superseded (actor reason : String) (digest : D)

structure RunDir (D : Type) where
  pin : Control AcceptedInputs
  digest : Control D
  admittedAt : Control Time
  history : List (HistoryRecord D)
  cell : CellFile
  artifacts : String → Option String
  approvals : List (Approval D)

/-- The digests the source computes with `sha256`. -/
structure Digests (D : Type) where
  artifact : String → D
  inputs : AcceptedInputs → D

/-- A decision with the context that recorded it and the pin it was recorded under. -/
structure Recording (D : Type) where
  approval : Approval D
  ctx : Ctx
  pin : Control AcceptedInputs
  pinnedAt : Time

/-- The directory, the clock, and what is only remembered for the statements. -/
structure Run (D : Type) where
  dir : RunDir D
  clock : Time
  /-- when the present pin was written -/
  pinnedAt : Time
  recorded : List (Recording D)

/-- A run that no task has prepared yet. -/
def Run.fresh (clock : Time) (artifacts : String → Option String) : Run D where
  dir := ⟨.absent, .absent, .absent, [], .absent, artifacts, []⟩
  clock := clock
  pinnedAt := 0
  recorded := []

/-! ## Writes -/

inductive Write (D : Type)
  | pin (inputs : AcceptedInputs)
  | digest (digest : D)
  /-- the time of this write -/
  | admittedAt
  | history (record : HistoryRecord D)
  | clearPin
  | clearDigest
  | clearAdmittedAt
  | cell (file : CellFile)
  | artifact (path : String) (content : Option String)
  /-- the decision replaces an earlier one for its gate -/
  | approval (ctx : Ctx) (approval : Approval D)

/-- What a write leaves, made at the time the clock shows. -/
def Write.effect (w : Write D) (s : Run D) : Run D :=
  match w with
  | .pin inputs =>
      { s with dir := { s.dir with pin := .holds inputs }, pinnedAt := s.clock }
  | .digest d => { s with dir := { s.dir with digest := .holds d } }
  | .admittedAt => { s with dir := { s.dir with admittedAt := .holds s.clock } }
  | .history r => { s with dir := { s.dir with history := s.dir.history ++ [r] } }
  | .clearPin => { s with dir := { s.dir with pin := .absent } }
  | .clearDigest => { s with dir := { s.dir with digest := .absent } }
  | .clearAdmittedAt => { s with dir := { s.dir with admittedAt := .absent } }
  | .cell file => { s with dir := { s.dir with cell := file } }
  | .artifact path content =>
      { s with dir :=
        { s.dir with artifacts := fun p => if p = path then content else s.dir.artifacts p } }
  | .approval ctx a =>
      { s with
        dir :=
          { s.dir with
            approvals := s.dir.approvals.filter (fun b => b.gate != a.gate) ++ [a] }
        recorded := s.recorded ++ [⟨a, ctx, s.dir.pin, s.pinnedAt⟩] }

/-- Time goes by and the write is made. -/
def Write.perform (w : Write D) (elapsed : Time) (s : Run D) : Run D :=
  w.effect { s with clock := s.clock + elapsed }

/-- The writes for which the process lives, each with the time in front of it. -/
def performAll (writes : List (Write D)) (elapsed : List Time) (s : Run D) : Run D :=
  (writes.zip elapsed).foldl (fun s w => w.1.perform w.2 s) s

@[simp] theorem performAll_nil (writes : List (Write D)) (s : Run D) :
    performAll writes [] s = s := by
  simp [performAll]

@[simp] theorem performAll_done (elapsed : List Time) (s : Run D) :
    performAll [] elapsed s = s := by
  simp [performAll]

@[simp] theorem performAll_cons
    (w : Write D) (writes : List (Write D))
    (t : Time) (elapsed : List Time) (s : Run D) :
    performAll (w :: writes) (t :: elapsed) s =
      performAll writes elapsed (w.perform t s) := by
  simp [performAll]

/-- What each write keeps holds wherever the process is killed. -/
theorem performAll_invariant
    {P : Run D → Prop}
    {writes : List (Write D)}
    (hwrite : ∀ w ∈ writes, ∀ t s, P s → P (w.perform t s))
    (elapsed : List Time)
    {s : Run D}
    (hs : P s) :
    P (performAll writes elapsed s) := by
  induction writes generalizing elapsed s with
  | nil =>
      simpa using hs
  | cons w writes ih =>
      cases elapsed with
      | nil =>
          simpa using hs
      | cons t elapsed =>
          rw [performAll_cons]
          refine ih (fun w' hw' => hwrite w' (List.mem_cons_of_mem _ hw')) elapsed ?_
          exact hwrite w List.mem_cons_self t s hs

/-! ## Admission -/

/-- The snapshot this run was admitted with, or `none` when it has none yet. -/
def stored (dir : RunDir D) : Except Refusal (Option AcceptedInputs) :=
  match dir.pin with
  | .absent => .ok none
  | .unreadable => .error .unreadableInputs
  | .holds inputs => .ok (some inputs)

/-- The snapshot, or a refusal. -/
def require (dir : RunDir D) : Except Refusal AcceptedInputs := do
  match ← stored dir with
  | none => throw .noAcceptedInputs
  | some inputs => return inputs

theorem require_eq_ok {dir : RunDir D} {inputs : AcceptedInputs} :
    require dir = .ok inputs ↔ dir.pin = .holds inputs := by
  unfold require stored
  cases dir.pin with
  | absent =>
      constructor <;> intro h <;> cases h
  | unreadable =>
      constructor <;> intro h <;> cases h
  | holds value =>
      constructor
      · intro h
        cases h
        rfl
      · intro h
        cases h
        rfl

/-- `_managed`: a binding that cannot be read is not a licence to re-pin. -/
def managedBinding : CellFile → Bool
  | .absent => false
  | .unreadable => true
  | .notObject => false
  | .object binding => binding.managed

/-- `(cell_id, epoch, managed)` from the control state. -/
def cellEvidence (dir : RunDir D) :
    Except Refusal (Option String × Option Nat × Bool) :=
  match dir.cell with
  | .absent => .ok (none, none, false)
  | .unreadable => .error .invalidBinding
  | .notObject => .error .invalidBinding
  | .object binding => .ok (binding.cellId, binding.epoch, binding.managed)

section Operations

variable [DecidableEq D] (digests : Digests D)

/-- Pin `current` on first admission; afterwards only compare with it. -/
def admitInputs (dir : RunDir D) (current : AcceptedInputs) :
    Except Refusal (List (Write D)) := do
  match ← stored dir with
  | none =>
      return [.pin current, .digest (digests.inputs current), .admittedAt,
        .history (.accepted current (digests.inputs current))]
  | some accepted =>
      ensure (accepted.schemaVersion == current.schemaVersion) .earlierBuild
      ensure (digests.inputs accepted == digests.inputs current) .otherInputs
      return []

/-- A job that is bound to a Cell leaves its binding. -/
def bindingWrites : Option CellBinding → List (Write D)
  | some binding => [.cell (.object binding)]
  | none => []

/-- `_prepare_ctx`: admission, then the binding of the job. -/
def prepare (dir : RunDir D) (ctx : Ctx) : Except Refusal (List (Write D)) := do
  let writes ← admitInputs digests dir (snapshot ctx)
  return writes ++ bindingWrites ctx.binding

/-- Retire the pin, on the record. -/
def reaccept (dir : RunDir D) (actor reason : String) :
    Except Refusal (List (Write D)) := do
  ensure (!(Text.isBlank actor || Text.isBlank reason)) .noActorOrReason
  ensure (!managedBinding dir.cell) .managedCell
  let accepted ← require dir
  return [.history
      (.superseded (Text.strip actor) (Text.strip reason) (digests.inputs accepted)),
    .clearPin, .clearDigest, .clearAdmittedAt]

/-! ## Recording -/

/-- When this run pinned its inputs, if it has; an unreadable stamp is now. -/
def admittedAt (dir : RunDir D) (now : Time) : Option Time :=
  match dir.admittedAt with
  | .absent => none
  | .unreadable => some now
  | .holds t => some t

/-- The answer was given before the inputs this run now holds were admitted. -/
def answeredBeforeAdmission (dir : RunDir D) (now : Time) (respondedAt : Option Time) :
    Bool :=
  match admittedAt dir now, respondedAt with
  | none, _ => false
  | some _, none => false
  | some stamped, some t => decide (t < stamped)

/-- `_gate_artifact`. -/
def gateArtifact (ctx : Ctx) (gate : GateName) : Except Refusal String :=
  match ctx.gates.find? (fun g => g.name == gate) with
  | none => .error (.unknownGate gate)
  | some g => .ok g.artifact

def artifactSha256 (dir : RunDir D) (artifact : String) : Except Refusal D :=
  match dir.artifacts artifact with
  | none => .error (.missingArtifact artifact)
  | some content => .ok (digests.artifact content)

/-- A value the approval already names is checked, never restamped. -/
def unclaimedOr {α : Type} [DecidableEq α] (claimed : Option α) (actual : Option α) :
    Bool :=
  claimed == none || claimed == actual

/-- `_record_approval`. -/
def recordApproval (dir : RunDir D) (now : Time) (ctx : Ctx) (approval : Approval D) :
    Except Refusal (List (Write D)) := do
  let artifact ← gateArtifact ctx approval.gate
  let digest ← artifactSha256 digests dir artifact
  let (cellId, cellEpoch, _) ← cellEvidence dir
  let inputs ← require dir
  let inputsDigest := digests.inputs inputs
  ensure (unclaimedOr approval.cellId cellId && unclaimedOr approval.cellEpoch cellEpoch)
    (.otherCell approval.gate)
  ensure (unclaimedOr approval.artifactSha256 (some digest)) (.otherArtifact approval.gate)
  ensure
    (!(approval.respondedAt != none &&
      answeredBeforeAdmission dir now approval.respondedAt))
    (.answeredBeforeAdmission approval.gate)
  ensure (unclaimedOr approval.inputsDigest (some inputsDigest))
    (.givenForOtherInputs approval.gate)
  return [.approval ctx
    { approval with
      artifactSha256 := some digest
      cellId := cellId
      cellEpoch := cellEpoch
      inputsDigest := some inputsDigest }]

/-! ## Runs -/

/-- One operation on the run. -/
inductive Op (D : Type)
  | prepare (ctx : Ctx)
  | reaccept (actor reason : String)
  | record (ctx : Ctx) (approval : Approval D)
  | artifact (path : String) (content : Option String)
  | cell (file : CellFile)

def Op.writes (s : Run D) : Op D → Except Refusal (List (Write D))
  | .prepare ctx => Gates.prepare digests s.dir ctx
  | .reaccept actor reason => Gates.reaccept digests s.dir actor reason
  | .record ctx approval => recordApproval digests s.dir s.clock ctx approval
  | .artifact path content => .ok [.artifact path content]
  | .cell file => .ok [.cell file]

/-- An operation and the time in front of each write its process lives for. -/
structure Act (D : Type) where
  op : Op D
  elapsed : List Time

/-- A refused operation writes nothing. -/
def step (s : Run D) (act : Act D) : Run D :=
  match act.op.writes digests s with
  | .error _ => s
  | .ok writes => performAll writes act.elapsed s

/-- The writes the process of an operation lives for. -/
def performed (s : Run D) (act : Act D) : List (Write D) :=
  match act.op.writes digests s with
  | .error _ => []
  | .ok writes => writes.take act.elapsed.length

/-! ## What the operations write -/

variable {digests}

/-- What admission writes: the four files, or nothing. -/
theorem prepare_cases {dir : RunDir D} {ctx : Ctx} {writes : List (Write D)}
    (h : prepare digests dir ctx = .ok writes) :
    writes = bindingWrites ctx.binding ∨
      writes = .pin (snapshot ctx) :: .digest (digests.inputs (snapshot ctx)) ::
        .admittedAt ::
        .history (.accepted (snapshot ctx) (digests.inputs (snapshot ctx))) ::
        bindingWrites ctx.binding := by
  obtain ⟨admitted, hadmitted, h⟩ := bind_eq_ok h
  cases h
  obtain ⟨pinned, -, hadmitted⟩ := bind_eq_ok hadmitted
  cases pinned with
  | none =>
      cases hadmitted
      exact Or.inr rfl
  | some accepted =>
      obtain ⟨_, -, hadmitted⟩ := bind_eq_ok hadmitted
      obtain ⟨_, -, hadmitted⟩ := bind_eq_ok hadmitted
      cases hadmitted
      exact Or.inl rfl

omit [DecidableEq D] in
theorem reaccept_cases {dir : RunDir D} {actor reason : String}
    {writes : List (Write D)}
    (h : reaccept digests dir actor reason = .ok writes) :
    ∃ record, writes =
      [.history record, .clearPin, .clearDigest, .clearAdmittedAt] := by
  obtain ⟨_, -, h⟩ := bind_eq_ok h
  obtain ⟨_, -, h⟩ := bind_eq_ok h
  obtain ⟨accepted, -, h⟩ := bind_eq_ok h
  cases h
  exact ⟨_, rfl⟩

/-- What is recorded: the decision as it was given, with its four stamps. -/
theorem recordApproval_cases {dir : RunDir D} {now : Time} {ctx : Ctx}
    {approval : Approval D} {writes : List (Write D)}
    (h : recordApproval digests dir now ctx approval = .ok writes) :
    ∃ artifact digest cellId cellEpoch managed inputs,
      gateArtifact ctx approval.gate = .ok artifact ∧
      artifactSha256 digests dir artifact = .ok digest ∧
      cellEvidence dir = .ok (cellId, cellEpoch, managed) ∧
      dir.pin = .holds inputs ∧
      (approval.respondedAt ≠ none →
        answeredBeforeAdmission dir now approval.respondedAt = false) ∧
      writes = [.approval ctx
        { approval with
          artifactSha256 := some digest
          cellId := cellId
          cellEpoch := cellEpoch
          inputsDigest := some (digests.inputs inputs) }] := by
  obtain ⟨artifact, hartifact, h⟩ := bind_eq_ok h
  obtain ⟨digest, hdigest, h⟩ := bind_eq_ok h
  obtain ⟨⟨cellId, cellEpoch, managed⟩, hcell, h⟩ := bind_eq_ok h
  obtain ⟨inputs, hinputs, h⟩ := bind_eq_ok h
  obtain ⟨_, -, h⟩ := bind_eq_ok h
  obtain ⟨_, -, h⟩ := bind_eq_ok h
  obtain ⟨_, hdated, h⟩ := bind_eq_ok h
  obtain ⟨_, -, h⟩ := bind_eq_ok h
  cases h
  refine ⟨artifact, digest, cellId, cellEpoch, managed, inputs, hartifact, hdigest,
    hcell, require_eq_ok.mp hinputs, ?_, rfl⟩
  intro hgiven
  simpa [hgiven] using hdated

end Operations

end Gates
end SwFactory
