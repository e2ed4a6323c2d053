import SwFactory.Admission.Transitions
import SwFactory.Cells.Store
import SwFactory.Factory.Transition
import SwFactory.Journal.Methods
import SwFactory.Restore.Coherence

/-!
# The backend: one system over the stores

The requests of the backend run in threads of any number of processes.  They
share the Cell store, the operation journal and the admission store, and each
reaches outside: to Airflow, to the sandbox providers, to the clock.  An atomic
step is one operation of `CellStore` (`Cells.epoch_fence` is about the
statements inside of it), one transaction or read of the journal or of the
admission store, or one call that leaves the process.

What the environment contributes to a step is its input; a write of the Cell
store may also fail, and then writes nothing.
-/

namespace SwFactory
namespace Backend

open Text Machine Cells Restore

variable {V : Type}

/-- One job of a work order. -/
structure Job where
  jobIdx : Int
  repo : String
  issue : String
  dir : String
  baseBranch : String
  policyDigest : String
deriving DecidableEq, Repr

/-- The payload of a work order, decoded. -/
structure WorkBody where
  line : String
  actor : String
  jobs : List Job
  airflowRunId : Option String := none
  dagRunId : String
  generation : String := "stable"
  requestDigest : String
deriving DecidableEq, Repr

/-- A failure of the Cell store that is none of its own refusals. -/
inductive Fault
  /-- database is locked -/
  | locked
  /-- `on_authority_revoked` raised -/
  | revocation (detail : String)
deriving DecidableEq, Repr

def Fault.error : Fault → CellError
  | locked => .locked
  | revocation detail => .revocation detail

/-- What leaves a request of the backend. -/
inductive BackendError
  | cell (error : CellError)
  | admission (error : Admission.AdmissionError)
  | operation (error : Journal.OperationError)
  | transition (error : Factory.TransitionError)
  /-- `Refused` -/
  | refused (status : Nat) (detail : String)
  /-- Any other exception, of an answer from outside or of a check. -/
  | other (detail : String)
deriving DecidableEq, Repr

/-- The document of an Airflow run. -/
structure RunDocument where
  runType : String
  state : String
deriving DecidableEq, Repr

/-- A creation stamp, as text and as a point in time. -/
structure Stamp where
  isoformat : String
  at_ : Int
deriving DecidableEq, Repr

/-- One entry of a sandbox listing. -/
structure Sandbox where
  name : String
  status : String
  createdBy : String
  created : Option Stamp
deriving DecidableEq, Repr

/-- One labelled container. -/
structure Container where
  id : String
  labels : List (String × String)
  running : Bool
deriving DecidableEq, Repr

/-- `SandboxIdentity`. -/
structure SandboxIdentity where
  provider : String
  cellId : String
  epoch : Int
  attemptId : String
deriving DecidableEq, Repr

/-- One removal that a sweep has decided on: the Cell it asked, and under which
identity the removal is journaled. -/
structure Removal where
  resource : String
  cell : Option Cell
  identity : SandboxIdentity
deriving DecidableEq, Repr

/-- The atomic steps of the backend. -/
inductive Stmt (V : Type)
  /-- `cell_store.get` -/
  | getCell (cellId : String)
  /-- `cell_store.list` -/
  | listCells (limit : Nat)
  /-- `cell_store.history` -/
  | history (cellId : String)
  | activate (identity : CellIdentity) (actor : String)
  | takeEpoch (cellId : String) (expected : Int) (actor : String)
  | patch
      (cellId : String) (expected : Int) (operationKey : String)
      (fields : Fields)
  | record (m : Mutation)
  /-- A step of a journal method on the row under a key. -/
  | journal (key : String) (s : Journal.Stmt V)
  /-- `operations.unresolved` -/
  | unresolved (limit : Nat)
  | admission (op : Admission.Op)
  /-- The transaction of `admission.cancel`, behind the loop over `closing`. -/
  | close (workId reason state : String) (closing : List Admission.Member)
  /-- A read of the rows of a work order. -/
  | work (workId : String)
  /-- `admission.members_for_cell` -/
  | membersForCell (cellId : String) (epoch : Int)
  /-- `_must_observe` -/
  | mustObserve (cellId : String)
  /-- `GET` of an Airflow run -/
  | getRun (dagId runId : String)
  /-- The `observe` callback of a delivery. -/
  | observeRun
  /-- An append to the evidence of a Cell. -/
  | evidence
  /-- `islo.listing()` -/
  | listing
  /-- `docker.containers()` -/
  | containers
  /-- `datetime.now(UTC)` -/
  | now
  /-- `requested_at = time.time()` of `_remove`. -/
  | requestedAt (removal : Removal)

/-- What the caller gets back from a statement. -/
@[reducible] def Stmt.Ans : Stmt V → Type
  | getCell _ => Except CellError Cell
  | listCells _ => List Cell
  | history _ => List Event
  | activate _ _ => Except CellError Cell
  | takeEpoch _ _ _ => Except CellError Int
  | patch _ _ _ _ => Except CellError Cell
  | record _ => Except CellError Unit
  | journal _ s => s.Ans
  | unresolved _ => List (String × Journal.Row V)
  | admission _ => Except Admission.AdmissionError Admission.Outcome
  | close _ _ _ _ => Except Admission.AdmissionError Admission.Outcome
  | work _ => Option Admission.Order
  | membersForCell _ _ => List String
  | mustObserve _ => Except String Bool
  | getRun _ _ => Except BackendError (Nat × Option RunDocument)
  | observeRun => Except String (Journal.MutationOutcome V)
  | evidence => Except String Unit
  | listing => Except String (List Sandbox)
  | containers => Except String (List Container)
  | now => Int
  | requestedAt _ => Time

/-- What the environment contributes to one step. -/
structure Input (V : Type) where
  now : Time := 0
  eventAt : Time := 0
  fault : Option Fault := none
  clock : Admission.Clock := fun _ => 0
  journal : Journal.Input V := {}
  mustObserve : Except String Bool := .ok false
  run : Except BackendError (Nat × Option RunDocument) := .ok (404, none)
  observed : Except String (Journal.MutationOutcome V) := .error ""
  evidence : Except String Unit := .ok ()
  listing : Except String (List Sandbox) := .ok []
  containers : Except String (List Container) := .ok []
  date : Int := 0

/-- The stores that the threads share. -/
structure Stores (V : Type) where
  cells : Cells.Store := {}
  operations : Operations V := []
  admission : Admission.Configuration

/-- What the backend notes about a remote outcome. -/
structure Observation (V : Type) where
  remote : String
  detail : String
  evidence : Option (Journal.Evidence V) := none

/-- What the model takes from elsewhere. -/
structure Setup (V : Type) where
  /-- `CellIdentity.stable_id` -/
  stableId : CellIdentity → String
  hashes : Admission.Hashes
  limits : Admission.Limits
  /-- The process that a thread belongs to. -/
  host : Nat → Nat
  /-- `json.loads` of an order payload. -/
  loads : Admission.Payload → WorkBody
  /-- `json.dumps` of an observation. -/
  dumps : Observation V → String
  /-- The `dag_run_id` or `run_id` of an Airflow document. -/
  runIdOf : V → Option String
  /-- `hashlib.sha256(text).hexdigest()[:24]` -/
  digest : String → String
  /-- `run_id_for` -/
  runIdFor : String → Int → String
  /-- `cell_target` -/
  cellTarget : Job → String
  /-- `str(error)` -/
  str : BackendError → String
  /-- `str.lower` -/
  lower : String → String
  /-- `int(text)`, if it does not raise. -/
  parseInt : String → Option Int
  /-- The `resource` and the `provider` that a cleanup row names as evidence. -/
  evidenceOf : V → String × String

/-- A table with the row that a statement leaves under a key. -/
def writeRow (key : String) (row : Option (Journal.Row V))
    (journal : Operations V) : Operations V :=
  match row with
  | none => journal
  | some row =>
      if journal.any (fun entry => decide (entry.1 = key)) then
        updateRows Prod.fst key (fun _ => (key, row)) journal
      else
        journal ++ [(key, row)]

/-- The rows behind a write that may fail. -/
def attempted {α : Type} (input : Input V) (cells : Cells.Store)
    (x : Except CellError (α × Cells.Store)) : Except CellError α × Cells.Store :=
  match input.fault, x with
  | some fault, _ => (.error fault.error, cells)
  | none, .ok (a, cells') => (.ok a, cells')
  | none, .error e => (.error e, cells)

/-- `list`: the rows that were written last. -/
def recent (limit : Nat) (cells : Cells.Store) : List Cell :=
  (cells.cells.mergeSort (fun a b => decide (b.updatedAt ≤ a.updatedAt))).take
    (max 1 (min limit 1000))

/-- `unresolved`. -/
def unresolvedRows (limit : Nat) (journal : Operations V) :
    List (String × Journal.Row V) :=
  ((journal.filter (fun entry => decide (entry.2.state ≠ .committed))).mergeSort
    (fun a b => decide (a.2.updatedAt ≤ b.2.updatedAt))).take
    (max 1 (min limit 1000))

/-- `members_for_cell`. -/
def membersForCell (cellId : String) (epoch : Int) (s : Admission.Store) :
    List String :=
  ((s.orders.filter (fun o =>
      o.members.any (Admission.Member.matches_ cellId epoch))).mergeSort
    (fun a b => decide (a.sequence ≤ b.sequence))).map Admission.Order.workId

/-- The store behind a call of the admission store. -/
def admitted (c : Admission.Configuration)
    (x : Except Admission.AdmissionError
      (Admission.Outcome × Admission.Configuration)) :
    Except Admission.AdmissionError Admission.Outcome × Admission.Configuration :=
  match x with
  | .ok (outcome, c') => (.ok outcome, c')
  | .error e => (.error e, c)

variable (setup : Setup V)

/-- One call of the admission store by thread `p`. -/
def callAdmission (p : Nat) (op : Admission.Op) (input : Input V)
    (c : Admission.Configuration) :
    Except Admission.AdmissionError Admission.Outcome × Admission.Configuration :=
  admitted c (Admission.exec setup.hashes setup.limits (setup.host p) input.clock
    c op)

/-- A write of the Cell store. -/
def writeCells {α : Type} (input : Input V) (sh : Stores V)
    (x : Except CellError (α × Cells.Store)) : Except CellError α × Stores V :=
  let out := attempted input sh.cells x
  (out.1, { sh with cells := out.2 })

/-- One step of thread `p`. -/
def exec (p : Nat) :
    (s : Stmt V) → Input V → Stores V → s.Ans × Stores V
  | .getCell cellId, _, sh => (get cellId sh.cells, sh)
  | .listCells limit, _, sh => (recent limit sh.cells, sh)
  | .history cellId, _, sh => (sh.cells.history cellId, sh)
  | .activate identity actor, input, sh =>
      writeCells input sh
        (activate setup.stableId identity actor input.now input.eventAt sh.cells)
  | .takeEpoch cellId expected actor, input, sh =>
      writeCells input sh
        (takeEpoch cellId expected actor input.now input.eventAt sh.cells)
  | .patch cellId expected operationKey fields, input, sh =>
      writeCells input sh
        (patch cellId expected operationKey fields input.now input.eventAt
          sh.cells)
  | .record m, input, sh =>
      writeCells input sh
        ((append m input.eventAt sh.cells).map (fun cells => ((), cells)))
  | .journal key s, input, sh =>
      let row := sh.operations.find key
      (s.answer p input.journal row,
        { sh with operations := writeRow key (s.effect row) sh.operations })
  | .unresolved limit, _, sh => (unresolvedRows limit sh.operations, sh)
  | .admission op, input, sh =>
      let out := callAdmission setup p op input sh.admission
      (out.1, { sh with admission := out.2 })
  | .close workId reason state _, input, sh =>
      let out := callAdmission setup p (.cancel workId reason state) input
        sh.admission
      (out.1, { sh with admission := out.2 })
  | .work workId, _, sh => (sh.admission.store.row workId, sh)
  | .membersForCell cellId epoch, _, sh =>
      (membersForCell cellId epoch sh.admission.store, sh)
  | .mustObserve _, input, sh => (input.mustObserve, sh)
  | .getRun _ _, input, sh => (input.run, sh)
  | .observeRun, input, sh => (input.observed, sh)
  | .evidence, input, sh => (input.evidence, sh)
  | .listing, input, sh => (input.listing, sh)
  | .containers, input, sh => (input.containers, sh)
  | .now, input, sh => (input.date, sh)
  | .requestedAt _, input, sh => (input.now, sh)

/-- A process that stops loses its `_inflight` map. -/
def stop (p : Nat) (sh : Stores V) : Stores V :=
  { sh with
    admission := Admission.step setup.hashes setup.limits sh.admission
      (.crash (setup.host p)) }

/-- The backend as a system of interleaved threads. -/
def system : System (Stmt V) Stmt.Ans (Stores V) (Input V) where
  exec := exec setup
  crash := stop setup

/-- A method of the backend that returns an `α`. -/
abbrev Method (V α : Type) := Prog (Stmt V) Stmt.Ans BackendError α

/-- Perform one statement. -/
def perform (s : Stmt V) : Method V s.Ans :=
  Prog.perform s

/-- The answer of a `CellStore` operation, or its exception. -/
def cellCall {α : Type} (x : Except CellError α) : Method V α :=
  .ofExcept (x.mapError .cell)

/-- The answer of an admission call, or its exception. -/
def admissionCall {α : Type} (x : Except Admission.AdmissionError α) :
    Method V α :=
  .ofExcept (x.mapError .admission)

/-- An answer from outside, or the exception in its place. -/
def outside {α : Type} (x : Except String α) : Method V α :=
  .ofExcept (x.mapError .other)

/-- A journal method, on the row under a key. -/
def onKey {α : Type} (key : String) : Journal.Method V α → Method V α
  | .ret a => .ret a
  | .raise e => .raise (.operation e)
  | .step s k => .step (.journal key s) (fun a => onKey key (k a))

theorem onKey_bind {α β : Type} (key : String) (p : Journal.Method V α)
    (f : α → Journal.Method V β) :
    onKey key (p >>= f) = onKey key p >>= fun a => onKey key (f a) := by
  induction p with
  | ret a => rfl
  | raise e => rfl
  | step s k ih => exact congrArg (Prog.step _) (funext ih)

end Backend
end SwFactory
