import SwFactory.Text
import SwFactory.Machine.Tables

/-!
# Factory Cells: the store

The data model of `cells.py`: the tables `cells` and `cell_events`, and the SQL
statements of `CellStore` as functions on them, each with the row count or the
integrity error it reports.  No statement deletes a row, so the events of a
store stand in the order of their `seq`.

The methods of `CellStore` act on a store that nobody else touches.  Each is one
write transaction, `patch` with a read in front of it; an exception rolls the
transaction back, so it returns no store.

JSON columns hold their canonical text.  The identity digest of a Cell is the
parameter `stableId`.
-/

namespace SwFactory
namespace Cells

open Text Machine

/-- The values of the column `state`. -/
inductive CellState
  | created
  | dispatching
  | queued
  | running
  | success
  | failed
  | cancelled
  | rejected
  | cleaned
deriving DecidableEq, Repr

/-- `TERMINAL_STATES`. -/
def CellState.isTerminal : CellState → Bool
  | success | failed | cancelled | rejected | cleaned => true
  | created | dispatching | queued | running => false

/-- `LIVE_CELL_STATES`. -/
def CellState.isLive : CellState → Bool
  | dispatching | queued | running => true
  | created | success | failed | cancelled | rejected | cleaned => false

/-- `CellIdentity`. -/
structure CellIdentity where
  repo : String
  target : String
  issue : String
deriving DecidableEq, Repr

/-- One row of `cells`. -/
structure Cell where
  cellId : String
  identity : CellIdentity
  epoch : Int
  state : CellState
  airflowDagId : Option String := none
  airflowRunId : Option String := none
  mapIndex : Option Int := none
  factoryGeneration : Option String := none
  policyDigest : Option String := none
  baseSha : Option String := none
  observedTargetSha : Option String := none
  compute : Option String := none
  cleanup : Option String := none
  createdAt : Time
  updatedAt : Time
deriving DecidableEq, Repr

/-- The keyword arguments of `patch`: the columns that are given. -/
structure Fields where
  state : Option CellState := none
  airflowDagId : Option (Option String) := none
  airflowRunId : Option (Option String) := none
  mapIndex : Option (Option Int) := none
  factoryGeneration : Option (Option String) := none
  policyDigest : Option (Option String) := none
  baseSha : Option (Option String) := none
  observedTargetSha : Option (Option String) := none
  compute : Option String := none
  cleanup : Option String := none
deriving DecidableEq, Repr

/-- `SET {set_clause},updated_at=?`. -/
def Fields.assign (f : Fields) (now : Time) (c : Cell) : Cell :=
  { c with
    state := f.state.getD c.state
    airflowDagId := f.airflowDagId.getD c.airflowDagId
    airflowRunId := f.airflowRunId.getD c.airflowRunId
    mapIndex := f.mapIndex.getD c.mapIndex
    factoryGeneration := f.factoryGeneration.getD c.factoryGeneration
    policyDigest := f.policyDigest.getD c.policyDigest
    baseSha := f.baseSha.getD c.baseSha
    observedTargetSha := f.observedTargetSha.getD c.observedTargetSha
    compute := f.compute.or c.compute
    cleanup := f.cleanup.or c.cleanup
    updatedAt := now }

/-- The column `kind` of an event. -/
inductive EventKind
  | activated
  | epochAdvanced
  | patch
  | externalMutation
  | githubFollowup
  | githubFollowupDismissed
deriving DecidableEq, Repr

/-- The payload of an event. -/
inductive Payload
  | actor (name : String)
  | fields (fields : Fields)
  | document (text : String)
deriving DecidableEq, Repr

/-- `Mutation`. -/
structure Mutation where
  cellId : String
  epoch : Int
  operationKey : String
  kind : EventKind
  payload : Payload
deriving DecidableEq, Repr

/-- One row of `cell_events`. -/
structure Event extends Mutation where
  seq : Nat
  createdAt : Time
deriving DecidableEq, Repr

/-- The database. -/
structure Store where
  cells : List Cell := []
  events : List Event := []
deriving DecidableEq, Repr

/-- What an `INSERT` into `cell_events` reports. -/
inductive Inserted
  /-- `sqlite3.IntegrityError` -/
  | integrityError
  | rowcount (n : Nat)
deriving DecidableEq, Repr

/-- Why a `StaleEpoch` is raised, one constructor per message. -/
inductive StaleReason
  /-- activation lost its compare-and-swap -/
  | activationLost
  /-- expected epoch -/
  | expected (epoch : Int)
  /-- expected, current -/
  | current (expected current : Int)
  /-- the row moved under the update -/
  | moved
  /-- epoch is no longer current -/
  | notCurrent (epoch : Int)
deriving DecidableEq, Repr

/-- What a `CellStore` raises. -/
inductive CellError
  | staleEpoch (cellId : String) (reason : StaleReason)
  | duplicateOperation (operationKey : String)
  | cellBusy (cellId : String) (epoch : Int) (state : CellState)
  | keyError (cellId : String)
  /-- database is locked -/
  | locked
  /-- `on_authority_revoked` raised. -/
  | revocation (detail : String)
deriving DecidableEq, Repr

/-- `StaleEpoch`, `DuplicateOperation` or `CellBusy`. -/
def CellError.isRefusal : CellError → Bool
  | staleEpoch _ _ | duplicateOperation _ | cellBusy _ _ _ => true
  | keyError _ | locked | revocation _ => false

namespace Store

variable (stableId : CellIdentity → String)
variable (s : Store)

/-- `SELECT * FROM cells WHERE cell_id=?`. -/
def find (cellId : String) : Option Cell :=
  lookup Cell.cellId cellId s.cells

/-- `history`. -/
def history (cellId : String) : List Event :=
  s.events.filter (fun e => e.cellId = cellId)

/-- The `INSERT OR IGNORE` of `_insert_identity`. -/
def insertIdentity (identity : CellIdentity) (now : Time) : Store :=
  if s.cells.any (fun c =>
      decide (c.cellId = stableId identity ∨ c.identity = identity)) then s
  else
    { s with
      cells := s.cells ++
        [{ cellId := stableId identity
           identity := identity
           epoch := 1
           state := .created
           createdAt := now
           updatedAt := now }] }

/-- `UPDATE cells SET f WHERE cell_id=? AND guard`, with its row count. -/
def updateWhere
    (cellId : String) (guard : Cell → Bool) (f : Cell → Cell) : Nat × Store :=
  (s.cells.countP (fun c => decide (c.cellId = cellId) && guard c),
    { s with
      cells := updateRows Cell.cellId cellId
        (fun c => if guard c then f c else c) s.cells })

/-- `SET epoch=?, state='dispatching', ...` of `activate`. -/
def rearm (epoch : Int) (now : Time) (c : Cell) : Cell :=
  { c with
    epoch := epoch
    state := .dispatching
    airflowDagId := none
    airflowRunId := none
    mapIndex := none
    policyDigest := none
    compute := none
    cleanup := none
    updatedAt := now }

/-- The `UPDATE` of `activate`. -/
def activateRow
    (cellId : String) (epoch : Int) (state : CellState) (next : Int)
    (now : Time) : Nat × Store :=
  s.updateWhere cellId
    (fun c => decide (c.epoch = epoch ∧ c.state = state)) (rearm next now)

/-- The `UPDATE` of `take_epoch`. -/
def takeEpochRow
    (cellId : String) (expected : Int) (now : Time) : Nat × Store :=
  s.updateWhere cellId (fun c => decide (c.epoch = expected))
    (fun c =>
      { c with epoch := expected + 1, policyDigest := none, updatedAt := now })

/-- The `UPDATE` of `patch`. -/
def patchRow
    (cellId : String) (expected : Int) (fields : Fields) (now : Time) :
    Nat × Store :=
  s.updateWhere cellId (fun c => decide (c.epoch = expected))
    (fields.assign now)

/--
The `INSERT` of `_append`.  The `SELECT` under it yields a row only while the
Cell stands at the epoch, and only a row can violate the unique key.
-/
def insertEvent (m : Mutation) (now : Time) : Inserted × Store :=
  if s.cells.any (fun c => decide (c.cellId = m.cellId ∧ c.epoch = m.epoch))
  then
    if s.events.any (fun e =>
        decide (e.cellId = m.cellId ∧ e.operationKey = m.operationKey)) then
      (.integrityError, s)
    else
      (.rowcount 1,
        { s with
          events := s.events ++
            [{ m with seq := s.events.length + 1, createdAt := now }] })
  else (.rowcount 0, s)

end Store

/-! ## The methods -/

variable (stableId : CellIdentity → String)

/-- `get`. -/
def get (cellId : String) (s : Store) : Except CellError Cell :=
  match s.find cellId with
  | none => .error (.keyError cellId)
  | some c => .ok c

/-- What `_append` makes of the report of its `INSERT`. -/
def checkInserted (m : Mutation) : Inserted → Except CellError Unit
  | .integrityError => .error (.duplicateOperation m.operationKey)
  | .rowcount n =>
      if n ≠ 1 then .error (.staleEpoch m.cellId (.notCurrent m.epoch))
      else .ok ()

/-- `_append`. -/
def append (m : Mutation) (now : Time) (s : Store) :
    Except CellError Store := do
  let (inserted, s') := s.insertEvent m now
  checkInserted m inserted
  .ok s'

/-- `activate` finds the Cell as its insertion made it. -/
def Cell.isFresh (c : Cell) : Bool :=
  decide (c.state = .created ∧ c.airflowRunId = none)

/-- The epoch that `activate` gives a Cell. -/
def Cell.nextEpoch (c : Cell) : Int :=
  if c.isFresh then c.epoch else c.epoch + 1

/-- The event of an activation. -/
def activation (cellId : String) (epoch : Int) (actor : String) : Mutation where
  cellId := cellId
  epoch := epoch
  operationKey := "activation:" ++ toString epoch
  kind := .activated
  payload := .actor actor

/-- `activate`. -/
def activate
    (identity : CellIdentity) (actor : String) (now eventAt : Time)
    (s : Store) : Except CellError (Cell × Store) := do
  let cellId := stableId identity
  let inserted := s.insertIdentity stableId identity now
  let current ← get cellId inserted
  if !current.isFresh && !current.state.isTerminal then
    .error (.cellBusy cellId current.epoch current.state)
  else
    let (n, rearmed) := inserted.activateRow cellId current.epoch current.state
      current.nextEpoch now
    if n ≠ 1 then
      .error (.staleEpoch cellId .activationLost)
    else
      let s' ← append (activation cellId current.nextEpoch actor) eventAt rearmed
      let row ← get cellId s'
      .ok (row, s')

/-- The event of a takeover. -/
def takeover (cellId : String) (epoch : Int) (actor : String) : Mutation where
  cellId := cellId
  epoch := epoch
  operationKey := "epoch:" ++ toString epoch
  kind := .epochAdvanced
  payload := .actor actor

/-- `take_epoch`. -/
def takeEpoch
    (cellId : String) (expected : Int) (actor : String) (now eventAt : Time)
    (s : Store) : Except CellError (Int × Store) := do
  let (n, advanced) := s.takeEpochRow cellId expected now
  if n ≠ 1 then
    .error (.staleEpoch cellId (.expected expected))
  else
    let s' ← append (takeover cellId (expected + 1) actor) eventAt advanced
    .ok (expected + 1, s')

/-- The event of a patch. -/
def patching
    (cellId : String) (epoch : Int) (operationKey : String) (fields : Fields) :
    Mutation where
  cellId := cellId
  epoch := epoch
  operationKey := operationKey
  kind := .patch
  payload := .fields fields

/-- The transaction of `patch`. -/
def patchWrite
    (cellId : String) (expected : Int) (operationKey : String)
    (fields : Fields) (now eventAt : Time) (s : Store) :
    Except CellError Store := do
  let appended ←
    append (patching cellId expected operationKey fields) eventAt s
  if fields = {} then
    .ok appended
  else
    let (n, s') := appended.patchRow cellId expected fields now
    if n ≠ 1 then .error (.staleEpoch cellId .moved)
    else .ok s'

/-- The check of `patch` on the row it has read. -/
def checkEpoch (expected : Int) (row : Cell) : Except CellError Unit :=
  if row.epoch ≠ expected then
    .error (.staleEpoch row.cellId (.current expected row.epoch))
  else .ok ()

/-- `patch`. -/
def patch
    (cellId : String) (expected : Int) (operationKey : String)
    (fields : Fields) (now eventAt : Time) (s : Store) :
    Except CellError (Cell × Store) := do
  let row ← get cellId s
  checkEpoch expected row
  let s' ← patchWrite cellId expected operationKey fields now eventAt s
  let updated ← get cellId s'
  .ok (updated, s')

/-- The transaction of `ensure`. -/
def ensureWrite
    (identity : CellIdentity) (fields : Fields) (now patchAt eventAt : Time)
    (s : Store) : Except CellError Store := do
  let cellId := stableId identity
  let inserted := s.insertIdentity stableId identity now
  let row ← get cellId inserted
  if fields = {} then
    .ok inserted
  else do
    checkEpoch 1 row
    patchWrite cellId 1 "ensure:init" fields patchAt eventAt inserted

end Cells
end SwFactory
