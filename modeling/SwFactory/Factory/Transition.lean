import SwFactory.Cells.Effects
import SwFactory.Machine.Runs

/-!
# The factory: lifecycle transitions

`_transition` moves a Cell to a requested state and releases the capacity of a
Cell that has ended.  A repeated operation key is taken for a transition that
has already been applied.  The keys of a Cell are unique over all of its
epochs, and the default key names only the requested state: after the Cell has
been activated again, the key of an earlier epoch answers for the new one.

A call runs alone on the Cell store.  What it gets from elsewhere is part of
its surroundings: the clock, the answer of Airflow to the cancellation, whether
the release admitted work, and the deliveries that `resume_dispatch` makes then.

Source: `backend/service.py` (`text`, `Factory._transition`, `_cell`,
`_cell_at`).
-/

namespace SwFactory
namespace Factory

open Text Machine Cells

/-- A field of a request body. -/
inductive Field
  | missing
  | text (value : String)
  /-- A value that is not a string. -/
  | other
deriving DecidableEq, Repr

/-- The body of a transition request; `epoch` is `none` if it is no integer. -/
structure Body where
  cellId : Field
  epoch : Option Int
  state : Field
  operationKey : Field := .missing
deriving DecidableEq, Repr

/-- What `_transition` raises. -/
inductive TransitionError
  /-- the field must be a nonempty string of at most so many characters -/
  | notText (key : String) (maxLen : Nat)
  /-- epoch must be a positive integer -/
  | epochNotPositive
  /-- invalid lifecycle state -/
  | invalidState
  /-- 404, no Factory Cell -/
  | noCell (cellId : String)
  /-- 409, stale Factory Cell epoch -/
  | staleEpoch (epoch current : Int)
  /-- 409, terminal Factory Cell cannot transition -/
  | terminal (old requested : CellState)
  /-- 409, Factory Cell cannot transition success -/
  | fromSuccess (requested : CellState)
  /-- 409, Factory Cell cannot transition to running -/
  | toRunning (old : CellState)
  | cell (error : CellError)
  /-- The journaled cancellation of the Airflow run raised. -/
  | airflow (detail : String)
deriving DecidableEq, Repr

/-- `text`. -/
def text (field : Field) (key : String) (maxLen : Nat) :
    Except TransitionError String :=
  match field with
  | .text value =>
      if isBlank value || decide (maxLen < value.length) then
        .error (.notText key maxLen)
      else
        .ok (strip value)
  | .missing | .other => .error (.notText key maxLen)

/-- The states that a transition may request. -/
def requestable (name : String) : Option CellState :=
  if name = "running" then some .running
  else if name = "success" then some .success
  else if name = "failed" then some .failed
  else if name = "cancelled" then some .cancelled
  else if name = "rejected" then some .rejected
  else if name = "cleaned" then some .cleaned
  else none

/-- `body.get("operation_key") or f"operator:{requested}"`. -/
def keyOrDefault (field : Field) (requested : String) : Field :=
  match field with
  | .missing => .text ("operator:" ++ requested)
  | .text value =>
      if value = "" then .text ("operator:" ++ requested) else .text value
  | .other => .other

/-- A body that has passed the checks. -/
structure Request where
  cellId : String
  epoch : Int
  requested : CellState
  operationKey : String
deriving DecidableEq, Repr

/-- The checks of `_transition` on its body. -/
def Body.parse (body : Body) : Except TransitionError Request := do
  let cellId ← text body.cellId "cell_id" 512
  match body.epoch with
  | none => .error .epochNotPositive
  | some epoch =>
      if epoch < 1 then
        .error .epochNotPositive
      else
        let name ← text body.state "state" 64
        match requestable name with
        | none => .error .invalidState
        | some requested =>
            let operationKey ←
              text (keyOrDefault body.operationKey name) "operation_key" 256
            return { cellId, epoch, requested, operationKey }

/-- `_cell`. -/
def readCell (cellId : String) (s : Store) : Except TransitionError Cell :=
  match s.find cellId with
  | none => .error (.noCell cellId)
  | some c => .ok c

/-- `_cell_at`. -/
def cellAt (cellId : String) (epoch : Int) (s : Store) :
    Except TransitionError Cell := do
  let c ← readCell cellId s
  if c.epoch ≠ epoch then .error (.staleEpoch epoch c.epoch)
  else .ok c

/-- The transitions that `_transition` refuses. -/
def checkTransition (old requested : CellState) : Except TransitionError Unit :=
  if old.isTerminal && decide (old ≠ .success) && decide (requested ≠ old) then
    .error (.terminal old requested)
  else if old = .success ∧ requested ≠ .success ∧ requested ≠ .failed then
    .error (.fromSuccess requested)
  else if requested = .running ∧ old.isLive = false then
    .error (.toRunning old)
  else .ok ()

/-- One delivery of `resume_dispatch`, as far as it activates a Cell. -/
structure Delivery where
  identity : CellIdentity
  actor : String
  now : Time
  eventAt : Time

/-- What a call gets from elsewhere. -/
structure Surroundings where
  now : Time := 0
  eventAt : Time := 0
  /-- The cleanup document, as text. -/
  cleanup : String := ""
  /-- The cancellation of the Airflow run raises. -/
  airflow : Option String := none
  /-- The release admitted other work. -/
  released : Bool := false
  resumed : List Delivery := []

/-- What a call has done. -/
structure Outcome where
  answer : Except TransitionError Cell
  /-- The call of `release_cell`, if there was one. -/
  release : Option (String × Int × CellState) := none
  store : Store

variable (stableId : CellIdentity → String)

/-- The patch of `_transition`; a repeated key counts as applied. -/
def patchOnce (r : Request) (fields : Fields) (env : Surroundings) (s : Store) :
    Except TransitionError (Cell × Store) :=
  match patch r.cellId r.epoch r.operationKey fields env.now env.eventAt s with
  | .ok (updated, s') => .ok (updated, s')
  | .error (.duplicateOperation _) => do
      let updated ← readCell r.cellId s
      return (updated, s)
  | .error e => .error (.cell e)

/-- An activation, or nothing if it is refused. -/
def deliver (s : Store) (d : Delivery) : Store :=
  match activate stableId d.identity d.actor d.now d.eventAt s with
  | .ok (_, s') => s'
  | .error _ => s

/-- `resume_dispatch`, when the release admitted work. -/
def resumeDispatch (env : Surroundings) (s : Store) : Store :=
  if env.released then env.resumed.foldl (deliver stableId) s else s

/-- `release_cell`, and what it resumes. -/
def releaseCell (r : Request) (state : CellState) (env : Surroundings)
    (updated : Cell) (s : Store) : Outcome where
  answer := .ok updated
  release := some (r.cellId, r.epoch, state)
  store := resumeDispatch stableId env s

/-- A nonempty value. -/
def isSet (value : Option String) : Bool :=
  value.any (fun text => decide (text ≠ ""))

/-- The Airflow run must be cancelled as well. -/
def cancelsRun (r : Request) (updated : Cell) : Bool :=
  decide (r.requested = .cancelled) &&
    !"airflow:".toList.isPrefixOf r.operationKey.toList &&
    isSet updated.airflowDagId && isSet updated.airflowRunId

/-- The branch of `_transition` for `cleaned`. -/
def clean (r : Request) (env : Surroundings) (s : Store) : Outcome :=
  match patchOnce r { cleanup := some env.cleanup } env s with
  | .error e => { answer := .error e, store := s }
  | .ok (updated, s') =>
      if updated.state.isTerminal then
        releaseCell stableId r updated.state env updated s'
      else
        { answer := .ok updated, store := s' }

/-- The branch of `_transition` for every other state. -/
def move (r : Request) (current : Cell) (env : Surroundings) (s : Store) :
    Outcome :=
  match checkTransition current.state r.requested with
  | .error e => { answer := .error e, store := s }
  | .ok () =>
      match patchOnce r { state := some r.requested } env s with
      | .error e => { answer := .error e, store := s }
      | .ok (updated, s') =>
          match cancelsRun r updated, env.airflow with
          | true, some detail => { answer := .error (.airflow detail), store := s' }
          | _, _ =>
              if r.requested.isTerminal then
                releaseCell stableId r r.requested env updated s'
              else
                { answer := .ok updated, store := s' }

/-- `_transition`. -/
def transition (body : Body) (env : Surroundings) (s : Store) : Outcome :=
  match body.parse with
  | .error e => { answer := .error e, store := s }
  | .ok r =>
      match cellAt r.cellId r.epoch s with
      | .error e => { answer := .error e, store := s }
      | .ok current =>
          if r.requested = .cleaned then clean stableId r env s
          else move stableId r current env s

end Factory
end SwFactory
