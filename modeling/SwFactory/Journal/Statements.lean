import SwFactory.Machine.Interaction
import SwFactory.Text

/-!
# The operation journal: rows and atomic statements

The data model of `idempotency.py`: one row of the `operations` table, the
reference a caller addresses it with, the retry budget, the outcome of an
external observation, and every refusal the journal raises.

A JSON value is an element of a type `V`.  Two Python values with the same
canonical `json.dumps` text are one element, so comparing texts is comparing
elements.  `None` is the `none` of `Option V`; a column that holds JSON text is
`none` when the column is NULL.

`connect_write` opens the database with `isolation_level="IMMEDIATE"`: Python
opens a transaction in front of the first writing statement and not in front of
a `SELECT`.  So the atomic steps of a journal method are

* each `SELECT` made by `get` outside of a transaction;
* each transaction, from its first writing statement to the commit that ends
  the `with self.db` block (the `SELECT`s in between see one state);
* the calls that leave the process: the clock, the provider callback `fn` and
  the observer `reconcile`.

All statements of the model address one operation key; the shared state is the
row with that key, if there is one, and a log of what happened on the key.  The
log is no part of the program: it is what the properties talk about.
-/

namespace SwFactory
namespace Journal

open Text Machine

/-! ## Rows, requests and refusals -/

/-- `OutcomeStatus`. -/
inductive OutcomeStatus
  | committed
  | definitelyAbsent
  | ambiguous
  | divergent
  | refused
deriving DecidableEq, Repr

/-- `OperationState`. -/
inductive OperationState
  | intent
  | inDoubt
  | reconciling
  | committed
  | exhausted
  | refused
deriving DecidableEq, Repr

/-- `OperationRef`. -/
structure OperationRef where
  cellId : String
  epoch : Nat
  kind : String
  key : String
deriving DecidableEq, Repr

/-- Evidence of an observation, or a stored observation used as evidence. -/
inductive Evidence (V : Type)
  | document (value : V)
  | observation
      (status : OutcomeStatus)
      (evidence : Option (Evidence V))
      (detail : Option String)

/-- `MutationOutcome`. -/
structure MutationOutcome (V : Type) where
  status : OutcomeStatus
  result : Option V := none
  evidence : Option (Evidence V) := none
  detail : Option String := none

/-- `RetryBudget`; the delays are whole seconds. -/
structure RetryBudget where
  maxAttempts : Nat := 3
  baseDelay : Nat := 1
  maxDelay : Nat := 60
deriving DecidableEq, Repr

/-- `budget_for` over `DEFAULT_BUDGETS`. -/
def budgetFor (kind : String) : RetryBudget :=
  if kind = "airflow_dispatch" then ⟨3, 1, 30⟩
  else if kind = "github_publish" then ⟨4, 1, 60⟩
  else if kind = "github_issue" then ⟨4, 1, 60⟩
  else if kind = "sandbox_cleanup" then ⟨5, 1, 60⟩
  else {}

/--
The token of one attempt.  `uuid4` gives every call its own, and a call starts
at most one attempt, so the number of the calling process serves as the token.
-/
abbrev Owner := Nat

/-- One row of `operations`. -/
structure Row (V : Type) where
  cellId : String
  epoch : Nat
  kind : String
  state : OperationState
  resultJson : Option (Option V)
  updatedAt : Time
  attempts : Nat
  lastError : Option String
  observation : Option (Evidence V)
  nextAttemptAt : Option Time
  intentDigest : Option String
  attemptOwner : Option Owner
  attemptLeaseUntil : Option Time
  replaySafe : Option Bool
  maxAttempts : Option Nat

/-- `row["result"]` as `get` decodes it. -/
def Row.result {V : Type} (row : Row V) : Option V :=
  row.resultJson.join

/-- `OperationIdentityConflict`, one constructor per message. -/
inductive IdentityConflict
  /-- operation must carry a Factory Cell id -/
  | missingCellId
  /-- operation reference is incomplete -/
  | incompleteRef
  /-- operation retry budget must be positive -/
  | emptyBudget
  /-- intent digest must use sha256:<hex> -/
  | digestScheme
  /-- intent digest must be a lowercase SHA-256 digest -/
  | digestForm
  /-- operation key is already bound to `observed`, not `expected` -/
  | boundElsewhere
      (key : String) (observed expected : String × Nat × String)
  /-- operation key was reused with divergent intent -/
  | divergentIntent (key : String)
  /-- operation key was reused with divergent replay policy -/
  | divergentReplayPolicy (key : String)
  /-- operation key was reused with divergent retry budget -/
  | divergentRetryBudget (key : String)
  /-- committed operation cannot be overwritten -/
  | committedOverwrite (key : String)
deriving DecidableEq, Repr

/-- The `state` that an `OperationInDoubt` names. -/
inductive DoubtReason
  | alreadyCommitted
  | attemptInProgress
  | expiredAttemptInDoubt
  | attemptOwnerChanged
  | commitLostAttemptOwner
  | inState (state : OperationState)
  | observed (status : OutcomeStatus)
deriving DecidableEq, Repr

/-- Every exception that leaves a journal method. -/
inductive OperationError
  | identityConflict (reason : IdentityConflict)
  | inDoubt (key : String) (reason : DoubtReason)
  | retryBudgetExhausted (key : String) (maxAttempts : Nat)
  | keyError (key : String)
  /-- The exception of the provider callback, raised again. -/
  | callback (error : String)
deriving DecidableEq, Repr

/-- `_validate_ref`. -/
def validateRef (ref : OperationRef) : Except OperationError Unit :=
  if !isCellId ref.cellId then
    .error (.identityConflict .missingCellId)
  else if ref.epoch < 1 || isBlank ref.kind || isBlank ref.key then
    .error (.identityConflict .incompleteRef)
  else .ok ()

/-- `_validate_digest`. -/
def validateDigest : Option String → Except OperationError Unit
  | none => .ok ()
  | some digest =>
      if !hasDigestScheme digest then
        .error (.identityConflict .digestScheme)
      else if !hasDigestForm digest then
        .error (.identityConflict .digestForm)
      else .ok ()

/-- Both values are present and differ. -/
def diverges {β : Type} [DecidableEq β] (stored wanted : Option β) : Bool :=
  stored.isSome && wanted.isSome && decide (stored ≠ wanted)

/-- `_assert_identity`. -/
def assertIdentity {V : Type}
    (ref : OperationRef) (row : Row V) (intentDigest : Option String) :
    Except OperationError Unit := do
  validateRef ref
  validateDigest intentDigest
  let observed := (row.cellId, row.epoch, row.kind)
  let expected := (ref.cellId, ref.epoch, ref.kind)
  if observed ≠ expected then
    .error (.identityConflict (.boundElsewhere ref.key observed expected))
  else if diverges row.intentDigest intentDigest then
    .error (.identityConflict (.divergentIntent ref.key))
  else .ok ()

/-! ## Statements -/

variable {V : Type}

/-- How one invocation of the provider callback ended. -/
inductive FnOutcome (V : Type)
  | returned (result : Option V)
  /-- It raised; the external effect may have landed all the same. -/
  | raised (error : String)

/-- The parameters of `begin`, as its transaction uses them. -/
structure Intent where
  ref : OperationRef
  intentDigest : Option String
  replaySafe : Option Bool
  maxAttempts : Option Nat
  now : Time

/-- The atomic steps of the journal methods. -/
inductive Stmt (V : Type)
  /-- `time.time()` -/
  | time
  /-- `uuid.uuid4().hex` -/
  | uuid
  /-- `budget.delay(attempt, ref.key)` -/
  | delay (budget : RetryBudget) (attempt : Nat)
  /-- `SELECT * FROM operations WHERE operation_key=?` -/
  | select
  /-- The transaction of `begin`. -/
  | intent (args : Intent)
  /-- `start_attempt` on an expired owner. -/
  | expire (incumbent : Owner) (now : Time)
  /-- `start_attempt` on a spent budget. -/
  | exhaust (now : Time)
  /-- `start_attempt` taking the attempt. -/
  | claim (attempt : Nat) (owner : Owner) (leaseUntil now : Time)
  | markInDoubt (detail : String) (owner : Option Owner) (now : Time)
  | markObservation (outcome : MutationOutcome V) (now : Time)
  | scheduleRetry (at_ now : Time)
  /-- The `UPDATE` of `commit`, with the read that follows a lost one. -/
  | commit (result : Option V) (owner : Option Owner) (now : Time)
  /-- `fn()` is entered. -/
  | fnStart
  /-- `fn()` is left. -/
  | fnEnd
  /-- `reconcile()`, or the `observer()` of `observe`. -/
  | reconcile

/-- What the caller gets back from a statement. -/
@[reducible] def Stmt.Ans : Stmt V → Type
  | time => Time
  | uuid => Owner
  | delay _ _ => Time
  | select => Option (Row V)
  | intent _ => Except OperationError Unit
  | expire _ _ => Unit
  | exhaust _ => Unit
  | claim _ _ _ _ => Nat
  | markInDoubt _ _ _ => Unit
  | markObservation _ _ => Unit
  | scheduleRetry _ _ => Unit
  | commit _ _ _ => Nat × Option (Row V)
  | fnStart => Unit
  | fnEnd => FnOutcome V
  | reconcile => MutationOutcome V

/-- What the environment contributes to one step. -/
structure Input (V : Type) where
  now : Time := 0
  delay : Time := 0
  fn : FnOutcome V := .returned none
  observed : MutationOutcome V := ⟨.ambiguous, none, none, none⟩

/-- The row that `INSERT OR IGNORE` of `begin` makes. -/
def Intent.fresh (args : Intent) : Row V where
  cellId := args.ref.cellId
  epoch := args.ref.epoch
  kind := args.ref.kind
  state := .intent
  resultJson := none
  updatedAt := args.now
  attempts := 0
  lastError := none
  observation := none
  nextAttemptAt := none
  intentDigest := args.intentDigest
  attemptOwner := none
  attemptLeaseUntil := none
  replaySafe := args.replaySafe
  maxAttempts := args.maxAttempts

/-- The columns that `begin` still has to bind. -/
def Intent.unbound (args : Intent) (row : Row V) : Bool :=
  (args.intentDigest.isSome && row.intentDigest.isNone) ||
    (args.replaySafe.isSome && row.replaySafe.isNone) ||
    (args.maxAttempts.isSome && row.maxAttempts.isNone)

/-- The `UPDATE` of `begin`: bind what is given and still NULL. -/
def Intent.bindPolicy (args : Intent) (row : Row V) : Row V :=
  if args.unbound row then
    { row with
      intentDigest := row.intentDigest.or args.intentDigest
      replaySafe := row.replaySafe.or args.replaySafe
      maxAttempts := row.maxAttempts.or args.maxAttempts
      updatedAt := args.now }
  else row

/-- The transaction of `begin`; an exception rolls it back. -/
def Intent.transact (args : Intent) (stored : Option (Row V)) :
    Except OperationError (Row V) := do
  let row := stored.getD args.fresh
  assertIdentity args.ref row args.intentDigest
  if diverges row.replaySafe args.replaySafe then
    .error (.identityConflict (.divergentReplayPolicy args.ref.key))
  else if diverges row.maxAttempts args.maxAttempts then
    .error (.identityConflict (.divergentRetryBudget args.ref.key))
  else .ok (args.bindPolicy row)

/-- `UPDATE ... SET f WHERE operation_key=? AND guard`. -/
def updateWhere
    (guard : Row V → Bool) (f : Row V → Row V)
    (stored : Option (Row V)) : Option (Row V) :=
  stored.map (fun row => if guard row then f row else row)

/-- The `rowcount` of such an `UPDATE`. -/
def rowcountWhere
    (guard : Row V → Bool) (stored : Option (Row V)) : Nat :=
  if stored.any guard then 1 else 0

/-- `attempt_owner IS NULL AND state!='committed'`. -/
def claimGuard (row : Row V) : Bool :=
  decide (row.state ≠ .committed) && row.attemptOwner.isNone

/-- `state!='committed'`, and `attempt_owner=?` when an owner is given. -/
def ownedGuard (owner : Option Owner) (row : Row V) : Bool :=
  decide (row.state ≠ .committed) &&
    (owner.isNone || decide (row.attemptOwner = owner))

/-- The row after a statement. -/
def Stmt.effect : Stmt V → Option (Row V) → Option (Row V)
  | .intent args, stored =>
      match args.transact stored with
      | .ok row => some row
      | .error _ => stored
  | .expire incumbent now, stored =>
      updateWhere (fun row => decide (row.attemptOwner = some incumbent))
        (fun row =>
          { row with
            state := .inDoubt
            lastError := some
              "attempt lease expired; reconcile before another effect"
            updatedAt := now })
        stored
  | .exhaust now, stored =>
      updateWhere (fun _ => true)
        (fun row => { row with state := .exhausted, updatedAt := now })
        stored
  | .claim attempt owner leaseUntil now, stored =>
      updateWhere claimGuard
        (fun row =>
          { row with
            attempts := attempt
            state := .intent
            lastError := none
            nextAttemptAt := none
            attemptOwner := some owner
            attemptLeaseUntil := some leaseUntil
            updatedAt := now })
        stored
  | .markInDoubt detail none now, stored =>
      updateWhere (ownedGuard none)
        (fun row =>
          { row with
            state := .inDoubt
            lastError := some detail
            updatedAt := now })
        stored
  | .markInDoubt detail (some owner) now, stored =>
      updateWhere (ownedGuard (some owner))
        (fun row =>
          { row with
            state := .inDoubt
            lastError := some detail
            attemptOwner := none
            attemptLeaseUntil := none
            updatedAt := now })
        stored
  | .markObservation outcome now, stored =>
      updateWhere (ownedGuard none)
        (fun row =>
          { row with
            state :=
              if outcome.status = .refused then .refused else .reconciling
            observation := some
              (.observation outcome.status outcome.evidence outcome.detail)
            updatedAt := now })
        stored
  | .scheduleRetry at_ now, stored =>
      updateWhere (fun _ => true)
        (fun row => { row with nextAttemptAt := some at_, updatedAt := now })
        stored
  | .commit result owner now, stored =>
      updateWhere (ownedGuard owner)
        (fun row =>
          { row with
            state := .committed
            resultJson := some result
            lastError := none
            nextAttemptAt := none
            attemptOwner := none
            attemptLeaseUntil := none
            updatedAt := now })
        stored
  | _, stored => stored

/-- The answer of a statement performed by process `p`. -/
def Stmt.answer (p : Nat) :
    (s : Stmt V) → Input V → Option (Row V) → s.Ans
  | .time, input, _ => input.now
  | .uuid, _, _ => p
  | .delay _ _, input, _ => input.delay
  | .select, _, stored => stored
  | .intent args, _, stored => (args.transact stored).map (fun _ => ())
  | .expire _ _, _, _ => ()
  | .exhaust _, _, _ => ()
  | .claim _ _ _ _, _, stored => rowcountWhere claimGuard stored
  | .markInDoubt _ _ _, _, _ => ()
  | .markObservation _ _, _, _ => ()
  | .scheduleRetry _ _, _, _ => ()
  | .commit _ owner _, _, stored =>
      -- a lost UPDATE changes nothing, so the read behind it finds this row
      (rowcountWhere (ownedGuard owner) stored, stored)
  | .fnStart, _, _ => ()
  | .fnEnd, input, _ => input.fn
  | .reconcile, input, _ => input.observed

/-- What the log of an operation key records. -/
inductive Event
  | claimed (p attempt : Nat)
  | invoked (p : Nat)
  | returned (p : Nat)
  | raised (p : Nat)
  | crashed (p : Nat)
  /-- Another process took the attempt away from its owner. -/
  | lostLease (p : Nat)
  | reconciled (p : Nat) (status : OutcomeStatus)
deriving DecidableEq, Repr

/-- The attempt owner of the stored row, if any. -/
def ownerOf (stored : Option (Row V)) : Option Owner :=
  stored.bind Row.attemptOwner

/-- The owner that a statement of process `p` removed, if it was another's. -/
def displaced (p : Nat) (before after : Option Owner) : List Event :=
  match before with
  | some q => if q ≠ p ∧ after ≠ some q then [.lostLease q] else []
  | none => []

/-- What a statement of process `p` adds to the log. -/
def Stmt.events
    (p : Nat) (s : Stmt V) (input : Input V) (stored : Option (Row V)) :
    List Event :=
  match s with
  | .claim attempt _ _ _ =>
      if stored.any claimGuard then [.claimed p attempt] else []
  | .fnStart => [.invoked p]
  | .fnEnd =>
      match input.fn with
      | .returned _ => [.returned p]
      | .raised _ => [.raised p]
  | .reconcile => [.reconciled p input.observed.status]
  | s => displaced p (ownerOf stored) (ownerOf (s.effect stored))

/-- The row of the key and what happened on it, latest first. -/
structure Shared (V : Type) where
  row : Option (Row V)
  log : List Event

/-- The journal as a system of interleaved processes. -/
def system (V : Type) :
    System (Stmt V) Stmt.Ans (Shared V) (Input V) where
  exec p s input sh :=
    (s.answer p input sh.row,
      ⟨s.effect sh.row, s.events p input sh.row ++ sh.log⟩)
  crash p sh := ⟨sh.row, .crashed p :: sh.log⟩

end Journal
end SwFactory
