import SwFactory.Journal.Statements

/-!
# The operation journal: methods

The methods of `OperationJournal` as programs over the atomic statements, in
the order the source performs them.  `execute` is the composition the factory
uses for every provider effect; the others are also called on their own
(maintenance, restore, tests), so all of them can be run by any process.
-/

namespace SwFactory
namespace Journal

open Text Machine

variable {V : Type}

/-- A journal method that returns an `α`. -/
abbrev Method (V α : Type) := Prog (Stmt V) Stmt.Ans OperationError α

/-- Perform one statement. -/
def sql (s : Stmt V) : Method V s.Ans :=
  Prog.perform s

/-- `get`. -/
def get (key : String) : Method V (Row V) := do
  let found : Option (Row V) ← sql .select
  match found with
  | none => .raise (.keyError key)
  | some row => .ret row

/-- `begin`. -/
def begin
    (ref : OperationRef)
    (intentDigest : Option String)
    (replaySafe : Option Bool)
    (maxAttempts : Option Nat) :
    Method V OperationState := do
  .ofExcept (validateRef ref)
  .ofExcept (validateDigest intentDigest)
  if maxAttempts.any (· < 1) then
    .raise (.identityConflict .emptyBudget)
  else do
    let now : Time ← sql .time
    let bound : Except OperationError Unit ←
      sql (.intent ⟨ref, intentDigest, replaySafe, maxAttempts, now⟩)
    .ofExcept bound
    let row ← get ref.key
    return row.state

/-- The default `lease_s` of `start_attempt`. -/
def defaultLease : Time := 300

/-- `start_attempt`. -/
def startAttempt
    (ref : OperationRef)
    (budget : Option RetryBudget)
    (lease : Time := defaultLease) :
    Method V (Nat × Owner) := do
  let budget := budget.getD (budgetFor ref.kind)
  let owner : Owner ← sql .uuid
  let now : Time ← sql .time
  let row ← get ref.key
  .ofExcept (assertIdentity ref row none)
  if row.state = .committed then
    .raise (.inDoubt ref.key .alreadyCommitted)
  else
    match row.attemptOwner with
    | some incumbent =>
        if row.attemptLeaseUntil.getD 0 ≤ now then do
          sql (.expire incumbent now)
          .raise (.inDoubt ref.key .expiredAttemptInDoubt)
        else
          .raise (.inDoubt ref.key .attemptInProgress)
    | none =>
        if budget.maxAttempts ≤ row.attempts then do
          sql (.exhaust now)
          .raise (.retryBudgetExhausted ref.key budget.maxAttempts)
        else do
          let attempt := row.attempts + 1
          let rowcount : Nat ←
            sql (.claim attempt owner (now + max 1 lease) now)
          if rowcount ≠ 1 then
            .raise (.inDoubt ref.key .attemptInProgress)
          else return (attempt, owner)

/-- `mark_in_doubt`. -/
def markInDoubt
    (ref : OperationRef) (error : String) (owner : Option Owner) :
    Method V Unit := do
  let row ← get ref.key
  .ofExcept (assertIdentity ref row none)
  let now : Time ← sql .time
  sql (.markInDoubt (truncate 2000 error) owner now)

/-- `mark_observation`. -/
def markObservation
    (ref : OperationRef) (outcome : MutationOutcome V) :
    Method V Unit := do
  let row ← get ref.key
  .ofExcept (assertIdentity ref row none)
  let now : Time ← sql .time
  sql (.markObservation outcome now)

/-- `schedule_retry`. -/
def scheduleRetry
    (ref : OperationRef) (attempt : Nat) (budget : Option RetryBudget) :
    Method V Time := do
  let budget := budget.getD (budgetFor ref.kind)
  let started : Time ← sql .time
  let wait : Time ← sql (.delay budget attempt)
  let row ← get ref.key
  .ofExcept (assertIdentity ref row none)
  let now : Time ← sql .time
  sql (.scheduleRetry (started + wait) now)
  return started + wait

section Commit

variable [DecidableEq V]

/-- `commit`. -/
def commit
    (ref : OperationRef) (result : Option V) (owner : Option Owner) :
    Method V Unit := do
  let row ← get ref.key
  .ofExcept (assertIdentity ref row none)
  if row.state = .committed then
    if row.result ≠ result then
      .raise (.identityConflict (.committedOverwrite ref.key))
    else return ()
  else if owner.isSome && decide (row.attemptOwner ≠ owner) then
    .raise (.inDoubt ref.key .attemptOwnerChanged)
  else do
    let now : Time ← sql .time
    let out : Nat × Option (Row V) ←
      sql (.commit result owner now)
    if out.1 = 1 then return ()
    else
      match out.2 with
      | none => .raise (.keyError ref.key)
      | some latest =>
          if latest.state = .committed ∧ latest.result = result then
            return ()
          else .raise (.inDoubt ref.key .commitLostAttemptOwner)

/-- The arguments of one `execute` call; `fn` and `reconcile` are external. -/
structure ExecuteArgs where
  ref : OperationRef
  replaySafe : Option Bool := none
  /-- Whether a `reconcile` callback is given. -/
  reconciles : Bool := false
  budget : Option RetryBudget := none
  intentDigest : Option String := none
  observeBeforeFirstAttempt : Bool := false

/-- `fn()` under the claimed attempt, and what its ending writes. -/
def runAttempt
    (ref : OperationRef) (budget : RetryBudget) (attempt : Nat)
    (owner : Owner) : Method V (Option V) := do
  sql .fnStart
  let ended : FnOutcome V ← sql .fnEnd
  match ended with
  | .raised error => do
      markInDoubt ref error (some owner)
      let _ ← scheduleRetry ref attempt (some budget)
      .raise (.callback error)
  | .returned result => do
      commit ref result (some owner)
      return result

/-- The claim of `execute`, from its observation decision on. -/
def claimAndRun
    (args : ExecuteArgs) (budget : RetryBudget) : Method V (Option V) := do
  let claimed ← startAttempt args.ref (some budget)
  runAttempt args.ref budget claimed.1 claimed.2

/-- The observation of `execute`, when it is due, and what follows from it. -/
def observeThenRun
    (args : ExecuteArgs) (budget : RetryBudget) (replaySafe : Bool)
    (row : Row V) (shouldObserve : Bool) : Method V (Option V) :=
  if shouldObserve then
    if !args.reconciles then
      .raise (.inDoubt args.ref.key (.inState row.state))
    else do
      let outcome : MutationOutcome V ← sql .reconcile
      markObservation args.ref outcome
      if outcome.status = .committed then do
        commit args.ref outcome.result none
        return outcome.result
      else if outcome.status ≠ .definitelyAbsent || !replaySafe then
        .raise (.inDoubt args.ref.key (.observed outcome.status))
      else claimAndRun args budget
  else claimAndRun args budget

/-- The first part of `execute`: find or create the intent and read it. -/
def openIntent
    (args : ExecuteArgs) (budget : RetryBudget) :
    Method V (Bool × Row V) := do
  let found : Option (Row V) ← sql .select
  match found with
  | none => do
      let _ ← begin args.ref args.intentDigest args.replaySafe
        (some budget.maxAttempts)
      let row ← get args.ref.key
      return (false, row)
  | some row => do
      .ofExcept (assertIdentity args.ref row args.intentDigest)
      let _ ← begin args.ref args.intentDigest args.replaySafe
        (args.budget.map RetryBudget.maxAttempts)
      let row ← get args.ref.key
      return (true, row)

/-- The stored bound replaces the default one. -/
def effectiveBudget (args : ExecuteArgs) (row : Row V) : RetryBudget :=
  match args.budget, row.maxAttempts with
  | none, some stored => { budgetFor args.ref.kind with maxAttempts := stored }
  | requested, _ => requested.getD (budgetFor args.ref.kind)

/-- `execute`. -/
def execute (args : ExecuteArgs) : Method V (Option V) := do
  let (existed, row) ←
    openIntent args (args.budget.getD (budgetFor args.ref.kind))
  let budget := effectiveBudget args row
  let replaySafe := args.replaySafe.getD (row.replaySafe.getD false)
  if row.state = .committed then
    return row.result
  else do
    let now : Time ← sql .time
    match row.attemptOwner with
    | none =>
        observeThenRun args budget replaySafe row
          (existed || args.observeBeforeFirstAttempt)
    | some incumbent =>
        if now < row.attemptLeaseUntil.getD 0 then
          .raise (.inDoubt args.ref.key .attemptInProgress)
        else do
          markInDoubt args.ref
            "attempt lease expired; external outcome is unknown"
            (some incumbent)
          let row ← get args.ref.key
          observeThenRun args budget replaySafe row true

/-- `observe`. -/
def observe (ref : OperationRef) : Method V (MutationOutcome V) := do
  let row ← get ref.key
  .ofExcept (assertIdentity ref row none)
  if row.state = .committed then
    return ⟨.committed, row.result, row.observation,
      some "journal is committed"⟩
  else do
    let outcome : MutationOutcome V ← sql .reconcile
    markObservation ref outcome
    if outcome.status = .committed then do
      commit ref outcome.result none
      return outcome
    else return outcome

/-- One call of a public journal method. -/
inductive Call (V : Type)
  | execute (args : ExecuteArgs)
  | begin
      (ref : OperationRef) (intentDigest : Option String)
      (replaySafe : Option Bool) (maxAttempts : Option Nat)
  | startAttempt
      (ref : OperationRef) (budget : Option RetryBudget) (lease : Time)
  | markInDoubt (ref : OperationRef) (error : String) (owner : Option Owner)
  | markObservation (ref : OperationRef) (outcome : MutationOutcome V)
  | scheduleRetry
      (ref : OperationRef) (attempt : Nat) (budget : Option RetryBudget)
  | commit (ref : OperationRef) (result : Option V) (owner : Option Owner)
  | observe (ref : OperationRef)

/-- The call enters the provider callback; no other method does. -/
def Call.isExecute : Call V → Bool
  | execute _ => true
  | _ => false

/-- What such a call returns. -/
inductive Returned (V : Type)
  | value (result : Option V)
  | state (state : OperationState)
  | attempt (number : Nat) (owner : Owner)
  | scheduled (at_ : Time)
  | outcome (outcome : MutationOutcome V)
  | nothing

/-- The program of a call. -/
def Call.prog : Call V → Method V (Returned V)
  | .execute args => do return .value (← Journal.execute args)
  | .begin ref digest safe bound => do
      return .state (← Journal.begin ref digest safe bound)
  | .startAttempt ref budget lease => do
      let claimed ← Journal.startAttempt ref budget lease
      return .attempt claimed.1 claimed.2
  | .markInDoubt ref error owner => do
      Journal.markInDoubt ref error owner
      return .nothing
  | .markObservation ref outcome => do
      Journal.markObservation ref outcome
      return .nothing
  | .scheduleRetry ref attempt budget => do
      return .scheduled (← Journal.scheduleRetry ref attempt budget)
  | .commit ref result owner => do
      Journal.commit ref result owner
      return .nothing
  | .observe ref => do return .outcome (← Journal.observe ref)

/-- The state of the journal and of every process. -/
abbrev Configuration (V : Type) :=
  Config (Stmt V) Stmt.Ans OperationError (Returned V) (Shared V)

/-- No row yet; process `p` is about to make the call `calls p`. -/
def start (calls : Nat → Call V) : Configuration V where
  shared := ⟨none, []⟩
  procs p := .running (calls p).prog

/-- One move of the journal system. -/
abbrev step (V : Type) :
    Configuration V → Move (Input V) → Configuration V :=
  (system V).step

end Commit

section Schedules

/-- The reference of the first publication of a cell. -/
def publishRef : OperationRef where
  cellId := "cell_0769b1604171d921fa6d6ffa"
  epoch := 1
  kind := "github_publish"
  key := "publish:1"

/-- Every process publishes, under a budget of one attempt. -/
def publishOnce (_p : Nat) : Call Nat :=
  .execute
    { ref := publishRef
      replaySafe := some true
      reconciles := true
      budget := some { maxAttempts := 1 } }

/-- `n` moves of process `p` in which the environment does nothing special. -/
def plain (p n : Nat) : List (Move (Input V)) :=
  List.replicate n (.run p {})

end Schedules

end Journal
end SwFactory
