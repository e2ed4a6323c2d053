import SwFactory.Machine.Runs
import SwFactory.Machine.Durable
import SwFactory.Machine.Interaction
import SwFactory.Machine.Fallible
import SwFactory.Spending.Ledger

/-!
# Agent calls, and the processes of a run

`seed_budget`, `_agent`, the budget clause of `fork_decision` and the
reconciliation of a call as programs.  A statement reads the ledger or the
stage log, appends a row, or asks the sandbox, the provider or an operator.
What a call checks apart from the budget is an answer of the environment.

A run is owned by one process at a time: a stage, or an operator that reconciles
a call.  A stage runs one job after the other; where it decided to fork, its
siblings call the agent side by side.  A process is killed with all its threads
and leaves the ledger, the stage log and what the provider bills.

Sources: `stages.py`, `call_accounting.py`, `fork_wave.py` (`fork_decision`),
`call_observations.py` (`reconcile_call`).
-/

namespace SwFactory
namespace Spending

open Machine

/-! ## Calls -/

/-- Why a call or a reconciliation is refused. -/
inductive Refusal
  | refused (message : String)
  | budgetExhausted
  | unresolvedAttempt
  | budgetExceeded
  | unknownCall (callId : String)
  | settledAlready (callId : String)
  | noUsage (callId : String)
deriving DecidableEq, Repr

/-- `max_budget_usd` and `max_budget_usd_per_stage` of the run. -/
structure Limits where
  maxBudget : Nat
  perStage : Nat

/-- What a context knows of the budget, and the kind of its agent and sandbox. -/
structure Ctx where
  spentUsd : Nat
  budgetSeeded : Bool
  external : Bool
  docker : Bool
  hardCap : Bool
deriving DecidableEq, Repr

/-- An observation of the outcome of a call. -/
inductive Outcome
  | committed (usage : Option Nat)
  | definitelyAbsent
  | other
deriving DecidableEq, Repr

/-- The usage that an observation settles a call with, if it settles it. -/
def Outcome.usage : Outcome → Option Nat
  | .committed usage => usage
  | .definitelyAbsent => some 0
  | .other => none

/-! ## Statements -/

inductive Stmt
  | ledger
  /-- the costs in the stage log -/
  | stageLog
  | append (row : Row)
  | reserve (stage : String) (iteration reservedUsd : Nat)
  /-- the checks of the call, and the recovery of the sandbox -/
  | checks
  | noStart (callId : String)
  | run (callId : String)
  | observe (callId : String)

abbrev Ans : Stmt → Type
  | .ledger => Ledger
  | .stageLog => Nat
  | .append _ => Unit
  | .reserve _ _ _ => String
  | .checks => Except Refusal Unit
  | .noStart _ => Except Refusal Bool
  | .run _ => Except Refusal (Option Nat)
  | .observe _ => Except Refusal Outcome

abbrev Method (α : Type) :=
  Prog Stmt Ans Refusal α

/-- Perform a statement. -/
def ask (stmt : Stmt) : Method (Ans stmt) :=
  Prog.perform stmt

/-- A statement that may fail. -/
def attempt {α : Type} (answer : Method (Except Refusal α)) : Method α := do
  Prog.ofExcept (← answer)

/-! ## The budget -/

/-- `persisted_cost`; an external agent reports what is observed in the ledger. -/
def persistedCost (ctx : Ctx) : Method Nat :=
  if ctx.external then do
    let floor ← ask .ledger
    let rows ← ask .ledger
    return (floorUsd floor).getD 0 + ((records rows).map (fun r => r.costUsd.getD 0)).sum
  else
    ask .stageLog

/-- `adopt_floor` -/
def adoptFloor (usd : Nat) : Method Nat := do
  let rows ← ask .ledger
  match floorUsd rows with
  | some existing => return existing
  | none =>
      ask (.append (.floor usd))
      return usd

/-- The floor of the run, adopted on the first contact with its ledger. -/
def adoptedFloor (ctx : Ctx) : Method Nat := do
  let rows ← ask .ledger
  match floorUsd rows with
  | some floor => return floor
  | none =>
      let rows ← ask .ledger
      if records rows = [] then do
        let cost ← persistedCost ctx
        adoptFloor cost
      else
        adoptFloor 0

/-- `_persisted_spend` -/
def persistedSpend (ctx : Ctx) : Method Nat := do
  let floor ← adoptedFloor ctx
  let rows ← ask .ledger
  return floor + chargedUsd rows

/-- `seed_budget(ctx, refresh=True)`: the context with what is spent. -/
def seedBudget (ctx : Ctx) : Method Ctx := do
  let persisted ← persistedSpend ctx
  if !ctx.budgetSeeded then
    return { ctx with spentUsd := ctx.spentUsd + persisted, budgetSeeded := true }
  else if ctx.external then
    return { ctx with spentUsd := persisted }
  else
    return { ctx with spentUsd := max ctx.spentUsd persisted }

/-! ## Reconciliation -/

/-- `reconcile`: one observation of the real outcome of a call. -/
def reconcile (callId : String) (outcome : Outcome) : Method Unit := do
  let rows ← ask .ledger
  match findRecord rows callId with
  | none => .raise (.unknownCall callId)
  | some record =>
      if record.costUsd.isSome then
        .raise (.settledAlready callId)
      else if outcome = .committed none then
        .raise (.noUsage callId)
      else
        ask (.append (.call { record with costUsd := outcome.usage }))

/-- The loop over the calls that an interrupted process left behind. -/
def recoverEach : List CallRow → Method Unit
  | [] => return ()
  | record :: rest => do
      let absent ← attempt (ask (.noStart record.callId))
      if absent then do
        reconcile record.callId .definitelyAbsent
        recoverEach rest
      else
        recoverEach rest

/-- What an external agent in Docker does first. -/
def recoverExternal (ctx : Ctx) : Method Unit :=
  if ctx.external && ctx.docker then do
    attempt (ask .checks)
    let rows ← ask .ledger
    recoverEach (unreconciled rows)
  else
    return ()

/-! ## Calls -/

/-- A paid attempt of the same stage and iteration that nobody has observed. -/
def unresolved (rows : Ledger) (stage : String) (iteration : Nat) : Bool :=
  (unreconciled rows).any (fun r => r.stage == stage && r.iteration == iteration)

def requireResolved (ctx : Ctx) (stage : String) (iteration : Nat) : Method Unit :=
  if ctx.external && ctx.hardCap then do
    let rows ← ask .ledger
    if unresolved rows stage iteration then
      .raise .unresolvedAttempt
    else
      return ()
  else
    return ()

/-- The provider raised: its ledger is unknown unless the call never started. -/
def lostCall (ctx : Ctx) (row : CallRow) (error : Refusal) : Method Nat :=
  if ctx.external && ctx.docker then do
    let absent ← attempt (ask (.noStart row.callId))
    if absent then do
      reconcile row.callId .definitelyAbsent
      .raise error
    else do
      ask (.append (.call row))
      .raise error
  else do
    ask (.append (.call row))
    .raise error

/-- The call behind its reservation, and what it adds to the context's spend. -/
def paidCall (ctx : Ctx) (row : CallRow) : Method Nat := do
  match ← ask (.run row.callId) with
  | .error error => lostCall ctx row error
  | .ok none =>
      -- `mark_unknown`: an external agent does not bill itself
      ask (.append (.call row))
      return 0
  | .ok (some cost) =>
      ask (.append (.call { row with costUsd := some cost }))
      return cost

variable (limits : Limits)

/-- `_agent`, as far as it is about money. -/
def agent (ctx : Ctx) (stage : String) (iteration : Nat) : Method Unit := do
  recoverExternal ctx
  let ctx ← seedBudget ctx
  if limits.maxBudget ≤ ctx.spentUsd then
    .raise .budgetExhausted
  else do
    let granted := min limits.perStage (limits.maxBudget - ctx.spentUsd)
    attempt (ask .checks)
    requireResolved ctx stage iteration
    let callId ← ask (.reserve stage iteration granted)
    let cost ← paidCall ctx ⟨callId, stage, iteration, granted, none⟩
    attempt (ask .checks)
    if limits.maxBudget < ctx.spentUsd + cost then
      .raise .budgetExceeded
    else
      return ()

/--
`fork_decision` for `pending` siblings; `otherwise` stands for its clauses that
are not about the budget.
-/
def forkDecision (ctx : Ctx) (pending : Nat) (otherwise : Bool) :
    Method (Option Ctx) :=
  if pending < 2 || !otherwise || ctx.external then
    return none
  else do
    let ctx ← seedBudget ctx
    if limits.maxBudget < ctx.spentUsd + pending * limits.perStage then
      return none
    else
      return some ctx

/-! ## Jobs -/

/-- What a process does while it owns the run. -/
inductive Job
  /-- the wrapper of every stage -/
  | seed (ctx : Ctx)
  | call (ctx : Ctx) (stage : String) (iteration : Nat)
  | fork (ctx : Ctx) (pending : Nat) (otherwise : Bool)
  /-- an operator's observation of a call -/
  | reconcile (callId : String)

/-- How a job ends; a decision to fork carries the context and its siblings. -/
inductive Reply
  | done
  | forks (ctx : Ctx) (pending : Nat)

def Job.prog : Job → Method Reply
  | .seed ctx => do
      let _ ← seedBudget ctx
      return .done
  | .call ctx stage iteration => do
      agent limits ctx stage iteration
      return .done
  | .fork ctx pending otherwise => do
      match ← forkDecision limits ctx pending otherwise with
      | none => return .done
      | some ctx => return .forks ctx pending
  | .reconcile callId => do
      let outcome ← attempt (ask (.observe callId))
      Spending.reconcile callId outcome
      return .done

/-! ## Processes -/

/-- The durable records, and what the provider has billed. -/
structure Books where
  ledger : Ledger
  stageLog : Nat
  bill : String → Nat
  /-- the bill of the call is final -/
  closed : String → Bool
  billed : Nat

/-- A run that spent `preLedger` before it met its ledger. -/
def Books.initial (preLedger : Nat) : Books where
  ledger := []
  stageLog := preLedger
  bill := fun _ => 0
  closed := fun _ => false
  billed := 0

structure Session where
  books : Books
  /-- the agent of the present job is external -/
  external : Bool
  threads : List (Method Reply)

/-- What the environment contributes to a statement. -/
structure Input where
  checks : Except Refusal Unit := .ok ()
  noStart : Except Refusal Bool := .ok false
  callId : String := ""
  answer : Except Refusal (Option Nat) := .ok none
  outcome : Outcome := .other
deriving DecidableEq

/-- The calls whose bill an answer of the statement makes final. -/
def settles (stmt : Stmt) (i : Input) : Option (String × Nat) :=
  match stmt with
  | .noStart callId => if i.noStart = .ok true then some (callId, 0) else none
  | .run callId =>
      match i.answer with
      | .ok (some cost) => some (callId, cost)
      | _ => none
  | .observe callId => i.outcome.usage.map (fun usage => (callId, usage))
  | _ => none

/-- The call is final. -/
def Books.close (b : Books) : Option (String × Nat) → Books
  | none => b
  | some (callId, _) => { b with closed := Function.update b.closed callId true }

def exec (stmt : Stmt) (i : Input) (b : Books) : Ans stmt × Books :=
  match stmt with
  | .ledger => (b.ledger, b)
  | .stageLog => (b.stageLog, b)
  | .append row => ((), { b with ledger := b.ledger ++ [row] })
  | .reserve stage iteration reservedUsd =>
      (i.callId,
        { b with
          ledger := b.ledger ++ [.call ⟨i.callId, stage, iteration, reservedUsd, none⟩] })
  | .checks => (i.checks, b)
  | .noStart callId => (i.noStart, b.close (settles (.noStart callId) i))
  | .run callId => (i.answer, b.close (settles (.run callId) i))
  | .observe callId => (i.outcome |> .ok, b.close (settles (.observe callId) i))

/-- What happens next to the run. -/
inductive Move
  /-- a process that owns the run takes up a job -/
  | start (job : Job)
  /-- the siblings of a fork wave, each with the iteration of its call -/
  | spawn (iterations : List Nat)
  | run (thread : Nat) (input : Input)
  | kill
  | bill (callId : String) (amount : Nat)
  /-- a stage that was seeded is logged with its cost -/
  | logged (cost : Nat)

/-- The thread has ended. -/
def ended : Method Reply → Bool
  | .step _ _ => false
  | _ => true

def Job.ctx? : Job → Option Ctx
  | .seed ctx => some ctx
  | .call ctx _ _ => some ctx
  | .fork ctx _ _ => some ctx
  | .reconcile _ => none

def Job.external (job : Job) : Bool :=
  job.ctx?.any Ctx.external

def step (limits : Limits) (s : Session) : Move → Session
  | .start job =>
      if s.threads.all ended then
        { s with external := job.external, threads := [job.prog limits] }
      else
        s
  | .spawn iterations =>
      match s.threads with
      | [.ret (.forks ctx pending)] =>
          if iterations.length ≤ pending then
            { s with threads := iterations.map (fun n => (Job.call ctx "build" n).prog limits) }
          else
            s
      | _ => s
  | .run thread input =>
      let out := runThread exec thread input s.threads s.books
      { s with books := out.2, threads := out.1 }
  | .kill => { s with threads := [] }
  | .bill callId amount =>
      { s with books :=
        { s.books with
          bill := Function.update s.books.bill callId (s.books.bill callId + amount)
          billed := s.books.billed + amount } }
  | .logged cost =>
      if (floorUsd s.books.ledger).isSome then
        { s with books := { s.books with stageLog := s.books.stageLog + cost } }
      else
        s

/-! ## The world the run is in -/

/-- Call ids are never drawn twice, and answers tell the final bill. -/
def HonestAnswer (b : Books) (stmt : Stmt) (i : Input) : Prop :=
  (∀ stage iteration reservedUsd, stmt = .reserve stage iteration reservedUsd →
    i.callId ∉ (records b.ledger).map CallRow.callId) ∧
  ∀ callId cost, settles stmt i = some (callId, cost) → cost = b.bill callId

/-- The provider bills a call that is open, up to what it was granted. -/
def Honest (s : Session) : Move → Prop
  | .run thread input =>
      ∀ stmt k, s.threads[thread]? = some (.step stmt k) → HonestAnswer s.books stmt input
  | .bill callId amount =>
      s.books.closed callId = false ∧
        ∃ record ∈ records s.books.ledger, record.callId = callId ∧
          s.books.bill callId + amount ≤ record.reservedUsd
  | _ => True

/-- The process that adopts the floor of a run with earlier cost is not external. -/
def Adopts (s : Session) : Move → Prop
  | .run thread _ =>
      ∀ usd k, s.threads[thread]? = some (.step (.append (.floor usd)) k) →
        s.books.stageLog ≠ 0 → s.external = false
  | _ => True

instance (b : Books) (stmt : Stmt) (i : Input) : Decidable (HonestAnswer b stmt i) :=
  have : Decidable (∀ stage iteration reservedUsd, stmt = .reserve stage iteration reservedUsd →
      i.callId ∉ (records b.ledger).map CallRow.callId) :=
    match stmt with
    | .reserve stage iteration reservedUsd =>
        decidable_of_iff (i.callId ∉ (records b.ledger).map CallRow.callId)
          ⟨fun h _ _ _ _ => h, fun h => h stage iteration reservedUsd rfl⟩
    | .ledger | .stageLog | .append _ | .checks | .noStart _ | .run _ | .observe _ =>
        isTrue (by rintro _ _ _ ⟨⟩)
  have : Decidable (∀ callId cost, settles stmt i = some (callId, cost) →
      cost = b.bill callId) :=
    match h : settles stmt i with
    | none => isTrue (by rintro _ _ ⟨⟩)
    | some (callId, cost) =>
        decidable_of_iff (cost = b.bill callId)
          ⟨by rintro hcost _ _ ⟨⟩; exact hcost, fun hall => hall callId cost rfl⟩
  inferInstanceAs (Decidable (_ ∧ _))

instance (s : Session) : (m : Move) → Decidable (Honest s m)
  | .run thread input =>
      match h : s.threads[thread]? with
      | some (.step stmt k) =>
          decidable_of_iff (HonestAnswer s.books stmt input)
            ⟨by
              intro hhonest stmt' k' h'
              cases h.symm.trans h'
              exact hhonest,
            fun hall => hall stmt k h⟩
      | some (.ret _) => isTrue (by rintro _ _ h'; cases h.symm.trans h')
      | some (.raise _) => isTrue (by rintro _ _ h'; cases h.symm.trans h')
      | none => isTrue (by rintro _ _ h'; cases h.symm.trans h')
  | .bill callId amount =>
      inferInstanceAs (Decidable (_ ∧ ∃ record ∈ records s.books.ledger, _ ∧ _))
  | .start _ | .spawn _ | .kill | .logged _ => inferInstanceAs (Decidable True)

instance (s : Session) : (m : Move) → Decidable (Adopts s m)
  | .run thread _ =>
      match h : s.threads[thread]? with
      | some (.step (.append (.floor usd)) k) =>
          decidable_of_iff (s.books.stageLog ≠ 0 → s.external = false)
            ⟨fun hadopts _ _ _ => hadopts, fun hall => hall usd k h⟩
      | none => isTrue (by rintro _ _ h'; cases h.symm.trans h')
      | some (.ret _) | some (.raise _) | some (.step (.append (.call _)) _)
      | some (.step .ledger _) | some (.step .stageLog _) | some (.step (.reserve _ _ _) _)
      | some (.step .checks _) | some (.step (.noStart _) _) | some (.step (.run _) _)
      | some (.step (.observe _) _) =>
          isTrue (by rintro _ _ h'; cases h.symm.trans h')
  | .start _ | .spawn _ | .kill | .bill _ _ | .logged _ =>
      inferInstanceAs (Decidable True)

def begin (preLedger : Nat) : Session :=
  ⟨.initial preLedger, false, []⟩

/-- The session after the moves. -/
abbrev after (limits : Limits) (preLedger : Nat) (moves : List Move) : Session :=
  runFrom (step limits) (begin preLedger) moves

/-! ## The ceiling -/

/--
What was spent is charged, and what is charged stays within the ceiling; the
reservation of a call is given back for its final bill only.
-/
structure Within (limits : Limits) (preLedger : Nat) (b : Books) : Prop where
  unadopted : floorUsd b.ledger = none → b.billed = 0 ∧ records b.ledger = []
  charged : ∀ floor, floorUsd b.ledger = some floor →
    preLedger + b.billed ≤ floor + chargedUsd b.ledger
  ceiling : ∀ floor, floorUsd b.ledger = some floor →
    floor + chargedUsd b.ledger ≤ limits.maxBudget
  released : ∀ record ∈ records b.ledger, record.charge ≠ record.reservedUsd →
    b.closed record.callId = true ∧ record.charge = b.bill record.callId

/-- The floor stays, and no call or reservation is forgotten. -/
structure Retains (b b' : Books) : Prop where
  floor : ∀ floor, floorUsd b.ledger = some floor → floorUsd b'.ledger = some floor
  calls : ∀ record ∈ records b.ledger, ∃ record' ∈ records b'.ledger,
    record'.callId = record.callId ∧ record'.reservedUsd = record.reservedUsd

end Spending
end SwFactory
