import SwFactory.Machine.Knowledge
import SwFactory.Journal.Effects

/-!
# The operation journal: recovery decisions

`plan_recovery` of `operation_recovery.py` decides from one stored row and the
current epoch of its Cell what a reconciler may do.  It infers the history of
the operation from the columns that the journal methods left behind.

The history itself is kept beside the configuration: a mark for every attempt
that was started and for every observation that was recorded.  The row tells
that history through its state: `reconciling` says that the latest mark is the
stored observation, `intent` behind an attempt that the latest mark is the
start of one.
-/

namespace SwFactory
namespace Journal

open Text Machine

variable {V : Type}

/-- `RecoveryAction`. -/
inductive RecoveryAction
  | committed
  | observe
  | retry
  | wait
  | refuse
  | dead
deriving DecidableEq, Repr

/-- `RecoveryDecision`; a row of the journal has no recovery target. -/
structure RecoveryDecision where
  operationKey : String
  action : RecoveryAction
  reason : String
  retryAt : Option Time := none
deriving DecidableEq, Repr

/-- `observation.get("status")` of a stored row. -/
def Row.observed (row : Row V) : Option OutcomeStatus :=
  match row.observation with
  | some (.observation status _ _) => some status
  | _ => none

/-- The bound `plan_recovery` holds the attempts against. -/
def Row.attemptBound (row : Row V) : Nat :=
  row.maxAttempts.getD (budgetFor row.kind).maxAttempts

/-- `plan_recovery`; `none` is its `ValueError` for a row without key. -/
def planRecovery
    (key : String) (row : Row V) (currentEpoch : Int) (clock : Time) :
    Option RecoveryDecision :=
  let key := strip key
  if key = "" then none
  else if row.epoch < 1 then some ⟨key, .dead, "invalid_epoch", none⟩
  else if (row.epoch : Int) ≠ currentEpoch then
    some ⟨key, .refuse, "stale_epoch", none⟩
  else if row.state = .committed then
    some ⟨key, .committed, "already_committed", none⟩
  else if row.state = .refused then some ⟨key, .dead, "refused", none⟩
  else if row.state = .exhausted then some ⟨key, .dead, "exhausted", none⟩
  else if row.nextAttemptAt.any (clock < ·) then
    some ⟨key, .wait, "backoff", row.nextAttemptAt⟩
  else if row.attemptBound ≤ row.attempts then
    some ⟨key, .dead, "retry_budget_exhausted", none⟩
  else if row.state = .inDoubt ∨ row.observed = some .ambiguous then
    some ⟨key, .observe, "must_observe_before_retry", none⟩
  else if 0 < row.attempts ∧ row.observed = some .definitelyAbsent ∧
      row.replaySafe ≠ some true then
    some ⟨key, .refuse, "replay_not_safe", none⟩
  else if 0 < row.attempts ∧ row.observed ≠ some .definitelyAbsent then
    some ⟨key, .observe, "must_observe_before_retry", none⟩
  else some ⟨key, .retry, "retryable_pending_operation", none⟩

/-- A row the planner does not turn away: keyed, current, due and in budget. -/
structure Eligible
    (key : String) (row : Row V) (currentEpoch : Int) (clock : Time) :
    Prop where
  keyed : strip key ≠ ""
  epoch : 1 ≤ row.epoch
  current : (row.epoch : Int) = currentEpoch
  due : row.nextAttemptAt.any (clock < ·) = false
  budget : row.attempts < row.attemptBound

/-- The decision is to retry. -/
def Retries (decision : Option RecoveryDecision) : Prop :=
  ∃ d, decision = some d ∧ d.action = .retry

theorem retries_ite {p : Prop} [Decidable p] {x y : Option RecoveryDecision}
    (hx : ¬Retries x) : Retries (if p then x else y) ↔ ¬p ∧ Retries y := by
  by_cases hp : p
  · simp [hp, hx]
  · simp [hp]

theorem not_retries {d : RecoveryDecision} (h : d.action ≠ .retry) :
    ¬Retries (some d) := by
  rintro ⟨_, ⟨⟩, hd⟩
  exact h hd

theorem not_retries_none : ¬Retries none := by
  rintro ⟨_, ⟨⟩, _⟩

/-- **When the planner answers `RETRY`.** -/
theorem planRecovery_retries_iff
    (key : String) (row : Row V) (currentEpoch : Int) (clock : Time) :
    Retries (planRecovery key row currentEpoch clock) ↔
      Eligible key row currentEpoch clock ∧
        (row.state = .intent ∨ row.state = .reconciling) ∧
          row.observed ≠ some .ambiguous ∧
            (0 < row.attempts →
              row.observed = some .definitelyAbsent ∧ row.replaySafe = some true) := by
  have hlast : Retries
      (some ⟨strip key, .retry, "retryable_pending_operation", none⟩) :=
    ⟨_, rfl, rfl⟩
  unfold planRecovery
  dsimp only
  -- one guard of the source after the other, in its order
  rw [retries_ite not_retries_none, retries_ite, retries_ite, retries_ite,
    retries_ite, retries_ite, retries_ite, retries_ite, retries_ite,
    retries_ite, retries_ite]
  all_goals try exact not_retries (by simp)
  constructor
  · rintro ⟨hkey, hepoch, hcurrent, hcommitted, hrefused, hexhausted, hdue,
      hbudget, hdoubt, hsafe, habsent, -⟩
    rw [not_or] at hdoubt
    refine ⟨⟨hkey, by omega, not_not.mp hcurrent, by simpa using hdue, by omega⟩,
      ?_, hdoubt.2, ?_⟩
    · cases hstate : row.state with
      | intent => exact Or.inl rfl
      | reconciling => exact Or.inr rfl
      | inDoubt => exact absurd hstate hdoubt.1
      | committed => exact absurd hstate hcommitted
      | exhausted => exact absurd hstate hexhausted
      | refused => exact absurd hstate hrefused
    · intro hstarted
      have hobserved : row.observed = some .definitelyAbsent :=
        not_not.mp (fun h => habsent ⟨hstarted, h⟩)
      exact ⟨hobserved, not_not.mp (fun h => hsafe ⟨hstarted, hobserved, h⟩)⟩
  · rintro ⟨⟨hkey, hepoch, hcurrent, hdue, hbudget⟩, hstate, hambiguous, hstarted⟩
    have hstates : row.state ≠ .committed ∧ row.state ≠ .refused ∧
        row.state ≠ .exhausted ∧ row.state ≠ .inDoubt := by
      rcases hstate with h | h <;> simp [h]
    obtain ⟨hcommitted, hrefused, hexhausted, hdoubt⟩ := hstates
    exact ⟨hkey, by omega, not_not.mpr hcurrent, hcommitted, hrefused, hexhausted,
      by simp [hdue], by omega, not_or.mpr ⟨hdoubt, hambiguous⟩,
      fun h => h.2.2 (hstarted h.1).2, fun h => h.2 (hstarted h.1).1, hlast⟩

section History

/-- What the history of an operation consists of. -/
inductive Mark
  /-- `start_attempt` took the attempt. -/
  | started
  /-- `mark_observation` recorded an observation. -/
  | observed (status : OutcomeStatus)
deriving DecidableEq, Repr

/-- What a statement adds to the history. -/
def Stmt.marks (s : Stmt V) (stored : Option (Row V)) : List Mark :=
  match s with
  | .claim _ _ _ _ => if stored.any claimGuard then [.started] else []
  | .markObservation outcome _ =>
      if stored.any (ownedGuard none) then [.observed outcome.status] else []
  | _ => []

/-- What a move adds to the history. -/
def moveMarks (c : Configuration V) : Move (Input V) → List Mark
  | .run p _ =>
      match c.procs p with
      | .running (.step s _) => s.marks c.shared.row
      | _ => []
  | .crash _ => []

/-- One move of the journal, with the history it makes, latest first. -/
def markedStep (c : Configuration V × List Mark) (m : Move (Input V)) :
    Configuration V × List Mark :=
  (step V c.1 m, moveMarks c.1 m ++ c.2)

/-- A claim carries a positive attempt number. -/
def Numbered (s : Stmt V) : Prop :=
  ∀ attempt owner leaseUntil now, s = .claim attempt owner leaseUntil now →
    0 < attempt

/-- What the row says about the history. -/
structure TellsHistory (stored : Option (Row V)) (history : List Mark) : Prop where
  unborn : stored = none → history = []
  counter : ∀ row, stored = some row →
    (row.attempts = 0 ↔ .started ∉ history)
  running : ∀ row, stored = some row → row.state = .intent → 0 < row.attempts →
    history.head? = some .started
  observed : ∀ row, stored = some row → row.state = .reconciling →
    ∃ status, history.head? = some (.observed status) ∧ row.observed = some status

theorem TellsHistory.initial : TellsHistory (none : Option (Row V)) [] := by
  constructor
  · intro _
    rfl
  all_goals rintro row ⟨⟩

/-- Changes of other columns keep the story. -/
theorem TellsHistory.congr {row row' : Row V} {history : List Mark}
    (h : TellsHistory (some row) history)
    (hattempts : row'.attempts = row.attempts)
    (hstate : row'.state = row.state ∨
      (row'.state ≠ .intent ∧ row'.state ≠ .reconciling))
    (hobserved : row'.observation = row.observation) :
    TellsHistory (some row') history := by
  constructor
  · rintro ⟨⟩
  · rintro _ ⟨⟩
    rw [hattempts]
    exact h.counter row rfl
  · rintro _ ⟨⟩ hintent hstarted
    rcases hstate with hsame | ⟨hother, -⟩
    · exact h.running row rfl (hsame.symm.trans hintent) (hattempts ▸ hstarted)
    · exact absurd hintent hother
  · rintro _ ⟨⟩ hreconciling
    rcases hstate with hsame | ⟨-, hother⟩
    · obtain ⟨status, hhead, hstatus⟩ :=
        h.observed row rfl (hsame.symm.trans hreconciling)
      refine ⟨status, hhead, ?_⟩
      unfold Row.observed at hstatus ⊢
      rw [hobserved]
      exact hstatus
    · exact absurd hreconciling hother

/-- An update that keeps the story of every row it changes. -/
theorem TellsHistory.updateWhere {stored : Option (Row V)} {history : List Mark}
    (h : TellsHistory stored history)
    {guard : Row V → Bool} {f : Row V → Row V}
    (hattempts : ∀ row, (f row).attempts = row.attempts)
    (hstate : ∀ row, (f row).state = row.state ∨
      ((f row).state ≠ .intent ∧ (f row).state ≠ .reconciling))
    (hobserved : ∀ row, (f row).observation = row.observation) :
    TellsHistory (updateWhere guard f stored) history := by
  cases stored with
  | none => exact h
  | some row =>
      rw [updateWhere_some]
      split
      · exact h.congr (hattempts row) (hstate row) (hobserved row)
      · exact h

/-- A successful `begin` keeps the story, or starts it. -/
theorem TellsHistory.bindPolicy {stored : Option (Row V)} {history : List Mark}
    (h : TellsHistory stored history) (args : Intent) :
    TellsHistory (some (args.bindPolicy (stored.getD args.fresh))) history := by
  have hstored : TellsHistory (some (stored.getD args.fresh)) history := by
    cases stored with
    | some row => exact h
    | none =>
        rw [h.unborn rfl]
        constructor
        · rintro ⟨⟩
        · rintro _ ⟨⟩
          simp [Intent.fresh]
        · rintro _ ⟨⟩ _ hstarted
          simp [Intent.fresh] at hstarted
        · rintro _ ⟨⟩ hreconciling
          simp [Intent.fresh] at hreconciling
  obtain ⟨digest, safe, bound, at_, hbound⟩ :=
    args.bindPolicy_spec (stored.getD args.fresh)
  rw [hbound]
  exact hstored.congr rfl (Or.inl rfl) rfl

/-- A claim is the latest mark. -/
theorem TellsHistory.claim {stored : Option (Row V)} {history : List Mark}
    (h : TellsHistory stored history)
    {attempt : Nat} (hattempt : 0 < attempt)
    (owner : Owner) (leaseUntil now : Time) :
    TellsHistory ((Stmt.claim attempt owner leaseUntil now).effect stored)
      ((Stmt.claim attempt owner leaseUntil now).marks stored ++ history) := by
  cases stored with
  | none => exact h
  | some row =>
      simp only [Stmt.effect, Stmt.marks, updateWhere_some, Option.any_some]
      split
      · constructor
        · rintro ⟨⟩
        · rintro _ ⟨⟩
          simp only [List.singleton_append, List.mem_cons, true_or, not_true_eq_false,
            iff_false]
          omega
        · rintro _ ⟨⟩ _ _
          rfl
        · rintro _ ⟨⟩ hreconciling
          cases hreconciling
      · exact h

/-- A recorded observation is the latest mark. -/
theorem TellsHistory.markObservation
    {stored : Option (Row V)} {history : List Mark}
    (h : TellsHistory stored history)
    (outcome : MutationOutcome V) (now : Time) :
    TellsHistory ((Stmt.markObservation outcome now).effect stored)
      ((Stmt.markObservation outcome now).marks stored ++ history) := by
  cases stored with
  | none => exact h
  | some row =>
      simp only [Stmt.effect, Stmt.marks, updateWhere_some, Option.any_some]
      split
      · constructor
        · rintro ⟨⟩
        · rintro _ ⟨⟩
          rw [List.singleton_append, List.mem_cons]
          simpa using h.counter row rfl
        · rintro _ ⟨⟩ hintent
          dsimp only at hintent
          split at hintent
          · cases hintent
          · cases hintent
        · rintro _ ⟨⟩ _
          exact ⟨outcome.status, rfl, rfl⟩
      · exact h

/-- **Every statement keeps the story of the row.** -/
theorem TellsHistory.effect {stored : Option (Row V)} {history : List Mark}
    (h : TellsHistory stored history) {s : Stmt V} (hs : Numbered s) :
    TellsHistory (s.effect stored) (s.marks stored ++ history) := by
  cases s with
  | intent args =>
      rcases effect_intent_cases args stored with heq | heq
      · rw [heq]
        exact h
      · rw [heq]
        exact h.bindPolicy args
  | claim attempt owner leaseUntil now =>
      exact h.claim (hs attempt owner leaseUntil now rfl) owner leaseUntil now
  | markObservation outcome now => exact h.markObservation outcome now
  | expire incumbent now =>
      exact h.updateWhere (fun _ => rfl) (fun _ => Or.inr (by simp)) (fun _ => rfl)
  | exhaust now =>
      exact h.updateWhere (fun _ => rfl) (fun _ => Or.inr (by simp)) (fun _ => rfl)
  | markInDoubt detail owner now =>
      cases owner with
      | none =>
          exact h.updateWhere (fun _ => rfl) (fun _ => Or.inr (by simp))
            (fun _ => rfl)
      | some owner =>
          exact h.updateWhere (fun _ => rfl) (fun _ => Or.inr (by simp))
            (fun _ => rfl)
  | scheduleRetry at_ now =>
      exact h.updateWhere (fun _ => rfl) (fun _ => Or.inl rfl) (fun _ => rfl)
  | commit result owner now =>
      exact h.updateWhere (fun _ => rfl) (fun _ => Or.inr (by simp)) (fun _ => rfl)
  | time => exact h
  | uuid => exact h
  | delay budget attempt => exact h
  | select => exact h
  | fnStart => exact h
  | fnEnd => exact h
  | reconcile => exact h

end History

section Programs

/-- The method takes attempts under positive numbers only. -/
abbrev CountsUp {α : Type} (p : Method V α) : Prop :=
  Prog.Only Numbered p

/-- One statement that is no claim, and what follows it. -/
theorem countsUp_sql {α : Type} {s : Stmt V} {f : s.Ans → Method V α}
    (hs : s.takes = fun _ => false) (hf : ∀ a, CountsUp (f a)) :
    CountsUp (sql s >>= f) := by
  refine ⟨?_, hf⟩
  rintro attempt owner leaseUntil now rfl
  have hrow := congrFun hs (some (Intent.fresh ⟨⟨"", 0, "", ""⟩, none, none, none, 0⟩))
  cases hrow

theorem countsUp_last {s : Stmt V} (hs : s.takes = fun _ => false) :
    CountsUp (sql s) :=
  countsUp_sql hs fun _ => trivial

theorem countsUp_get (key : String) : CountsUp (get key : Method V (Row V)) := by
  refine countsUp_sql rfl (fun found => ?_)
  cases found <;> trivial

/-- Read the row, check whose it is, and go on. -/
theorem countsUp_guarded {α : Type} (ref : OperationRef) (digest : Option String)
    {f : Row V → Method V α} (hf : ∀ row, CountsUp (f row)) :
    CountsUp (do
      let row ← get ref.key
      Prog.ofExcept (assertIdentity ref row digest)
      f row) :=
  (countsUp_get ref.key).bind fun row =>
    Prog.Only.ofExcept.bind fun _ => hf row

theorem countsUp_markInDoubt (ref : OperationRef) (error : String)
    (owner : Option Owner) :
    CountsUp (markInDoubt ref error owner : Method V Unit) :=
  countsUp_guarded ref none fun _ =>
    countsUp_sql rfl fun _ => countsUp_last rfl

theorem countsUp_markObservation (ref : OperationRef)
    (outcome : MutationOutcome V) : CountsUp (markObservation ref outcome) :=
  countsUp_guarded ref none fun _ =>
    countsUp_sql rfl fun _ => countsUp_last rfl

theorem countsUp_scheduleRetry (ref : OperationRef) (attempt : Nat)
    (budget : Option RetryBudget) :
    CountsUp (scheduleRetry ref attempt budget : Method V Time) :=
  countsUp_sql rfl fun _ => countsUp_sql rfl fun _ =>
    countsUp_guarded ref none fun _ =>
      countsUp_sql rfl fun _ => countsUp_sql rfl fun _ => trivial

theorem countsUp_begin (ref : OperationRef) (digest : Option String)
    (safe : Option Bool) (bound : Option Nat) :
    CountsUp (begin ref digest safe bound : Method V OperationState) := by
  refine Prog.Only.ofExcept.bind fun _ => Prog.Only.ofExcept.bind fun _ => ?_
  split
  · trivial
  · refine countsUp_sql rfl fun now => countsUp_sql rfl fun answer => ?_
    exact Prog.Only.ofExcept.bind fun _ =>
      (countsUp_get ref.key).bind fun row => trivial

/-- The claim follows the attempt that was read. -/
theorem countsUp_startAttempt (ref : OperationRef) (budget : Option RetryBudget)
    (lease : Time) :
    CountsUp (startAttempt ref budget lease : Method V (Nat × Owner)) := by
  refine countsUp_sql rfl fun owner => countsUp_sql rfl fun now => ?_
  refine countsUp_guarded ref none fun row => ?_
  split
  · trivial
  · split
    · split
      · exact countsUp_sql rfl fun _ => trivial
      · trivial
    · split
      · exact countsUp_sql rfl fun _ => trivial
      · constructor
        · rintro attempt _ _ _ ⟨⟩
          exact Nat.succ_pos _
        · intro (rowcount : Nat)
          change CountsUp (if rowcount ≠ 1 then _ else _)
          split <;> trivial

variable [DecidableEq V]

theorem countsUp_commit (ref : OperationRef) (result : Option V)
    (owner : Option Owner) : CountsUp (commit ref result owner) := by
  refine countsUp_guarded ref none fun row => ?_
  split
  · split <;> trivial
  · split
    · trivial
    · refine countsUp_sql rfl fun now => countsUp_sql rfl fun out => ?_
      split
      · trivial
      · split
        · trivial
        · split <;> trivial

theorem countsUp_claimAndRun (args : ExecuteArgs) (budget : RetryBudget) :
    CountsUp (claimAndRun args budget : Method V (Option V)) := by
  refine (countsUp_startAttempt args.ref (some budget) defaultLease).bind
    fun claimed => countsUp_sql rfl fun _ => countsUp_sql rfl fun ended => ?_
  cases ended with
  | raised error =>
      exact (countsUp_markInDoubt _ _ _).bind fun _ =>
        (countsUp_scheduleRetry _ _ _).bind fun _ => trivial
  | returned result =>
      exact (countsUp_commit _ _ _).bind fun _ => trivial

theorem countsUp_observeThenRun (args : ExecuteArgs) (budget : RetryBudget)
    (replaySafe : Bool) (row : Row V) (shouldObserve : Bool) :
    CountsUp (observeThenRun args budget replaySafe row shouldObserve) := by
  unfold observeThenRun
  split
  · split
    · trivial
    · refine countsUp_sql rfl fun outcome => ?_
      refine (countsUp_markObservation args.ref outcome).bind fun _ => ?_
      split
      · exact (countsUp_commit _ _ _).bind fun _ => trivial
      · split
        · trivial
        · exact countsUp_claimAndRun args budget
  · exact countsUp_claimAndRun args budget

theorem countsUp_execute (args : ExecuteArgs) :
    CountsUp (execute args : Method V (Option V)) := by
  have hopen (budget : RetryBudget) :
      CountsUp (openIntent args budget : Method V (Bool × Row V)) := by
    refine countsUp_sql rfl fun found => ?_
    cases found with
    | none =>
        exact (countsUp_begin _ _ _ _).bind fun _ =>
          (countsUp_get _).bind fun _ => trivial
    | some row =>
        exact Prog.Only.ofExcept.bind fun _ =>
          (countsUp_begin _ _ _ _).bind fun _ =>
            (countsUp_get _).bind fun _ => trivial
  refine (hopen _).bind fun found => ?_
  obtain ⟨existed, row⟩ := found
  dsimp only
  split
  · trivial
  · refine countsUp_sql rfl fun now => ?_
    split
    · exact countsUp_observeThenRun args _ _ _ _
    · split
      · trivial
      · exact (countsUp_markInDoubt _ _ _).bind fun _ =>
          (countsUp_get _).bind fun _ => countsUp_observeThenRun args _ _ _ _

/-- **Every public method counts its attempts from one.** -/
theorem Call.countsUp (call : Call V) : CountsUp call.prog := by
  cases call with
  | execute args => exact (countsUp_execute args).bind fun _ => trivial
  | begin ref digest safe bound =>
      exact (countsUp_begin ref digest safe bound).bind fun _ => trivial
  | startAttempt ref budget lease =>
      exact (countsUp_startAttempt ref budget lease).bind fun _ => trivial
  | markInDoubt ref error owner =>
      exact (countsUp_markInDoubt ref error owner).bind fun _ => trivial
  | markObservation ref outcome =>
      exact (countsUp_markObservation ref outcome).bind fun _ => trivial
  | scheduleRetry ref attempt budget =>
      exact (countsUp_scheduleRetry ref attempt budget).bind fun _ => trivial
  | commit ref result owner =>
      exact (countsUp_commit ref result owner).bind fun _ => trivial
  | observe ref =>
      refine Prog.Only.bind ?_ fun _ => trivial
      refine countsUp_guarded ref none fun row => ?_
      split
      · trivial
      · refine countsUp_sql rfl fun outcome => ?_
        refine (countsUp_markObservation ref outcome).bind fun _ => ?_
        split
        · exact (countsUp_commit _ _ _).bind fun _ => trivial
        · trivial

end Programs

section Runs

/-- The row tells the history, and every process counts its attempts. -/
structure HistoryInv (c : Configuration V × List Mark) : Prop where
  tells : TellsHistory c.1.shared.row c.2
  procs : ∀ p prog, c.1.procs p = .running prog → CountsUp prog

theorem markedStep_inv {c : Configuration V × List Mark} (h : HistoryInv c)
    (m : Move (Input V)) : HistoryInv (markedStep c m) := by
  unfold markedStep
  rcases step_cases c.1 m with
    ⟨hended, heq⟩ | ⟨p, i, s, k, rfl, hp, heq⟩ | ⟨p, s, k, rfl, hp, heq⟩
  · have hmarks : moveMarks c.1 m = [] := by
      cases m with
      | crash p => rfl
      | run p i =>
          unfold moveMarks
          dsimp only
          split
          · rename_i hp
            exact absurd hp (hended _ _)
          · rfl
    rw [heq, hmarks]
    exact h
  · obtain ⟨hs, hk⟩ := h.procs p _ hp
    have hmarks : moveMarks c.1 (.run p i) = s.marks c.1.shared.row := by
      simp only [moveMarks, hp]
    rw [heq, hmarks]
    refine ⟨h.tells.effect hs, fun q prog hq => ?_⟩
    by_cases hqp : q = p
    · subst hqp
      simp only [Function.update_self, Proc.running.injEq] at hq
      exact hq ▸ hk _
    · simp only [Function.update_of_ne hqp] at hq
      exact h.procs q prog hq
  · rw [heq]
    refine ⟨h.tells, fun q prog hq => ?_⟩
    by_cases hqp : q = p
    · subst hqp
      simp at hq
    · simp only [Function.update_of_ne hqp] at hq
      exact h.procs q prog hq

variable [DecidableEq V]

/-- The journal and its history after the moves. -/
def marked (calls : Nat → Call V) (ms : List (Move (Input V))) :
    Configuration V × List Mark :=
  runFrom markedStep (start calls, []) ms

theorem marked_inv (calls : Nat → Call V) (ms : List (Move (Input V))) :
    HistoryInv (marked calls ms) := by
  have hinit : HistoryInv (start calls, []) := by
    refine ⟨TellsHistory.initial, ?_⟩
    rintro p prog ⟨⟩
    exact (calls p).countsUp
  exact Reachable.invariant hinit (fun c m hc => markedStep_inv hc m)
    (reachable_runFrom _ ms)

/--
Another attempt is no blind one: none was started, or the effect of the latest
was observed to be absent after it started, and the row may be replayed.
-/
def Justified (row : Row V) (history : List Mark) : Prop :=
  .started ∉ history ∨
    ∃ later earlier, history = later ++ .started :: earlier ∧
      .started ∉ later ∧ .observed .definitelyAbsent ∈ later ∧
        row.replaySafe = some true

/-- A `RETRY` is for a current row within its budget, and not a blind one. -/
def PlansSoundly (key : String) (row : Row V) (history : List Mark)
    (currentEpoch : Int) (clock : Time) : Prop :=
  Retries (planRecovery key row currentEpoch clock) →
    (row.epoch : Int) = currentEpoch ∧ row.attempts < row.attemptBound ∧
      Justified row history

/--
An attempt is under way or was cut off in the middle, and the row still stores
the absence that was observed before it.
-/
def StaleAbsence (row : Row V) : Prop :=
  row.state = .intent ∧ 0 < row.attempts ∧
    row.observed = some .definitelyAbsent ∧ row.replaySafe = some true

omit [DecidableEq V] in
/-- An attempt that is the latest mark justifies no other. -/
theorem not_justified_of_running {row : Row V} {history : List Mark}
    (h : history.head? = some .started) : ¬Justified row history := by
  obtain ⟨earlier, rfl⟩ := List.head?_eq_some_iff.mp h
  rintro (hnone | ⟨later, rest, hsplit, hlater, habsent, -⟩)
  · exact hnone List.mem_cons_self
  · cases later with
    | nil => cases habsent
    | cons first later =>
        obtain ⟨rfl, -⟩ := List.cons.inj hsplit
        exact hlater List.mem_cons_self

omit [DecidableEq V] in
/-- An absence that is the latest mark justifies another attempt. -/
theorem justified_of_absent {row : Row V} {history : List Mark}
    (h : history.head? = some (.observed .definitelyAbsent))
    (hsafe : row.replaySafe = some true) : Justified row history := by
  by_cases hstarted : .started ∈ history
  · right
    obtain ⟨later, earlier, rfl, hlater⟩ := List.eq_append_cons_of_mem hstarted
    refine ⟨later, earlier, rfl, hlater, ?_, hsafe⟩
    cases later with
    | nil => cases h
    | cons first later =>
        cases h
        exact List.mem_cons_self
  · exact Or.inl hstarted

/--
**No blind retry, unless an absence is stale.**  On every row that the journal
can store, for every epoch and clock, the planner retries soundly exactly when
it does not reach a row whose stored absence is older than its latest attempt.
-/
theorem plansSoundly_iff (calls : Nat → Call V) (ms : List (Move (Input V)))
    (key : String) (row : Row V)
    (hrow : (marked calls ms).1.shared.row = some row)
    (currentEpoch : Int) (clock : Time) :
    PlansSoundly key row (marked calls ms).2 currentEpoch clock ↔
      ¬(Eligible key row currentEpoch clock ∧ StaleAbsence row) := by
  have htells := (marked_inv calls ms).tells
  have hretries := planRecovery_retries_iff key row currentEpoch clock
  constructor
  · rintro hsound ⟨heligible, hstate, hstarted, habsent, hsafe⟩
    have hretry := hretries.mpr
      ⟨heligible, Or.inl hstate, by simp [habsent], fun _ => ⟨habsent, hsafe⟩⟩
    exact not_justified_of_running (htells.running row hrow hstate hstarted)
      (hsound hretry).2.2
  · intro hfresh hretry
    obtain ⟨heligible, hstate, -, hobserved⟩ := hretries.mp hretry
    refine ⟨heligible.current, heligible.budget, ?_⟩
    by_cases hnone : row.attempts = 0
    · exact Or.inl ((htells.counter row hrow).mp hnone)
    · have hstarted : 0 < row.attempts := Nat.pos_of_ne_zero hnone
      obtain ⟨habsent, hsafe⟩ := hobserved hstarted
      rcases hstate with hintent | hreconciling
      · exact absurd ⟨heligible, hintent, hstarted, habsent, hsafe⟩ hfresh
      · obtain ⟨status, hhead, hstatus⟩ := htells.observed row hrow hreconciling
        obtain rfl : status = .definitelyAbsent :=
          Option.some.inj (hstatus.symm.trans habsent)
        exact justified_of_absent hhead hsafe

section Samples

/-- Publish with an observation before the first attempt. -/
def observeFirst (_p : Nat) : Call Nat :=
  .execute
    { ref := publishRef
      replaySafe := some true
      reconciles := true
      observeBeforeFirstAttempt := true }

/-- Process 0 observes the absence, takes the attempt, and dies in it. -/
def diesInAttempt : List (Move (Input Nat)) :=
  plain 0 6 ++ [.run 0 { observed := ⟨.definitelyAbsent, none, none, none⟩ }] ++
    plain 0 8 ++ [.crash 0]

theorem plansSoundly_diesInAttempt :
    ∃ row, (marked observeFirst diesInAttempt).1.shared.row = some row ∧
      PlansSoundly "publish:1" row (marked observeFirst diesInAttempt).2 2 0 := by
  refine ⟨_, rfl, (plansSoundly_iff observeFirst diesInAttempt "publish:1" _ rfl
    2 0).mpr ?_⟩
  rintro ⟨heligible, -⟩
  exact absurd heligible.current (by decide)

/-- The absence is older than the attempt, and the planner answers `RETRY`. -/
theorem plansBlindly_diesInAttempt :
    ∃ row, (marked observeFirst diesInAttempt).1.shared.row = some row ∧
      ¬PlansSoundly "publish:1" row (marked observeFirst diesInAttempt).2 1 0 := by
  refine ⟨_, rfl, fun hsound => ?_⟩
  exact not_justified_of_running rfl (hsound ⟨_, rfl, rfl⟩).2.2

end Samples

end Runs

end Journal
end SwFactory
