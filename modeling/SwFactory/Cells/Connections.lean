import SwFactory.Machine.Transactions
import SwFactory.Cells.Store

/-!
# Factory Cells: connections

The methods of `CellStore` as programs of single SQL statements.  A connection
is opened with `isolation_level="IMMEDIATE"`: the first writing statement opens
the transaction, a `SELECT` in front of it does not, and `with self.db` commits
or rolls back behind its block.  The lock of a `CellStore` object orders only
the threads that share it, so every call is a connection of its own.

`Call.keeps` relates the two levels: whatever the other connections do, a
call that commits has performed the operation of the same name on the committed
store, in one step.
-/

namespace SwFactory
namespace Cells

open Text Machine

/-- The writing statements of a `CellStore`. -/
inductive Statement
  | insertIdentity (identity : CellIdentity) (now : Time)
  | activateRow
      (cellId : String) (epoch : Int) (state : CellState) (next : Int)
      (now : Time)
  | takeEpochRow (cellId : String) (expected : Int) (now : Time)
  | patchRow
      (cellId : String) (expected : Int) (fields : Fields) (now : Time)
  | insertEvent (m : Mutation) (now : Time)

/-- What a writing statement reports. -/
@[reducible] def Statement.Ans : Statement → Type
  | insertIdentity _ _ => Unit
  | activateRow _ _ _ _ _ => Nat
  | takeEpochRow _ _ _ => Nat
  | patchRow _ _ _ _ => Nat
  | insertEvent _ _ => Inserted

/-- The calls that leave the store. -/
inductive Outside
  /-- `time.time()` -/
  | time
  /-- `on_authority_revoked` -/
  | revoke (cellId : String) (epoch : Int) (reason : String)

/-- What such a call returns; a revocation may raise. -/
@[reducible] def Outside.Ans : Outside → Type
  | time => Time
  | revoke _ _ _ => Option String

/-- What the environment contributes to one step. -/
structure Input where
  now : Time := 0
  revocation : Option String := none

/-- A method of `CellStore` that returns an `α`. -/
abbrev Method (α : Type) :=
  Prog (Sql Statement Outside) (Sql.Ans Store Statement.Ans Outside.Ans)
    CellError α

namespace Method

/-- A writing statement; behind the timeout it raises. -/
def sql (w : Statement) : Method w.Ans := do
  let reported : Option w.Ans ← Prog.perform (Sql.write w)
  match reported with
  | none => .raise .locked
  | some a => .ret a

/-- `time.time()`. -/
def time : Method Time :=
  Prog.perform (Sql.call Outside.time)

/-- `on_authority_revoked`. -/
def revoke (cellId : String) (epoch : Int) (reason : String) : Method Unit := do
  let raised : Option String ←
    Prog.perform (Sql.call (Outside.revoke cellId epoch reason))
  match raised with
  | some detail => .raise (.revocation detail)
  | none => .ret ()

/-- `get`. -/
def get (cellId : String) : Method Cell := do
  let s : Store ← Prog.perform Sql.read
  .ofExcept (Cells.get cellId s)

/-- `_append`. -/
def append (m : Mutation) : Method Unit := do
  let now ← time
  let inserted ← sql (.insertEvent m now)
  .ofExcept (checkInserted m inserted)

/-- The name of a state in the reason of a revocation. -/
def stateName : CellState → String
  | .created => "created"
  | .dispatching => "dispatching"
  | .queued => "queued"
  | .running => "running"
  | .success => "success"
  | .failed => "failed"
  | .cancelled => "cancelled"
  | .rejected => "rejected"
  | .cleaned => "cleaned"

/-- A new epoch revokes the old one. -/
def revokeEpoch (cellId : String) (current next : Int) : Method Unit :=
  if next ≠ current then revoke cellId current "epoch_advanced" else .ret ()

/-- A terminal state revokes the epoch it ends. -/
def revokeEnded
    (cellId : String) (expected : Int) (fields : Fields) : Method Unit :=
  match fields.state with
  | some state =>
      if state.isTerminal then
        revoke cellId expected ("cell_" ++ stateName state)
      else .ret ()
  | none => .ret ()

/-- `activate`. -/
def activate
    (stableId : CellIdentity → String)
    (identity : CellIdentity) (actor : String) : Method Cell := do
  let cellId := stableId identity
  let now ← time
  withDb do
    sql (.insertIdentity identity now)
    let current ← get cellId
    if !current.isFresh && !current.state.isTerminal then
      .raise (.cellBusy cellId current.epoch current.state)
    else do
      revokeEpoch cellId current.epoch current.nextEpoch
      let n ← sql (.activateRow cellId current.epoch current.state
        current.nextEpoch now)
      if n ≠ 1 then
        .raise (.staleEpoch cellId .activationLost)
      else do
        append (activation cellId current.nextEpoch actor)
        get cellId

/-- `take_epoch`. -/
def takeEpoch
    (cellId : String) (expected : Int) (actor : String) : Method Int := do
  let now ← time
  withDb do
    revoke cellId expected "epoch_advanced"
    let n ← sql (.takeEpochRow cellId expected now)
    if n ≠ 1 then
      .raise (.staleEpoch cellId (.expected expected))
    else do
      append (takeover cellId (expected + 1) actor)
      .ret (expected + 1)

/-- The block `with self.db` of `patch`. -/
def patchBody
    (cellId : String) (expected : Int) (operationKey : String)
    (fields : Fields) (now : Time) : Method Unit := do
  revokeEnded cellId expected fields
  append (patching cellId expected operationKey fields)
  if fields = {} then
    .ret ()
  else do
    let n ← sql (.patchRow cellId expected fields now)
    if n ≠ 1 then .raise (.staleEpoch cellId .moved)
    else .ret ()

/-- `patch`, from behind its check on. -/
def patchChecked
    (cellId : String) (expected : Int) (operationKey : String)
    (fields : Fields) : Method Cell := do
  let now ← time
  withDb (patchBody cellId expected operationKey fields now)
  get cellId

/-- `patch`. -/
def patch
    (cellId : String) (expected : Int) (operationKey : String)
    (fields : Fields) : Method Cell := do
  let row ← get cellId
  .ofExcept (checkEpoch expected row)
  patchChecked cellId expected operationKey fields

/-- `record`. -/
def record (m : Mutation) : Method Unit :=
  withDb (append m)

/-- `ensure`; the block of `patch` inside its own commits for both. -/
def ensure
    (stableId : CellIdentity → String)
    (identity : CellIdentity) (fields : Fields) : Method Cell := do
  let cellId := stableId identity
  let now ← time
  withDb do
    sql (.insertIdentity identity now)
    if fields = {} then
      get cellId
    else do
      let _ ← patch cellId 1 "ensure:init" fields
      get cellId

end Method

/-- The meaning of the statements. -/
def engine (stableId : CellIdentity → String) :
    Engine Store Input Statement.Ans Outside.Ans where
  apply
    | .insertIdentity identity now, s =>
        ((), s.insertIdentity stableId identity now)
    | .activateRow cellId epoch state next now, s =>
        s.activateRow cellId epoch state next now
    | .takeEpochRow cellId expected now, s =>
        s.takeEpochRow cellId expected now
    | .patchRow cellId expected fields now, s =>
        s.patchRow cellId expected fields now
    | .insertEvent m now, s => s.insertEvent m now
  answer
    | .time, input => input.now
    | .revoke _ _ _, input => input.revocation

/-- One call of a `CellStore` method. -/
inductive Call
  | ensure (identity : CellIdentity) (fields : Fields)
  | activate (identity : CellIdentity) (actor : String)
  | takeEpoch (cellId : String) (expected : Int) (actor : String)
  | patch
      (cellId : String) (expected : Int) (operationKey : String)
      (fields : Fields)
  | record (m : Mutation)

/-- What a call returns. -/
inductive Returned
  | cell (cell : Cell)
  | epoch (epoch : Int)
  | nothing

section Levels

variable (stableId : CellIdentity → String)

/-- The program of a call. -/
def Call.prog : Call → Method Returned
  | .ensure identity fields => do
      return .cell (← Method.ensure stableId identity fields)
  | .activate identity actor => do
      return .cell (← Method.activate stableId identity actor)
  | .takeEpoch cellId expected actor => do
      return .epoch (← Method.takeEpoch cellId expected actor)
  | .patch cellId expected operationKey fields => do
      return .cell (← Method.patch cellId expected operationKey fields)
  | .record m => do
      Method.record m
      return .nothing

/-- The operation of a call takes one store to the other. -/
def Call.Performs : Call → Store → Store → Prop
  | .ensure identity fields, s, s' =>
      ∃ now patchAt eventAt,
        ensureWrite stableId identity fields now patchAt eventAt s = .ok s'
  | .activate identity actor, s, s' =>
      ∃ now eventAt row,
        Cells.activate stableId identity actor now eventAt s = .ok (row, s')
  | .takeEpoch cellId expected actor, s, s' =>
      ∃ now eventAt epoch,
        Cells.takeEpoch cellId expected actor now eventAt s = .ok (epoch, s')
  | .patch cellId expected operationKey fields, s, s' =>
      ∃ now eventAt,
        patchWrite cellId expected operationKey fields now eventAt s = .ok s'
  | .record m, s, s' => ∃ now, Cells.append m now s = .ok s'

/-- An error that a call may raise behind its transaction. -/
def isLate (e : CellError) : Prop :=
  e.isRefusal = false

variable {stableId}
variable {Commits : Store → Store → Prop}
variable {α : Type} {Q : Phase Store → α → Prop}
variable {phase : Phase Store}

/-- A revocation is no business of the database. -/
theorem keeps_revoke {Q : Phase Store → Unit → Prop}
    {cellId reason : String} {epoch : Int}
    (h : Q phase ())
    (hopen : phase ≠ .after) :
    Keeps (engine stableId) Commits (Until isLate Q) phase
      (Method.revoke cellId epoch reason) := by
  cases phase with
  | after => exact absurd rfl hopen
  | before =>
      intro raised
      cases raised with
      | none => exact h
      | some detail => trivial
  | inside base draft =>
      intro raised
      cases raised with
      | none => exact h
      | some detail => trivial

theorem keeps_revokeEpoch {Q : Phase Store → Unit → Prop}
    {cellId : String} {current next : Int}
    (h : Q phase ())
    (hopen : phase ≠ .after) :
    Keeps (engine stableId) Commits (Until isLate Q) phase
      (Method.revokeEpoch cellId current next) := by
  unfold Method.revokeEpoch
  split
  · exact keeps_revoke h hopen
  · cases phase <;> exact h

theorem keeps_revokeEnded {Q : Phase Store → Unit → Prop}
    {cellId : String} {expected : Int} {fields : Fields}
    (h : Q phase ())
    (hopen : phase ≠ .after) :
    Keeps (engine stableId) Commits (Until isLate Q) phase
      (Method.revokeEnded cellId expected fields) := by
  unfold Method.revokeEnded
  split
  · split
    · exact keeps_revoke h hopen
    · cases phase <;> exact h
  · cases phase <;> exact h

/-- The first statement of a transaction. -/
theorem keeps_sql_before {w : Statement} {Q : Phase Store → w.Ans → Prop}
    (h : ∀ base, Q (.inside base ((engine stableId).apply w base).2)
      ((engine stableId).apply w base).1) :
    Keeps (engine stableId) Commits (Until isLate Q) .before
      (Method.sql w) :=
  ⟨trivial, h⟩

/-- A further statement of a transaction. -/
theorem keeps_sql_inside {w : Statement} {Q : Phase Store → w.Ans → Prop}
    {base draft : Store}
    (h : Q (.inside base ((engine stableId).apply w draft).2)
      ((engine stableId).apply w draft).1) :
    Keeps (engine stableId) Commits (Until isLate Q) (.inside base draft)
      (Method.sql w) :=
  h

/-- A check in front of the commit. -/
theorem keeps_ofExcept {x : Except CellError α}
    (hopen : phase ≠ .after)
    (h : ∀ a, x = .ok a → Q phase a) :
    Keeps (engine stableId) Commits (Until isLate Q) phase (.ofExcept x) := by
  cases x with
  | ok a => cases phase <;> exact h a rfl
  | error e =>
      cases phase with
      | after => exact absurd rfl hopen
      | before => trivial
      | inside base draft => trivial

/-- `_append` behind a draft. -/
theorem keeps_append_inside {Q : Phase Store → Unit → Prop} {m : Mutation}
    {base draft : Store}
    (h : ∀ now s, Cells.append m now draft = .ok s → Q (.inside base s) ()) :
    Keeps (engine stableId) Commits (Until isLate Q) (.inside base draft)
      (Method.append m) := by
  intro now
  refine keeps_ofExcept (by simp) (fun u hu => h now _ ?_)
  cases u
  simp only [Cells.append]
  rw [show checkInserted m (draft.insertEvent m now).1 = .ok () from hu]
  rfl

/-- `_append` that opens its transaction. -/
theorem keeps_append_before {Q : Phase Store → Unit → Prop} {m : Mutation}
    (h : ∀ base now s, Cells.append m now base = .ok s →
      Q (.inside base s) ()) :
    Keeps (engine stableId) Commits (Until isLate Q) .before
      (Method.append m) := by
  intro now
  refine ⟨trivial, fun base => ?_⟩
  refine keeps_ofExcept (by simp) (fun u hu => h base now _ ?_)
  cases u
  simp only [Cells.append]
  rw [show checkInserted m (base.insertEvent m now).1 = .ok () from hu]
  rfl

/-- `get` inside of a transaction. -/
theorem keeps_get_inside {Q : Phase Store → Cell → Prop} {cellId : String}
    {base draft : Store}
    (h : ∀ row, Cells.get cellId draft = .ok row →
      Q (.inside base draft) row) :
    Keeps (engine stableId) Commits (Until isLate Q) (.inside base draft)
      (Method.get cellId) := by
  have hopen : Phase.inside base draft ≠ .after := by simp
  exact keeps_ofExcept hopen h

/-- A block that ended is outside of every transaction. -/
theorem until_of_ends (phase : Phase Store) (result : Except CellError α)
    (h : Ends isLate phase result) :
    Until isLate (fun phase _ => ∀ base draft, phase ≠ .inside base draft)
      phase result := by
  cases phase with
  | inside base draft => exact h.elim
  | before =>
      cases result with
      | ok a => exact fun _ _ => by simp
      | error e => trivial
  | after =>
      cases result with
      | ok a => exact fun _ _ => by simp
      | error e => exact h

/-- `get` outside of a transaction: what it raises is no refusal. -/
theorem keeps_get {cellId : String} {phase : Phase Store}
    (hphase : ∀ base draft, phase ≠ .inside base draft) :
    Keeps (engine stableId) Commits (Ends isLate) phase
      (Method.get cellId) := by
  have hget : ∀ s : Store, ∀ e, Cells.get cellId s = .error e → isLate e := by
    intro s e he
    unfold Cells.get at he
    split at he
    · cases he
      rfl
    · cases he
  cases phase with
  | inside base draft => exact absurd rfl (hphase base draft)
  | before =>
      intro s
      show Keeps _ _ _ _ (Prog.ofExcept (Cells.get cellId s))
      cases Cells.get cellId s <;> trivial
  | after =>
      intro s
      show Keeps _ _ _ _ (Prog.ofExcept (Cells.get cellId s))
      cases hrow : Cells.get cellId s with
      | ok row => trivial
      | error e => exact hget s e hrow

/-- The block of `take_epoch` drafts the operation and reports its epoch. -/
theorem keeps_takeEpochBody (cellId : String) (expected : Int) (actor : String)
    (now : Time) :
    Keeps (engine stableId) Commits
      (Until isLate fun phase epoch => ∃ base draft,
        phase = .inside base draft ∧ ∃ eventAt,
          Cells.takeEpoch cellId expected actor now eventAt base =
            .ok (epoch, draft))
      .before (do
        Method.revoke cellId expected "epoch_advanced"
        let n ← Method.sql (.takeEpochRow cellId expected now)
        if n ≠ 1 then
          .raise (.staleEpoch cellId (.expected expected))
        else do
          Method.append (takeover cellId (expected + 1) actor)
          .ret (expected + 1)) := by
  refine (keeps_revoke (Q := fun phase _ => phase = .before) rfl (by simp)).bind
    ?_
  rintro _ - rfl
  refine (keeps_sql_before (Q := fun phase n => ∃ base,
    phase = .inside base (base.takeEpochRow cellId expected now).2 ∧
      n = (base.takeEpochRow cellId expected now).1)
    (fun base => ⟨base, rfl, rfl⟩)).bind ?_
  rintro _ n ⟨base, rfl, hn⟩
  split
  · trivial
  · rename_i hcount
    refine (keeps_append_inside (Q := fun phase _ => ∃ eventAt s,
      phase = .inside base s ∧
        Cells.append (takeover cellId (expected + 1) actor) eventAt
          (base.takeEpochRow cellId expected now).2 = .ok s)
      (fun eventAt s hs => ⟨eventAt, s, rfl, hs⟩)).bind ?_
    rintro _ - ⟨eventAt, s, rfl, hs⟩
    refine ⟨base, s, rfl, eventAt, ?_⟩
    subst hn
    simp only [Cells.takeEpoch, if_neg hcount, hs]
    rfl

theorem keeps_takeEpoch (cellId : String) (expected : Int) (actor : String) :
    Keeps (engine stableId)
      (Call.Performs stableId (.takeEpoch cellId expected actor))
      (Ends isLate) .before (Method.takeEpoch cellId expected actor) := by
  intro now
  refine Keeps.withDb ((keeps_takeEpochBody cellId expected actor now).mono
    fun _ _ => Until.mono ?_)
  rintro _ epoch ⟨base, draft, rfl, eventAt, hok⟩
  exact ⟨now, eventAt, epoch, hok⟩

/-- The block of `activate` drafts the operation and reports its row. -/
theorem keeps_activateBody (identity : CellIdentity) (actor : String)
    (now : Time) :
    Keeps (engine stableId) Commits
      (Until isLate fun phase row => ∃ base draft,
        phase = .inside base draft ∧ ∃ eventAt,
          Cells.activate stableId identity actor now eventAt base =
            .ok (row, draft))
      .before (do
        Method.sql (.insertIdentity identity now)
        let current ← Method.get (stableId identity)
        if !current.isFresh && !current.state.isTerminal then
          .raise (.cellBusy (stableId identity) current.epoch current.state)
        else do
          Method.revokeEpoch (stableId identity) current.epoch current.nextEpoch
          let n ← Method.sql (.activateRow (stableId identity) current.epoch
            current.state current.nextEpoch now)
          if n ≠ 1 then
            .raise (.staleEpoch (stableId identity) .activationLost)
          else do
            Method.append
              (activation (stableId identity) current.nextEpoch actor)
            Method.get (stableId identity)) := by
  refine (keeps_sql_before (Q := fun phase _ => ∃ base,
    phase = .inside base (base.insertIdentity stableId identity now))
    (fun base => ⟨base, rfl⟩)).bind ?_
  rintro _ - ⟨base, rfl⟩
  refine (keeps_get_inside (Q := fun phase row =>
    phase = .inside base (base.insertIdentity stableId identity now) ∧
      Cells.get (stableId identity)
        (base.insertIdentity stableId identity now) = .ok row)
    (fun row hrow => ⟨rfl, hrow⟩)).bind ?_
  rintro _ current ⟨rfl, hcurrent⟩
  split
  · trivial
  rename_i hfree
  refine (keeps_revokeEpoch (Q := fun phase _ =>
    phase = .inside base (base.insertIdentity stableId identity now))
    rfl (by simp)).bind ?_
  rintro _ - rfl
  refine (keeps_sql_inside (Q := fun phase n =>
    phase = .inside base ((base.insertIdentity stableId identity now).activateRow
      (stableId identity) current.epoch current.state current.nextEpoch now).2 ∧
    n = ((base.insertIdentity stableId identity now).activateRow
      (stableId identity) current.epoch current.state current.nextEpoch now).1)
    ⟨rfl, rfl⟩).bind ?_
  rintro _ n ⟨rfl, hn⟩
  split
  · trivial
  rename_i hcount
  refine (keeps_append_inside (Q := fun phase _ => ∃ eventAt s,
    phase = .inside base s ∧
      Cells.append (activation (stableId identity) current.nextEpoch actor)
        eventAt ((base.insertIdentity stableId identity now).activateRow
          (stableId identity) current.epoch current.state current.nextEpoch
          now).2 = .ok s)
    (fun eventAt s hs => ⟨eventAt, s, rfl, hs⟩)).bind ?_
  rintro _ - ⟨eventAt, s, rfl, hs⟩
  refine keeps_get_inside (fun row hrow => ⟨base, s, rfl, eventAt, ?_⟩)
  subst hn
  simp only [Cells.activate, hcurrent, bind, Except.bind, if_neg hfree,
    if_neg hcount, hs, hrow]

theorem keeps_activate (identity : CellIdentity) (actor : String) :
    Keeps (engine stableId)
      (Call.Performs stableId (.activate identity actor))
      (Ends isLate) .before (Method.activate stableId identity actor) := by
  intro now
  refine Keeps.withDb ((keeps_activateBody identity actor now).mono
    fun _ _ => Until.mono ?_)
  rintro _ row ⟨base, draft, rfl, eventAt, hok⟩
  exact ⟨now, eventAt, row, hok⟩

theorem keeps_record (m : Mutation) :
    Keeps (engine stableId) (Call.Performs stableId (.record m))
      (Ends isLate) .before (Method.record m) :=
  (keeps_append_before (fun _ now _ hs => ⟨now, hs⟩)).withDb

/-- `_append`, with the draft it starts from. -/
theorem keeps_append {Q : Phase Store → Unit → Prop} {m : Mutation}
    (hopen : phase ≠ .after)
    (h : ∀ base draft,
      phase = .inside base draft ∨ (phase = .before ∧ draft = base) →
      ∀ now s, Cells.append m now draft = .ok s → Q (.inside base s) ()) :
    Keeps (engine stableId) Commits (Until isLate Q) phase
      (Method.append m) := by
  cases phase with
  | after => exact absurd rfl hopen
  | before => exact keeps_append_before (fun base => h base base (by simp))
  | inside base draft => exact keeps_append_inside (h base draft (by simp))

/-- The block of `patch`, in a transaction or opening one. -/
theorem keeps_patchBody
    {cellId operationKey : String} {expected : Int} {fields : Fields}
    {now : Time}
    (hopen : phase ≠ .after)
    (h : ∀ base draft,
      phase = .inside base draft ∨ (phase = .before ∧ draft = base) →
      ∀ eventAt s,
        patchWrite cellId expected operationKey fields now eventAt draft =
          .ok s → Commits base s) :
    Keeps (engine stableId) Commits (Until isLate (Committable Commits)) phase
      (Method.patchBody cellId expected operationKey fields now) := by
  refine (keeps_revokeEnded (Q := fun phase' _ => phase' = phase) rfl
    hopen).bind ?_
  rintro _ - rfl
  rename_i phase
  refine (keeps_append (Q := fun phase' _ => ∃ base draft eventAt s,
    phase' = .inside base s ∧
      (phase = .inside base draft ∨ (phase = .before ∧ draft = base)) ∧
      Cells.append (patching cellId expected operationKey fields) eventAt
        draft = .ok s) hopen
    (fun base draft hphase eventAt s hs =>
      ⟨base, draft, eventAt, s, rfl, hphase, hs⟩)).bind ?_
  rintro _ - ⟨base, draft, eventAt, s, rfl, hphase, hs⟩
  have hwrite := h base draft hphase eventAt
  simp only [patchWrite, hs, bind, Except.bind] at hwrite
  split
  · rename_i hempty
    exact hwrite s (by simp [hempty])
  · rename_i hempty
    refine (keeps_sql_inside (Q := fun phase n =>
      phase = .inside base (s.patchRow cellId expected fields now).2 ∧
        n = (s.patchRow cellId expected fields now).1) ⟨rfl, rfl⟩).bind ?_
    rintro _ n ⟨rfl, hn⟩
    split
    · trivial
    · rename_i hcount
      subst hn
      exact hwrite _ (by simp [hempty, hcount])

theorem keeps_patchChecked
    {cellId operationKey : String} {expected : Int} {fields : Fields}
    (hopen : phase ≠ .after)
    (h : ∀ base draft,
      phase = .inside base draft ∨ (phase = .before ∧ draft = base) →
      ∀ now eventAt s,
        patchWrite cellId expected operationKey fields now eventAt draft =
          .ok s → Commits base s) :
    Keeps (engine stableId) Commits (Ends isLate) phase
      (Method.patchChecked cellId expected operationKey fields) := by
  have htail : ∀ now, Keeps (engine stableId) Commits (Ends isLate) phase
      (withDb (Method.patchBody cellId expected operationKey fields now) >>=
        fun _ => Method.get cellId) := by
    intro now
    have hbody : Keeps (engine stableId) Commits
        (Until isLate (Committable Commits)) phase
        (Method.patchBody cellId expected operationKey fields now) :=
      keeps_patchBody hopen (fun base draft hphase => h base draft hphase now)
    exact hbody.withDb.bind_ends (fun _ => keeps_get (by simp))
      (fun _ => keeps_get (by simp))
  cases phase with
  | after => exact absurd rfl hopen
  | before => exact htail
  | inside base draft => exact htail

theorem keeps_patch
    (cellId : String) (expected : Int) (operationKey : String)
    (fields : Fields) :
    Keeps (engine stableId)
      (Call.Performs stableId (.patch cellId expected operationKey fields))
      (Ends isLate) .before
      (Method.patch cellId expected operationKey fields) := by
  intro s
  show Keeps _ _ _ _ (Prog.ofExcept (Cells.get cellId s) >>= _)
  cases Cells.get cellId s with
  | error e => trivial
  | ok row =>
      show Keeps _ _ _ _ (Prog.ofExcept (checkEpoch expected row) >>= _)
      cases checkEpoch expected row with
      | error e => trivial
      | ok u =>
          refine keeps_patchChecked (by simp) ?_
          rintro base draft (hinside | ⟨-, rfl⟩) now eventAt s hs
          · cases hinside
          · exact ⟨now, eventAt, hs⟩

theorem keeps_ensure (identity : CellIdentity) (fields : Fields) :
    Keeps (engine stableId)
      (Call.Performs stableId (.ensure identity fields))
      (Ends isLate) .before (Method.ensure stableId identity fields) := by
  intro now
  refine Keeps.withDb ?_
  refine (keeps_sql_before (Q := fun phase _ => ∃ base,
    phase = .inside base (base.insertIdentity stableId identity now))
    (fun base => ⟨base, rfl⟩)).bind ?_
  rintro _ - ⟨base, rfl⟩
  split
  · rename_i hempty
    refine keeps_get_inside (fun row hrow => ⟨now, 0, 0, ?_⟩)
    simp only [ensureWrite, if_pos hempty, hrow, bind, Except.bind]
  · rename_i hempty
    refine Keeps.bind (P := fun phase _ => ∀ base draft,
      phase ≠ .inside base draft) ?_ ?_
    · show Keeps _ _ _ _ (Prog.ofExcept (Cells.get _ _) >>= _)
      cases hrow : Cells.get (stableId identity)
          (base.insertIdentity stableId identity now) with
      | error e => trivial
      | ok row =>
          show Keeps _ _ _ _ (Prog.ofExcept (checkEpoch 1 row) >>= _)
          cases hcheck : checkEpoch 1 row with
          | error e => trivial
          | ok u =>
              refine (keeps_patchChecked (by simp) ?_).mono until_of_ends
              rintro base' draft (hinside | ⟨hbefore, -⟩) patchAt eventAt s hs
              · cases hinside
                refine ⟨now, patchAt, eventAt, ?_⟩
                simp only [ensureWrite, if_neg hempty, hrow, hcheck, hs, bind,
                  Except.bind]
              · cases hbefore
    · intro phase _ hphase
      refine (keeps_get hphase).mono (fun phase result hend => ?_)
      cases phase with
      | before => cases result <;> trivial
      | inside base draft => exact hend.elim
      | after => cases result <;> exact hend

/-- **Refinement.**  A call commits the operation of its name, or nothing. -/
theorem Call.keeps (call : Call) :
    Keeps (engine stableId) (call.Performs stableId) (Ends isLate) .before
      (call.prog stableId) := by
  have hreturn : ∀ {α : Type} {prog : Method α} {f : α → Returned},
      Keeps (engine stableId) (call.Performs stableId) (Ends isLate) .before
        prog →
      Keeps (engine stableId) (call.Performs stableId) (Ends isLate) .before
        (prog >>= fun a => pure (f a)) := by
    intro α prog f h
    exact h.bind_ends (fun _ => trivial) (fun _ => trivial)
  cases call with
  | ensure identity fields => exact hreturn (keeps_ensure identity fields)
  | activate identity actor => exact hreturn (keeps_activate identity actor)
  | takeEpoch cellId expected actor =>
      exact hreturn (keeps_takeEpoch cellId expected actor)
  | patch cellId expected operationKey fields =>
      exact hreturn (keeps_patch cellId expected operationKey fields)
  | record m =>
      exact hreturn (f := fun _ => .nothing) (keeps_record m)

end Levels

end Cells
end SwFactory
