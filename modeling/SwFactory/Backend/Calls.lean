import SwFactory.Machine.Knowledge
import SwFactory.Cells.Growth
import SwFactory.Journal.Effects
import SwFactory.Backend.Control
import SwFactory.Backend.Sweep

/-!
# The backend: requests and their steps

Every thread makes one request; any number of them run at the same time.  The
lemmas say what one step does to the stores, and the invariants of the
following modules are proved over them.
-/

namespace SwFactory
namespace Backend

open Text Machine Cells Restore

variable {V : Type}

/-- The requests of the backend, with what they are given. -/
inductive Call (V : Type)
  | submit (workId : WorkId) (payload : Admission.Payload)
      (priority : Admission.Priority)
  | deliver (workId : String)
  | queueCancel (workId reason : String)
  | drain (limit : Option Int)
  | complete (workId cellId : String) (epoch : Int) (state : String)
  | transition (body : Factory.Body) (cleanup : String)
  | mutateCore (digests : CoreDigests V) (request : CoreMutationRequest)
      (reconciles : Bool) (budget : Option Journal.RetryBudget)
  | followup (cellId identifier text : String) (dismissed : Bool)
  | sweep (ttl : Int) (owner : String) (docker : Bool) (limit : Int)
  /-- An activation by any other actor. -/
  | activate (identity : CellIdentity) (actor : String)
  | takeEpoch (cellId : String) (expected : Int) (actor : String)
  | patch
      (cellId : String) (expected : Int) (operationKey : String)
      (fields : Fields)

/-- A program whose result nobody reads. -/
def ignore {α : Type} (p : Method V α) : Method V Unit := do
  let _ ← p
  return ()

section Requests

variable [DecidableEq V]
variable (setup : Setup V)

/-- The program of a request. -/
def Call.prog : Call V → Method V Unit
  | .submit workId payload priority => Backend.submit setup workId payload priority
  | .deliver workId => Backend.deliver setup workId
  | .queueCancel workId reason => ignore (Backend.queueCancel workId reason)
  | .drain limit => ignore (onAdmission (.drain limit))
  | .complete workId cellId epoch state =>
      ignore (onAdmission (.complete workId cellId epoch state))
  | .transition body cleanup => Backend.transition setup body cleanup
  | .mutateCore digests request reconciles budget =>
      ignore (Backend.mutateCore setup digests request reconciles budget)
  | .followup cellId identifier text dismissed =>
      recordFollowup cellId identifier text dismissed
  | .sweep ttl owner docker limit =>
      ignore (sweepSandboxes setup ttl owner docker limit)
  | .activate identity actor => ignore (perform (.activate identity actor))
  | .takeEpoch cellId expected actor =>
      ignore (perform (.takeEpoch cellId expected actor))
  | .patch cellId expected operationKey fields =>
      ignore (perform (.patch cellId expected operationKey fields))

/-- The stores and all threads. -/
abbrev Configuration (V : Type) :=
  Config (Stmt V) Stmt.Ans BackendError Unit (Stores V)

/-- Empty stores, but for the throttles, that nothing in the program writes. -/
def emptyStores (V : Type) (throttles : List Admission.Throttle) : Stores V where
  admission := Admission.start throttles

/-- Thread `p` is about to make the request `calls p`. -/
def start (calls : Nat → Call V) (stores : Stores V) : Configuration V where
  shared := stores
  procs p := .running ((calls p).prog setup)

/-- One step of one thread, or its end. -/
abbrev step : Configuration V → Move (Input V) → Configuration V :=
  (system setup).step

end Requests

section Steps

variable {setup : Setup V}

/-- A write of the Cell store is an exception, or what the operation wrote. -/
theorem writeCells_cases {α : Type} (input : Input V) (sh : Stores V)
    (x : Except CellError (α × Cells.Store)) :
    (∃ e, writeCells input sh x = (.error e, sh)) ∨
      ∃ a cells', x = .ok (a, cells') ∧
        writeCells input sh x = (.ok a, { sh with cells := cells' }) := by
  unfold writeCells attempted
  cases input.fault with
  | some fault =>
      exact Or.inl ⟨fault.error, rfl⟩
  | none =>
      cases x with
      | ok out => exact Or.inr ⟨out.1, out.2, rfl, rfl⟩
      | error e => exact Or.inl ⟨e, rfl⟩

/-- A refusal of the Cell store is one of the operation itself. -/
theorem writeCells_refused {α : Type} {input : Input V} {sh : Stores V}
    {x : Except CellError (α × Cells.Store)} {e : CellError}
    (h : (writeCells input sh x).1 = .error e) (he : e.isRefusal = true) :
    x = .error e := by
  unfold writeCells attempted at h
  cases hfault : input.fault with
  | some fault =>
      simp only [hfault, Except.error.injEq] at h
      subst h
      cases fault <;> cases he
  | none =>
      cases x with
      | ok out => simp [hfault] at h
      | error e' => simpa [hfault] using h

theorem map_append_ok {m : Mutation} {now : Time} {cells cells' : Cells.Store}
    {u : Unit}
    (h : (append m now cells).map (fun cells => ((), cells)) = .ok (u, cells')) :
    append m now cells = .ok cells' := by
  cases happend : append m now cells with
  | error e =>
      rw [happend] at h
      cases h
  | ok cells₁ =>
      rw [happend] at h
      cases h
      rfl

/-- The event that a statement writes, given the answer of its operation. -/
def Stmt.Writes (setup : Setup V) (s : Stmt V) (m : Mutation) : Prop :=
  match s with
  | .activate identity actor =>
      ∃ epoch, m = activation (setup.stableId identity) epoch actor
  | .takeEpoch cellId expected actor => m = takeover cellId (expected + 1) actor
  | .patch cellId expected operationKey fields =>
      m = patching cellId expected operationKey fields
  | .record m' => m = m'
  | _ => False

/-- A step leaves the Cell store alone, or it grows by the event of the step. -/
theorem exec_cells (p : Nat) (s : Stmt V) (input : Input V) (sh : Stores V)
    (hs : Consistent sh.cells) :
    (exec setup p s input sh).2.cells = sh.cells ∨
      ∃ m, s.Writes setup m ∧
        Grows m sh.cells (exec setup p s input sh).2.cells := by
  cases s with
  | activate identity actor =>
      rcases writeCells_cases input sh (activate setup.stableId identity actor
        input.now input.eventAt sh.cells) with
        ⟨e, heq⟩ | ⟨row, cells', hok, heq⟩
      · exact Or.inl (by rw [exec, heq])
      · refine Or.inr ⟨_, ⟨row.epoch, rfl⟩, ?_⟩
        rw [exec, heq]
        exact (activate_grows hs hok).1
  | takeEpoch cellId expected actor =>
      rcases writeCells_cases input sh (takeEpoch cellId expected actor
        input.now input.eventAt sh.cells) with
        ⟨e, heq⟩ | ⟨epoch, cells', hok, heq⟩
      · exact Or.inl (by rw [exec, heq])
      · refine Or.inr ⟨_, rfl, ?_⟩
        rw [exec, heq]
        exact takeEpoch_grows hs hok
  | patch cellId expected operationKey fields =>
      rcases writeCells_cases input sh (patch cellId expected operationKey fields
        input.now input.eventAt sh.cells) with
        ⟨e, heq⟩ | ⟨row, cells', hok, heq⟩
      · exact Or.inl (by rw [exec, heq])
      · refine Or.inr ⟨_, rfl, ?_⟩
        rw [exec, heq]
        exact (patch_grows hs hok).1
  | record m =>
      rcases writeCells_cases input sh
        ((append m input.eventAt sh.cells).map (fun cells => ((), cells))) with
        ⟨e, heq⟩ | ⟨u, cells', hok, heq⟩
      · exact Or.inl (by rw [exec, heq])
      · refine Or.inr ⟨m, rfl, ?_⟩
        rw [exec, heq]
        exact record_grows hs (map_append_ok hok)
  | _ => exact Or.inl rfl

theorem exec_consistent (p : Nat) (s : Stmt V) (input : Input V) (sh : Stores V)
    (hs : Consistent sh.cells) :
    Consistent (exec setup p s input sh).2.cells := by
  rcases exec_cells p s input sh hs with heq | ⟨m, -, hgrows⟩
  · rw [heq]
    exact hs
  · exact hgrows.consistent

/-- No step takes an epoch back from a Cell. -/
theorem exec_reached {p : Nat} {s : Stmt V} {input : Input V} {sh : Stores V}
    {cellId : String} {epoch : Int} (hs : Consistent sh.cells)
    (h : sh.cells.Reached cellId epoch) :
    (exec setup p s input sh).2.cells.Reached cellId epoch := by
  rcases exec_cells p s input sh hs with heq | ⟨m, -, hgrows⟩
  · rw [heq]
    exact h
  · exact hgrows.reached h

/-- No step removes an event from the timeline of a Cell. -/
theorem exec_event {p : Nat} {s : Stmt V} {input : Input V} {sh : Stores V}
    {e : Event} (hs : Consistent sh.cells) (h : e ∈ sh.cells.events) :
    e ∈ (exec setup p s input sh).2.cells.events := by
  rcases exec_cells p s input sh hs with heq | ⟨m, -, hgrows⟩
  · rw [heq]
    exact h
  · exact hgrows.event_kept h

end Steps

section Programs

variable {C : Contract (Stmt V) Stmt.Ans (Stores V)}
variable {known : Stores V → Prop}

theorem safe_ignore {α : Type} {p : Method V α} (h : C.Safe known p) :
    C.Safe known (ignore p) :=
  h.bind (fun _ => Contract.Safe.ret)

/-- A single statement whose precondition is known. -/
theorem safe_perform {s : Stmt V}
    (hpre : ∀ sh, C.good sh → known sh → C.pre s sh) :
    C.Safe known (perform s) :=
  Contract.Safe.step hpre (fun _ => Contract.Safe.ret)

/-- The first statement of a program, whose answer tells the rest something. -/
theorem safe_then {α : Type} {s : Stmt V} {f : s.Ans → Method V α}
    (hpre : ∀ sh, C.good sh → known sh → C.pre s sh)
    (hf : ∀ a, C.Safe (fun sh => known sh ∧ C.tells s a sh) (f a)) :
    C.Safe known (perform s >>= f) :=
  Contract.Safe.step hpre hf

theorem gives_then {α : Type} {s : Stmt V} {f : s.Ans → Method V α}
    {Q : α → Stores V → Prop}
    (hpre : ∀ sh, C.good sh → known sh → C.pre s sh)
    (hf : ∀ a, C.Gives (fun sh => known sh ∧ C.tells s a sh) (f a) Q) :
    C.Gives known (perform s >>= f) Q :=
  Contract.Gives.step hpre hf

end Programs

end Backend
end SwFactory
