import SwFactory.Backend.Calls

/-!
# The backend: the routine part of a delivery

Most statements of a delivery read, or write what no contract between the
stores is about.  The lemmas here are about any contract that asks nothing for
such statements: what is left to prove of a delivery is how it binds its
members, and of a cancellation how it closes the order.
-/

namespace SwFactory
namespace Backend

open Text Machine Cells Restore

variable {V : Type}

/-- The patch revives no Cell: it ends it, binds it to a run or does neither. -/
def Tame (fields : Fields) : Prop :=
  fields.airflowRunId ≠ some none ∧
    ((∃ run, fields.airflowRunId = some (some run)) ∨
      ∀ state, fields.state = some state → state.isTerminal = true)

/-- The patch closes the Cell. -/
def Closing (fields : Fields) : Prop :=
  fields.state = some .cancelled

/-- The statement touches nothing that the stores agree on. -/
def Stmt.Routine : Stmt V → Prop
  | .activate _ _ | .takeEpoch _ _ _ | .record _ | .close _ _ _ _ => False
  | .patch _ _ _ fields => Tame fields ∧ ¬ Closing fields
  | .journal _ (.intent _) => False
  | .admission (.submit _) | .admission (.cancel _ _ _) => False
  | .admission (.complete _ _ _ _) => False
  | .admission (.recordMemberEpoch _ _ _ _) => False
  | _ => True

section Routines

theorem only_then {α : Type} {s : Stmt V} {f : s.Ans → Method V α}
    (hs : s.Routine) (hf : ∀ a, (f a).Only Stmt.Routine) :
    (perform s >>= f).Only Stmt.Routine :=
  ⟨hs, hf⟩

theorem only_onAdmission {op : Admission.Op}
    (hop : (Stmt.admission op : Stmt V).Routine) :
    (onAdmission op : Method V _).Only Stmt.Routine :=
  only_then hop (fun _ => Prog.Only.ofExcept)

theorem only_readMembers (workId : String) :
    (readMembers workId : Method V _).Only Stmt.Routine :=
  only_then trivial (fun _ => trivial)

theorem only_assertLease (workId token : String) :
    (assertLease workId token : Method V _).Only Stmt.Routine := by
  apply only_then (by trivial)
  intro row
  split <;> trivial

theorem only_attemptsExhausted (workId : String) :
    (attemptsExhausted workId : Method V _).Only Stmt.Routine :=
  only_then trivial (fun _ => trivial)

theorem only_observeDispatch (observes : Bool) :
    (observeDispatch observes : Method V _).Only Stmt.Routine := by
  unfold observeDispatch
  split
  · apply only_then (by trivial)
    intro answer
    cases answer <;> trivial
  · trivial

theorem only_attachedRun (dagId runId : String) :
    (attachedRun dagId runId : Method V _).Only Stmt.Routine := by
  apply only_then (by trivial)
  intro answer
  cases answer with
  | error e => trivial
  | ok answer =>
      dsimp only
      split
      · trivial
      · split
        · trivial
        · repeat' split
          all_goals trivial

theorem only_checkPolicy (policyDigest : String) (bound : Cell) :
    (checkPolicy policyDigest bound : Method V _).Only Stmt.Routine := by
  unfold checkPolicy
  split <;> trivial

/-- A binding of the policy leaves the state and the run of the Cell alone. -/
theorem routine_policy {cellId key : String} {epoch : Int}
    {policyDigest generation : Option (Option String)} :
    (.patch cellId epoch key
      { policyDigest := policyDigest, factoryGeneration := generation } :
        Stmt V).Routine :=
  ⟨⟨nofun, Or.inr nofun⟩, nofun⟩

theorem only_bindCellPolicy (cell : Cell)
    (operationKey policyDigest generation : String) :
    (bindCellPolicy cell operationKey policyDigest generation :
      Method V _).Only Stmt.Routine := by
  unfold bindCellPolicy
  split
  · trivial
  · apply only_then (by exact routine_policy)
    intro patched
    split
    · exact only_checkPolicy policyDigest _
    · apply only_then (by trivial)
      intro found
      exact Prog.Only.ofExcept.bind (fun bound => only_checkPolicy policyDigest bound)
    · trivial

theorem only_bindCell (line runId : String) (b : Binding) :
    (bindCell line runId b : Method V _).Only Stmt.Routine := by
  apply only_then (by trivial)
  intro found
  apply Prog.Only.ofExcept.bind
  intro current
  split
  · have hroutine : Tame (runFields line runId b.jobIdx) ∧
        ¬ Closing (runFields line runId b.jobIdx) :=
      ⟨⟨nofun, Or.inl ⟨runId, rfl⟩⟩, nofun⟩
    apply only_then (by exact hroutine)
    intro patched
    split
    · exact only_then trivial (fun _ => Prog.Only.ofExcept)
    · trivial
    · trivial
  · split <;> trivial

theorem only_bindRun (line runId : String) (bindings : List Binding) :
    (bindRun line runId bindings : Method V _).Only Stmt.Routine := by
  induction bindings with
  | nil => trivial
  | cons b bindings ih => exact (only_bindCell line runId b).bind (fun _ => ih)

theorem only_bindOrder (intent : Admission.DispatchIntent) (body : WorkBody)
    (bindings : List Binding) (runId : String) :
    (bindOrder intent body bindings runId : Method V _).Only Stmt.Routine := by
  apply (only_bindRun body.line runId bindings).bind
  intro _
  exact (only_onAdmission (by trivial)).bind (fun _ => trivial)

end Routines

/-- What a contract must permit for deliveries of an order to recover and to be
cancelled. -/
structure Permits (C : Contract (Stmt V) Stmt.Ans (Stores V))
    (workId : String) : Prop where
  routine : ∀ s, s.Routine → ∀ sh, C.good sh → C.pre s sh
  closes : ∀ known tag reason state,
    C.Safe known (closeOrder workId tag reason state : Method V _)

section Deliveries

variable {C : Contract (Stmt V) Stmt.Ans (Stores V)}
variable {known : Stores V → Prop}
variable {setup : Setup V}

theorem Permits.only {α : Type} {p : Method V α} {workId : String}
    (h : Permits C workId)
    (hp : p.Only Stmt.Routine) : C.Safe known p :=
  Contract.Safe.of_only h.routine hp

theorem safe_compensate (intent : Admission.DispatchIntent)
    (h : Permits C intent.workId)
    (detail : String) :
    C.Safe known (compensate intent detail : Method V _) :=
  (h.closes known _ _ _).bind (fun _ => Contract.Safe.ret)

theorem safe_retireDispatch (intent : Admission.DispatchIntent)
    (h : Permits C intent.workId)
    (detail : String) (compensates observes : Bool) :
    C.Safe known (retireDispatch setup intent detail compensates observes) := by
  unfold retireDispatch
  split
  · exact safe_compensate intent h detail
  · apply (h.only (only_observeDispatch observes)).bind
    intro outcome
    split
    · exact safe_compensate intent h _
    · exact (h.only (only_onAdmission (by trivial))).bind (fun _ => Contract.Safe.ret)

theorem safe_recoverDispatch (intent : Admission.DispatchIntent)
    (h : Permits C intent.workId)
    (error : BackendError) (compensates observes : Bool) :
    C.Safe known (recoverDispatch setup intent error compensates observes) := by
  apply Contract.Safe.finish
  · apply (h.only (only_attemptsExhausted intent.workId)).bind
    intro exhausted
    split
    · apply (h.only (only_assertLease intent.workId intent.leaseToken)).bind
      intro _
      exact safe_retireDispatch intent h _ compensates observes
    · exact (h.only (only_onAdmission (by trivial))).bind (fun _ => Contract.Safe.ret)
  · intro r
    cases r with
    | ok a => exact Contract.Safe.ret
    | error raised =>
        dsimp only
        split
        · exact (h.only (only_onAdmission (by trivial))).bind
            (fun _ => Contract.Safe.ret)
        · exact Contract.Safe.raise

theorem safe_checkAttached (intent : Admission.DispatchIntent)
    (h : Permits C intent.workId)
    (body : WorkBody) (attached : String) :
    C.Safe known (checkAttached setup intent body attached) := by
  apply Contract.Safe.finish
  · exact h.only (only_attachedRun body.line attached)
  · intro r
    cases r with
    | ok a => exact Contract.Safe.ret
    | error raised =>
        dsimp only
        split
        · apply (h.only (only_assertLease intent.workId intent.leaseToken)).bind
          intro _
          exact (safe_compensate intent h _).bind (fun _ => Contract.Safe.raise)
        · exact (safe_recoverDispatch intent h _ true false).bind
            (fun _ => Contract.Safe.raise)

/-- A failure is recovered and raised again; a success keeps what it knows. -/
theorem gives_recovering {α : Type} {p : Method V α} {Q : α → Stores V → Prop}
    {recover : BackendError → Method V Unit}
    (hp : C.Gives known p Q) (hrecover : ∀ e, C.Safe known (recover e)) :
    C.Gives known (recovering p recover) Q := by
  apply Contract.Triple.finish hp
  intro r
  cases r with
  | ok a =>
      exact Contract.Gives.ret (fun sh _ h => h.2 a rfl)
  | error e =>
      apply Contract.Safe.bind_gives
      · exact (hrecover e).weaken (fun _ _ h => h.1)
      · exact fun _ => Contract.Gives.raise

theorem safe_queueCancel {workId : String} (h : Permits C workId)
    (reason : String) :
    C.Safe known (queueCancel workId reason : Method V _) := by
  apply safe_then
  · exact fun sh hgood _ => h.routine (.work workId) trivial sh hgood
  · intro row
    cases row with
    | none => exact Contract.Safe.raise
    | some order =>
        dsimp only
        split
        · exact Contract.Safe.raise
        · exact h.closes _ _ reason "cancelled"

variable [DecidableEq V]

/-- The dispatch behind the members, where the run may be sent. -/
theorem safe_dispatchRun (intent : Admission.DispatchIntent)
    (h : Permits C intent.workId)
    (body : WorkBody) (bindings : List Binding)
    (hsend : ∀ b, authority bindings = some b →
      C.Safe known (sendRun setup intent body b)) :
    C.Safe known (dispatchRun setup intent body bindings) := by
  unfold dispatchRun
  split
  · exact Contract.Safe.raise
  · rename_i b hb
    have hrecovering : C.Gives known
        (recovering (sendRun setup intent body b)
          (fun error => recoverDispatch setup intent error false true))
        (fun _ _ => True) :=
      gives_recovering ((hsend b hb).gives (fun _ _ _ _ => trivial))
        (fun e => safe_recoverDispatch intent h e false true)
    apply hrecovering.safe.bind
    intro result
    cases result with
    | none => exact Contract.Safe.raise
    | some document => exact h.only (only_bindOrder intent body bindings _)

/-- A delivery is safe where its members are bound and its run is sent safely. -/
theorem safe_dispatchIntent (intent : Admission.DispatchIntent)
    (h : Permits C intent.workId)
    {Q : List Binding → Stores V → Prop}
    (hmembers : C.Gives known (bindMembers setup intent
      (setup.loads intent.order.payload) intent.members) Q)
    (hsend : ∀ bindings b, authority bindings = some b →
      C.Safe (fun sh => known sh ∧ Q bindings sh)
        (sendRun setup intent (setup.loads intent.order.payload) b)) :
    C.Safe known (dispatchIntent setup intent) := by
  have hbound : C.Gives known
      (recovering (bindMembers setup intent (setup.loads intent.order.payload)
          intent.members)
        (fun error => recoverDispatch setup intent error true false)) Q :=
    gives_recovering hmembers
      (fun e => safe_recoverDispatch intent h e true false)
  unfold dispatchIntent
  dsimp only
  split
  · rename_i attached hattached
    apply (safe_checkAttached intent h _ attached).bind
    intro _
    apply hbound.safe.bind
    intro bindings
    exact h.only (only_bindOrder intent _ bindings attached)
  · apply hbound.bind_safe
    intro bindings
    exact safe_dispatchRun intent h _ bindings (hsend bindings)

end Deliveries

end Backend
end SwFactory
