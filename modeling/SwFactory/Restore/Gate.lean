import SwFactory.Restore.Coherence
import SwFactory.Evidence.Chain
import SwFactory.Admission.Store

/-!
# Restore contract: the gate

A restored factory withholds its external effects until an operator has
validated the restore, and observes the remote in front of every first attempt
until the restore window is closed.  Two records say that a window is open: a
marker file in the state root and a stamp in the admission store.  A
`RestoreGate` answers from both, and keeps what it has read.

Every method of the gate is a computation on the object; what it changes of the
state root is explicit.  What the methods write is durable at once (a file is
replaced by a rename, the stamp is one statement), so a crash lies between two
writes.

Source: `restore_contract.py` (`RestoreGate`, `_restore_stamp`,
`_set_restore_stamp`, `_write_marker`).
-/

namespace SwFactory
namespace Restore

open Text Machine

/-- `GATE_PENDING`, `GATE_RECONCILING`, `GATE_CLEAR`. -/
inductive GateState
  | pending
  | reconciling
  | clear
deriving DecidableEq, Repr

/-- The fields of the marker that the gate reads. -/
structure Marker where
  state : GateState
  restoredAt : Nat
  restoredCells : List String
  unreconciledCells : List String
  unreconciledDispatch : List String
  fenceRollbacks : List (String × Int × Int) := []
deriving DecidableEq, Repr

/-- The marker file: its modification time and size, and what it holds. -/
structure MarkerFile where
  stat : Nat × Nat
  /-- `none` if the file is not JSON. -/
  content : Option Marker
deriving DecidableEq, Repr

/-- The admission store, with the value of `restore_open` in its meta table. -/
structure AdmissionFile where
  orders : List Admission.Order
  restoreOpen : Option Nat

/-- What a backup carries: the five stores, and the run directories. -/
structure Stores (V F : Type) where
  cells : Option Cells.Store := none
  operations : Option (Operations V) := none
  admission : Option AdmissionFile := none
  repairs : Option F := none
  evidence : Option (List (String × Evidence.Lines)) := none
  runs : List (String × F) := []

/-- The state root. -/
structure Root (V F : Type) where
  /-- The directory exists. -/
  directory : Bool := false
  stores : Stores V F := {}
  marker : Option MarkerFile := none

/-- What the gate raises, one constructor per message. -/
inductive GateError
  /-- the marker is unreadable -/
  | markerUnreadable
  /-- the marker is missing, and the stores still record an open restore -/
  | markerMissing
  /-- the restore has not been validated for mutation -/
  | notValidated
  /-- there is no pending restore to resume -/
  | nothingToResume
  /-- restored state is not ready for mutation -/
  | notReady
  /-- restored stores do not agree with each other -/
  | incoherent (problems : List String)
  /-- evidence for a restored Cell is missing -/
  | evidenceMissing (cellId : String)
  /-- evidence for a restored Cell is damaged -/
  | evidenceDamaged (cellId detail : String)
  /-- there is no pending restore to reconcile -/
  | nothingToReconcile
  /-- validate the restore before reconciling -/
  | resumeBeforeReconciling
  /-- unresolved operations with no recorded observation -/
  | unobserved (cellId : String) (keys : List String)
  /-- dispatch intent is still in flight with no recorded observation -/
  | inFlight (workId : String)
  /-- there is no restore window to close -/
  | nothingToClose
  /-- validate the restore before closing the window -/
  | resumeBeforeClosing
  /-- restored items are still unreconciled -/
  | unreconciled (items : List String)
  /-- confirm the interval was reviewed -/
  | windowNotReviewed
deriving DecidableEq, Repr

/-- The attributes of a `RestoreGate`. -/
structure Gate where
  stamp : Option (Nat × Nat) := none
  marker : Option Marker := none
  orphaned : Option Bool := none
deriving DecidableEq, Repr

variable {V F : Type}

/-- `_restore_stamp`. -/
def restoreStamp (root : Root V F) : Nat :=
  match root.stores.admission with
  | none => 0
  | some admission => admission.restoreOpen.getD 0

/-- `_set_restore_stamp`. -/
def setRestoreStamp (value : Nat) (root : Root V F) : Root V F :=
  { root with
    stores :=
      { root.stores with
        admission := root.stores.admission.map
          (fun admission => { admission with restoreOpen := some value }) } }

/-- `_write_marker`; the file system gives the file its time and size. -/
def writeMarker (marker : Marker) (stat : Nat × Nat) (root : Root V F) :
    Root V F :=
  { root with marker := some ⟨stat, some marker⟩ }

/-- A question to the gate: an answer or an exception, and the gate after it. -/
abbrev Ask (α : Type) := Gate → Except GateError α × Gate

/-- One question after the other. -/
def Ask.andThen {α β : Type} (ask : Ask α) (next : α → Ask β) : Ask β :=
  fun gate =>
    match ask gate with
    | (.ok a, gate') => next a gate'
    | (.error e, gate') => (.error e, gate')

/-- `marker`. -/
def readMarker (root : Root V F) : Ask (Option Marker) := fun gate =>
  match root.marker with
  | none => (.ok none, { gate with stamp := none, marker := none })
  | some file =>
      if gate.stamp = some file.stat then
        (.ok gate.marker, gate)
      else
        match file.content with
        | none => (.error .markerUnreadable, gate)
        | some marker =>
            (.ok (some marker),
              { gate with stamp := some file.stat, marker := some marker })

/-- `orphaned`; the answer of the store is kept. -/
def isOrphaned (root : Root V F) : Ask Bool :=
  (readMarker root).andThen fun marker gate =>
    match marker, gate.orphaned with
    | some _, _ => (.ok false, gate)
    | none, some known => (.ok known, gate)
    | none, none =>
        let answer := decide (restoreStamp root ≠ 0)
        (.ok answer, { gate with orphaned := some answer })

/-- `state`. -/
def gateState (root : Root V F) : Ask GateState :=
  (readMarker root).andThen fun marker =>
    match marker with
    | some marker => fun gate => (.ok marker.state, gate)
    | none =>
        (isOrphaned root).andThen fun orphaned gate =>
          (.ok (if orphaned then .pending else .clear), gate)

/-- `assert_mutations_allowed`. -/
def assertMutationsAllowed (root : Root V F) : Ask Unit :=
  let whenPending : Ask Unit :=
    (gateState root).andThen fun state gate =>
      if state = .pending then (.error .notValidated, gate) else (.ok (), gate)
  (readMarker root).andThen fun marker =>
    match marker with
    | some _ => whenPending
    | none =>
        (isOrphaned root).andThen fun orphaned =>
          if orphaned then fun gate => (.error .markerMissing, gate)
          else whenPending

/-- `requires_observation`; the answer is the same for every Cell. -/
def requiresObservation (root : Root V F) (_cellId : String) : Ask Bool :=
  (readMarker root).andThen fun marker =>
    match marker with
    | none => isOrphaned root
    | some marker => fun gate => (.ok (decide (marker.state ≠ .clear)), gate)

/-- `_cells_owing_evidence`. -/
def cellsOwingEvidence (root : Root V F) : List String :=
  ((root.stores.operations.getD []).map (fun entry => entry.2.cellId)).dedup

/-- The check of `resume` on the evidence of one restored Cell. -/
def checkEvidence (C : Evidence.Codec) (root : Root V F) (cellId : String) :
    Except GateError Unit :=
  match (root.stores.evidence.getD []).lookup cellId with
  | none =>
      if (cellsOwingEvidence root).contains cellId then
        .error (.evidenceMissing cellId)
      else .ok ()
  | some events =>
      let records := (Evidence.written events).map (fun line =>
        (C.loads line).getD
          (List.toFinmap
            [⟨"digest", .text "unparseable"⟩, ⟨"previous_digest", .null⟩]))
      let (intact, detail) := Evidence.verifyChain C records
      if intact then .ok () else .error (.evidenceDamaged cellId detail)

/-- The validation of `resume`; `compatible` is what `assert_compatible` says. -/
def validate (C : Evidence.Codec) (compatible : Bool) (root : Root V F)
    (marker : Marker) : Except GateError Unit := do
  if !compatible then
    .error .notReady
  let incoherent := coherenceProblems root.stores.cells root.stores.operations
  if incoherent ≠ [] then
    .error (.incoherent incoherent)
  marker.restoredCells.forM (checkEvidence C root)

/-- What a method leaves of the state root: its answer, and the next root. -/
abbrev Write (V F α : Type) :=
  Root V F → Gate → (Except GateError α × Gate) × Root V F

/-- `resume`. -/
def resume (C : Evidence.Codec) (compatible : Bool) (stat : Nat × Nat) :
    Write V F Marker := fun root gate =>
  match readMarker root gate with
  | (.error e, gate) => ((.error e, gate), root)
  | (.ok none, gate) => ((.error .nothingToResume, gate), root)
  | (.ok (some marker), gate) =>
      if marker.state ≠ .pending then
        ((.ok marker, gate), root)
      else
        match validate C compatible root marker with
        | .error e => ((.error e, gate), root)
        | .ok () =>
            let updated := { marker with state := .reconciling }
            ((.ok updated, { gate with stamp := none }),
              writeMarker updated stat root)

/-- `_assert_cell_observed`. -/
def assertCellObserved (root : Root V F) (cellId : String) :
    Except GateError Unit :=
  let unobserved := (root.stores.operations.getD []).filter (fun entry =>
    decide (entry.2.cellId = cellId ∧ entry.2.state ≠ .committed) &&
      entry.2.observation.isNone)
  if unobserved.isEmpty then .ok ()
  else
    .error (.unobserved cellId
      ((unobserved.map Prod.fst).mergeSort (fun a b => decide (a ≤ b))))

/-- `_assert_dispatch_settled`. -/
def assertDispatchSettled (root : Root V F) (workId : String) :
    Except GateError Unit :=
  let orders := (root.stores.admission.map AdmissionFile.orders).getD []
  match (lookup Admission.Order.workId workId orders).bind
      Admission.Order.dispatch with
  | none => .ok ()
  | some dispatch =>
      if dispatch.state = .inflight ∧ dispatch.observation = none then
        .error (.inFlight workId)
      else .ok ()

/-- The checks of `mark_reconciled`, and what it drops from the marker. -/
def reconciled (root : Root V F) (cellId workId : Option String)
    (marker : Marker) : Except GateError Marker := do
  cellId.forM (assertCellObserved root)
  workId.forM (assertDispatchSettled root)
  return { marker with
    unreconciledCells := marker.unreconciledCells.filter
      (fun c => decide (some c ≠ cellId))
    unreconciledDispatch := marker.unreconciledDispatch.filter
      (fun w => decide (some w ≠ workId)) }

/-- `mark_reconciled`. -/
def markReconciled (cellId workId : Option String) (stat : Nat × Nat) :
    Write V F Marker := fun root gate =>
  match readMarker root gate with
  | (.error e, gate) => ((.error e, gate), root)
  | (.ok none, gate) => ((.error .nothingToReconcile, gate), root)
  | (.ok (some marker), gate) =>
      if marker.state = .pending then
        ((.error .resumeBeforeReconciling, gate), root)
      else
        match reconciled root cellId workId marker with
        | .error e => ((.error e, gate), root)
        | .ok updated =>
            ((.ok updated, { gate with stamp := none }),
              writeMarker updated stat root)

/-- The checks of `close`, on the marker that it has read. -/
def closable (windowReviewed : Bool) (marker : Option Marker) :
    Except GateError Marker :=
  match marker with
  | none => .error .nothingToClose
  | some marker =>
      let outstanding := marker.unreconciledCells ++ marker.unreconciledDispatch
      if marker.state = .pending then
        .error .resumeBeforeClosing
      else if outstanding ≠ [] then
        .error (.unreconciled
          (outstanding.mergeSort (fun a b => decide (a ≤ b))))
      else if !windowReviewed then
        .error .windowNotReviewed
      else
        .ok { marker with state := .clear }

/-- The durable steps of `_archive`. -/
inductive ArchiveStep
  /-- The archived copy of the marker, which nothing reads. -/
  | copy
  | resetStamp
  | unlink
deriving DecidableEq, Repr

def ArchiveStep.apply : ArchiveStep → Root V F → Root V F
  | copy, root => root
  | resetStamp, root => setRestoreStamp 0 root
  | unlink, root => { root with marker := none }

/-- `_archive`. -/
def archiveSteps : List ArchiveStep :=
  [.copy, .resetStamp, .unlink]

/-- The first `n` steps of `_archive`. -/
def archive (n : Nat) (root : Root V F) : Root V F :=
  (archiveSteps.take n).foldl (fun root step => step.apply root) root

/-- The attributes of the gate behind `_archive`. -/
def Gate.archived : Gate where
  stamp := none
  marker := none
  orphaned := some false

section Answers

variable {root : Root V F} {gate : Gate}

/-- What one reading of the marker can do. -/
theorem readMarker_cases (root : Root V F) (gate : Gate) :
    (root.marker = none ∧
        readMarker root gate =
          (.ok none, { gate with stamp := none, marker := none })) ∨
      (∃ file, root.marker = some file ∧ gate.stamp = some file.stat ∧
        readMarker root gate = (.ok gate.marker, gate)) ∨
      (∃ file, root.marker = some file ∧ gate.stamp ≠ some file.stat ∧
        file.content = none ∧
        readMarker root gate = (.error .markerUnreadable, gate)) ∨
      (∃ file marker, root.marker = some file ∧
        gate.stamp ≠ some file.stat ∧ file.content = some marker ∧
        readMarker root gate =
          (.ok (some marker),
            { gate with stamp := some file.stat, marker := some marker })) := by
  unfold readMarker
  cases hfile : root.marker with
  | none =>
      exact Or.inl ⟨rfl, rfl⟩
  | some file =>
      by_cases hstamp : gate.stamp = some file.stat
      · exact Or.inr (Or.inl ⟨file, rfl, hstamp, if_pos hstamp⟩)
      · cases hcontent : file.content with
        | none =>
            exact Or.inr (Or.inr (Or.inl
              ⟨file, rfl, hstamp, hcontent, by simp [hstamp, hcontent]⟩))
        | some marker =>
            exact Or.inr (Or.inr (Or.inr
              ⟨file, marker, rfl, hstamp, hcontent,
                by simp [hstamp, hcontent]⟩))

/-- Reading the marker once more changes nothing. -/
theorem readMarker_again (root : Root V F) (gate : Gate) :
    readMarker root (readMarker root gate).2 = readMarker root gate := by
  rcases readMarker_cases root gate with
    ⟨hfile, heq⟩ | ⟨file, hfile, hstamp, heq⟩ |
    ⟨file, hfile, hstamp, hcontent, heq⟩ |
    ⟨file, marker, hfile, hstamp, hcontent, heq⟩
  · rw [heq]
    simp [readMarker, hfile]
  · rw [heq, heq]
  · rw [heq, heq]
  · rw [heq]
    simp [readMarker, hfile]

/-- The answers that keep a mutation back, or make it observe first. -/
def Guarded (root : Root V F) (gate : Gate) : Prop :=
  (∃ e, (assertMutationsAllowed root gate).1 = .error e) ∨
    ∀ cellId, (requiresObservation root cellId
      (assertMutationsAllowed root gate).2).1 = .ok true

/-- What the gate says where its marker is open. -/
theorem guarded_of_marker {marker : Marker} {gate' : Gate}
    (hread : readMarker root gate = (.ok (some marker), gate'))
    (hopen : marker.state ≠ .clear) : Guarded root gate := by
  have hagain : readMarker root gate' = (.ok (some marker), gate') := by
    have := readMarker_again root gate
    rwa [hread] at this
  have hassert : assertMutationsAllowed root gate =
      if marker.state = .pending then (.error .notValidated, gate')
      else (.ok (), gate') := by
    simp [assertMutationsAllowed, gateState, Ask.andThen, hread, hagain]
  rw [Guarded, hassert]
  split
  · exact Or.inl ⟨_, rfl⟩
  · refine Or.inr (fun cellId => ?_)
    simp [requiresObservation, Ask.andThen, hagain, hopen]

/-- What the gate says without a marker, in front of an open restore. -/
theorem guarded_of_orphaned {gate' : Gate}
    (hread : readMarker root gate = (.ok none, gate'))
    (hstamp : gate'.orphaned = some true ∨
      (gate'.orphaned = none ∧ restoreStamp root ≠ 0)) :
    Guarded root gate := by
  have hagain : readMarker root gate' = (.ok none, gate') := by
    have := readMarker_again root gate
    rwa [hread] at this
  refine Or.inl ⟨.markerMissing, ?_⟩
  rcases hstamp with horphaned | ⟨horphaned, hstamp⟩
  · simp [assertMutationsAllowed, isOrphaned, Ask.andThen, hread, hagain,
      horphaned]
  · simp [assertMutationsAllowed, isOrphaned, Ask.andThen, hread, hagain,
      horphaned, hstamp]

/-- A new gate on a root without a marker guards it exactly by the stamp. -/
theorem guarded_new_iff (hmarker : root.marker = none) :
    Guarded root {} ↔ restoreStamp root ≠ 0 := by
  have hread : readMarker root {} = (.ok none, {}) := by
    simp [readMarker, hmarker]
  constructor
  · intro hguarded hstamp
    have hread' : readMarker root { orphaned := some false } =
        (.ok none, { orphaned := some false }) := by
      simp [readMarker, hmarker]
    have hassert : assertMutationsAllowed root {} =
        (.ok (), { orphaned := some false }) := by
      simp [assertMutationsAllowed, gateState, isOrphaned, Ask.andThen, hread,
        hread', hstamp]
    rw [Guarded, hassert] at hguarded
    rcases hguarded with ⟨e, he⟩ | hobserve
    · cases he
    · have := hobserve ""
      simp [requiresObservation, isOrphaned, Ask.andThen, hread'] at this
  · exact fun hstamp => guarded_of_orphaned hread (Or.inr ⟨rfl, hstamp⟩)

end Answers

end Restore
end SwFactory
