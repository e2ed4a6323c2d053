import SwFactory.Restore.Gate

/-!
# Restore contract: placing a backup

`restore` checks the backup, sets the old state root aside, creates the root,
copies the payload, writes the pending marker and stamps the admission store.
A crash leaves the first few of these steps.  Between the copy and the marker
the root holds the stores of the backup and nothing says that a restore is
open, unless the backup itself was taken inside of a restore window.

Source: `restore_contract.py` (`restore`, `_build_marker`,
`_restored_live_cells`, `_inflight_dispatch`, `_fence_rollbacks`).
-/

namespace SwFactory
namespace Restore

open Text Machine

variable {V F : Type}

/-- `int(time.time())`, at some time after 1970. -/
abbrev Clock := { t : Nat // 0 < t }

/-- `_current_epochs`. -/
def currentEpochs (root : Root V F) : List (String × Int) :=
  ((root.stores.cells.map Cells.Store.cells).getD []).map
    (fun cell => (cell.cellId, cell.epoch))

/-- `sorted(set(names))`. -/
def sortedSet (names : List String) : List String :=
  names.dedup.mergeSort (fun a b => decide (a ≤ b))

/-- `_restored_live_cells`. -/
def restoredLiveCells (root : Root V F) : List String :=
  let live := ((root.stores.cells.map Cells.Store.cells).getD []).filter
    (fun cell => !cell.state.isTerminal)
  let unresolved := (root.stores.operations.getD []).filter
    (fun entry => decide (entry.2.state ≠ .committed))
  sortedSet (live.map Cells.Cell.cellId ++
    unresolved.map (fun entry => entry.2.cellId))

/-- `_inflight_dispatch`. -/
def inflightDispatch (root : Root V F) : List String :=
  let orders := ((root.stores.admission.map AdmissionFile.orders).getD []).filter
    (fun order => order.dispatch.any (fun d => decide (d.state = .inflight)))
  (orders.map Admission.Order.workId).mergeSort (fun a b => decide (a ≤ b))

/-- `_fence_rollbacks`. -/
def fenceRollbacks (root : Root V F) (superseded : List (String × Int)) :
    List (String × Int × Int) :=
  (superseded.mergeSort (fun a b => decide (a.1 ≤ b.1))).filterMap
    (fun (cellId, was) =>
      match (currentEpochs root).lookup cellId with
      | some now => if now < was then some (cellId, was, now) else none
      | none => none)

/-- `_build_marker`. -/
def buildMarker (root : Root V F) (superseded : List (String × Int))
    (restoredAt : Clock) : Marker where
  state := .pending
  restoredAt := restoredAt
  restoredCells := restoredLiveCells root
  unreconciledCells := restoredLiveCells root
  unreconciledDispatch := inflightDispatch root
  fenceRollbacks := fenceRollbacks root superseded

/-- Every store of `FACTORY_STORES` is there. -/
def Stores.complete (stores : Stores V F) : Bool :=
  stores.cells.isSome && stores.operations.isSome && stores.admission.isSome &&
    stores.repairs.isSome && stores.evidence.isSome

/-- Some store of `FACTORY_STORES` is there. -/
def Stores.any (stores : Stores V F) : Bool :=
  stores.cells.isSome || stores.operations.isSome || stores.admission.isSome ||
    stores.repairs.isSome || stores.evidence.isSome

/-- A backup directory: its payload, and the checks that only read files. -/
structure Backup (V F : Type) where
  payload : Stores V F
  /-- Manifest, file digests and evidence chains are as declared. -/
  intact : Bool
  /-- Every store has a schema version that this binary supports. -/
  supported : Bool

/-- What `restore` raises before it touches the state root. -/
inductive RestoreError
  /-- backup is not restorable -/
  | notRestorable
  /-- a store is unknown or written by a newer binary -/
  | unsupportedStore
  /-- the state root already holds factory state -/
  | rootInUse
deriving DecidableEq, Repr

/-- `verify_backup(...).ok`. -/
def Backup.verified (backup : Backup V F) : Bool :=
  backup.intact && backup.payload.complete &&
    (coherenceProblems backup.payload.cells backup.payload.operations).isEmpty

/-- `state_root.exists() and any(state_root.iterdir())`. -/
def Root.occupied (root : Root V F) : Bool :=
  root.stores.any || !root.stores.runs.isEmpty || root.marker.isSome

/-- The durable steps of `restore`. -/
inductive Step (V F : Type)
  | setAside
  | createRoot
  | copyPayload (payload : Stores V F)
  | writeMarker (superseded : List (String × Int)) (restoredAt : Clock)
      (stat : Nat × Nat)
  | stampAdmission (restoredAt : Clock)

def Step.apply : Step V F → Root V F → Root V F
  | setAside, _ => {}
  | createRoot, root => { root with directory := true }
  | copyPayload payload, root => { root with stores := payload }
  | writeMarker superseded restoredAt stat, root =>
      Restore.writeMarker (buildMarker root superseded restoredAt) stat root
  | stampAdmission restoredAt, root => setRestoreStamp restoredAt root

/-- The arguments of `restore`, with the clock and the file system. -/
structure Call (V F : Type) where
  backup : Backup V F
  replaceExisting : Bool
  restoredAt : Clock
  stat : Nat × Nat

/-- The steps of `restore` from the creation of the root on. -/
def placement (call : Call V F) (superseded : List (String × Int)) :
    List (Step V F) :=
  [.createRoot, .copyPayload call.backup.payload,
    .writeMarker superseded call.restoredAt call.stat,
    .stampAdmission call.restoredAt]

/-- `restore`: its refusals, or the steps that it takes one after the other. -/
def restoreSteps (call : Call V F) (root : Root V F) :
    Except RestoreError (List (Step V F)) := do
  if !call.backup.verified then
    .error .notRestorable
  if !call.backup.supported then
    .error .unsupportedStore
  if root.occupied then
    if !call.replaceExisting then
      .error .rootInUse
    .ok (.setAside :: placement call (currentEpochs root))
  else
    .ok (placement call (currentEpochs root))

/-- The state root behind the first steps of a restore. -/
def place (steps : List (Step V F)) (root : Root V F) : Root V F :=
  steps.foldl (fun root step => step.apply root) root

/-- The steps that were taken before a crash; a refused call takes none. -/
def stepsTaken (call : Call V F) (root : Root V F) (crashAfter : Nat) :
    List (Step V F) :=
  match restoreSteps call root with
  | .error _ => []
  | .ok steps => steps.take crashAfter

/-- The crash lies between the copy of the payload and the marker. -/
def CopiedOnly (steps : List (Step V F)) : Prop :=
  ∃ payload, steps.getLast? = some (.copyPayload payload)

/-- The state root that a crash behind the copy leaves. -/
def Stores.placed (payload : Stores V F) : Root V F where
  directory := true
  stores := payload

/-- The state root of a crashed restore is guarded, as before, or without stores. -/
def CrashSafe (before after : Root V F) : Prop :=
  Guarded after {} ∨ after = before ∨ after.stores.any = false

/-- The marker of a restore keeps every gate shut. -/
theorem guarded_writeMarker (root : Root V F) (superseded : List (String × Int))
    (restoredAt : Clock) (stat : Nat × Nat) :
    Guarded (writeMarker (buildMarker root superseded restoredAt) stat root)
      {} := by
  have hread : readMarker
      (writeMarker (buildMarker root superseded restoredAt) stat root) {} =
        (.ok (some (buildMarker root superseded restoredAt)),
          { stamp := some stat
            marker := some (buildMarker root superseded restoredAt) }) := by
    simp [readMarker, writeMarker]
  exact guarded_of_marker hread (by simp [buildMarker])

/-- The stamp of a new restore leaves the marker where it is. -/
theorem guarded_setRestoreStamp {root : Root V F} {gate : Gate} {marker : Marker}
    {stat : Nat × Nat} (value : Nat)
    (hmarker : root.marker = some ⟨stat, some marker⟩)
    (hgate : gate.stamp = none) (hopen : marker.state ≠ .clear) :
    Guarded (setRestoreStamp value root) gate := by
  have hread : readMarker (setRestoreStamp value root) gate =
      (.ok (some marker), { gate with stamp := some stat, marker := some marker }) := by
    simp [readMarker, setRestoreStamp, hmarker, hgate]
  exact guarded_of_marker hread hopen

/-- A verified backup has every store. -/
theorem any_of_verified {backup : Backup V F} (h : backup.verified = true) :
    backup.payload.any = true := by
  simp only [Backup.verified, Stores.complete, Bool.and_eq_true] at h
  simp only [Stores.any, Bool.or_eq_true]
  tauto

/-- A crash behind the copy is safe exactly if the payload keeps the gate shut. -/
theorem crashSafe_placed_iff {payload : Stores V F} (before : Root V F)
    (hany : payload.any = true) :
    CrashSafe before payload.placed ↔
      restoreStamp payload.placed ≠ 0 ∨ before = payload.placed := by
  rw [CrashSafe, guarded_new_iff rfl, eq_comm (a := payload.placed)]
  have hstores : (payload.placed).stores.any ≠ false := by
    rw [Stores.placed, hany]
    simp
  tauto

/-- What a crash in the middle of the placement leaves. -/
theorem place_placement (call : Call V F) (superseded : List (String × Int))
    {root : Root V F} (hany : root.stores.any = false)
    (hmarker : root.marker = none) (n : Nat) :
    (¬ CopiedOnly ((placement call superseded).take n) ∧
        ((placement call superseded).take n = [] ∨
          (place ((placement call superseded).take n) root).stores.any = false ∨
          Guarded (place ((placement call superseded).take n) root) {})) ∨
      (CopiedOnly ((placement call superseded).take n) ∧
        place ((placement call superseded).take n) root =
          call.backup.payload.placed) := by
  have hnot : ∀ step : Step V F, (∀ payload, step ≠ .copyPayload payload) →
      ∀ steps, ¬ CopiedOnly (steps ++ [step]) := by
    rintro step hstep steps ⟨payload, hlast⟩
    rw [List.getLast?_concat] at hlast
    exact hstep payload (Option.some.inj hlast)
  match n with
  | 0 =>
      refine Or.inl ⟨?_, Or.inl rfl⟩
      rintro ⟨payload, hlast⟩
      cases hlast
  | 1 =>
      refine Or.inl ⟨hnot .createRoot (by simp) [], Or.inr (Or.inl ?_)⟩
      exact hany
  | 2 =>
      refine Or.inr ⟨⟨call.backup.payload, rfl⟩, ?_⟩
      simp [placement, place, Step.apply, Stores.placed, hmarker]
  | 3 =>
      refine Or.inl ⟨hnot _ (by simp) [_, _], Or.inr (Or.inr ?_)⟩
      exact guarded_writeMarker _ _ _ _
  | n + 4 =>
      have htake : (placement call superseded).take (n + 4) =
          placement call superseded := by
        simp [placement]
      rw [htake]
      refine Or.inl ⟨hnot _ (by simp) [_, _, _], Or.inr (Or.inr ?_)⟩
      exact guarded_setRestoreStamp _ rfl rfl (by simp [buildMarker])

/-- Everything `restore` can do: refuse, place, or set aside and place. -/
theorem restoreSteps_cases (call : Call V F) (root : Root V F) :
    (∃ e, restoreSteps call root = .error e) ∨
      (call.backup.verified = true ∧ root.occupied = false ∧
        restoreSteps call root = .ok (placement call (currentEpochs root))) ∨
      (call.backup.verified = true ∧
        restoreSteps call root =
          .ok (.setAside :: placement call (currentEpochs root))) := by
  unfold restoreSteps
  cases hverified : call.backup.verified with
  | false =>
      exact Or.inl ⟨_, rfl⟩
  | true =>
      cases call.backup.supported with
      | false =>
          exact Or.inl ⟨_, rfl⟩
      | true =>
          cases hoccupied : root.occupied with
          | false =>
              exact Or.inr (Or.inl ⟨rfl, rfl, rfl⟩)
          | true =>
              cases call.replaceExisting with
              | false =>
                  exact Or.inl ⟨_, rfl⟩
              | true =>
                  exact Or.inr (Or.inr ⟨rfl, rfl⟩)

/-- A crash in a placement on an empty root, in front of the root it replaces. -/
theorem crashSafe_placement_iff {call : Call V F} {root before : Root V F}
    {superseded : List (String × Int)} (hverified : call.backup.verified = true)
    (hany : root.stores.any = false) (hmarker : root.marker = none) (n : Nat) :
    CrashSafe before (place ((placement call superseded).take n) root) ↔
      (CopiedOnly ((placement call superseded).take n) →
        restoreStamp call.backup.payload.placed ≠ 0 ∨
          before = call.backup.payload.placed) := by
  rcases place_placement call superseded hany hmarker n with
    ⟨hnot, hsafe⟩ | ⟨hcopied, hplaced⟩
  · refine iff_of_true ?_ (fun h => absurd h hnot)
    rcases hsafe with hnil | hempty | hguarded
    · rw [hnil]
      exact Or.inr (Or.inr hany)
    · exact Or.inr (Or.inr hempty)
    · exact Or.inl hguarded
  · rw [hplaced, crashSafe_placed_iff before (any_of_verified hverified)]
    exact (imp_iff_right hcopied).symm

/--
**Crashes of a restore.**  For every backup, every state root and every number
of steps after which `restore` stops: a gate that is opened on the root then
withholds mutations or makes every Cell observe, or the root is as it was
before, or it holds no store, if and only if the crash does not lie between the
copy of the payload and the marker, the backup was itself taken inside of a
restore window, or the root already held what the backup holds.
-/
theorem restore_crash_safe_iff
    (call : Call V F)
    (before : Root V F)
    (crashAfter : Nat) :
    CrashSafe before (place (stepsTaken call before crashAfter) before) ↔
      (CopiedOnly (stepsTaken call before crashAfter) →
        restoreStamp call.backup.payload.placed ≠ 0 ∨
          before = call.backup.payload.placed) := by
  unfold stepsTaken
  rcases restoreSteps_cases call before with
    ⟨e, heq⟩ | ⟨hverified, hfree, heq⟩ | ⟨hverified, heq⟩
  · rw [heq]
    refine iff_of_true (Or.inr (Or.inl rfl)) ?_
    rintro ⟨payload, hlast⟩
    cases hlast
  · rw [heq]
    simp only [Root.occupied, Bool.or_eq_false_iff] at hfree
    exact crashSafe_placement_iff hverified hfree.1.1 (by simpa using hfree.2)
      crashAfter
  · rw [heq]
    cases crashAfter with
    | zero =>
        refine iff_of_true (Or.inr (Or.inl rfl)) ?_
        rintro ⟨payload, hlast⟩
        cases hlast
    | succ n =>
        -- the root was set aside: the placement starts from nothing
        have hplace : place ((Step.setAside ::
            placement call (currentEpochs before)).take (n + 1)) before =
              place ((placement call (currentEpochs before)).take n) {} := rfl
        have hcopied : CopiedOnly ((Step.setAside ::
            placement call (currentEpochs before)).take (n + 1)) ↔
              CopiedOnly ((placement call (currentEpochs before)).take n) := by
          cases n with
          | zero =>
              simp [CopiedOnly]
          | succ n =>
              simp [CopiedOnly, placement, List.getLast?_cons_cons]
        rw [hplace, hcopied]
        exact crashSafe_placement_iff hverified rfl rfl n

section Sample

/-- A backup of a factory without Cells. -/
def emptyBackup : Backup Unit Unit where
  payload :=
    { cells := some {}
      operations := some []
      admission := some ⟨[], none⟩
      repairs := some ()
      evidence := some [] }
  intact := true
  supported := true

/-- It is restored into a directory that does not exist. -/
def emptyRestore : Call Unit Unit where
  backup := emptyBackup
  replaceExisting := false
  restoredAt := ⟨1700000000, by decide⟩
  stat := (1, 1)

theorem emptyRestore_verified : emptyRestore.backup.verified = true := by
  simp [emptyRestore, emptyBackup, Backup.verified, Stores.complete,
    coherenceProblems, problems, effects]

/-- A crash behind the copy leaves the stores of the backup and an open gate. -/
theorem restore_crash_opens_gate :
    ¬ CrashSafe ({} : Root Unit Unit)
      (place (stepsTaken emptyRestore {} 2) {}) := by
  have hplaced : place (stepsTaken emptyRestore {} 2) {} =
      emptyBackup.payload.placed := by
    rw [stepsTaken, restoreSteps, emptyRestore_verified]
    rfl
  rw [hplaced, crashSafe_placed_iff _ rfl]
  rintro (hstamp | hsame)
  · exact hstamp rfl
  · have := congrArg Root.directory hsame
    cases this

end Sample

end Restore
end SwFactory
