import SwFactory.Backend.Requests

/-!
# The backend: state that can be backed up

`create_backup` and `RestoreGate.resume` refuse stores with coherence problems.
The factory itself makes such stores: the sweep journals the removal of a
sandbox that no Cell owns under a Cell id of its own, and the removal of a
container under the epoch that its labels claim.  Where every removal has an
owner that has reached its epoch, the stores are coherent in every state of
every run.
-/

namespace SwFactory
namespace Backend

open Text Machine Cells Restore

section Runs

variable {V : Type} [DecidableEq V]
variable {setup : Setup V}

/--
**A healthy factory can be backed up.**  From empty stores, in every run of any
requests, with crashes, faults and arbitrary answers from outside: if every
removal of the sweep has an owner, `coherence_problems` finds nothing in any
state.
-/
theorem coherent_of_ownedRemovals
    (calls : Nat → Call V)
    (throttles : List Admission.Throttle)
    (moves : List (Move (Input V)))
    (hmoves : AlongRun (step setup) (Machine.Performs (ownedRemovals True))
      (start setup calls (emptyStores V throttles)) moves) :
    EveryState (step setup)
      (fun c =>
        coherenceProblems (some c.shared.cells) (some c.shared.operations) = [])
      (start setup calls (emptyStores V throttles)) moves := by
  have hrun := contract_run (emptyStores_good throttles) hmoves
  rw [everyState_iff] at hrun ⊢
  intro pre post heq
  rw [coherenceProblems_eq_nil_iff]
  exact (hrun pre post heq).2 trivial

end Runs

section Sample

instance decidableOwned (r : Removal) : Decidable r.Owned :=
  match hcell : r.cell with
  | none => isFalse (by
      rintro ⟨cell, hsome, -⟩
      cases hcell.symm.trans hsome)
  | some cell =>
      decidable_of_iff (r.identity.epoch ≤ cell.epoch)
        ⟨fun h => ⟨cell, hcell, h⟩, by
          rintro ⟨cell', hsome, h⟩
          cases hcell.symm.trans hsome
          exact h⟩

instance decidableOwnedRemovals (p : Nat) (s : Stmt Unit) (sh : Stores Unit) :
    Decidable (ownedRemovals True p s sh) :=
  match s with
  | .requestedAt r => inferInstanceAs (Decidable (True → r.Owned))
  | .getCell _ | .listCells _ | .history _ | .activate _ _ | .takeEpoch _ _ _
  | .patch _ _ _ _ | .record _ | .journal _ _ | .unresolved _ | .admission _
  | .close _ _ _ _ | .work _ | .membersForCell _ _ | .mustObserve _
  | .getRun _ _ | .observeRun | .evidence | .listing | .containers | .now =>
      isTrue trivial

/-- The digests of the samples; the rest is not asked for. -/
def sampleSetup (cellId digest : String) : Setup Unit where
  stableId _ := cellId
  hashes := ⟨fun _ => "", fun _ => "", fun _ _ _ => ""⟩
  limits := {}
  host p := p
  loads _ :=
    { line := "", actor := "", jobs := [], dagRunId := "", requestDigest := "" }
  dumps _ := ""
  runIdOf _ := none
  digest _ := digest
  runIdFor _ _ := ""
  cellTarget _ := ""
  str _ := ""
  lower := id
  parseInt text := if text = "1" then some 1 else none
  evidenceOf _ := ("", "")

/-- A Cell is activated, it fails, and the sweep finds its container. -/
def sweepOwned : Nat → Call Unit
  | 0 => .activate ⟨"repo", "main", "1"⟩ "backend:operator:submit_1"
  | 1 => .patch "cell_56cfb6f32d7e00782d8152f4" 1 "operator:failed"
      { state := some .failed }
  | _ => .sweep 3600 "" true 10

/-- The container, labelled with the Cell and its epoch. -/
def ownedContainer : Container where
  id := "c0ffee"
  labels := [("swfactory.owned", "true"),
    ("swfactory.cell", "cell_56cfb6f32d7e00782d8152f4"),
    ("swfactory.epoch", "1"), ("swfactory.attempt", "a1")]
  running := true

def ownedMoves : List (Move (Input Unit)) :=
  [.run 0 {}, .run 1 {}, .run 2 {},
    .run 2 { containers := .ok [ownedContainer] }] ++
    List.replicate 5 (.run 2 {})

/-- The removal of a container that belongs to a Cell. -/
theorem coherent_sweepOwned :
    EveryState
      (step (sampleSetup "cell_56cfb6f32d7e00782d8152f4"
        "346f4b677cac43c3244762dd"))
      (fun c =>
        coherenceProblems (some c.shared.cells) (some c.shared.operations) = [])
      (start
        (sampleSetup "cell_56cfb6f32d7e00782d8152f4" "346f4b677cac43c3244762dd")
        sweepOwned (emptyStores Unit [])) ownedMoves := by
  apply coherent_of_ownedRemovals
  decide +kernel

/-- The sweep over the sandboxes of the factory's own user. -/
def sweepUnowned (_p : Nat) : Call Unit :=
  .sweep 3600 "bot" false 10

/-- A sandbox that no Cell owns. -/
def strayedSandbox : Sandbox where
  name := "swf-api-0a1b2c3d"
  status := "running"
  createdBy := "bot"
  created := some ⟨"2026-01-01T00:00:00+00:00", 0⟩

def unownedMoves : List (Move (Input Unit)) :=
  [.run 0 {}, .run 0 { date := 7200 },
    .run 0 { listing := .ok [strayedSandbox] }] ++
    List.replicate 5 (.run 0 {})

/-- The stores behind the sweep of the stray sandbox. -/
def unownedStores : Stores Unit :=
  (runFrom
    (step (sampleSetup "cell_dae17ee747636a11863473d4"
      "aa1682e03a3b2db096ad4c55"))
    (start
      (sampleSetup "cell_dae17ee747636a11863473d4" "aa1682e03a3b2db096ad4c55")
      sweepUnowned (emptyStores Unit [])) unownedMoves).shared

theorem unownedStores_cells : unownedStores.cells.cells.isEmpty = true := by
  decide +kernel

theorem unownedStores_operations : unownedStores.operations.isEmpty = false := by
  decide +kernel

/-- From empty stores, one sweep makes state that cannot be backed up. -/
theorem incoherent_sweepUnowned :
    ¬ EveryState
      (step (sampleSetup "cell_dae17ee747636a11863473d4"
        "aa1682e03a3b2db096ad4c55"))
      (fun c =>
        coherenceProblems (some c.shared.cells) (some c.shared.operations) = [])
      (start
        (sampleSetup "cell_dae17ee747636a11863473d4" "aa1682e03a3b2db096ad4c55")
        sweepUnowned (emptyStores Unit [])) unownedMoves := by
  intro hrun
  have hlast := (everyState_iff _ _ _ _).mp hrun unownedMoves [] (by simp)
  have hrows := ((coherenceProblems_eq_nil_iff _ _).mp hlast).1
  cases hoperations : unownedStores.operations with
  | nil =>
      have hempty := unownedStores_operations
      rw [hoperations] at hempty
      cases hempty
  | cons entry rest =>
      have hentry : entry ∈ unownedStores.operations := by
        rw [hoperations]
        exact List.mem_cons_self
      obtain ⟨cell, hfind, -⟩ := hrows entry hentry
      obtain ⟨hmem, -⟩ := Store.find_some hfind
      have hcells := List.isEmpty_iff.mp unownedStores_cells
      rw [unownedStores] at hcells
      rw [hcells] at hmem
      cases hmem

end Sample

end Backend
end SwFactory
