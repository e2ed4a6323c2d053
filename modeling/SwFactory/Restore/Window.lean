import SwFactory.Restore.Placement
import SwFactory.Evidence.Tamper
import SwFactory.Machine.Runs

/-!
# Restore contract: the window

After a restore, operators and processes open gates, resume, reconcile, try to
close, crash, and delete the marker in any order.  As long as no `close` has
passed its checks, the stamp in the admission store is not zero and no marker
is clear, so every gate withholds mutations or makes every Cell observe.

A `close` that has passed its checks resets the stamp before it removes the
marker.  If it crashes in between, the marker alone keeps the window open.
-/

namespace SwFactory
namespace Restore

open Text Machine

variable {V F : Type}

/-- The state root, the gates that are open, and what became of `close`. -/
structure Window (V F : Type) where
  root : Root V F
  gates : Nat → Option Gate := fun _ => none
  /-- Some `close` has passed its checks. -/
  accepted : Bool := false
  /-- Some `close` has returned. -/
  succeeded : Bool := false

/-- What can happen after a restore. -/
inductive Act (V F : Type)
  | openGate (g : Nat)
  /-- `ControlKernel._must_observe`. -/
  | ask (g : Nat) (cellId : String)
  | resume (g : Nat) (compatible : Bool) (stat : Nat × Nat)
  | markReconciled (g : Nat) (cellId workId : Option String) (stat : Nat × Nat)
  /-- The call ends, or crashes behind so many steps of `_archive`. -/
  | close (g : Nat) (windowReviewed : Bool) (crashAfter : Option Nat)
  | deleteMarker
  /-- The process of the gate ends. -/
  | crash (g : Nat)
  /-- The factory writes to its stores; the stamp is not its to change. -/
  | write (stores : Stores V F)

namespace Window

/-- The gate of a process after a call. -/
def withGate (c : Window V F) (g : Nat) (gate : Option Gate) : Window V F :=
  { c with gates := Function.update c.gates g gate }

/-- A question that leaves the state root alone. -/
def asked {α : Type} (c : Window V F) (g : Nat) (ask : Ask α) : Window V F :=
  match c.gates g with
  | none => c
  | some gate => c.withGate g (some (ask gate).2)

/-- A call that may write the marker. -/
def wrote {α : Type} (c : Window V F) (g : Nat) (call : Write V F α) :
    Window V F :=
  match c.gates g with
  | none => c
  | some gate =>
      { c with
        root := (call c.root gate).2
        gates := Function.update c.gates g (some (call c.root gate).1.2) }

/-- `close`. -/
def closing (c : Window V F) (g : Nat) (windowReviewed : Bool)
    (crashAfter : Option Nat) : Window V F :=
  match c.gates g with
  | none => c
  | some gate =>
      match readMarker c.root gate with
      | (.error _, gate') => c.withGate g (some gate')
      | (.ok marker, gate') =>
          match closable windowReviewed marker with
          | .error _ => c.withGate g (some gate')
          | .ok _ =>
              match crashAfter with
              | some n =>
                  { c with
                    root := archive n c.root
                    gates := Function.update c.gates g none
                    accepted := true }
              | none =>
                  { c with
                    root := archive archiveSteps.length c.root
                    gates := Function.update c.gates g (some Gate.archived)
                    accepted := true
                    succeeded := true }

/-- The stores after a write of the factory. -/
def rewritten (root : Root V F) (stores : Stores V F) : Root V F :=
  { root with
    stores :=
      { stores with
        admission := root.stores.admission.map (fun old =>
          { old with
            orders := (stores.admission.map AdmissionFile.orders).getD
              old.orders }) } }

/-- One step. -/
def step (C : Evidence.Codec) (c : Window V F) : Act V F → Window V F
  | .openGate g => c.withGate g (some {})
  | .ask g cellId =>
      c.asked g ((assertMutationsAllowed c.root).andThen
        (fun _ => requiresObservation c.root cellId))
  | .resume g compatible stat => c.wrote g (resume C compatible stat)
  | .markReconciled g cellId workId stat =>
      c.wrote g (markReconciled cellId workId stat)
  | .close g windowReviewed crashAfter => c.closing g windowReviewed crashAfter
  | .deleteMarker => { c with root := { c.root with marker := none } }
  | .crash g => c.withGate g none
  | .write stores => { c with root := rewritten c.root stores }

end Window

section Invariant

/-- A gate that has seen no closed window. -/
structure GateOpen (gate : Gate) : Prop where
  notCleared : gate.orphaned ≠ some false
  markerOpen : ∀ m, gate.marker = some m → m.state ≠ .clear
  stamped : gate.stamp ≠ none → gate.marker ≠ none

/-- A state root that records an open restore. -/
structure RootOpen (root : Root V F) : Prop where
  stamped : restoreStamp root ≠ 0
  markerOpen : ∀ file, root.marker = some file →
    ∃ m, file.content = some m ∧ m.state ≠ .clear

variable {root : Root V F} {gate : Gate}

theorem GateOpen.new : GateOpen {} where
  notCleared := by simp
  markerOpen := by simp
  stamped := by simp

/-- What a reading of the marker finds behind an open restore. -/
theorem readMarker_open (hroot : RootOpen root) (hgate : GateOpen gate) :
    GateOpen (readMarker root gate).2 ∧
      ((∃ m, (readMarker root gate).1 = .ok (some m) ∧ m.state ≠ .clear) ∨
        (readMarker root gate).1 = .ok none) := by
  rcases readMarker_cases root gate with
    ⟨hfile, heq⟩ | ⟨file, hfile, hstamp, heq⟩ |
    ⟨file, hfile, hstamp, hcontent, heq⟩ |
    ⟨file, marker, hfile, hstamp, hcontent, heq⟩
  · rw [heq]
    refine ⟨⟨hgate.notCleared, by simp, by simp⟩, Or.inr rfl⟩
  · rw [heq]
    refine ⟨hgate, Or.inl ?_⟩
    have hcached : gate.marker ≠ none := hgate.stamped (by simp [hstamp])
    obtain ⟨m, hm⟩ := Option.ne_none_iff_exists'.mp hcached
    exact ⟨m, by rw [hm], hgate.markerOpen m hm⟩
  · obtain ⟨m, hm, -⟩ := hroot.markerOpen file hfile
    rw [hcontent] at hm
    cases hm
  · obtain ⟨m, hm, hopen⟩ := hroot.markerOpen file hfile
    rw [hcontent] at hm
    cases hm
    rw [heq]
    refine ⟨⟨hgate.notCleared, ?_, by simp⟩, Or.inl ⟨_, rfl, hopen⟩⟩
    rintro m' ⟨⟩
    exact hopen

/-- **A gate in front of an open restore is guarded.** -/
theorem guarded_of_open (hroot : RootOpen root) (hgate : GateOpen gate) :
    Guarded root gate := by
  obtain ⟨hgate', hmarker | hnone⟩ := readMarker_open hroot hgate
  · obtain ⟨m, hread, hopen⟩ := hmarker
    exact guarded_of_marker (Prod.ext hread rfl) hopen
  · refine guarded_of_orphaned (Prod.ext hnone rfl) ?_
    have hnot := hgate'.notCleared
    cases horphaned : (readMarker root gate).2.orphaned with
    | none =>
        exact Or.inr ⟨rfl, hroot.stamped⟩
    | some known =>
        cases known with
        | false => exact absurd horphaned hnot
        | true => exact Or.inl rfl

/-- The question leaves an open gate open. -/
def Ask.Keeps {α : Type} (ask : Ask α) : Prop :=
  ∀ gate, GateOpen gate → GateOpen (ask gate).2

theorem Ask.Keeps.andThen {α β : Type} {ask : Ask α} {next : α → Ask β}
    (hask : ask.Keeps) (hnext : ∀ a, (next a).Keeps) :
    (ask.andThen next).Keeps := by
  intro gate hgate
  have h := hask gate hgate
  unfold Ask.andThen
  split
  · rename_i a gate' heq
    rw [heq] at h
    exact hnext a gate' h
  · rename_i e gate' heq
    rw [heq] at h
    exact h

theorem readMarker_keeps (hroot : RootOpen root) : (readMarker root).Keeps :=
  fun _ hgate => (readMarker_open hroot hgate).1

theorem isOrphaned_keeps (hroot : RootOpen root) : (isOrphaned root).Keeps := by
  refine (readMarker_keeps hroot).andThen (fun marker gate hgate => ?_)
  dsimp only
  split
  · exact hgate
  · exact hgate
  · refine ⟨?_, hgate.markerOpen, hgate.stamped⟩
    simp [hroot.stamped]

theorem gateState_keeps (hroot : RootOpen root) : (gateState root).Keeps := by
  refine (readMarker_keeps hroot).andThen (fun marker => ?_)
  split
  · exact fun gate hgate => hgate
  · exact (isOrphaned_keeps hroot).andThen (fun _ gate hgate => hgate)

theorem assertMutationsAllowed_keeps (hroot : RootOpen root) :
    (assertMutationsAllowed root).Keeps := by
  have hpending : ((gateState root).andThen fun state gate =>
      if state = .pending then ((.error .notValidated, gate) :
        Except GateError Unit × Gate) else (.ok (), gate)).Keeps := by
    refine (gateState_keeps hroot).andThen (fun state gate hgate => ?_)
    split <;> exact hgate
  refine (readMarker_keeps hroot).andThen (fun marker => ?_)
  split
  · exact hpending
  · refine (isOrphaned_keeps hroot).andThen (fun orphaned => ?_)
    split
    · exact fun gate hgate => hgate
    · exact hpending

theorem requiresObservation_keeps (hroot : RootOpen root) (cellId : String) :
    (requiresObservation root cellId).Keeps := by
  refine (readMarker_keeps hroot).andThen (fun marker => ?_)
  split
  · exact isOrphaned_keeps hroot
  · exact fun gate hgate => hgate

/-- The call leaves an open restore open. -/
def Write.Keeps {α : Type} (call : Write V F α) : Prop :=
  ∀ root gate, RootOpen root → GateOpen gate →
    RootOpen (call root gate).2 ∧ GateOpen (call root gate).1.2

/-- A marker that is not clear may replace the marker. -/
theorem writeMarker_open {marker : Marker} {stat : Nat × Nat}
    (hroot : RootOpen root) (hgate : GateOpen gate)
    (hmarker : marker.state ≠ .clear) :
    RootOpen (writeMarker marker stat root) ∧
      GateOpen { gate with stamp := none } := by
  refine ⟨⟨hroot.stamped, ?_⟩, ⟨hgate.notCleared, hgate.markerOpen, by simp⟩⟩
  rintro file ⟨⟩
  exact ⟨marker, rfl, hmarker⟩

theorem resume_keeps (C : Evidence.Codec) (compatible : Bool)
    (stat : Nat × Nat) :
    (resume C compatible stat : Write V F Marker).Keeps := by
  intro root gate hroot hgate
  obtain ⟨hgate', -⟩ := readMarker_open hroot hgate
  unfold resume
  split
  · rename_i heq
    rw [heq] at hgate'
    exact ⟨hroot, hgate'⟩
  · rename_i heq
    rw [heq] at hgate'
    exact ⟨hroot, hgate'⟩
  · rename_i marker gate' heq
    rw [heq] at hgate'
    split
    · exact ⟨hroot, hgate'⟩
    · split
      · exact ⟨hroot, hgate'⟩
      · exact writeMarker_open hroot hgate' (by simp)

/-- What is reconciled is dropped from the lists; the state stays. -/
theorem reconciled_state {root : Root V F} {cellId workId : Option String}
    {marker updated : Marker}
    (h : reconciled root cellId workId marker = .ok updated) :
    updated.state = marker.state := by
  unfold reconciled at h
  cases hcell : cellId.forM (assertCellObserved root) with
  | error e =>
      rw [hcell] at h
      cases h
  | ok _ =>
      cases hwork : workId.forM (assertDispatchSettled root) with
      | error e =>
          rw [hcell, hwork] at h
          cases h
      | ok _ =>
          rw [hcell, hwork] at h
          cases h
          rfl

theorem markReconciled_keeps (cellId workId : Option String)
    (stat : Nat × Nat) :
    (markReconciled cellId workId stat : Write V F Marker).Keeps := by
  intro root gate hroot hgate
  obtain ⟨hgate', hread⟩ := readMarker_open hroot hgate
  unfold markReconciled
  split
  · rename_i heq
    rw [heq] at hgate'
    exact ⟨hroot, hgate'⟩
  · rename_i heq
    rw [heq] at hgate'
    exact ⟨hroot, hgate'⟩
  · rename_i marker gate' heq
    rw [heq] at hgate' hread
    split
    · exact ⟨hroot, hgate'⟩
    · split
      · exact ⟨hroot, hgate'⟩
      · rename_i updated hupdated
        refine writeMarker_open hroot hgate' ?_
        rw [reconciled_state hupdated]
        rcases hread with ⟨m, hm, hopen⟩ | hnone
        · cases hm
          exact hopen
        · cases hnone

end Invariant

section Runs

namespace Window

variable {C : Evidence.Codec}

/-- The restore is open in the root and in every gate. -/
def Open (c : Window V F) : Prop :=
  RootOpen c.root ∧ ∀ g gate, c.gates g = some gate → GateOpen gate

theorem Open.guarded {c : Window V F} (h : c.Open) {g : Nat} {gate : Gate}
    (hg : c.gates g = some gate) : Guarded c.root gate :=
  guarded_of_open h.1 (h.2 g gate hg)

/-- One gate changes, and the root with it. -/
theorem Open.update {c : Window V F} (h : c.Open) {root : Root V F} {g : Nat}
    {gate : Option Gate} (hroot : RootOpen root)
    (hgate : ∀ gate', gate = some gate' → GateOpen gate') :
    (∀ g' gate', Function.update c.gates g gate g' = some gate' →
      GateOpen gate') ∧ RootOpen root := by
  refine ⟨fun g' gate' hg' => ?_, hroot⟩
  by_cases heq : g' = g
  · subst heq
    rw [Function.update_self] at hg'
    exact hgate gate' hg'
  · rw [Function.update_of_ne heq] at hg'
    exact h.2 g' gate' hg'

theorem Open.withGate {c : Window V F} (h : c.Open) (g : Nat)
    {gate : Option Gate} (hgate : ∀ gate', gate = some gate' → GateOpen gate') :
    (c.withGate g gate).Open :=
  (h.update h.1 hgate).symm

theorem Open.asked {α : Type} {c : Window V F} (h : c.Open) (g : Nat)
    {ask : Ask α} (hask : ask.Keeps) : (c.asked g ask).Open := by
  unfold Window.asked
  split
  · exact h
  · rename_i gate hg
    refine h.withGate g ?_
    rintro gate' ⟨⟩
    exact hask gate (h.2 g gate hg)

theorem Open.wrote {α : Type} {c : Window V F} (h : c.Open) (g : Nat)
    {call : Write V F α} (hcall : call.Keeps) : (c.wrote g call).Open := by
  unfold Window.wrote
  split
  · exact h
  · rename_i gate hg
    obtain ⟨hroot, hgate⟩ := hcall c.root gate h.1 (h.2 g gate hg)
    refine (h.update hroot ?_).symm
    rintro gate' ⟨⟩
    exact hgate

/-- A `close` that is refused leaves the restore open. -/
theorem Open.closing {c : Window V F} (h : c.Open) (g : Nat)
    (windowReviewed : Bool) (crashAfter : Option Nat)
    (hnot : (c.closing g windowReviewed crashAfter).accepted = false) :
    (c.closing g windowReviewed crashAfter).Open := by
  unfold Window.closing at hnot ⊢
  cases hg : c.gates g with
  | none =>
      exact h
  | some gate =>
      have hgate' := (readMarker_open h.1 (h.2 g gate hg)).1
      simp only [hg] at hnot
      dsimp only
      split at hnot
      · rename_i heq
        rw [heq] at hgate'
        refine h.withGate g ?_
        rintro gate' ⟨⟩
        exact hgate'
      · rename_i marker gate' heq
        rw [heq] at hgate'
        split at hnot
        · refine h.withGate g ?_
          rintro gate'' ⟨⟩
          exact hgate'
        · split at hnot <;> cases hnot

theorem rewritten_open {root : Root V F} (h : RootOpen root)
    (stores : Stores V F) : RootOpen (rewritten root stores) := by
  refine ⟨?_, h.markerOpen⟩
  have hstamp := h.stamped
  unfold restoreStamp rewritten at *
  cases hadmission : root.stores.admission with
  | none =>
      rw [hadmission] at hstamp
      exact absurd rfl hstamp
  | some admission =>
      rw [hadmission] at hstamp
      exact hstamp

/-- A `close` that has passed its checks is remembered. -/
theorem step_accepted (c : Window V F) (act : Act V F)
    (h : c.accepted = true) : (step C c act).accepted = true := by
  cases act with
  | openGate g => exact h
  | ask g cellId =>
      simp only [step, asked]
      split <;> exact h
  | resume g compatible stat =>
      simp only [step, wrote]
      split <;> exact h
  | markReconciled g cellId workId stat =>
      simp only [step, wrote]
      split <;> exact h
  | close g windowReviewed crashAfter =>
      simp only [step, closing]
      split
      · exact h
      · split
        · exact h
        · split
          · exact h
          · split <;> rfl
  | deleteMarker => exact h
  | crash g => exact h
  | write stores => exact h

/-- One step keeps an open restore open, unless it is a `close` that passes. -/
theorem step_open {c : Window V F} (act : Act V F) (h : c.Open)
    (hnot : (step C c act).accepted = false) : (step C c act).Open := by
  cases act with
  | openGate g =>
      refine h.withGate g ?_
      rintro gate' ⟨⟩
      exact GateOpen.new
  | ask g cellId =>
      refine h.asked g ((assertMutationsAllowed_keeps h.1).andThen ?_)
      exact fun _ => requiresObservation_keeps h.1 cellId
  | resume g compatible stat =>
      exact h.wrote g (resume_keeps C compatible stat)
  | markReconciled g cellId workId stat =>
      exact h.wrote g (markReconciled_keeps cellId workId stat)
  | close g windowReviewed crashAfter =>
      exact h.closing g windowReviewed crashAfter hnot
  | deleteMarker =>
      exact ⟨⟨h.1.stamped, by simp [step]⟩, h.2⟩
  | crash g =>
      exact h.withGate g (by simp)
  | write stores =>
      exact ⟨rewritten_open h.1 stores, h.2⟩

/-- A `resume` that is refused changes neither the root nor any answer. -/
def ResumeKeeps (C : Evidence.Codec) (c : Window V F) : Act V F → Prop
  | .resume g compatible stat =>
      ∀ gate e, c.gates g = some gate →
        (resume C compatible stat c.root gate).1.1 = .error e →
        (step C c (.resume g compatible stat)).root = c.root ∧
          ∀ g', ((step C c (.resume g compatible stat)).gates g').map
              (fun gate => (gateState c.root gate).1) =
            (c.gates g').map (fun gate => (gateState c.root gate).1)
  | _ => True

/-- Where `resume` is refused, all it has done is to read the marker. -/
theorem resume_error {compatible : Bool} {stat : Nat × Nat}
    {root : Root V F} {gate : Gate} {e : GateError}
    (h : (resume C compatible stat root gate).1.1 = .error e) :
    (resume C compatible stat root gate).2 = root ∧
      (resume C compatible stat root gate).1.2 = (readMarker root gate).2 := by
  unfold resume at h ⊢
  generalize readMarker root gate = read at h ⊢
  obtain ⟨answer, gate'⟩ := read
  cases answer with
  | error e' =>
      exact ⟨rfl, rfl⟩
  | ok marker =>
      cases marker with
      | none =>
          exact ⟨rfl, rfl⟩
      | some marker =>
          dsimp only at h ⊢
          split
          · exact ⟨rfl, rfl⟩
          · rename_i hpending
            rw [if_neg hpending] at h
            cases hvalid : validate C compatible root marker with
            | error e' =>
                exact ⟨rfl, rfl⟩
            | ok _ =>
                rw [hvalid] at h
                cases h

/-- To read the marker in front of it does not change the answer of `state`. -/
theorem gateState_readMarker (root : Root V F) (gate : Gate) :
    gateState root (readMarker root gate).2 = gateState root gate := by
  unfold gateState Ask.andThen
  rw [readMarker_again]

theorem step_resumeKeeps (c : Window V F) (act : Act V F) :
    ResumeKeeps C c act := by
  cases act with
  | resume g compatible stat =>
      intro gate e hg herror
      obtain ⟨hroot, hgate⟩ := resume_error herror
      have hstep : step C c (.resume g compatible stat) =
          { c with
            root := (resume C compatible stat c.root gate).2
            gates := Function.update c.gates g
              (some (resume C compatible stat c.root gate).1.2) } := by
        simp [step, wrote, hg]
      rw [hstep, hroot, hgate]
      refine ⟨rfl, fun g' => ?_⟩
      by_cases heq : g' = g
      · subst heq
        simp [hg, gateState_readMarker]
      · simp [heq]
  | openGate | ask | markReconciled | close | deleteMarker | crash | write =>
      trivial

/-- The state root behind a restore that has returned. -/
def afterRestore (steps : List (Step V F)) (before : Root V F) : Window V F where
  root := place steps before

theorem afterRestore_open {call : Call V F} {before : Root V F}
    {steps : List (Step V F)}
    (h : restoreSteps call before = .ok steps) :
    (afterRestore steps before).Open := by
  refine ⟨?_, by simp [afterRestore]⟩
  have hrestored : ∀ root : Root V F, call.backup.verified = true →
      RootOpen (place (placement call (currentEpochs before)) root) := by
    intro root hverified
    have hadmission : call.backup.payload.admission.isSome = true := by
      simp only [Backup.verified, Stores.complete, Bool.and_eq_true] at hverified
      exact hverified.1.2.1.1.2
    obtain ⟨admission, hadmission⟩ := Option.isSome_iff_exists.mp hadmission
    constructor
    · simp only [placement, place, List.foldl_cons, List.foldl_nil, Step.apply,
        restoreStamp, setRestoreStamp, writeMarker, hadmission, Option.map_some,
        Option.getD_some]
      exact call.restoredAt.2.ne'
    · rintro file ⟨⟩
      exact ⟨_, rfl, by simp [buildMarker]⟩
  rcases restoreSteps_cases call before with
    ⟨e, heq⟩ | ⟨hverified, -, heq⟩ | ⟨hverified, heq⟩
  · rw [heq] at h
    cases h
  · rw [heq] at h
    cases h
    exact hrestored before hverified
  · rw [heq] at h
    cases h
    exact hrestored {} hverified

section Sample

theorem emptyRestore_steps :
    restoreSteps emptyRestore {} = .ok (placement emptyRestore []) := by
  rw [restoreSteps, emptyRestore_verified]
  rfl

/-- The window behind the restore of an empty factory. -/
def emptyWindow : Window Unit Unit :=
  afterRestore (placement emptyRestore []) {}

/-- The marker of that restore, in some state. -/
def emptyMarker (state : GateState) : Marker where
  state := state
  restoredAt := 1700000000
  restoredCells := []
  unreconciledCells := []
  unreconciledDispatch := []

theorem emptyWindow_root :
    emptyWindow.root =
      { directory := true
        stores :=
          { emptyBackup.payload with admission := some ⟨[], some 1700000000⟩ }
        marker := some ⟨(1, 1), some (emptyMarker .pending)⟩ } := by
  have hmarker (root : Root Unit Unit) (hroot : root.stores = emptyBackup.payload) :
      buildMarker root [] emptyRestore.restoredAt = emptyMarker .pending := by
    simp only [buildMarker, emptyMarker, restoredLiveCells, inflightDispatch,
      fenceRollbacks, sortedSet, hroot, emptyBackup]
    simp
    rfl
  simp only [emptyWindow, afterRestore, place, placement, List.foldl,
    Step.apply, setRestoreStamp, writeMarker]
  rw [hmarker _ rfl]
  rfl

/-- The empty stores pass the validation. -/
theorem emptyWindow_validate :
    validate Evidence.sampleCodec true emptyWindow.root (emptyMarker .pending) =
      .ok () := by
  have hcoherent : coherenceProblems emptyWindow.root.stores.cells
      emptyWindow.root.stores.operations = [] := by
    simp [emptyWindow_root, emptyBackup, coherenceProblems, problems, effects]
  simp only [validate, hcoherent]
  rfl

/-- The window after the resume. -/
def resumedWindow : Window Unit Unit where
  root := writeMarker (emptyMarker .reconciling) (2, 2) emptyWindow.root
  gates := Function.update emptyWindow.gates 0
    (some { marker := some (emptyMarker .pending) })

theorem resumedWindow_eq :
    runFrom (step Evidence.sampleCodec) emptyWindow
      [.openGate 0, .resume 0 true (2, 2)] = resumedWindow := by
  have hread : readMarker emptyWindow.root {} =
      (.ok (some (emptyMarker .pending)),
        { stamp := some (1, 1), marker := some (emptyMarker .pending) }) := by
    rw [emptyWindow_root]
    rfl
  have hresume : resume Evidence.sampleCodec true (2, 2) emptyWindow.root {} =
      ((.ok (emptyMarker .reconciling),
          { marker := some (emptyMarker .pending) }),
        writeMarker (emptyMarker .reconciling) (2, 2) emptyWindow.root) := by
    rw [resume, hread]
    simp only [emptyWindow_validate]
    rfl
  have hflags : emptyWindow.accepted = false ∧ emptyWindow.succeeded = false :=
    ⟨rfl, rfl⟩
  simp [runFrom, step, withGate, wrote, hresume, resumedWindow, hflags]

/--
Resume, a `close` that crashes behind the reset of the stamp, and the deletion
of the marker.
-/
def crashedClose : List (Act Unit Unit) :=
  [.openGate 0, .resume 0 true (2, 2), .close 0 true (some 2), .deleteMarker,
    .openGate 1]

end Sample

end Window

end Runs

end Restore
end SwFactory
