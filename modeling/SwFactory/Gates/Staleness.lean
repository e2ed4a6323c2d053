import SwFactory.Gates.Control

/-!
# Stale answers

An answer is compared with the time in the admission file, and an absent file
waves it through.  While a pin is only ever left together with its time, the
time is not earlier than the pin, and no answer from before the pin is
recorded.  A process that is killed between the two files leaves a pin without
its time.
-/

namespace SwFactory
namespace Gates

open Machine
open Text (Time)

variable {D : Type}

/-! ## What is claimed -/

/-- No recorded answer of a person is from before the pin it was recorded under. -/
def NoStaleAnswer (s : Run D) : Prop :=
  ∀ r ∈ s.recorded, r.approval.mode = .human →
    ∀ t, r.approval.respondedAt = some t → r.pinnedAt ≤ t

def Write.isPin : Write D → Bool
  | .pin _ => true
  | _ => false

def Write.isAdmittedAt : Write D → Bool
  | .admittedAt => true
  | _ => false

/-- A process that writes the pin lives until it has written its time. -/
def Unbroken [DecidableEq D] (digests : Digests D) (s : Run D) (act : Act D) : Prop :=
  (performed digests s act).any Write.isPin = true →
    (performed digests s act).any Write.isAdmittedAt = true

instance [DecidableEq D] (digests : Digests D) (s : Run D) (act : Act D) :
    Decidable (Unbroken digests s act) :=
  inferInstanceAs (Decidable (_ → _))

/-! ## The invariant -/

/-- A pin has its time, and the recorded answers are from after their pins. -/
structure Dated (s : Run D) : Prop where
  stamped : ∀ inputs, s.dir.pin = .holds inputs →
    ∃ t, s.dir.admittedAt = .holds t ∧ s.pinnedAt ≤ t
  recorded : ∀ r ∈ s.recorded, ∀ t, r.approval.respondedAt = some t → r.pinnedAt ≤ t

theorem dated_fresh (clock : Time) (artifacts : String → Option String) :
    Dated (Run.fresh (D := D) clock artifacts) where
  stamped := by
    intro inputs h
    cases h
  recorded := by
    intro r hr
    cases hr

theorem Dated.noStaleAnswer {s : Run D} (h : Dated s) : NoStaleAnswer s :=
  fun r hr _ t ht => h.recorded r hr t ht

/-- The writes that leave the pin, its time and the decisions alone. -/
def Write.Quiet : Write D → Prop
  | .pin _ | .admittedAt | .clearPin | .clearAdmittedAt | .approval _ _ => False
  | _ => True

theorem quiet_of_mem_bindingWrites {binding : Option CellBinding} {w : Write D}
    (hw : w ∈ bindingWrites binding) :
    w.Quiet := by
  cases binding with
  | none =>
      cases hw
  | some binding =>
      cases List.mem_singleton.mp hw
      trivial

theorem Write.Quiet.keeps {w : Write D} (hw : w.Quiet) (t : Time) {s : Run D}
    (h : Dated s) :
    Dated (w.perform t s) := by
  cases w with
  | pin | admittedAt | clearPin | clearAdmittedAt | approval =>
      exact hw.elim
  | digest | history | clearDigest | cell | artifact =>
      exact ⟨h.stamped, h.recorded⟩

/-- Without a pin there is nothing to date. -/
theorem Dated.of_absent {s s' : Run D} (h : Dated s)
    (hpin : s'.dir.pin = .absent) (hrecorded : s'.recorded = s.recorded) :
    Dated s' where
  stamped := by
    intro inputs hholds
    rw [hpin] at hholds
    cases hholds
  recorded := hrecorded ▸ h.recorded

section Steps

variable [DecidableEq D] {digests : Digests D}

/-- An admission that is not cut off leaves a dated pin. -/
theorem prepare_keeps {s : Run D} {ctx : Ctx} {elapsed : List Time}
    (hs : Dated s)
    (hunbroken : Unbroken digests s ⟨.prepare ctx, elapsed⟩) :
    Dated (step digests s ⟨.prepare ctx, elapsed⟩) := by
  unfold Unbroken performed at hunbroken
  unfold step
  simp only [Op.writes] at hunbroken ⊢
  cases hprepare : prepare digests s.dir ctx with
  | error e =>
      exact hs
  | ok writes =>
      rw [hprepare] at hunbroken
      obtain rfl | rfl := prepare_cases hprepare
      · exact performAll_invariant
          (fun w hw t s hs => (quiet_of_mem_bindingWrites hw).keeps t hs) elapsed hs
      · match elapsed with
        | [] =>
            simpa using hs
        | [a] | [a, b] =>
            -- the pin is there and its time is not
            simp [Write.isPin, Write.isAdmittedAt] at hunbroken
        | a :: b :: c :: rest =>
            simp only [performAll_cons]
            refine performAll_invariant (fun w hw t s hs => ?_) rest ?_
            · rcases List.mem_cons.mp hw with rfl | hw
              · exact Write.Quiet.keeps (w := .history _) trivial t hs
              · exact (quiet_of_mem_bindingWrites hw).keeps t hs
            · refine ⟨fun inputs _ => ⟨_, rfl, ?_⟩, hs.recorded⟩
              exact Nat.le_add_right_of_le (Nat.le_add_right (s.clock + a) b)

/-- A re-acceptance takes the pin away before its time. -/
theorem reaccept_keeps {s : Run D} {actor reason : String} {elapsed : List Time}
    (hs : Dated s) :
    Dated (step digests s ⟨.reaccept actor reason, elapsed⟩) := by
  unfold step
  simp only [Op.writes]
  cases hreaccept : reaccept digests s.dir actor reason with
  | error e =>
      exact hs
  | ok writes =>
      obtain ⟨record, rfl⟩ := reaccept_cases hreaccept
      match elapsed with
      | [] =>
          simpa using hs
      | [a] =>
          simp only [performAll_cons, performAll_nil]
          exact Write.Quiet.keeps (w := .history record) trivial a hs
      | [a, b] =>
          simp only [performAll_cons, performAll_nil]
          exact hs.of_absent rfl rfl
      | [a, b, c] =>
          simp only [performAll_cons, performAll_nil]
          exact hs.of_absent rfl rfl
      | a :: b :: c :: d :: rest =>
          simp only [performAll_cons, performAll_done]
          exact hs.of_absent rfl rfl

/-- Under a dated pin only answers from after the pin are recorded. -/
theorem record_keeps {s : Run D} {ctx : Ctx} {approval : Approval D}
    {elapsed : List Time}
    (hs : Dated s) :
    Dated (step digests s ⟨.record ctx approval, elapsed⟩) := by
  unfold step
  simp only [Op.writes]
  cases hrecord : recordApproval digests s.dir s.clock ctx approval with
  | error e =>
      exact hs
  | ok writes =>
      obtain ⟨artifact, digest, cellId, cellEpoch, managed, inputs, -, -, -, hpin,
        hdated, rfl⟩ := recordApproval_cases hrecord
      cases elapsed with
      | nil =>
          simpa using hs
      | cons a rest =>
          simp only [performAll_cons, performAll_done]
          refine ⟨hs.stamped, fun r hr t ht => ?_⟩
          rcases List.mem_append.mp hr with hr | hr
          · exact hs.recorded r hr t ht
          · cases List.mem_singleton.mp hr
            obtain ⟨stamp, hstamp, hle⟩ := hs.stamped inputs hpin
            have hgiven : approval.respondedAt = some t := ht
            have hnot := hdated (by simp [hgiven])
            simp only [answeredBeforeAdmission, admittedAt, hstamp, hgiven,
              decide_eq_false_iff_not, Nat.not_lt] at hnot
            exact Nat.le_trans hle hnot

theorem step_keeps {s : Run D} {act : Act D}
    (hs : Dated s)
    (hunbroken : Unbroken digests s act) :
    Dated (step digests s act) := by
  obtain ⟨op, elapsed⟩ := act
  cases op with
  | prepare ctx =>
      exact prepare_keeps hs hunbroken
  | reaccept actor reason =>
      exact reaccept_keeps hs
  | record ctx approval =>
      exact record_keeps hs
  | artifact path content =>
      refine performAll_invariant (fun w hw t s hs => ?_) elapsed hs
      cases List.mem_singleton.mp hw
      exact Write.Quiet.keeps (w := .artifact path content) trivial t hs
  | cell file =>
      refine performAll_invariant (fun w hw t s hs => ?_) elapsed hs
      cases List.mem_singleton.mp hw
      exact Write.Quiet.keeps (w := .cell file) trivial t hs

/-- **A stale answer never becomes current** while no admission is cut off
between the pin and its time. -/
theorem stale_answer_not_recorded
    (digests : Digests D)
    (clock : Time)
    (artifacts : String → Option String)
    (acts : List (Act D))
    (hunbroken :
      AlongRun (step digests) (Unbroken digests) (.fresh clock artifacts) acts) :
    EveryState (step digests) NoStaleAnswer (.fresh clock artifacts) acts := by
  have hdated : EveryState (step digests) Dated (.fresh clock artifacts) acts :=
    EveryState.of_step (fun s act hs hact => step_keeps hs hact)
      (dated_fresh clock artifacts) hunbroken
  rw [everyState_iff] at hdated ⊢
  exact fun pre post heq => (hdated pre post heq).noStaleAnswer

end Steps

/-! ## An admission that is cut off -/

namespace Interrupted

def digests : Digests String where
  artifact := id
  inputs := fun inputs => inputs.issue.body

/-- The context of a local run on an issue that reads `body`. -/
def ctx (body : String) : Ctx where
  cfg := ⟨fun _ => "local", none⟩
  host := ⟨fun _ => none, fun _ => none, [], "", ""⟩
  issue := ⟨"7", "an issue", body, []⟩
  blueprint := none
  binding := none

def artifacts : String → Option String :=
  fun path => if path = "plan.md" then some "the plan" else none

/-- The person's answer to the plan gate, from before the issue was edited. -/
def answer : Approval String :=
  .unbound .plan .approve "alice" .human 12 (some 5)

/--
The issue is edited, the inputs are re-accepted, and the worker that pins the
edited issue is killed behind its first write; the next one finds the pin.
-/
def acts : List (Act String) :=
  [⟨.prepare (ctx "as written"), [1, 1, 1, 1]⟩,
    ⟨.reaccept "op" "issue edited", [3, 1, 1, 1]⟩,
    ⟨.prepare (ctx "as edited"), [1]⟩,
    ⟨.prepare (ctx "as edited"), []⟩,
    ⟨.record (ctx "as edited") answer, [1]⟩]

end Interrupted

/-- The answer of time 5 is recorded under inputs that were pinned at time 11. -/
theorem interrupted_admission_records_stale_answer :
    ¬ EveryState (step Interrupted.digests) NoStaleAnswer
      (.fresh 0 Interrupted.artifacts) Interrupted.acts := by
  intro h
  have hlast := h.last _ List.mem_cons_self rfl 5 rfl
  have hle : (11 : Nat) ≤ 5 := hlast
  omega

/-- A run in which both admissions are carried through. -/
theorem stale_answer_not_recorded_after_edit :
    EveryState (step Interrupted.digests) NoStaleAnswer
      (.fresh 0 Interrupted.artifacts)
      [⟨.prepare (Interrupted.ctx "as written"), [1, 1, 1, 1]⟩,
        ⟨.reaccept "op" "issue edited", [3, 1, 1, 1]⟩,
        ⟨.prepare (Interrupted.ctx "as edited"), [1, 1, 1, 1]⟩,
        ⟨.record (Interrupted.ctx "as edited") Interrupted.answer, [1]⟩] :=
  stale_answer_not_recorded Interrupted.digests 0 Interrupted.artifacts _ (by decide)

end Gates
end SwFactory
