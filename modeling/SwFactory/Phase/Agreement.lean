import SwFactory.Phase.Controllers
import Mathlib.Tactic.NormNum
import Mathlib.Tactic.Positivity

/-!
# Where the two phase controllers agree

Every threshold of a rounded signal is an even number of millionths.  Asked
from below, such a threshold gives the same answer under both roundings, also
at a tie.  One question is asked from above: the jam pressure of a crystal is
at most `0.25`.  At the tie just above it the two answers differ.
-/

namespace SwFactory
namespace Phase

open Arithmetic

/-- Both refuse, or both give the same phases and the same recommendation. -/
def Agree :
    Except String PhaseAssessment →
    Except Rust.PhaseControlError PhaseAssessment → Prop
  | .error _, .error _ => True
  | .ok a, .ok b =>
      a.rawPhase = b.rawPhase ∧
        a.phase = b.phase ∧
        a.recommendation = b.recommendation
  | _, _ => False

/-! ## The signals before they are rounded -/

/-- The weighted pressures of the queue, the resources and the debt. -/
def jamSum (o : PhaseObservation) : ℚ :=
  0.40 * o.queuePressure
    + 0.25 * o.resourcePressure
    + 0.35 * o.debtPressure
    + 0.15 * max o.queueAcceleration 0

def jam (o : PhaseObservation) : ℚ :=
  min 1 (jamSum o)

def order (o : PhaseObservation) : ℚ :=
  min 1
    (max 0
      (0.35 * o.coherence
        + 0.35 * o.evidenceCompleteness
        + 0.15 * (1 - o.candidateEntropy)
        + 0.15 * (1 - o.verifierDisagreement)))

def transition (o : PhaseObservation) : ℚ :=
  min 1
    (0.50 * o.verifierDisagreement
      + 0.20 * |o.queueAcceleration|
      + 0.20 * min (o.branchingRatio / 1.5) 1
      + 0.10 * o.contextPressure)

/-- The signals of the observation under one rounding. -/
def roundedSignals (round6 : ℚ → ℚ) (o : PhaseObservation) : PhaseSignals where
  orderParameter := round6 (order o)
  jamPressure := round6 (jam o)
  transitionPressure := round6 (transition o)
  branchingSupercritical := o.branchingRatio ≥ 1

theorem clamp_eq (value : ℚ) : Rust.clamp 0 1 value = min 1 (max 0 value) := by
  unfold Rust.clamp
  split
  · rename_i h
    rw [max_eq_left h.le]
    norm_num
  split
  · rename_i h h'
    rw [max_eq_right (not_lt.mp h), min_eq_left h'.le]
  · rename_i h h'
    rw [max_eq_right (not_lt.mp h), min_eq_right (not_lt.mp h')]

theorem validate_iff (o : PhaseObservation) :
    Python.validate o = .ok () ↔ Rust.validate o = .ok () := by
  unfold Python.validate Rust.validate
  cases o.unit.find? (fun field => ¬ (0 ≤ field.2 ∧ field.2 ≤ 1)) with
  | some field =>
      simp
  | none =>
      dsimp only
      split
      · simp
      split
      · simp
      · simp

/-! ## Both controllers on rounded signals -/

section Assessments

variable {o : PhaseObservation} {previous : Option FactoryPhase}

/-- The assessment that the signals lead to, in the factory. -/
def Python.conclude (o : PhaseObservation) (previous : Option FactoryPhase)
    (s : PhaseSignals) : PhaseAssessment where
  schemaVersion := 1
  authority := "search-only"
  observation := o
  previousPhase := previous
  rawPhase := Python.rawPhase o s
  phase := Python.withHysteresis (Python.rawPhase o s) previous o s
  signals := s
  recommendation :=
    Python.recommend
      (Python.mode (Python.withHysteresis (Python.rawPhase o s) previous o s) o s) o

/-- The assessment that the signals lead to, in the console. -/
def Rust.conclude (o : PhaseObservation) (previous : Option FactoryPhase)
    (s : PhaseSignals) : PhaseAssessment where
  schemaVersion := 1
  authority := "search-only"
  observation := o
  previousPhase := previous
  rawPhase := Rust.rawPhase o s
  phase := Rust.withHysteresis (Rust.rawPhase o s) previous o s
  signals := s
  recommendation :=
    Rust.recommendation
      (Rust.mode (Rust.withHysteresis (Rust.rawPhase o s) previous o s) o s) o

theorem Python.assess_of_valid (h : Python.validate o = .ok ()) :
    Python.assess o previous =
      .ok (Python.conclude o previous (roundedSignals Python.round6 o)) := by
  simp only [Python.assess, Python.signals, h]
  rfl

theorem Rust.assess_of_valid (h : Rust.validate o = .ok ()) :
    Rust.assess o previous =
      .ok (Rust.conclude o previous (roundedSignals Rust.round6 o)) := by
  have hsignals : Rust.signals o = .ok (roundedSignals Rust.round6 o) := by
    simp only [Rust.signals, h, clamp_eq, roundedSignals, jam, jamSum, order,
      transition, min_comm _ (1 : ℚ)]
    rfl
  simp only [Rust.assess, hsignals]
  rfl

theorem Python.assess_of_invalid (h : Python.validate o ≠ .ok ()) :
    ∃ e, Python.assess o previous = .error e := by
  cases hv : Python.validate o with
  | ok u =>
      exact absurd hv h
  | error e =>
      refine ⟨e, ?_⟩
      simp only [Python.assess, Python.signals, hv]
      rfl

theorem Rust.assess_of_invalid (h : Rust.validate o ≠ .ok ()) :
    ∃ e, Rust.assess o previous = .error e := by
  cases hv : Rust.validate o with
  | ok u =>
      exact absurd hv h
  | error e =>
      refine ⟨e, ?_⟩
      simp only [Rust.assess, Rust.signals, hv]
      rfl

end Assessments

/-! ## Thresholds -/

/-- A positive even number of millionths. -/
def EvenMicro (t : ℚ) : Prop :=
  ∃ n : Int, 0 < n ∧ n % 2 = 0 ∧ t * 10 ^ 6 = n

/-- No even threshold lies between the two values. -/
def SameSide (x y : ℚ) : Prop :=
  ∀ t, EvenMicro t → (t ≤ x ↔ t ≤ y)

theorem SameSide.lt {x y t : ℚ} (h : SameSide x y) (ht : EvenMicro t) :
    x < t ↔ y < t := by
  rw [← not_le, ← not_le, h t ht]

theorem sameSide_round6 (x : ℚ) : SameSide (Python.round6 x) (Rust.round6 x) := by
  rintro t ⟨n, hn, heven, ht⟩
  rw [Python.round6, Rust.round6, le_roundTo ht, le_roundTo ht,
    le_roundHalfEven_iff_le_roundHalfAway hn heven]

/-- Two records of signals on the same sides of every threshold. -/
structure SameSides (s s' : PhaseSignals) : Prop where
  order : SameSide s.orderParameter s'.orderParameter
  jam : SameSide s.jamPressure s'.jamPressure
  transition : SameSide s.transitionPressure s'.transitionPressure

theorem sameSides_rounded (o : PhaseObservation) :
    SameSides (roundedSignals Python.round6 o) (roundedSignals Rust.round6 o) where
  order := sameSide_round6 _
  jam := sameSide_round6 _
  transition := sameSide_round6 _

section Cascades

variable {o : PhaseObservation} {s s' : PhaseSignals}

/-- Where the crystal's upper bound is answered alike, the raw phases agree. -/
theorem rawPhase_eq (h : SameSides s s')
    (hupper : s.jamPressure ≤ 0.25 ↔ s'.jamPressure ≤ 0.25) :
    Python.rawPhase o s = Rust.rawPhase o s' := by
  have hjammed := h.jam 0.72 ⟨720000, by norm_num⟩
  have horder := h.order 0.85 ⟨850000, by norm_num⟩
  have htransition := h.transition 0.55 ⟨550000, by norm_num⟩
  simp only [Python.rawPhase, Rust.rawPhase, ge_iff_le, hjammed, horder, hupper,
    htransition]

theorem withHysteresis_eq (h : SameSides s s') (raw : FactoryPhase)
    (previous : Option FactoryPhase) :
    Python.withHysteresis raw previous o s = Rust.withHysteresis raw previous o s' := by
  have horder := h.order 0.78 ⟨780000, by norm_num⟩
  have hcrystal := h.jam.lt (t := 0.45) ⟨450000, by norm_num⟩
  have hjammed := h.jam 0.50 ⟨500000, by norm_num⟩
  have hglass := h.jam.lt (t := 0.70) ⟨700000, by norm_num⟩
  have hgas := h.jam.lt (t := 0.55) ⟨550000, by norm_num⟩
  have hcritical := h.transition 0.40 ⟨400000, by norm_num⟩
  have hliquid := h.transition.lt (t := 0.68) ⟨680000, by norm_num⟩
  cases previous with
  | none =>
      simp [Python.withHysteresis, Rust.withHysteresis]
  | some previous =>
      simp only [Python.withHysteresis, Rust.withHysteresis, ge_iff_le, horder,
        hcrystal, hjammed, hglass, hgas, hcritical, hliquid]
      cases previous <;> cases raw <;> simp

theorem mode_eq (h : SameSides s s') (phase : FactoryPhase) :
    Python.mode phase o s = Rust.mode phase o s' := by
  have horder := h.order 0.65 ⟨650000, by norm_num⟩
  have hjam := h.jam.lt (t := 0.45) ⟨450000, by norm_num⟩
  simp only [Python.mode, Rust.mode, ge_iff_le, horder, hjam]
  cases phase <;> simp

theorem recommend_eq (mode : ControlMode) :
    Python.recommend mode o = Rust.recommendation mode o := by
  cases mode <;> rfl

theorem conclude_agree {previous : Option FactoryPhase} (h : SameSides s s')
    (hraw : Python.rawPhase o s = Rust.rawPhase o s') :
    Agree (.ok (Python.conclude o previous s)) (.ok (Rust.conclude o previous s')) := by
  refine ⟨hraw, ?_, ?_⟩
  · simp only [Python.conclude, Rust.conclude, hraw, withHysteresis_eq h]
  · simp only [Python.conclude, Rust.conclude, hraw, withHysteresis_eq h, mode_eq h,
      recommend_eq]

end Cascades

/-! ## The tie -/

/-- Everything that makes a crystal but the bound on the jam pressure. -/
def Ordered (o : PhaseObservation) : Prop :=
  o.evidenceCompleteness ≥ 0.90
    ∧ o.coherence ≥ 0.85
    ∧ o.candidateEntropy ≤ 0.25
    ∧ o.verifierDisagreement ≤ 0.15
    ∧ o.branchingRatio < 1

instance (o : PhaseObservation) : Decidable (Ordered o) :=
  inferInstanceAs (Decidable (_ ∧ _))

/-- A crystal whose jam pressure is exactly half a millionth above its bound. -/
def AtTie (o : PhaseObservation) : Prop :=
  jamSum o = 0.2500005 ∧ Ordered o

instance (o : PhaseObservation) : Decidable (AtTie o) :=
  inferInstanceAs (Decidable (_ ∧ _))

section Tie

variable {o : PhaseObservation}

theorem jam_eq_iff : jam o = 0.2500005 ↔ jamSum o = 0.2500005 := by
  unfold jam
  constructor
  · intro h
    rcases min_choice 1 (jamSum o) with hmin | hmin
    · rw [hmin] at h
      norm_num at h
    · rw [hmin] at h
      exact h
  · intro h
    rw [h]
    norm_num

/-- Away from the tie the upper bound is answered alike. -/
theorem upper_iff (h : jamSum o ≠ 0.2500005) :
    Python.round6 (jam o) ≤ 0.25 ↔ Rust.round6 (jam o) ≤ 0.25 := by
  have hbound : (0.25 : ℚ) * 10 ^ 6 = ((250000 : Int) : ℚ) := by norm_num
  rw [Python.round6, Rust.round6, roundTo_le hbound, roundTo_le hbound]
  refine roundHalfEven_le_iff_roundHalfAway_le (by decide) (by decide) ?_
  intro htie
  apply h
  rw [← jam_eq_iff]
  have : jam o = ((250000 : Int) + 1 / 2) / 10 ^ 6 := by
    rw [← htie]
    field_simp
  rw [this]
  norm_num

theorem upper_tie (h : jamSum o = 0.2500005) :
    Python.round6 (jam o) ≤ 0.25 ∧ ¬ Rust.round6 (jam o) ≤ 0.25 := by
  have hbound : (0.25 : ℚ) * 10 ^ 6 = ((250000 : Int) : ℚ) := by norm_num
  have hjam : jam o * 10 ^ 6 = ((250000 : Int) : ℚ) + 1 / 2 := by
    rw [jam_eq_iff.mpr h]
    norm_num
  rw [Python.round6, Rust.round6, roundTo_le hbound, roundTo_le hbound, hjam]
  exact ⟨roundHalfEven_le_of_tie (by decide),
    not_le.mpr (lt_roundHalfAway_of_tie (by decide))⟩

/-- An ordered observation has the order parameter of a crystal. -/
theorem Ordered.order_le (h : Ordered o) :
    0.85 ≤ (roundedSignals Python.round6 o).orderParameter := by
  obtain ⟨hevidence, hcoherence, hentropy, hdisagreement, -⟩ := h
  have ht : (0.85 : ℚ) * 10 ^ 6 = ((850000 : Int) : ℚ) := by norm_num
  have horder : 0.85 ≤ order o := by
    refine le_min (by norm_num) (le_max_of_le_right ?_)
    linarith
  change 0.85 ≤ Python.round6 (order o)
  rw [Python.round6, le_roundTo ht, le_roundHalfEven_of_even (by decide)]
  push_cast
  linarith

/-- At the tie the factory sees a crystal and the console does not. -/
theorem AtTie.rawPhase_ne (h : AtTie o) :
    Python.rawPhase o (roundedSignals Python.round6 o) ≠
      Rust.rawPhase o (roundedSignals Rust.round6 o) := by
  obtain ⟨htie, hordered⟩ := h
  obtain ⟨hpython, hrust⟩ := upper_tie htie
  have horder := hordered.order_le
  obtain ⟨hevidence, hcoherence, hentropy, hdisagreement, hbranching⟩ := hordered
  have hnotJammed : ¬ ((roundedSignals Python.round6 o).jamPressure ≥ 0.72 ∨
      (o.branchingRatio ≥ 1.25 ∧ o.queuePressure ≥ 0.65)) := by
    rintro (hjam | ⟨hratio, -⟩)
    · change (0.72 : ℚ) ≤ Python.round6 (jam o) at hjam
      linarith
    · linarith
  have hcrystal : Python.rawPhase o (roundedSignals Python.round6 o) = .crystal := by
    rw [Python.rawPhase, if_neg hnotJammed]
    exact if_pos
      ⟨horder, hevidence, hcoherence, hentropy, hdisagreement, hpython, hbranching⟩
  rw [hcrystal]
  unfold Rust.rawPhase
  split
  · exact nofun
  split
  · rename_i hcond
    exact absurd hcond.2.2.2.2.2.1 hrust
  split
  · exact nofun
  split
  · exact nofun
  split
  · exact nofun
  · exact nofun

/-- Without the other marks of a crystal its upper bound is not asked. -/
theorem rawPhase_eq_of_not_ordered (h : ¬ Ordered o) :
    Python.rawPhase o (roundedSignals Python.round6 o) =
      Rust.rawPhase o (roundedSignals Rust.round6 o) := by
  have hsides := sameSides_rounded o
  have hjammed := hsides.jam 0.72 ⟨720000, by norm_num⟩
  have htransition := hsides.transition 0.55 ⟨550000, by norm_num⟩
  have hpython : ∀ s : PhaseSignals, ¬ (s.orderParameter ≥ 0.85
      ∧ o.evidenceCompleteness ≥ 0.90
      ∧ o.coherence ≥ 0.85
      ∧ o.candidateEntropy ≤ 0.25
      ∧ o.verifierDisagreement ≤ 0.15
      ∧ s.jamPressure ≤ 0.25
      ∧ o.branchingRatio < 1) := by
    rintro s ⟨-, hevidence, hcoherence, hentropy, hdisagreement, -, hbranching⟩
    exact h ⟨hevidence, hcoherence, hentropy, hdisagreement, hbranching⟩
  rw [Python.rawPhase, Rust.rawPhase, if_neg (hpython _), if_neg (hpython _)]
  simp only [ge_iff_le, hjammed, htransition]

end Tie

/-- A finished candidate behind a queue of exactly the tie's pressure. -/
def tiedObservation : PhaseObservation where
  candidateEntropy := 0
  coherence := 1
  mobility := 1
  queuePressure := 0.62500125
  queueAcceleration := 0
  resourcePressure := 0
  branchingRatio := 0
  evidenceCompleteness := 1
  contextPressure := 0
  debtPressure := 0
  verifierDisagreement := 0

end Phase
end SwFactory
