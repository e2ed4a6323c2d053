import SwFactory.Identities.Ids

/-!
# Evidence and verdicts

A report is resolved from its checks: one failure refutes, and a level counts
only if something at it passed and nothing at it failed or went unevaluated.

Source: `evidence.rs`.
-/

namespace SwFactory
namespace Verification

open Identities

/-- `EvidenceLevel` -/
inductive Level
  | reported
  | published
  | verified
deriving DecidableEq, Repr

/-- `EvidenceStatus` -/
inductive Status
  | pass
  | fail
  | skipped (reason : Str)
  | unavailable (reason : Str)
deriving DecidableEq, Repr

def Status.passed : Status → Bool
  | .pass => true
  | _ => false

def Status.refutes : Status → Bool
  | .fail => true
  | _ => false

def Status.isUnavailable : Status → Bool
  | .unavailable _ => true
  | _ => false

/-- One thing the verifier looked at. -/
structure Evidence where
  id : String
  level : Level
  status : Status
  detail : Str
  expected : Option Str
  actual : Option Str
deriving DecidableEq, Repr

namespace Evidence

/-- A check that held. -/
def pass (id : String) (level : Level) (detail : Str) : Evidence :=
  ⟨id, level, .pass, detail, none, none⟩

/-- A check that is contradicted. -/
def fail (id : String) (level : Level) (detail expected actual : Str) : Evidence :=
  ⟨id, level, .fail, detail, some expected, some actual⟩

/-- A check that does not apply. -/
def skipped (id : String) (level : Level) (reason : Str) : Evidence :=
  ⟨id, level, .skipped reason, reason, none, none⟩

/-- A check that applies and could not be run. -/
def unavailable (id : String) (level : Level) (reason : Str) : Evidence :=
  ⟨id, level, .unavailable reason, reason, none, none⟩

end Evidence

/-- `DeliveryRef` -/
structure DeliveryRef where
  branch : Str
  prUrl : Option Str
  headSha : Option Str
  baseSha : Option Str
  issueId : Str
  runId : Str
deriving DecidableEq, Repr

/-- `TestEvidence`, without the wall time. -/
structure TestEvidence where
  command : Str
  cwd : Str
  junitPath : Str
  exitCode : Int
  passed : Nat
  failed : Nat
  errors : Nat
  skipped : Nat
  reportValid : Bool
  ok : Bool
  timedOut : Bool
deriving DecidableEq, Repr

inductive Verdict
  | verified
  | verifiedBlocked
  | publishedOnly
  | reportedOnly
  | refuted
  | inconclusive
deriving DecidableEq, Repr

def Verdict.isVerified : Verdict → Bool
  | .verified | .verifiedBlocked => true
  | _ => false

structure DeliveryReport where
  delivery : DeliveryRef
  verdict : Verdict
  attained : Level
  workflowSucceeded : Bool
  branchPublished : Bool
  independentlyVerified : Bool
  checks : List Evidence
  tests : Option TestEvidence
deriving DecidableEq, Repr

/-- Something at the level passed, and nothing at it failed or went unevaluated. -/
def settled (checks : List Evidence) (level : Level) : Bool :=
  checks.any (fun c => c.level = level && c.status.passed) &&
    !checks.any (fun c => c.level = level && (c.status.refutes || c.status.isUnavailable))

def anyUnavailable (checks : List Evidence) (level : Level) : Bool :=
  checks.any (fun c => c.level = level && c.status.isUnavailable)

/-- `DeliveryReport::resolve` -/
def DeliveryReport.resolve (delivery : DeliveryRef) (checks : List Evidence)
    (tests : Option TestEvidence) (blocked : Bool) : DeliveryReport :=
  let refuted := checks.any (fun c => c.status.refutes)
  let reported := settled checks .reported
  let published := settled checks .published
  let testsOk := (tests.map TestEvidence.ok).getD true
  let verified := settled checks .verified && testsOk
  let verdict :=
    if refuted then
      .refuted
    else if verified then
      if blocked then .verifiedBlocked else .verified
    else if anyUnavailable checks .verified || anyUnavailable checks .published then
      .inconclusive
    else if published then
      .publishedOnly
    else if reported then
      .reportedOnly
    else
      .inconclusive
  let attained :=
    if verified then .verified else if published then .published else .reported
  ⟨delivery, verdict, attained, reported, published, verified, checks, tests⟩

/-! ## What a verdict says -/

/-- No check of the list failed. -/
def Unrefuted (checks : List Evidence) : Prop :=
  ∀ c ∈ checks, c.status ≠ .fail

/-- The checks carry the verdict, with the tests that were run. -/
structure Carries (checks : List Evidence) (tests : Option TestEvidence) : Prop where
  some_pass : ∃ c ∈ checks, c.level = .verified ∧ c.status = .pass
  evaluated : ∀ c ∈ checks, c.level = .verified →
    c.status ≠ .fail ∧ c.status.isUnavailable = false
  tests : ∀ t ∈ tests, t.ok = true

theorem Status.refutes_iff {status : Status} : status.refutes = true ↔ status = .fail := by
  cases status <;> simp [Status.refutes]

theorem Status.passed_iff {status : Status} : status.passed = true ↔ status = .pass := by
  cases status <;> simp [Status.passed]

theorem any_refutes_iff {checks : List Evidence} :
    checks.any (fun c => c.status.refutes) = false ↔ Unrefuted checks := by
  simp only [List.any_eq_false, Status.refutes_iff]
  rfl

theorem carries_iff {checks : List Evidence} {tests : Option TestEvidence} :
    (settled checks .verified && (tests.map TestEvidence.ok).getD true) = true ↔
      Carries checks tests := by
  have htests : (tests.map TestEvidence.ok).getD true = true ↔ ∀ t ∈ tests, t.ok = true := by
    cases tests <;> simp
  rw [Bool.and_eq_true, htests, settled, Bool.and_eq_true, Bool.not_eq_true', List.any_eq_false,
    List.any_eq_true]
  constructor
  · rintro ⟨⟨⟨c, hc, hpass⟩, hnone⟩, hok⟩
    simp only [Bool.and_eq_true, decide_eq_true_eq, Status.passed_iff] at hpass
    refine ⟨⟨c, hc, hpass⟩, fun c hc hlevel => ?_, hok⟩
    have hno := hnone c hc
    simp only [hlevel, decide_true, Bool.true_and, Bool.or_eq_true, not_or, Status.refutes_iff,
      Bool.not_eq_true] at hno
    exact hno
  · rintro ⟨⟨c, hc, hpass⟩, hall, hok⟩
    refine ⟨⟨⟨c, hc, by simpa [Status.passed_iff] using hpass⟩, fun c hc hbad => ?_⟩, hok⟩
    simp only [Bool.and_eq_true, decide_eq_true_eq, Bool.or_eq_true, Status.refutes_iff] at hbad
    obtain ⟨hlevel, hbad⟩ := hbad
    have hgood := hall c hc hlevel
    rcases hbad with hbad | hbad
    · exact hgood.1 hbad
    · rw [hgood.2] at hbad
      cases hbad

/-- A verdict is one of the two verified ones if nothing failed and the tests carry it. -/
theorem isVerified_iff {delivery : DeliveryRef} {checks : List Evidence}
    {tests : Option TestEvidence} {blocked : Bool} :
    (DeliveryReport.resolve delivery checks tests blocked).verdict.isVerified = true ↔
      Unrefuted checks ∧ Carries checks tests := by
  rw [← any_refutes_iff, ← carries_iff]
  unfold DeliveryReport.resolve
  dsimp only
  split
  · rename_i hrefuted
    simp [Verdict.isVerified, hrefuted]
  · rename_i hrefuted
    rw [Bool.not_eq_true] at hrefuted
    split
    · rename_i hverified
      have hshown : (if blocked = true then Verdict.verifiedBlocked
          else Verdict.verified).isVerified = true := by
        cases blocked <;> rfl
      exact iff_of_true hshown ⟨hrefuted, hverified⟩
    · rename_i hverified
      have hother : ∀ a b c : Bool, (if a = true then Verdict.inconclusive
          else if b = true then Verdict.publishedOnly
          else if c = true then Verdict.reportedOnly
          else Verdict.inconclusive).isVerified = false := by decide
      refine iff_of_false ?_ fun h => hverified h.2
      simp only [hother, Bool.false_eq_true, not_false_iff]

theorem refuted_of_fail {delivery : DeliveryRef} {checks : List Evidence}
    {tests : Option TestEvidence} {blocked : Bool} (h : ¬ Unrefuted checks) :
    (DeliveryReport.resolve delivery checks tests blocked).verdict = .refuted := by
  rw [← any_refutes_iff, Bool.not_eq_false] at h
  unfold DeliveryReport.resolve
  dsimp only
  rw [if_pos h]

end Verification
end SwFactory
