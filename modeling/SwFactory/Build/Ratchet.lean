import SwFactory.Work.Graph
import Mathlib.Data.Finset.Card

/-!
# The repair ratchet

What a run of the test suite reports, and whether a repair candidate may replace
the best candidate so far.

The best result so far is replaced exactly when `ratchet` keeps the candidate.
Over any sequence of results its report stays valid, and the number of passing
tests never falls; it grows where a candidate is kept although it lost a test
or reports other tests.

Sources: `models.py` (`TestResult`) and `stages.py` (`ratchet`).
-/

namespace SwFactory
namespace Build

structure TestResult where
  passed : Nat := 0
  failed : Nat := 0
  errors : Nat := 0
  skipped : Nat := 0
  exitCode : Int
  reportValid : Bool := true
  nonpassingCases : List String := []
  casesDigest : Option String := none
deriving DecidableEq, Repr

def TestResult.total (t : TestResult) : Nat :=
  t.passed + t.failed + t.errors + t.skipped

def TestResult.ok (t : TestResult) : Bool :=
  t.reportValid && decide (0 < t.total) && decide (0 < t.passed) &&
    decide (t.exitCode = 0) && decide (t.failed = 0) && decide (t.errors = 0)

/-- `RATCHET_GAIN_PER_LOSS`. -/
def gainPerLoss : Nat := 3

/-- `RATCHET_EVIDENCE_IDS`. -/
def evidenceIds : Nat := 20

structure Evidence where
  kept : Bool
  reason : String
  lost : List String
  gained : List String
  lostCount : Nat
  gainedCount : Nat
  bestPassed : Nat
  candidatePassed : Nat
deriving DecidableEq, Repr

/-- The `verdict` closure of `ratchet`. -/
def verdict (best cand : TestResult) (lost gained : List String)
    (keep : Bool) (reason : String) : Evidence where
  kept := keep
  reason := reason
  lost := lost.take evidenceIds
  gained := gained.take evidenceIds
  lostCount := lost.length
  gainedCount := gained.length
  bestPassed := best.passed
  candidatePassed := cand.passed

/-- `ratchet`. -/
def ratchet (best cand : TestResult) : Evidence :=
  if !cand.reportValid then
    verdict best cand [] [] false "the candidate left no valid JUnit report"
  else if !best.reportValid then
    verdict best cand [] [] true
      "the best-so-far had no valid JUnit report; any valid report improves on it"
  else
    match best.casesDigest, cand.casesDigest with
    | some before, some after =>
        if before ≠ after then
          let keep := decide (best.passed < cand.passed)
          verdict best cand [] [] keep
            ("the test universe changed (the report names different test ids); " ++
              "passed " ++ toString best.passed ++ " -> " ++
              toString cand.passed ++ ", " ++
              (if keep then "strictly more" else "not strictly more"))
        else
          let lost := Work.sortedSet (cand.nonpassingCases.filter fun c =>
            decide (c ∉ best.nonpassingCases))
          let gained := Work.sortedSet (best.nonpassingCases.filter fun c =>
            decide (c ∉ cand.nonpassingCases))
          if lost = [] then
            verdict best cand lost gained true
              ("lost no passing test, gained " ++ toString gained.length)
          else
            let keep := decide (gainPerLoss * lost.length ≤ gained.length)
            verdict best cand lost gained keep
              ("lost " ++ toString lost.length ++ ", gained " ++
                toString gained.length ++ " (" ++
                (if keep then ">=" else "<") ++ " " ++ toString gainPerLoss ++
                " per test lost)")
    | _, _ =>
        verdict best cand [] [] (decide (best.passed ≤ cand.passed))
          ("no per-test ids to compare; passed " ++ toString best.passed ++
            " -> " ++ toString cand.passed)

/-! ## The ratchet never loses ground -/

open Work (sortedSet)

section Monotone

/-- The best result once the candidate has been judged. -/
def judgeBest (best cand : TestResult) : TestResult :=
  if (ratchet best cand).kept then cand else best

/-- The best result after the candidates. -/
def bestAfter (first : TestResult) (cands : List TestResult) : TestResult :=
  cands.foldl judgeBest first

/-- The counts agree with the ids: `ids` gives the ids that a digest stands for. -/
def Agrees (ids : String → Finset String) (t : TestResult) : Prop :=
  ∀ digest, t.casesDigest = some digest →
    t.passed + t.nonpassingCases.toFinset.card = (ids digest).card

/-- Over the same test ids, a test that passed does not pass any more. -/
def LostPassing (best cand : TestResult) : Prop :=
  ∃ digest, best.casesDigest = some digest ∧ cand.casesDigest = some digest ∧
    ∃ test ∈ cand.nonpassingCases, test ∉ best.nonpassingCases

/-- The reports name different test ids. -/
def IdsChanged (best cand : TestResult) : Prop :=
  ∃ before after, best.casesDigest = some before ∧ cand.casesDigest = some after ∧
    before ≠ after

/-- The tests that do not pass in the first list and do in the second. -/
abbrev only (xs ys : List String) : List String :=
  sortedSet (xs.filter fun c => decide (c ∉ ys))

theorem length_only (xs ys : List String) :
    (only xs ys).length = (xs.toFinset \ ys.toFinset).card := by
  have hfilter : (xs.filter fun c => decide (c ∉ ys)).toFinset = xs.toFinset \ ys.toFinset := by
    ext c
    simp
  rw [only, sortedSet, List.length_insertionSort, ← List.card_toFinset, hfilter]

/-- What is lost and what is gained make up for the difference. -/
theorem card_add_length_only (xs ys : List String) :
    xs.toFinset.card + (only ys xs).length = ys.toFinset.card + (only xs ys).length := by
  rw [length_only, length_only, Nat.add_comm, Finset.card_sdiff_add_card,
    Nat.add_comm ys.toFinset.card, Finset.card_sdiff_add_card, Finset.union_comm]

/-- How a candidate is kept against a valid best. -/
theorem kept_cases {best cand : TestResult} (hbest : best.reportValid = true)
    (h : (ratchet best cand).kept = true) :
    cand.reportValid = true ∧
      ((IdsChanged best cand ∧ best.passed < cand.passed) ∨
        (∃ digest, best.casesDigest = some digest ∧ cand.casesDigest = some digest ∧
          (only cand.nonpassingCases best.nonpassingCases = [] ∨
            gainPerLoss * (only cand.nonpassingCases best.nonpassingCases).length ≤
              (only best.nonpassingCases cand.nonpassingCases).length)) ∨
        ((best.casesDigest = none ∨ cand.casesDigest = none) ∧
          best.passed ≤ cand.passed)) := by
  unfold ratchet at h
  split at h
  · cases h
  next hcand =>
  refine ⟨by simpa using hcand, ?_⟩
  rw [hbest, Bool.not_true, if_neg Bool.false_ne_true] at h
  split at h
  · next before after hbefore hafter =>
      split at h
      · next hne =>
          exact Or.inl ⟨⟨before, after, hbefore, hafter, hne⟩, of_decide_eq_true h⟩
      · next heq =>
          obtain rfl := not_not.mp heq
          refine Or.inr (Or.inl ⟨before, hbefore, hafter, ?_⟩)
          dsimp only at h
          split at h
          · next hlost => exact Or.inl hlost
          · exact Or.inr (of_decide_eq_true h)
  · next hnone =>
      refine Or.inr (Or.inr ⟨?_, of_decide_eq_true h⟩)
      cases hdigest : best.casesDigest with
      | none => exact Or.inl rfl
      | some before =>
          cases hdigest' : cand.casesDigest with
          | none => exact Or.inr rfl
          | some after => exact absurd hdigest' (hnone before after hdigest)

variable {ids : String → Finset String} {best cand : TestResult}

/-- Over the same ids, the passing tests make up for what does not pass. -/
theorem passed_add_only (hbest : Agrees ids best) (hcand : Agrees ids cand)
    {digest : String} (h : best.casesDigest = some digest) (h' : cand.casesDigest = some digest) :
    cand.passed + (only cand.nonpassingCases best.nonpassingCases).length =
      best.passed + (only best.nonpassingCases cand.nonpassingCases).length := by
  have hbefore := hbest digest h
  have hafter := hcand digest h'
  have hsum := card_add_length_only cand.nonpassingCases best.nonpassingCases
  omega

/-- **One judgement** against a valid best. -/
theorem kept_passed (hbest : Agrees ids best) (hcand : Agrees ids cand)
    (hvalid : best.reportValid = true) (h : (ratchet best cand).kept = true) :
    cand.reportValid = true ∧ best.passed ≤ cand.passed ∧
      (LostPassing best cand ∨ IdsChanged best cand → best.passed < cand.passed) := by
  obtain ⟨hcandvalid, hcases⟩ := kept_cases hvalid h
  refine ⟨hcandvalid, ?_⟩
  rcases hcases with ⟨-, hlt⟩ | ⟨digest, hb, hc, hcount⟩ | ⟨hnone, hle⟩
  · exact ⟨hlt.le, fun _ => hlt⟩
  · have hsum := passed_add_only hbest hcand hb hc
    have hsame : ¬ IdsChanged best cand := by
      rintro ⟨before, after, hbefore, hafter, hne⟩
      rw [hb] at hbefore
      rw [hc] at hafter
      cases hbefore
      cases hafter
      exact hne rfl
    have hlost : LostPassing best cand →
        0 < (only cand.nonpassingCases best.nonpassingCases).length := by
      rintro ⟨-, -, -, test, htest, hnot⟩
      exact List.length_pos_of_mem (Work.mem_sortedSet.mpr (List.mem_filter.mpr
        ⟨htest, decide_eq_true hnot⟩))
    rcases hcount with hnil | hgain
    · rw [hnil, List.length_nil] at hsum hlost
      refine ⟨by omega, ?_⟩
      rintro (hl | hi)
      · exact absurd (hlost hl) (lt_irrefl 0)
      · exact absurd hi hsame
    · rw [gainPerLoss] at hgain
      refine ⟨by omega, ?_⟩
      rintro (hl | hi)
      · have := hlost hl
        omega
      · exact absurd hi hsame
  · refine ⟨hle, ?_⟩
    rintro (⟨digest, hb, hc, -⟩ | ⟨before, after, hb, hc, -⟩)
    · rw [hb, hc] at hnone
      rcases hnone with hnone | hnone <;> cases hnone
    · rw [hb, hc] at hnone
      rcases hnone with hnone | hnone <;> cases hnone

theorem judgeBest_cases (best cand : TestResult) :
    ((ratchet best cand).kept = true ∧ judgeBest best cand = cand) ∨
      ((ratchet best cand).kept = false ∧ judgeBest best cand = best) := by
  unfold judgeBest
  cases (ratchet best cand).kept with
  | true => exact Or.inl ⟨rfl, rfl⟩
  | false => exact Or.inr ⟨rfl, rfl⟩

theorem agrees_bestAfter {first : TestResult} {cands : List TestResult}
    (h : ∀ t ∈ first :: cands, Agrees ids t) : Agrees ids (bestAfter first cands) := by
  induction cands generalizing first with
  | nil => exact h first List.mem_cons_self
  | cons cand cands ih =>
      refine ih (List.forall_mem_cons.mpr ⟨?_, fun t ht => h t (by simp [ht])⟩)
      rcases judgeBest_cases first cand with ⟨-, heq⟩ | ⟨-, heq⟩
      · rw [heq]
        exact h cand (by simp)
      · rw [heq]
        exact h first (by simp)

/-- **Any number of judgements** against a valid best. -/
theorem bestAfter_passed {first : TestResult} {cands : List TestResult}
    (h : ∀ t ∈ first :: cands, Agrees ids t) (hvalid : first.reportValid = true) :
    (bestAfter first cands).reportValid = true ∧
      first.passed ≤ (bestAfter first cands).passed := by
  induction cands generalizing first with
  | nil => exact ⟨hvalid, le_rfl⟩
  | cons cand cands ih =>
      have hfirst := h first (by simp)
      have hcand := h cand (by simp)
      have hrest : ∀ t ∈ cands, Agrees ids t := fun t ht => h t (by simp [ht])
      change (bestAfter (judgeBest first cand) cands).reportValid = true ∧
        first.passed ≤ (bestAfter (judgeBest first cand) cands).passed
      rcases judgeBest_cases first cand with ⟨hkept, heq⟩ | ⟨-, heq⟩
      · obtain ⟨hcandvalid, hle, -⟩ := kept_passed hfirst hcand hvalid hkept
        rw [heq]
        obtain ⟨hlast, hmore⟩ := ih (List.forall_mem_cons.mpr ⟨hcand, hrest⟩) hcandvalid
        exact ⟨hlast, hle.trans hmore⟩
      · rw [heq]
        exact ih (List.forall_mem_cons.mpr ⟨hfirst, hrest⟩) hvalid

/--
Fold the ratchet over any sequence of results whose counts agree with their
ids.  From a best with a valid report on, every later best has a valid report
and at least as many passing tests; a candidate that is kept although it lost a
passing test over the same ids, or although the ids changed, has more.
-/
theorem ratchet_never_loses_ground
    (ids : String → Finset String)
    (first : TestResult)
    (before between after : List TestResult)
    (hagree : ∀ t ∈ first :: (before ++ between ++ after), Agrees ids t)
    (hvalid : (bestAfter first before).reportValid = true) :
    (bestAfter first (before ++ between)).reportValid = true ∧
      (bestAfter first before).passed ≤ (bestAfter first (before ++ between)).passed ∧
      ∀ cand rest, after = cand :: rest →
        (ratchet (bestAfter first (before ++ between)) cand).kept = true →
        LostPassing (bestAfter first (before ++ between)) cand ∨
          IdsChanged (bestAfter first (before ++ between)) cand →
        (bestAfter first (before ++ between)).passed <
          (bestAfter first (before ++ between ++ [cand])).passed := by
  have hbefore : Agrees ids (bestAfter first before) :=
    agrees_bestAfter fun t ht => hagree t (by
      rcases List.mem_cons.mp ht with rfl | ht
      · exact List.mem_cons_self
      · simp [ht])
  have hbest : Agrees ids (bestAfter first (before ++ between)) :=
    agrees_bestAfter fun t ht => hagree t (by
      rcases List.mem_cons.mp ht with rfl | ht
      · exact List.mem_cons_self
      · exact List.mem_cons_of_mem _ (List.mem_append_left _ ht))
  have hsplit : bestAfter first (before ++ between) =
      bestAfter (bestAfter first before) between := by
    rw [bestAfter, List.foldl_append, bestAfter, bestAfter]
  have hagrees : ∀ t ∈ bestAfter first before :: between, Agrees ids t :=
    List.forall_mem_cons.mpr ⟨hbefore, fun t ht => hagree t (by simp [ht])⟩
  obtain ⟨hstays, hmore⟩ := bestAfter_passed hagrees hvalid
  rw [← hsplit] at hstays hmore
  refine ⟨hstays, hmore, ?_⟩
  rintro cand rest rfl hkept hchange
  have hcand : Agrees ids cand := hagree cand (by simp)
  have hlast : bestAfter first (before ++ between ++ [cand]) = cand := by
    rw [bestAfter, List.foldl_append]
    exact if_pos hkept
  rw [hlast]
  exact (kept_passed hbest hcand hstays hkept).2.2 hchange

/-- Three tests of four do not pass. -/
def threeFailing : TestResult where
  passed := 1
  failed := 3
  exitCode := 1
  nonpassingCases := ["b", "c", "d"]
  casesDigest := some "abcd"

/-- The three are repaired, and the fourth is broken. -/
def oneFailing : TestResult where
  passed := 3
  failed := 1
  exitCode := 1
  nonpassingCases := ["a"]
  casesDigest := some "abcd"

/-- A candidate that repairs three tests and breaks one is kept. -/
theorem ratchet_trades_three_for_one :
    (bestAfter threeFailing []).passed < (bestAfter threeFailing [oneFailing]).passed :=
  (ratchet_never_loses_ground (fun _ => {"a", "b", "c", "d"}) threeFailing [] [] [oneFailing]
    (by
      have hcounts : ∀ t ∈ [threeFailing, oneFailing],
          t.passed + t.nonpassingCases.toFinset.card =
            ({"a", "b", "c", "d"} : Finset String).card := by decide
      exact fun t ht _ _ => hcounts t ht)
    rfl).2.2 oneFailing [] rfl (by decide)
    (Or.inl ⟨"abcd", rfl, rfl, "a", by simp [oneFailing], by decide⟩)

end Monotone

end Build
end SwFactory
