import Mathlib.Data.Char
import Mathlib.Data.List.Lex
import SwFactory.Trace.Requirements

/-!
# The trace from requirements to test outcomes

A row for each requirement holds the outcomes of its planned tests; a blocker
is raised for each planned test that is not proven.  The outcome of a test does
not depend on the row it stands in, so a regrouping by test loses no row.

Source: `stages.py` (`matching_cases`, `_planned_outcome`, `requirement_trace`,
`_planned_by_test`, `trace_findings`).
-/

namespace SwFactory
namespace Trace

open Lexical
open Machine

/-- The outcome of a test case of a report. -/
inductive Outcome
  | passed
  | failed
  | error
  | skipped
deriving DecidableEq, Repr

inductive Status
  | failed
  | missing
  | skipped
  | unverified
  | passed
  | untested
deriving DecidableEq, Repr

/-- `TRACE_STATUSES` -/
def traceStatuses : List Status :=
  [.failed, .missing, .skipped, .unverified, .passed]

/-- `TRACE_STATUSES.index` -/
def Status.index (s : Status) : Nat :=
  traceStatuses.idxOf s

/-- `_TRACE_BLOCKING`, with what its findings say. -/
def Status.blocking : Status → Option String
  | .missing => some "has no such test case"
  | .skipped => some "reports it skipped, and a skipped test proves nothing"
  | .failed => some "reports it failed or errored"
  | _ => none

def Status.name : Status → String
  | .failed => "failed"
  | .missing => "missing"
  | .skipped => "skipped"
  | .unverified => "unverified"
  | .passed => "passed"
  | .untested => "untested"

abbrev Cases := Dict Text Outcome

structure Planned where
  test : Text
  status : Status
  cases : List Text
  caseCount : Nat
deriving DecidableEq, Repr

structure Row where
  requirement : RequirementId
  text : Text
  inSpec : Bool
  plannedTests : List Planned
  status : Status
deriving DecidableEq, Repr

section Matching

variable (α : Alphabet)

/-- The end of the name of a source file. -/
def sourceSuffix : Regex :=
  .chain [.lit ".",
    .anyOf [.lit "py", .chain [.maybe (.oneOf "cm"), .oneOf "jt", .lit "s", .maybe (.lit "x")]],
    .ahead (.anyOf [.lineEnd, .lit "::", .lit "/"])]

/-- `_name_tokens` -/
def nameTokens (text : Text) : List Text :=
  ((((Regex.alt (.lit "::") (.oneOf "/\\.")).split α.word (sourceSuffix.erase α.word text)).map
    strip).filter (fun part => !part.isEmpty))

/-- `case_name` -/
def caseName (caseId : Text) : Text :=
  beforeBracket (rpartition caseId).2

/-- Whether a planned test name stands for the case. -/
def denotes (test caseId : Text) : Bool :=
  let name := (rpartition test).2
  (if name.contains '[' then (rpartition caseId).2 else caseName caseId) == name &&
    (nameTokens α (rpartition test).1).isSuffixOf (nameTokens α (rpartition caseId).1)

/-- `matching_cases` -/
def matchingCases (test : Text) (cases : Cases) : List Text :=
  (cases.keys.mergeSort (fun a b => decide (a ≤ b))).filter (denotes α test)

/-- `_TRACE_MAX_CASES` -/
def traceMaxCases : Nat := 20

/-- `_planned_outcome` -/
def plannedOutcome (test : Text) : Option Cases → Planned
  | none => ⟨test, .unverified, [], 0⟩
  | some cases =>
      let matched := matchingCases α test cases
      let outcomes := matched.filterMap cases.get?
      let status : Status :=
        if matched = [] then .missing
        else if .failed ∈ outcomes ∨ .error ∈ outcomes then .failed
        else if .skipped ∈ outcomes then .skipped
        else .passed
      ⟨test, status, matched.take traceMaxCases, matched.length⟩

/-- `min(statuses, key=TRACE_STATUSES.index)`, or `untested`. -/
def worst : List Status → Status
  | [] => .untested
  | s :: rest => rest.foldl (fun a b => if b.index < a.index then b else a) s

/-- One row of the trace. -/
def traceRow (requirements : Dict RequirementId Text) (planned : Dict RequirementId (List Text))
    (cases : Option Cases) (rid : RequirementId) : Row :=
  let tests := ((planned.get? rid).getD []).map (fun test => plannedOutcome α test cases)
  ⟨rid, (requirements.get? rid).getD [], decide (rid ∈ requirements.keys), tests,
    worst (tests.map Planned.status)⟩

/-- The requirements of the spec, then those that only the plan has, by number. -/
def traceIds (requirements : Dict RequirementId Text) (planned : Dict RequirementId (List Text)) :
    List RequirementId :=
  requirements.keys ++ (planned.keys.filter (· ∉ requirements.keys)).mergeSort
    (fun a b => decide (a.number ≤ b.number))

/-- `requirement_trace` -/
def requirementTrace (specText : Text) (plan : Doc) (cases : Option Cases) :
    Except Failure (List Row) := do
  let requirements ← specRequirements α specText
  let planned ← planTestMap α plan
  .ok ((traceIds requirements planned).map (traceRow α requirements planned cases))

end Matching

/-! ## The findings -/

structure Finding where
  severity : String
  file : Text
  title : Text
  detail : Text
deriving DecidableEq, Repr

/-- `_planned_by_test` -/
def plannedByTest (rows : List Row) : Dict Text (Status × List RequirementId) :=
  rows.foldl (fun byTest row => row.plannedTests.foldl (fun byTest planned =>
    byTest.update planned.test (planned.status, [])
      (fun entry => (entry.1, entry.2 ++ [row.requirement]))) byTest) []

def RequirementId.text (rid : RequirementId) : Text :=
  'R' :: Nat.toDigits 10 rid.number

/-- The finding where no evidence was recorded for the head. -/
def noEvidence (head testsDir : Text) (tests : Nat) : Finding where
  severity := "blocker"
  file := testsDir
  title := "No per-test JUnit evidence for the reviewed HEAD".toList
  detail := "plan.json maps ".toList ++ Nat.toDigits 10 tests ++
    " acceptance test(s) to requirements, but no per-test ".toList ++
    "JUnit results were recorded for HEAD ".toList ++ head.take 12 ++
    " (missing, stale, summary-only or ".toList ++
    "ambiguous report). Acceptance tests cannot be verified, so review fails closed.".toList

/-- The finding for a planned test that is not proven. -/
def unproven (head testsDir : Text) (test : Text) (status : Status)
    (requirements : List RequirementId) (what : String) : Finding where
  severity := "blocker"
  file := testsDir
  title := "Acceptance test ".toList ++ status.name.toList ++ ": ".toList ++ test
  detail := ", ".toList.intercalate (requirements.map RequirementId.text) ++
    " is planned to be proven by `".toList ++ test ++ "`, but the JUnit report ".toList ++
    "for HEAD ".toList ++ head.take 12 ++ " ".toList ++ what.toList ++
    ". The requirement stays unproven until that test runs ".toList ++ "and passes.".toList

/-- `trace_findings` -/
def traceFindings (rows : List Row) (head testsDir : Text) (evidence : Bool) : List Finding :=
  let byTest := plannedByTest rows
  if byTest = [] then
    []
  else if !evidence then
    [noEvidence head testsDir byTest.length]
  else
    byTest.filterMap (fun entry => entry.2.1.blocking.map
      (unproven head testsDir entry.1 entry.2.1 entry.2.2))

/-! ## What a status says -/

section Outcomes

variable (α : Alphabet)

@[simp] theorem plannedOutcome_test (test : Text) (cases : Option Cases) :
    (plannedOutcome α test cases).test = test := by
  cases cases <;> rfl

theorem mem_matchingCases {test caseId : Text} {cases : Cases} :
    caseId ∈ matchingCases α test cases ↔ caseId ∈ cases.keys ∧ denotes α test caseId = true := by
  simp [matchingCases]

/-- A planned test that is not blocking has a case, and its cases passed. -/
theorem of_blocking_eq_none {test : Text} {cases : Cases}
    (h : (plannedOutcome α test (some cases)).status.blocking = none) :
    (∃ caseId ∈ cases.keys, denotes α test caseId = true) ∧
      ∀ caseId outcome, cases.get? caseId = some outcome → denotes α test caseId = true →
        outcome = .passed := by
  simp only [plannedOutcome] at h
  split at h
  · cases h
  · next hmatched =>
      split at h
      · cases h
      · next hfailed =>
          split at h
          · cases h
          · next hskipped =>
              constructor
              · obtain ⟨caseId, hcase⟩ := List.exists_mem_of_ne_nil _ hmatched
                exact ⟨caseId, (mem_matchingCases α).mp hcase⟩
              · intro caseId outcome hget hdenotes
                have hkey : caseId ∈ cases.keys :=
                  List.mem_map_of_mem (f := Prod.fst) (Dict.mem_of_get? hget)
                have hmem : outcome ∈ (matchingCases α test cases).filterMap cases.get? :=
                  List.mem_filterMap.mpr ⟨caseId, (mem_matchingCases α).mpr ⟨hkey, hdenotes⟩, hget⟩
                cases outcome with
                | passed => rfl
                | failed => exact absurd (.inl hmem) hfailed
                | error => exact absurd (.inr hmem) hfailed
                | skipped => exact absurd hmem hskipped

end Outcomes

/-! ## The worst status -/

theorem worst_mem {s : Status} {rest : List Status} : worst (s :: rest) ∈ s :: rest := by
  simp only [worst]
  induction rest generalizing s with
  | nil => exact List.mem_cons_self
  | cons b rest ih =>
      rw [List.foldl_cons]
      split
      · exact List.mem_cons_of_mem _ ih
      · rcases List.mem_cons.mp (@ih s) with h | h
        · rw [h]
          exact List.mem_cons_self
        · exact List.mem_cons_of_mem _ (List.mem_cons_of_mem _ h)

theorem worst_le {s : Status} {rest : List Status} :
    ∀ b ∈ s :: rest, (worst (s :: rest)).index ≤ b.index := by
  simp only [worst]
  induction rest generalizing s with
  | nil => simp
  | cons c rest ih =>
      intro b hb
      rw [List.foldl_cons]
      split
      · next hlt =>
          have hc := @ih c
          rcases List.mem_cons.mp hb with rfl | hb
          · exact le_trans (hc c List.mem_cons_self) hlt.le
          · exact hc b hb
      · next hle =>
          have hs := @ih s
          rcases List.mem_cons.mp hb with rfl | hb
          · exact hs b List.mem_cons_self
          · rcases List.mem_cons.mp hb with rfl | hb
            · exact le_trans (hs s List.mem_cons_self) (not_lt.mp hle)
            · exact hs b (List.mem_cons_of_mem _ hb)

/-- The status of a row among those of its tests. -/
def IsWorst (status : Status) (statuses : List Status) : Prop :=
  (statuses = [] ∧ status = .untested) ∨
    (status ∈ statuses ∧ ∀ s ∈ statuses, status.index ≤ s.index)

theorem isWorst_worst (statuses : List Status) : IsWorst (worst statuses) statuses := by
  cases statuses with
  | nil => exact .inl ⟨rfl, rfl⟩
  | cons s rest => exact .inr ⟨worst_mem, worst_le⟩

/-! ## What is read -/

section Reading

variable (α : Alphabet)

/-- What holds of the empty map and is kept by each added test holds of the map of a plan. -/
theorem planTestMap_induction {P : Dict RequirementId (List Text) → Prop}
    (hnil : P []) (hadd : ∀ mapped test rid, P mapped → P (addTest mapped test rid))
    {plan : Doc} {planned : Dict RequirementId (List Text)}
    (h : planTestMap α plan = .ok planned) : P planned := by
  have hids (test : Text) (ids : List RequirementId) :
      ∀ mapped, P mapped → P (ids.foldl (fun m rid => addTest m test rid) mapped) := by
    induction ids with
    | nil => exact fun _ h => h
    | cons rid ids ih => exact fun mapped h => ih _ (hadd mapped test rid h)
  have hentries (entries : List Doc) :
      ∀ mapped, P mapped →
        entries.foldlM (addEntry α) mapped = .ok planned → P planned := by
    induction entries with
    | nil =>
        intro mapped hmapped h
        cases h
        exact hmapped
    | cons entry entries ih =>
        intro mapped hmapped h
        rw [List.foldlM_cons] at h
        obtain ⟨next, hnext, h⟩ := bind_eq_ok h
        obtain ⟨⟨ids, test⟩, -, hnext⟩ := bind_eq_ok hnext
        cases hnext
        exact ih _ (hids test ids mapped hmapped) h
  cases plan with
  | mapping plan =>
      obtain ⟨entries, -, h⟩ := bind_eq_ok h
      exact hentries entries [] hnil h
  | scalar _ | text _ | list _ =>
      cases h
      exact hnil

theorem planTestMap_nodup {plan : Doc} {planned : Dict RequirementId (List Text)}
    (h : planTestMap α plan = .ok planned) : planned.keys.Nodup :=
  planTestMap_induction α (P := fun mapped => mapped.keys.Nodup) List.nodup_nil
    (fun _ _ rid h => Dict.nodup_update rid _ _ h) h

/-- A requirement is in the map only with a test. -/
theorem planTestMap_ne_nil {plan : Doc} {planned : Dict RequirementId (List Text)}
    (h : planTestMap α plan = .ok planned) : ∀ e ∈ planned, e.2 ≠ [] := by
  refine planTestMap_induction α (P := fun mapped => ∀ e ∈ mapped, e.2 ≠ [])
    (fun e he => absurd he List.not_mem_nil) ?_ h
  intro mapped test rid hmapped e he
  rcases Dict.mem_assign he with rfl | he
  · dsimp only
    split
    · next hmem => exact List.ne_nil_of_mem hmem
    · simp
  · exact hmapped e he

theorem Reading.line_nodup {r r' : Reading} {line : Text} (h : r.line α line = .ok r')
    (hr : r.found.keys.Nodup) : r'.found.keys.Nodup := by
  unfold Reading.line at h
  split at h
  · dsimp only at h
    split at h
    · cases h
      exact hr
    · cases h
      exact hr
  · split at h
    · cases h
      exact hr
    · split at h
      · cases h
        exact hr
      · split at h
        · obtain ⟨rid, -, h⟩ := bind_eq_ok h
          split at h
          · cases h
            exact hr
          · cases h
            exact Dict.nodup_assign _ _ hr
        · split at h
          · split at h
            · cases h
              exact Dict.nodup_assign _ _ hr
            · cases h
              exact hr
          · cases h
            exact hr

/-- A spec names each of its requirements once. -/
theorem specRequirements_nodup {specText : Text} {requirements : Dict RequirementId Text}
    (h : specRequirements α specText = .ok requirements) : requirements.keys.Nodup := by
  obtain ⟨last, hlast, h⟩ := bind_eq_ok h
  cases h
  have hlines (lines : List Text) :
      ∀ r : Reading, r.found.keys.Nodup → lines.foldlM (Reading.line α) r = .ok last →
        last.found.keys.Nodup := by
    induction lines with
    | nil =>
        intro r hr h
        cases h
        exact hr
    | cons line lines ih =>
        intro r hr h
        rw [List.foldlM_cons] at h
        obtain ⟨next, hnext, h⟩ := bind_eq_ok h
        exact ih next (Reading.line_nodup α hnext hr) h
  refine hlines _ _ ?_ hlast
  exact List.nodup_nil

end Reading

section Rows

variable {requirements : Dict RequirementId Text}
variable {planned : Dict RequirementId (List Text)}

theorem mem_traceIds {rid : RequirementId} :
    rid ∈ traceIds requirements planned ↔ rid ∈ requirements.keys ∨ rid ∈ planned.keys := by
  simp only [traceIds, List.mem_append, List.mem_mergeSort, List.mem_filter, decide_eq_true_eq]
  tauto

theorem traceIds_nodup (hspec : requirements.keys.Nodup) (hplan : planned.keys.Nodup) :
    (traceIds requirements planned).Nodup := by
  refine List.nodup_append.mpr ⟨hspec, ?_, fun rid hrid other hother heq => ?_⟩
  · exact (List.mergeSort_perm _ _).nodup_iff.mpr (hplan.filter _)
  · rw [List.mem_mergeSort, List.mem_filter] at hother
    exact of_decide_eq_true hother.2 (heq ▸ hrid)

end Rows

/-! ## The regrouping by test -/

/-- What the regrouping says of the tests it has gone through. -/
structure Regroups (byTest : Dict Text (Status × List RequirementId)) (seen : List Planned) :
    Prop where
  sound : ∀ e ∈ byTest, ∃ p ∈ seen, p.test = e.1 ∧ p.status = e.2.1
  complete : ∀ p ∈ seen, p.test ∈ byTest.keys

theorem Regroups.step {byTest : Dict Text (Status × List RequirementId)} {seen : List Planned}
    (h : Regroups byTest seen) (p : Planned) (rid : RequirementId) :
    Regroups (byTest.update p.test (p.status, []) (fun entry => (entry.1, entry.2 ++ [rid])))
      (seen ++ [p]) where
  sound := by
    intro e he
    rcases Dict.mem_assign he with rfl | he
    · cases hget : byTest.get? p.test with
      | none => exact ⟨p, by simp, rfl, rfl⟩
      | some entry =>
          obtain ⟨q, hq, htest, hstatus⟩ := h.sound _ (Dict.mem_of_get? hget)
          exact ⟨q, List.mem_append_left _ hq, htest, hstatus⟩
    · obtain ⟨q, hq, hsame⟩ := h.sound e he
      exact ⟨q, List.mem_append_left _ hq, hsame⟩
  complete := by
    intro q hq
    rw [Dict.update, Dict.keys_assign]
    rcases List.mem_append.mp hq with hq | hq
    · have hkey := h.complete q hq
      split
      · exact hkey
      · exact List.mem_append_left _ hkey
    · obtain rfl := List.mem_singleton.mp hq
      split
      · assumption
      · exact List.mem_append_right _ List.mem_cons_self

theorem Regroups.row {byTest : Dict Text (Status × List RequirementId)} {seen : List Planned}
    (h : Regroups byTest seen) (tests : List Planned) (rid : RequirementId) :
    Regroups (tests.foldl (fun byTest planned =>
      byTest.update planned.test (planned.status, [])
        (fun entry => (entry.1, entry.2 ++ [rid]))) byTest) (seen ++ tests) := by
  induction tests generalizing byTest seen with
  | nil =>
      rw [List.append_nil]
      exact h
  | cons p tests ih =>
      rw [List.append_cons]
      exact ih (h.step p rid)

theorem regroups_plannedByTest (rows : List Row) :
    Regroups (plannedByTest rows) (rows.flatMap Row.plannedTests) := by
  have hrows : ∀ (rows : List Row) byTest seen, Regroups byTest seen →
      Regroups (rows.foldl (fun byTest row => row.plannedTests.foldl (fun byTest planned =>
        byTest.update planned.test (planned.status, [])
          (fun entry => (entry.1, entry.2 ++ [row.requirement]))) byTest) byTest)
        (seen ++ rows.flatMap Row.plannedTests) := by
    intro rows
    induction rows with
    | nil =>
        intro byTest seen h
        rw [List.flatMap_nil, List.append_nil]
        exact h
    | cons row rows ih =>
        intro byTest seen h
        rw [List.flatMap_cons, ← List.append_assoc]
        exact ih _ _ (h.row row.plannedTests row.requirement)
  exact hrows rows [] [] ⟨fun e he => absurd he List.not_mem_nil,
    fun p hp => absurd hp List.not_mem_nil⟩

/-- Without findings, either there is no planned test, or there is evidence and no planned
test has a status that blocks. -/
theorem of_traceFindings_eq_nil {rows : List Row} {head testsDir : Text} {evidence : Bool}
    (h : traceFindings rows head testsDir evidence = []) :
    rows.flatMap Row.plannedTests = [] ∨
      (evidence = true ∧ ∀ p ∈ rows.flatMap Row.plannedTests,
        ∃ q ∈ rows.flatMap Row.plannedTests, q.test = p.test ∧ q.status.blocking = none) := by
  have hgroups := regroups_plannedByTest rows
  simp only [traceFindings] at h
  split at h
  · next hnil =>
      refine .inl (List.eq_nil_iff_forall_not_mem.mpr fun p hp => ?_)
      have hkey := hgroups.complete p hp
      rw [hnil] at hkey
      exact List.not_mem_nil hkey
  · split at h
    · cases h
    · next hevidence =>
        refine .inr ⟨by simpa using hevidence, fun p hp => ?_⟩
        obtain ⟨e, he, htest⟩ := List.mem_map.mp (hgroups.complete p hp)
        obtain ⟨q, hq, hsame, hstatus⟩ := hgroups.sound e he
        refine ⟨q, hq, hsame.trans htest, ?_⟩
        rw [List.filterMap_eq_nil_iff] at h
        rw [hstatus]
        exact Option.map_eq_none_iff.mp (h e he)

/-- The trace fails closed: without findings, each planned test has a case and its cases
passed.  Each requirement has one row, with the worst status of its tests. -/
theorem requirementTrace_fail_closed
    (α : Alphabet)
    (specText : Text)
    (plan : Doc)
    (cases : Option Cases)
    (head testsDir : Text)
    (requirements : Dict RequirementId Text)
    (planned : Dict RequirementId (List Text))
    (hspec : specRequirements α specText = .ok requirements)
    (hplan : planTestMap α plan = .ok planned) :
    ∃ rows, requirementTrace α specText plan cases = .ok rows ∧
      (traceFindings rows head testsDir cases.isSome = [] →
        planned = [] ∨
          ∃ outcomes, cases = some outcomes ∧
            ∀ rid tests, planned.get? rid = some tests → ∀ test ∈ tests,
              (∃ caseId ∈ outcomes.keys, denotes α test caseId = true) ∧
                ∀ caseId outcome, outcomes.get? caseId = some outcome →
                  denotes α test caseId = true → outcome = .passed) ∧
      (rows.map Row.requirement).Nodup ∧
      (∀ rid, rid ∈ rows.map Row.requirement ↔
        rid ∈ requirements.keys ∨ rid ∈ planned.keys) ∧
      ∀ row ∈ rows,
        row.plannedTests = ((planned.get? row.requirement).getD []).map
          (fun test => plannedOutcome α test cases) ∧
        IsWorst row.status (row.plannedTests.map Planned.status) := by
  have hids : ((traceIds requirements planned).map
      (traceRow α requirements planned cases)).map Row.requirement =
        traceIds requirements planned := by
    rw [List.map_map]
    exact List.map_id' _
  refine ⟨(traceIds requirements planned).map (traceRow α requirements planned cases),
    ?_, fun h => ?_, ?_, fun rid => ?_, fun row hrow => ?_⟩
  · rw [requirementTrace, hspec, hplan]
    rfl
  · have hrow {rid : RequirementId} {tests : List Text} (hget : planned.get? rid = some tests)
        {test : Text} (htest : test ∈ tests) :
        plannedOutcome α test cases ∈ ((traceIds requirements planned).map
          (traceRow α requirements planned cases)).flatMap Row.plannedTests := by
      have hkey : rid ∈ planned.keys :=
        List.mem_map_of_mem (f := Prod.fst) (Dict.mem_of_get? hget)
      refine List.mem_flatMap.mpr ⟨traceRow α requirements planned cases rid,
        List.mem_map_of_mem (mem_traceIds.mpr (.inr hkey)), ?_⟩
      rw [traceRow, hget]
      exact List.mem_map_of_mem htest
    rcases of_traceFindings_eq_nil h with hnone | ⟨hevidence, hproven⟩
    · refine .inl (List.eq_nil_iff_forall_not_mem.mpr fun e he => ?_)
      obtain ⟨test, htest⟩ := List.exists_mem_of_ne_nil _ (planTestMap_ne_nil α hplan e he)
      have hmem := hrow (Dict.get?_of_mem (planTestMap_nodup α hplan) he) htest
      rw [hnone] at hmem
      exact List.not_mem_nil hmem
    · obtain ⟨outcomes, rfl⟩ := Option.isSome_iff_exists.mp hevidence
      refine .inr ⟨outcomes, rfl, fun rid tests hget test htest => ?_⟩
      obtain ⟨q, hq, hsame, hstatus⟩ := hproven _ (hrow hget htest)
      obtain ⟨row, hmem, hq⟩ := List.mem_flatMap.mp hq
      obtain ⟨rid', -, rfl⟩ := List.mem_map.mp hmem
      obtain ⟨test', -, rfl⟩ := List.mem_map.mp hq
      rw [plannedOutcome_test, plannedOutcome_test] at hsame
      rw [hsame] at hstatus
      exact of_blocking_eq_none α hstatus
  · rw [hids]
    exact traceIds_nodup (specRequirements_nodup α hspec) (planTestMap_nodup α hplan)
  · rw [hids]
    exact mem_traceIds
  · obtain ⟨rid, -, rfl⟩ := List.mem_map.mp hrow
    exact ⟨rfl, isWorst_worst _⟩

/-- The characters of ASCII. -/
def ascii : Alphabet where
  word := fun c => c.isAlphanum || c == '_'
  digit := fun c => if c.isDigit then some (c.toNat - '0'.toNat) else none

/-- A plan whose only test ran twice, with one parameter each, and was skipped once. -/
theorem skipped_parameter_blocks :
    ∃ rows, requirementTrace ascii "# Requirements\nR1: b".toList
        (.mapping [("tests".toList, .list [.text "R1: test_a".toList])])
        (some [("t::test_a[1]".toList, .passed), ("t::test_a[2]".toList, .skipped)]) = .ok rows ∧
      traceFindings rows [] [] true ≠ [] := by
  obtain ⟨rows, hrows, hclosed, -⟩ := requirementTrace_fail_closed ascii
    "# Requirements\nR1: b".toList
    (.mapping [("tests".toList, .list [.text "R1: test_a".toList])])
    (some [("t::test_a[1]".toList, .passed), ("t::test_a[2]".toList, .skipped)]) [] []
    [(⟨1⟩, "b".toList)] [(⟨1⟩, ["test_a".toList])] (by rfl) (by rfl)
  refine ⟨rows, hrows, fun hnone => ?_⟩
  rcases hclosed hnone with h | ⟨outcomes, hsome, hproven⟩
  · cases h
  · cases hsome
    have hpassed := (hproven ⟨1⟩ ["test_a".toList] rfl "test_a".toList List.mem_cons_self).2
      "t::test_a[2]".toList .skipped rfl (by decide)
    cases hpassed

end Trace
end SwFactory
