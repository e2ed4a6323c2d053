import SwFactory.Junit.Readers
import SwFactory.Machine.Fallible
import Mathlib.Data.List.Nodup
import Mathlib.Tactic.Common

/-!
# Where the two readers of a JUnit report agree

`casesOf` lists the cases below an element with the ids `_junit_cases` gives
them; a walk succeeds exactly when these ids are distinct, and then it returns
that list.  `_parse_junit` counts the same cases, and on top of them the tests
that a suite without members declares.  So a mapping is the whole suite unless
such a suite declares tests.
-/

namespace SwFactory
namespace Junit

mutual

/-- The cases at and below an element, as `walk` names them. -/
def casesOf (path : List String) : Element → Cases
  | .node tag attrib children =>
      let child := Element.node tag attrib children
      if isContainer child then casesAll (path ++ [attr child "name"]) children
      else if isCase child then [(caseId path child, outcomeOf child)]
      else []

def casesAll (path : List String) : List Element → Cases
  | [] => []
  | child :: rest => casesOf path child ++ casesAll path rest

end

/-- The cases of a report. -/
def reportCases (root : Element) : Cases :=
  casesAll (startPath root) root.children

mutual

/-- The suites at and below an element that hold neither a suite nor a case. -/
def emptySuites : Element → List Element
  | .node tag attrib children =>
      let element := Element.node tag attrib children
      if isCase element then []
      else if children.any isMember then emptyAll children
      else [element]

def emptyAll : List Element → List Element
  | [] => []
  | child :: rest =>
      (if isMember child then emptySuites child else []) ++ emptyAll rest

end

/-- The ids of the cases are distinct. -/
def Cases.Distinct (cases : Cases) : Prop :=
  (cases.map Prod.fst).Nodup

instance (cases : Cases) : Decidable cases.Distinct :=
  inferInstanceAs (Decidable (cases.map Prod.fst).Nodup)

section Walk

theorem Cases.Distinct.of_append {cases more : Cases}
    (h : Cases.Distinct (cases ++ more)) : cases.Distinct := by
  unfold Cases.Distinct at h ⊢
  rw [List.map_append] at h
  exact h.of_append_left

/-- One more case is refused exactly when its id is taken. -/
theorem distinct_concat_iff {cases : Cases} (hcases : cases.Distinct)
    (id : String) (outcome : Outcome) :
    Cases.Distinct (cases ++ [(id, outcome)]) ↔
      (cases.lookup id).isSome = false := by
  have htaken : (cases.lookup id).isSome = false ↔ id ∉ cases.map Prod.fst := by
    rw [Option.isSome_eq_false_iff, Option.isNone_iff_eq_none,
      List.lookup_eq_none_iff]
    simp only [bne_iff_ne, List.mem_map, not_exists, not_and, ne_eq]
    exact ⟨fun h p hp he => h p hp he.symm, fun h p hp he => h p hp he.symm⟩
  unfold Cases.Distinct at hcases ⊢
  rw [htaken, List.map_append, List.nodup_append']
  simp [hcases]

mutual

/-- A walk returns all cases below the element if no id occurs twice. -/
theorem walk_eq (path : List String) :
    (element : Element) → (cases : Cases) → cases.Distinct →
      walk path element cases =
        if Cases.Distinct (cases ++ casesOf path element) then
          some (cases ++ casesOf path element)
        else none
  | .node tag attrib children, cases, hcases => by
      unfold walk casesOf
      by_cases hcontainer : isContainer (.node tag attrib children)
      · simp only [hcontainer, if_true]
        exact walkAll_eq _ children cases hcases
      · by_cases hcase : isCase (.node tag attrib children)
        · have hconcat := distinct_concat_iff hcases
            (caseId path (.node tag attrib children))
            (outcomeOf (.node tag attrib children))
          simp only [hcontainer, hcase, if_true, if_false, hconcat,
            Bool.false_eq_true]
          cases (cases.lookup (caseId path (.node tag attrib children))).isSome
          · rfl
          · rfl
        · simp [hcontainer, hcase, hcases]

theorem walkAll_eq (path : List String) :
    (elements : List Element) → (cases : Cases) → cases.Distinct →
      walkAll path elements cases =
        if Cases.Distinct (cases ++ casesAll path elements) then
          some (cases ++ casesAll path elements)
        else none
  | [], cases, hcases => by
      simp [walkAll, casesAll, hcases]
  | child :: rest, cases, hcases => by
      unfold walkAll casesAll
      rw [walk_eq path child cases hcases, ← List.append_assoc]
      split
      · rename_i hchild
        exact walkAll_eq path rest _ hchild
      · rename_i hchild
        rw [if_neg (fun h => hchild h.of_append)]
        rfl

end

/-- **What `_junit_cases` returns.** -/
theorem junitCases_eq (root : Element) :
    junitCases root =
      if (reportCases root).Distinct ∧ reportCases root ≠ [] then
        some (reportCases root)
      else none := by
  unfold junitCases
  rw [walkAll_eq _ _ [] List.nodup_nil, List.nil_append,
    show casesAll (startPath root) root.children = reportCases root from rfl]
  by_cases hdistinct : (reportCases root).Distinct
  · by_cases hempty : reportCases root = []
    · have hnil : Cases.Distinct [] := List.nodup_nil
      simp [hempty, hnil]
    · simp [hdistinct, hempty]
  · simp [hdistinct]

end Walk

section Counting

variable {int : String → Option Int}

/-- The tests a suite declares. -/
def declaredTests (int : String → Option Int) (suite : Element) : Nat :=
  (((suite.attrib.lookup "tests").bind int).getD 0).toNat

/-- All tests that are counted. -/
def Counts.total (counts : Counts) : Nat :=
  counts.passed + counts.failed + counts.errors + counts.skipped

/--
What a count stands for: every case with its outcome, and as many tests more
as the empty suites declare.
-/
structure Reads (int : String → Option Int) (counts : Counts)
    (cases : Cases) (empty : List Element) : Prop where
  least : ∀ o, cases.countP (fun c => c.2 = o) ≤ counts.of o
  total : counts.total =
    cases.length + (empty.map (declaredTests int)).sum

theorem Reads.append {counts counts' : Counts} {cases cases' : Cases}
    {empty empty' : List Element}
    (h : Reads int counts cases empty) (h' : Reads int counts' cases' empty') :
    Reads int
      ⟨counts.passed + counts'.passed, counts.failed + counts'.failed,
        counts.errors + counts'.errors, counts.skipped + counts'.skipped⟩
      (cases ++ cases') (empty ++ empty') := by
  constructor
  · intro o
    have hleft := h.least o
    have hright := h'.least o
    rw [List.countP_append]
    cases o <;> exact Nat.add_le_add hleft hright
  · have hleft := h.total
    have hright := h'.total
    simp only [Counts.total, List.length_append, List.map_append,
      List.sum_append] at hleft hright ⊢
    omega

/-- The counted case is the one the walk enters. -/
theorem countCase_reads {element : Element} {counts : Counts} {raw : Summary}
    (h : countCase element = .ok (counts, raw)) (id : String) :
    Reads int counts [(id, outcomeOf element)] [] := by
  unfold countCase at h
  obtain ⟨-, -, h⟩ := Machine.bind_eq_ok h
  dsimp only at h
  split at h
  · cases h
  split at h
  · cases h
  rename_i hclear
  cases h
  unfold outcomeOf
  constructor
  · intro o
    cases hf : present element "failure" <;>
      cases he : present element "error" <;>
        cases hs : present element "skipped" <;>
          cases o <;> simp_all [Counts.of]
  · cases hf : present element "failure" <;>
      cases he : present element "error" <;>
        cases hs : present element "skipped" <;>
          simp_all [Counts.total]

/-- A case is no suite. -/
theorem isContainer_of_isCase {element : Element} (h : isCase element = true) :
    isContainer element = false := by
  simp only [isCase, decide_eq_true_eq] at h
  simp [isContainer, h]

/-- An element that is neither suite nor case holds nothing. -/
theorem casesAll_of_none {path : List String} {elements : List Element}
    (h : elements.any isMember = false) : casesAll path elements = [] := by
  induction elements with
  | nil => rfl
  | cons child rest ih =>
      simp only [List.any_cons, Bool.or_eq_false_iff] at h
      obtain ⟨hchild, hrest⟩ := h
      obtain ⟨tag, attrib, children⟩ := child
      simp only [isMember, Bool.or_eq_false_iff] at hchild
      unfold casesAll casesOf
      simp [hchild, ih hrest]

theorem readKey_tests {element : Element} {value : Option Int}
    (h : readKey int element "tests" = .ok value) :
    value = (element.attrib.lookup "tests").bind int := by
  unfold readKey at h
  split at h
  · rename_i hkey
    cases h
    rw [hkey]
    rfl
  · rename_i text hkey
    split at h
    · cases h
    · rename_i number hint
      cases h
      rw [hkey, Option.bind_some, hint]

theorem declaredOf_tests {element : Element} {declared : Declared}
    (h : declaredOf int element = .ok declared) :
    declared.tests = ((element.attrib.lookup "tests").bind int).map Int.toNat := by
  unfold declaredOf at h
  obtain ⟨tests, htests, h⟩ := Machine.bind_eq_ok h
  obtain ⟨failures, -, h⟩ := Machine.bind_eq_ok h
  obtain ⟨errors, -, h⟩ := Machine.bind_eq_ok h
  obtain ⟨skipped, -, h⟩ := Machine.bind_eq_ok h
  split at h
  · cases h
  · cases h
    rw [readKey_tests htests]

/-- A suite without members counts what it declares. -/
theorem countSuite_empty {element : Element} {declared : Declared}
    {counts : Counts} {raw : Summary}
    (hdeclared : declaredOf int element = .ok declared)
    (h : countSuite element declared [] = .ok (counts, raw)) :
    Reads int counts [] [element] := by
  have htests := declaredOf_tests hdeclared
  unfold countSuite at h
  simp only [ne_eq, not_true_eq_false, if_false] at h
  split at h
  · cases h
  · rename_i tests hsome
    split at h
    · cases h
    · split at h
      · cases h
      · rename_i hfits
        cases h
        have hdecl : declaredTests int element = tests := by
          rw [hsome] at htests
          unfold declaredTests
          cases hvalue : (element.attrib.lookup "tests").bind int with
          | none => simp [hvalue] at htests
          | some value => simpa [hvalue] using htests.symm
        constructor
        · intro o
          exact Nat.zero_le _
        · simp only [Counts.total, List.length_nil, List.map_cons, List.map_nil,
            List.sum_cons, List.sum_nil, hdecl]
          omega

/-- The first child of a suite and the others. -/
theorem resultOf_cons (first : Counts × Summary) (others : List (Counts × Summary)) :
    resultOf (first :: others) =
      ⟨first.1.passed + (resultOf others).passed,
        first.1.failed + (resultOf others).failed,
        first.1.errors + (resultOf others).errors,
        first.1.skipped + (resultOf others).skipped⟩ := by
  simp [resultOf]

/-- Only a list without members counts as nothing. -/
theorem countMembers_nil_iff {elements : List Element}
    {parsed : List (Counts × Summary)}
    (h : countMembers int elements = .ok parsed) :
    parsed = [] ↔ elements.any isMember = false := by
  induction elements generalizing parsed with
  | nil =>
      unfold countMembers at h
      cases h
      simp
  | cons child rest ih =>
      unfold countMembers at h
      split at h
      · rename_i hmember
        obtain ⟨first, -, h⟩ := Machine.bind_eq_ok h
        obtain ⟨others, -, h⟩ := Machine.bind_eq_ok h
        cases h
        simp [hmember]
      · rename_i hmember
        rw [ih h]
        simp [hmember]

theorem casesOf_container {element : Element} (path : List String)
    (h : isContainer element = true) :
    casesOf path element =
      casesAll (path ++ [attr element "name"]) element.children := by
  obtain ⟨tag, attrib, children⟩ := element
  unfold casesOf
  exact if_pos h

theorem casesOf_case {element : Element} (path : List String)
    (h : isCase element = true) :
    casesOf path element = [(caseId path element, outcomeOf element)] := by
  obtain ⟨tag, attrib, children⟩ := element
  unfold casesOf
  dsimp only
  rw [if_neg (by simp [isContainer_of_isCase h]), if_pos h]

mutual

/-- **What `count` stands for on a suite.** -/
theorem count_reads (path : List String) :
    (element : Element) → (counts : Counts) → (raw : Summary) →
      isContainer element = true → count int element = .ok (counts, raw) →
        Reads int counts (casesAll path element.children) (emptySuites element)
  | .node tag attrib children, counts, raw, hcontainer, h => by
      have hcase : ¬isCase (.node tag attrib children) = true := by
        intro hcase
        rw [isContainer_of_isCase hcase] at hcontainer
        cases hcontainer
      unfold count at h
      unfold emptySuites
      dsimp only at h ⊢
      rw [if_neg hcase] at h ⊢
      obtain ⟨-, -, h⟩ := Machine.bind_eq_ok h
      obtain ⟨declared, hdeclared, h⟩ := Machine.bind_eq_ok h
      obtain ⟨parsed, hparsed, h⟩ := Machine.bind_eq_ok h
      have hnil := countMembers_nil_iff hparsed
      change Reads int counts (casesAll path children) _
      by_cases hany : children.any isMember
      · have hne : parsed ≠ [] := by
          intro heq
          rw [hnil.mp heq] at hany
          cases hany
        unfold countSuite at h
        rw [if_pos hne] at h
        split at h
        · cases h
          rw [if_pos hany]
          exact countMembers_reads path children parsed hparsed
        · cases h
      · have hnone : children.any isMember = false := by
          simpa using hany
        rw [hnil.mpr hnone] at h
        rw [if_neg hany, casesAll_of_none hnone]
        exact countSuite_empty hdeclared h

theorem countMembers_reads (path : List String) :
    (elements : List Element) → (parsed : List (Counts × Summary)) →
      countMembers int elements = .ok parsed →
        Reads int (resultOf parsed) (casesAll path elements) (emptyAll elements)
  | [], parsed, h => by
      unfold countMembers at h
      cases h
      exact ⟨fun o => Nat.zero_le _, rfl⟩
  | child :: rest, parsed, h => by
      unfold countMembers at h
      unfold casesAll emptyAll
      split at h
      · rename_i hmember
        obtain ⟨first, hfirst, h⟩ := Machine.bind_eq_ok h
        obtain ⟨others, hothers, h⟩ := Machine.bind_eq_ok h
        cases h
        rw [resultOf_cons, if_pos hmember]
        refine Reads.append ?_ (countMembers_reads path rest others hothers)
        by_cases hcontainer : isContainer child
        · rw [casesOf_container path hcontainer]
          exact count_reads _ child first.1 first.2 hcontainer hfirst
        · have hcase : isCase child = true := by
            simpa [isMember, hcontainer] using hmember
          have hempty : emptySuites child = [] := by
            obtain ⟨tag, attrib, children⟩ := child
            unfold emptySuites
            exact if_pos hcase
          have hcount : count int child = countCase child := by
            obtain ⟨tag, attrib, children⟩ := child
            unfold count
            exact if_pos hcase
          rw [casesOf_case path hcase, hempty]
          exact countCase_reads (hcount.symm.trans hfirst) _
      · rename_i hmember
        have hnone : casesOf path child = [] := by
          obtain ⟨tag, attrib, children⟩ := child
          simp only [isMember, Bool.not_eq_true, Bool.or_eq_false_iff] at hmember
          unfold casesOf
          simp [hmember]
        rw [if_neg hmember, hnone, List.nil_append, List.nil_append]
        exact countMembers_reads path rest parsed h

end

/-- The counts of an accepted report. -/
theorem parseJunit_reads {root : Element} {counts : Counts}
    (h : parseJunit int root = .ok counts) :
    Reads int counts (reportCases root) (emptySuites root) := by
  unfold parseJunit at h
  split at h
  · cases h
  · rename_i hroot
    obtain ⟨⟨counts', raw⟩, hcount, h⟩ := Machine.bind_eq_ok h
    dsimp only at h
    split at h
    · cases h
    · cases h
      exact count_reads (startPath root) root counts raw (by simpa using hroot) hcount

end Counting

section Agreement

/-- Every suite without members declares no tests. -/
def NothingDeclared (int : String → Option Int) (root : Element) : Prop :=
  ∀ suite ∈ emptySuites root, declaredTests int suite = 0

/-- The mapping counts every outcome as `_parse_junit` does. -/
def Complete (cases : Cases) (counts : Counts) : Prop :=
  ∀ o, cases.countP (fun c => c.2 = o) = counts.of o

/-- The cases by outcome are all cases. -/
theorem length_eq_outcomes (cases : Cases) :
    cases.length =
      cases.countP (fun c => c.2 = .passed) + cases.countP (fun c => c.2 = .failed) +
        cases.countP (fun c => c.2 = .error) +
          cases.countP (fun c => c.2 = .skipped) := by
  induction cases with
  | nil => rfl
  | cons c cases ih =>
      obtain ⟨id, o⟩ := c
      cases o <;> simp [ih] <;> omega

/-- A count is complete exactly when the empty suites add nothing to it. -/
theorem Reads.complete_iff {int : String → Option Int} {counts : Counts}
    {cases : Cases} {empty : List Element}
    (h : Reads int counts cases empty) :
    Complete cases counts ↔ ∀ suite ∈ empty, declaredTests int suite = 0 := by
  have hlength := length_eq_outcomes cases
  have htotal := h.total
  have hsum : (empty.map (declaredTests int)).sum = 0 ↔
      ∀ suite ∈ empty, declaredTests int suite = 0 := by
    rw [List.sum_eq_zero_iff_forall_eq_nat]
    simp
  unfold Counts.total at htotal
  rw [← hsum]
  constructor
  · intro hcomplete
    have hpassed := hcomplete .passed
    have hfailed := hcomplete .failed
    have herror := hcomplete .error
    have hskipped := hcomplete .skipped
    simp only [Counts.of] at hpassed hfailed herror hskipped
    omega
  · intro hzero o
    have hpassed := h.least .passed
    have hfailed := h.least .failed
    have herror := h.least .error
    have hskipped := h.least .skipped
    simp only [Counts.of] at hpassed hfailed herror hskipped
    cases o <;> simp only [Counts.of] <;> omega

/--
**Agreement of the readers.**  On an accepted report, a mapping is the whole
suite exactly when there is none to compare (no case, or an id used twice) or
no suite without members declares tests.
-/
theorem mapping_complete_iff
    (int : String → Option Int) (root : Element) (counts : Counts)
    (h : parseJunit int root = .ok counts) :
    (∀ cases, junitCases root = some cases → Complete cases counts) ↔
      (reportCases root = [] ∨ ¬(reportCases root).Distinct ∨
        NothingDeclared int root) := by
  have hreads := parseJunit_reads h
  rw [junitCases_eq]
  by_cases hmapping : (reportCases root).Distinct ∧ reportCases root ≠ []
  · rw [if_pos hmapping]
    obtain ⟨hdistinct, hcases⟩ := hmapping
    simp only [Option.some.injEq, forall_eq', hcases, hdistinct,
      not_true_eq_false, false_or]
    exact hreads.complete_iff
  · rw [if_neg hmapping]
    constructor
    · intro _
      by_cases hcases : reportCases root = []
      · exact Or.inl hcases
      · exact Or.inr (Or.inl (fun hdistinct => hmapping ⟨hdistinct, hcases⟩))
    · rintro _ cases ⟨⟩

end Agreement

section Samples

/-- `int` on a text of decimal digits. -/
def decimal (text : String) : Option Int :=
  if text ≠ "" ∧ text.toList.all Char.isDigit then
    some (text.toList.foldl (fun n c => 10 * n + (c.toNat - 48 : Nat)) 0)
  else none

/-- A suite with one passing case, beside a suite that only declares its tests. -/
def besideSummary (tests : String) : Element :=
  .node "testsuites" []
    [.node "testsuite" [("name", "unit")]
        [.node "testcase" [("classname", "pkg"), ("name", "adds")] []],
      .node "testsuite" [("name", "integration"), ("tests", tests)] []]

theorem mapping_complete_besideSummary :
    parseJunit decimal (besideSummary "0") = .ok ⟨1, 0, 0, 0⟩ ∧
      ((∀ cases, junitCases (besideSummary "0") = some cases →
          Complete cases ⟨1, 0, 0, 0⟩) ↔
        (reportCases (besideSummary "0") = [] ∨
          ¬(reportCases (besideSummary "0")).Distinct ∨
            NothingDeclared decimal (besideSummary "0"))) := by
  have hparse : parseJunit decimal (besideSummary "0") = .ok ⟨1, 0, 0, 0⟩ := by
    decide +kernel
  exact ⟨hparse, mapping_complete_iff decimal (besideSummary "0") _ hparse⟩

/-- Six tests are counted and one is mapped. -/
theorem mapping_incomplete_besideSummary :
    parseJunit decimal (besideSummary "5") = .ok ⟨6, 0, 0, 0⟩ ∧
      junitCases (besideSummary "5") = some [("unit/pkg::adds", .passed)] ∧
        ¬Complete [("unit/pkg::adds", .passed)] ⟨6, 0, 0, 0⟩ := by
  constructor
  · decide +kernel
  constructor
  · decide +kernel
  · intro h
    exact absurd (h .passed) (by decide)

end Samples

end Junit
end SwFactory
