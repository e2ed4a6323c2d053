import Mathlib.Data.List.Basic
import Mathlib.Algebra.Order.BigOperators.Group.List
import Mathlib.Algebra.Order.Ring.Nat

/-!
# The two readers of a JUnit report

`_parse_junit` counts the outcomes of a report, trusting the declared summary
of a suite that lists no cases; `_junit_cases` maps the id of every case to its
outcome.  Both walk the same element tree on their own.

An element is its tag, its attributes and its child elements, as `ElementTree`
gives them.  `int` is the conversion of an attribute text to an integer: it
either raises or answers with a number, and nothing here depends on which texts
it accepts.
-/

namespace SwFactory
namespace Junit

/-- `ET.Element`. -/
inductive Element
  | node
      (tag : String)
      (attrib : List (String × String))
      (children : List Element)

namespace Element

def tag : Element → String
  | node tag _ _ => tag

def attrib : Element → List (String × String)
  | node _ attrib _ => attrib

def children : Element → List Element
  | node _ _ children => children

end Element

/-- `tag.rsplit("}", 1)[-1]`: the tag without its namespace. -/
def afterBrace (tag : String) : String :=
  String.ofList (tag.toList.reverse.takeWhile (· ≠ '\x7d')).reverse

/-- `local_name`. -/
def localName (element : Element) : String :=
  afterBrace element.tag

/-- `containers`. -/
def isContainer (element : Element) : Bool :=
  localName element = "testsuite" || localName element = "testsuites"

def isCase (element : Element) : Bool :=
  localName element = "testcase"

/-- `statuses`. -/
def isStatus (element : Element) : Bool :=
  localName element = "failure" || localName element = "error" ||
    localName element = "skipped"

/-- `containers | {"testcase"}`: what a suite may hold. -/
def isMember (element : Element) : Bool :=
  isContainer element || isCase element

/-- `evidence_tags`. -/
def isEvidence (element : Element) : Bool :=
  isMember element || isStatus element

mutual

/-- Some element of `element.iter()` is test evidence. -/
def hasEvidence : Element → Bool
  | .node tag attrib children =>
      isEvidence (.node tag attrib children) || anyEvidence children

def anyEvidence : List Element → Bool
  | [] => false
  | child :: rest => hasEvidence child || anyEvidence rest

end

/-- The outcome of one test case. -/
inductive Outcome
  | passed
  | failed
  | error
  | skipped
deriving DecidableEq, Repr

/-- The counts that `_parse_junit` returns. -/
structure Counts where
  passed : Nat
  failed : Nat
  errors : Nat
  skipped : Nat
deriving DecidableEq, Repr

/-- The count of one outcome. -/
def Counts.of (counts : Counts) : Outcome → Nat
  | .passed => counts.passed
  | .failed => counts.failed
  | .error => counts.errors
  | .skipped => counts.skipped

/-- The numbers a reporter declares, or those its evidence adds up to. -/
structure Summary where
  tests : Nat
  failures : Nat
  errors : Nat
  skipped : Nat
deriving DecidableEq, Repr

/-- The summary attributes an element carries. -/
structure Declared where
  tests : Option Nat
  failures : Option Nat
  errors : Option Nat
  skipped : Option Nat
deriving DecidableEq, Repr

/-- The `ValueError` of `_parse_junit`, one constructor per message. -/
inductive JunitError
  /-- JUnit report contains misplaced test evidence -/
  | misplacedEvidence
  /-- JUnit testcase contains nested test evidence -/
  | nestedEvidence
  /-- JUnit testcase contains ambiguous outcomes -/
  | ambiguousOutcomes
  /-- `int` refuses a summary attribute -/
  | notAnInteger
  /-- JUnit report contains invalid test counts -/
  | invalidCounts
  /-- JUnit summary disagrees with its test evidence -/
  | summaryDisagrees
  /-- JUnit report contains no test evidence -/
  | noEvidence
  /-- JUnit report result counts exceed its test count -/
  | countsExceedTests
  /-- JUnit report contains no testsuite or testsuites root -/
  | noSuiteRoot
  /-- JUnit report contains no tests -/
  | noTests
deriving DecidableEq, Repr

/-- Children that are not allowed must hold no evidence. -/
def placed (allowed : Element → Bool) (children : List Element) :
    Except JunitError Unit :=
  if children.any (fun child => !allowed child && hasEvidence child) then
    .error .misplacedEvidence
  else .ok ()

/-- The local names of the status children of a case. -/
def present (element : Element) (status : String) : Bool :=
  element.children.any (fun child => localName child = status)

/-- `count` on a test case. -/
def countCase (element : Element) :
    Except JunitError (Counts × Summary) := do
  placed isStatus element.children
  let statuses := element.children.filter isStatus
  if statuses.any (fun child => anyEvidence child.children) then
    .error .nestedEvidence
  let failed := present element "failure"
  let errors := present element "error"
  let skipped := present element "skipped"
  let declares (status : String) : Bool :=
    (element.attrib.lookup status).isSome && !present element status
  if declares "failure" || declares "error" || declares "skipped" ||
      (failed && errors) then
    .error .ambiguousOutcomes
  let result : Counts :=
    { passed := (!(failed || errors || skipped)).toNat
      failed := failed.toNat
      errors := errors.toNat
      skipped := (skipped && !failed && !errors).toNat }
  let raw : Summary :=
    { tests := 1
      failures := failed.toNat
      errors := errors.toNat
      skipped := skipped.toNat }
  return (result, raw)

section Reader

variable (int : String → Option Int)

/-- One summary attribute; the sign is checked after all four are read. -/
def readKey (element : Element) (key : String) :
    Except JunitError (Option Int) :=
  match element.attrib.lookup key with
  | none => .ok none
  | some text =>
      match int text with
      | none => .error .notAnInteger
      | some value => .ok (some value)

/-- `declared`. -/
def declaredOf (element : Element) : Except JunitError Declared := do
  let tests ← readKey int element "tests"
  let failures ← readKey int element "failures"
  let errors ← readKey int element "errors"
  let skipped ← readKey int element "skipped"
  if [tests, failures, errors, skipped].any (·.any (· < 0)) then
    .error .invalidCounts
  return ⟨tests.map Int.toNat, failures.map Int.toNat, errors.map Int.toNat,
    skipped.map Int.toNat⟩

/-- Every declared number is the one of the summary. -/
def Declared.agrees (declared : Declared) (summary : Summary) : Bool :=
  declared.tests.all (· = summary.tests) &&
    declared.failures.all (· = summary.failures) &&
    declared.errors.all (· = summary.errors) &&
    declared.skipped.all (· = summary.skipped)

/-- The counts of the children, added up. -/
def resultOf (parsed : List (Counts × Summary)) : Counts where
  passed := (parsed.map (fun p => p.1.passed)).sum
  failed := (parsed.map (fun p => p.1.failed)).sum
  errors := (parsed.map (fun p => p.1.errors)).sum
  skipped := (parsed.map (fun p => p.1.skipped)).sum

/-- `raw`: the summary over all descendant cases. -/
def rawOf (parsed : List (Counts × Summary)) : Summary where
  tests := (parsed.map (fun p => p.2.tests)).sum
  failures := (parsed.map (fun p => p.2.failures)).sum
  errors := (parsed.map (fun p => p.2.errors)).sum
  skipped := (parsed.map (fun p => p.2.skipped)).sum

/-- `direct`: the summary over the immediate children, as Node writes it. -/
def directOf (parsed : List (Counts × Summary)) : Summary where
  tests := parsed.length
  failures := parsed.countP (fun p => p.2.failures ≠ 0)
  errors := parsed.countP (fun p => p.2.errors ≠ 0)
  skipped := parsed.countP (fun p => p.2.skipped ≠ 0)

/-- `count` on a suite, once its children have been counted. -/
def countSuite (element : Element) (declared : Declared)
    (parsed : List (Counts × Summary)) :
    Except JunitError (Counts × Summary) :=
  if parsed ≠ [] then
    if declared.agrees (rawOf parsed) || declared.agrees (directOf parsed) then
      .ok (resultOf parsed, rawOf parsed)
    else .error .summaryDisagrees
  else
    match declared.tests with
    | none => .error .noEvidence
    | some tests =>
        if localName element ≠ "testsuite" then .error .noEvidence
        else
          let raw : Summary :=
            ⟨tests, declared.failures.getD 0, declared.errors.getD 0,
              declared.skipped.getD 0⟩
          if raw.tests < raw.failures + raw.errors + raw.skipped then
            .error .countsExceedTests
          else
            .ok (⟨raw.tests - raw.failures - raw.errors - raw.skipped,
              raw.failures, raw.errors, raw.skipped⟩, raw)

mutual

/-- `count`. -/
def count : Element → Except JunitError (Counts × Summary)
  | .node tag attrib children =>
      let element := Element.node tag attrib children
      if isCase element then countCase element
      else do
        placed isMember children
        let declared ← declaredOf int element
        let parsed ← countMembers children
        countSuite element declared parsed

/-- `[count(child) for child in children]`, over the allowed ones. -/
def countMembers : List Element → Except JunitError (List (Counts × Summary))
  | [] => .ok []
  | child :: rest =>
      if isMember child then do
        let first ← count child
        let others ← countMembers rest
        return first :: others
      else countMembers rest

end

/-- `_parse_junit`, on the parsed tree. -/
def parseJunit (root : Element) : Except JunitError Counts := do
  if !isContainer root then
    .error .noSuiteRoot
  let (result, _) ← count int root
  if result.passed + result.failed + result.errors + result.skipped = 0 then
    .error .noTests
  return result

end Reader

/-- The cases found so far, in the order they were entered. -/
abbrev Cases := List (String × Outcome)

/-- `attrib.get(key, "")`. -/
def attr (element : Element) (key : String) : String :=
  (element.attrib.lookup key).getD ""

/-- `case_id`. -/
def caseId (path : List String) (test : Element) : String :=
  "/".intercalate (path ++ [attr test "classname"]) ++ "::" ++
    attr test "name"

/-- The outcome of a case as `_junit_cases` reads it. -/
def outcomeOf (test : Element) : Outcome :=
  if present test "failure" then .failed
  else if present test "error" then .error
  else if present test "skipped" then .skipped
  else .passed

mutual

/-- `walk` on one child; `none` is its `False`. -/
def walk (path : List String) : Element → Cases → Option Cases
  | .node tag attrib children, cases =>
      let child := Element.node tag attrib children
      if isContainer child then
        walkAll (path ++ [attr child "name"]) children cases
      else if isCase child then
        if (cases.lookup (caseId path child)).isSome then none
        else some (cases ++ [(caseId path child, outcomeOf child)])
      else some cases

/-- `walk` over the children of an element. -/
def walkAll (path : List String) : List Element → Cases → Option Cases
  | [], cases => some cases
  | child :: rest, cases =>
      (walk path child cases).bind (walkAll path rest)

end

/-- `start`: only a `testsuite` root gives its name to the path. -/
def startPath (root : Element) : List String :=
  if localName root = "testsuite" then [attr root "name"] else []

/-- `_junit_cases`, on the parsed tree. -/
def junitCases (root : Element) : Option Cases :=
  match walkAll (startPath root) root.children [] with
  | none => none
  | some cases => if cases = [] then none else some cases

end Junit
end SwFactory
