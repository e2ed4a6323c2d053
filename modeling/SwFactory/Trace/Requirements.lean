import SwFactory.Lexical.Regex
import SwFactory.Lexical.Splitting
import SwFactory.Machine.Dicts
import SwFactory.Machine.Fallible
import SwFactory.Text

/-!
# The requirements of a spec and the tests of a plan

A spec names its requirements in the sections whose heading says so; the tests
of a plan carry the tags of the requirements they prove.  What a character is
(`\w`, and the value of a decimal digit) is a parameter.

Source: `stages.py` (`spec_requirements`, `_planned_test_name`, `plan_test_map`).
-/

namespace SwFactory
namespace Trace

open Lexical
open Machine

abbrev Text := List Char

/-- What the language knows of a character: whether it is in `\w`, and its value as a digit. -/
structure Alphabet where
  word : Char → Bool
  digit : Char → Option Nat

inductive Failure
  | valueError
  | typeError
deriving DecidableEq, Repr

/-- `R<number>` -/
structure RequirementId where
  number : Nat
deriving DecidableEq, Repr

def strip (text : Text) : Text :=
  trim Text.isSpace text

section Patterns

variable (α : Alphabet)

def space : Regex :=
  .one Text.isSpace

def digits : Regex :=
  .some (.one (fun c => (α.digit c).isSome))

/-- `.` -/
def dot : Regex :=
  .one (· != '\n')

/-- `_HEADING` -/
def heading : Regex :=
  .chain [.group 1 (.seq (.oneOf "#") (.upTo 5 (.oneOf "#"))), .some space,
    .group 2 (.seq dot (.few dot)), .many space, .many (.oneOf "#"), .many space, .lineEnd]

/-- `_REQUIREMENTS_TITLE`, with the other cases of each letter. -/
def requirementsTitle : Regex :=
  .chain [.boundary, .oneOf "rR", .oneOf "eE", .oneOf "qQ", .oneOf "uU", .oneOf "iIıİ",
    .oneOf "rR", .oneOf "eE", .oneOf "mM", .oneOf "eE", .oneOf "nN", .oneOf "tT",
    .maybe (.oneOf "sSſ"), .boundary]

/-- `(?:[-*+]\s+)?` -/
def bullet : Regex :=
  .maybe (.seq (.oneOf "-*+") (.some space))

/-- `(?:\*\*|__)?` -/
def emphasis : Regex :=
  .maybe (.alt (.lit "**") (.lit "__"))

/-- `\s[—–-]` -/
def spacedDash : Regex :=
  .seq space (.oneOf "—–-")

/-- `(\S.*)$`, as the second group. -/
def itemText : Regex :=
  .seq (.group 2 (.seq (.one (fun c => !Text.isSpace c)) (.many dot))) .lineEnd

/-- `_SPEC_TAGGED` -/
def specTagged : Regex :=
  .chain [.upTo 3 space, bullet, emphasis, .lit "R", .group 1 (digits α), emphasis, .many space,
    .maybe (.alt (.oneOf ".:)") spacedDash), emphasis, .some space, itemText]

/-- `_SPEC_NUMBERED` -/
def specNumbered : Regex :=
  .chain [.upTo 3 space, .group 1 (digits α), .oneOf ".)", .some space, itemText]

/-- What stands between two tags of an entry. -/
def tagSeparator : Regex :=
  .anyOf [.lit ",", .lit "/", .lit "&", .lit "+", .chain [.boundary, .lit "and", .boundary],
    .lit "..", .oneOf "-–"]

/-- `_PLAN_TAGS` -/
def planTags : Regex :=
  .chain [.many space, bullet, .maybe (.lit "("),
    .group 1 (.chain [.lit "R", digits α,
      .many (.chain [.many space, tagSeparator, .many space, .lit "R", digits α])]),
    .maybe (.lit ")"), .many space, .anyOf [.lit ":", .lit ")", .lit "]", spacedDash],
    .many space, .group 2 (.many dot), .lineEnd]

/-- `_PLAN_TAG` -/
def planTag : Regex :=
  .chain [.lit "R", .group 1 (digits α),
    .maybe (.chain [.many space, .alt (.lit "..") (.oneOf "-–"), .many space, .lit "R",
      .group 2 (digits α)])]

/-- `_TEST_TOKEN` -/
def testToken : Regex :=
  .some (.one (fun c => α.word c || "./:[]-".toList.contains c))

/-- `_TEST_IDENTIFIER` -/
def testIdentifier : Regex :=
  .anyOf [.chain [.oneOf "Tt", .lit "est",
      .one (fun c => ('A' ≤ c && c ≤ 'Z') || ('0' ≤ c && c ≤ '9') || c == '_'),
      .many (.one α.word)],
    .seq (.some (.one α.word)) (.lit "_test"), .seq (.some (.one α.word)) (.lit "Test")]

end Patterns

section Readers

variable (α : Alphabet)

/-- `int(text)` of a text of decimal digits; more than 4300 of them are refused. -/
def int (text : Text) : Except Failure Nat :=
  if 4300 < text.length then
    .error .valueError
  else
    .ok (text.foldl (fun n c => 10 * n + (α.digit c).getD 0) 0)

/-- `_requirement_id` -/
def requirementId (number : Text) : Except Failure RequirementId :=
  (int α number).map RequirementId.mk

/-- What the reader of a spec holds between two lines. -/
structure Reading where
  found : Dict RequirementId Text
  level : Nat
  current : Option RequirementId
  afterBlank : Bool

/-- One line of the spec. -/
def Reading.line (r : Reading) (line : Text) : Except Failure Reading :=
  match heading.matchStart α.word line with
  | some h =>
      let depth := ((h.group? 1).getD []).length
      if r.level ≠ 0 ∧ r.level < depth then
        .ok { r with current := none }
      else
        .ok { r with
          current := none
          level := if requirementsTitle.found α.word ((h.group? 2).getD []) then depth else 0 }
  | none =>
      if r.level = 0 then
        .ok r
      else if strip line = [] then
        .ok { r with afterBlank := true }
      else
        match ((specTagged α).matchStart α.word line).or ((specNumbered α).matchStart α.word line) with
        | some item => do
            let rid ← requirementId α ((item.group? 1).getD [])
            if rid ∈ r.found.keys then
              .ok { r with current := none, afterBlank := false }
            else
              .ok { r with
                found := r.found.assign rid (strip ((item.group? 2).getD []))
                current := some rid
                afterBlank := false }
        | none =>
            match r.current with
            | some rid =>
                if !r.afterBlank || line.head?.any Text.isSpace then
                  .ok { r with
                    found := r.found.update rid [] (fun text => text ++ ' ' :: strip line)
                    afterBlank := false }
                else
                  .ok { r with current := none, afterBlank := false }
            | none => .ok { r with afterBlank := false }

/-- `spec_requirements` -/
def specRequirements (specText : Text) : Except Failure (Dict RequirementId Text) := do
  let r ← (splitlines specText).foldlM (Reading.line α) ⟨[], 0, none, false⟩
  .ok r.found

/-- Cut at the last `::`. -/
def lastColons : Text → Option (Text × Text)
  | [] => none
  | c :: rest =>
      match lastColons rest with
      | some (front, back) => some (c :: front, back)
      | none =>
          match rest with
          | d :: back => if c = ':' ∧ d = ':' then some ([], back) else none
          | [] => none

/-- `text.rpartition("::")`, without the separator. -/
def rpartition (text : Text) : Text × Text :=
  (lastColons text).getD ([], text)

/-- `text.split("[", 1)[0]` -/
def beforeBracket (text : Text) : Text :=
  text.takeWhile (· != '[')

/-- `token.removesuffix("()")` -/
def removeCall (token : Text) : Text :=
  if ['(', ')'].isSuffixOf token then token.take (token.length - 2) else token

/-- `_planned_test_name` -/
def plannedTestName (rest : Text) : Option Text :=
  let rest := strip rest
  let token :=
    match rest with
    | '`' :: quoted =>
        match splitOnce '`' quoted with
        | some (token, _) => strip token
        | none => []
    | _ =>
        match (testToken α).matchStart α.word rest with
        | some q => ((Regex.Place.start rest).taken q).rdropWhile (".:-".toList.contains ·)
        | none => []
  let token := removeCall token
  let name := strip (beforeBracket (rpartition token).2)
  if name = [] then
    none
  else if (lastColons token).isSome || (testIdentifier α).fullMatch α.word name then
    some token
  else
    none

end Readers

/-- A plan document, as far as its tests go: what can be neither read as a text nor gone
through is a `scalar`, of which only the truth value counts. -/
inductive Doc
  | scalar (truthy : Bool)
  | text (value : Text)
  | list (items : List Doc)
  | mapping (entries : List (Text × Doc))

namespace Doc

/-- `bool(value)` -/
def truthy : Doc → Bool
  | scalar b => b
  | text value => !value.isEmpty
  | list items => !items.isEmpty
  | mapping entries => !entries.isEmpty

/-- What a loop over the value goes through. -/
def iterate : Doc → Except Failure (List Doc)
  | scalar _ => .error .typeError
  | text value => .ok (value.map (fun c => text [c]))
  | list items => .ok items
  | mapping entries => .ok (entries.map (fun e => text e.1))

/-- `list(entries.get(key) or [])` -/
def field (entries : List (Text × Doc)) (key : String) : Except Failure (List Doc) :=
  match Dict.get? entries key.toList with
  | some value => if value.truthy then value.iterate else .ok []
  | none => .ok []

end Doc

section Map

variable (α : Alphabet)

/-- The numbers that a tag stands for; a range of more than 51 is its two ends. -/
def tagNumbers (tag : Regex.Place) : Except Failure (List Nat) := do
  let first ← int α ((tag.group? 1).getD [])
  match tag.group? 2 with
  | none => .ok [first]
  | some text => do
      let last ← int α text
      if first ≤ last ∧ last - first ≤ 50 then
        .ok (List.range' first (last + 1 - first))
      else
        .ok [first, last]

/-- `tests = mapped.setdefault(rid, [])`, and the test added if it is not there. -/
def addTest (mapped : Dict RequirementId (List Text)) (test : Text) (rid : RequirementId) :
    Dict RequirementId (List Text) :=
  mapped.update rid [] (fun tests => if test ∈ tests then tests else tests ++ [test])

/-- The requirements that an entry is tagged with, and the test that it names. -/
def readEntry : Doc → Except Failure (List RequirementId × Text)
  | .text entry =>
      match (planTags α).matchStart α.word entry with
      | none => .ok ([], [])
      | some tagged =>
          match plannedTestName α ((tagged.group? 2).getD []) with
          | none => .ok ([], [])
          | some test => do
              let numbers ← ((planTag α).findAll α.word ((tagged.group? 1).getD [])).mapM
                (tagNumbers α)
              .ok (numbers.flatten.map RequirementId.mk, test)
  | _ => .ok ([], [])

/-- The entries of the plan and of its work nodes. -/
def planEntries (plan : List (Text × Doc)) : Except Failure (List Doc) := do
  let own ← Doc.field plan "tests"
  let nodes ← Doc.field plan "work"
  let more ← nodes.mapM (fun
    | .mapping node => Doc.field node "tests"
    | _ => .ok [])
  .ok (own ++ more.flatten)

/-- What one entry of the plan adds to the map. -/
def addEntry (mapped : Dict RequirementId (List Text)) (entry : Doc) :
    Except Failure (Dict RequirementId (List Text)) := do
  let (ids, test) ← readEntry α entry
  .ok (ids.foldl (fun m rid => addTest m test rid) mapped)

/-- `plan_test_map` -/
def planTestMap : Doc → Except Failure (Dict RequirementId (List Text))
  | .mapping plan => do
      let entries ← planEntries plan
      entries.foldlM (addEntry α) []
  | _ => .ok []

end Map

end Trace
end SwFactory
