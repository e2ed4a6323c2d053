import Mathlib.Data.List.Sort
import SwFactory.Lexical.Regex
import SwFactory.Lexical.Splitting
import SwFactory.Machine.Dicts
import SwFactory.Text

/-!
# The backlog of a line

A scheduled run reads the open issues of a label and starts the first ones that
nothing holds back.  What an issue waits for is read from its body, from the first
line that names prerequisites.

Source: `intake_governance.py` (`select_backlog`, `drain_line`).
-/

namespace SwFactory
namespace Intake

open Lexical
open Machine

abbrev Text := List Char

inductive IssueState
  | opened
  | closed
deriving DecidableEq, Repr

/-- What the selection reads of an issue; its id is the number in decimal. -/
structure Issue where
  number : Nat
  title : Text
  body : Text
  state : IssueState
deriving DecidableEq

def decimal (n : Nat) : Text :=
  Nat.toDigits 10 n

/-! ## The conventions of titles and bodies -/

section Reading

-- `\d`, with the value of each digit
variable (digit : Char → Option Nat)

/-- `_PREREQUISITES`, behind the start of a line; the greedy group ends at the end of its line. -/
def prerequisiteLine : Regex :=
  .chain [.many (.one Text.isSpace),
    .anyOf [.anyCase "dependencies", .anyCase "depends on", .anyCase "blocked by"],
    .lit ":", .many (.one Text.isSpace), .group 1 (.some (.one (· != '\n')))]

/-- `_REF` -/
def ref : Regex :=
  .chain [.lit "#", .group 1 (.some (.one (fun c => (digit c).isSome)))]

/-- `_PRIORITY` -/
def priority : Regex :=
  .chain [.lit "[P", .group 1 (.one (fun c => (digit c).isSome)), .lit "]"]

/-- `int(text)`, of digits -/
def number (text : Text) : Nat :=
  text.foldl (fun n c => 10 * n + (digit c).getD 0) 0

/-- What stands in the group of a match that starts here. -/
def grouped (r : Regex) (text : Text) : Option Text :=
  (r.matchStart (fun _ => false) text).bind (fun place => place.group? 1)

/-- The numbers that a text refers to: `_REF.findall`. -/
def refs (text : Text) : List Nat :=
  ((ref digit).findAll (fun _ => false) text).filterMap (fun place =>
    (place.group? 1).map (number digit))

/-- The text from each line on. -/
def lineStarts : Text → List Text
  | [] => [[]]
  | c :: rest =>
      (c :: rest) :: if c = '\n' then lineStarts rest else (lineStarts rest).tail

def unprioritised : Nat := 9

/-- `priority_of` -/
def priorityOf (title : Text) : Nat :=
  match ((priority digit).findAll (fun _ => false) title).head? with
  | some place => ((place.group? 1).map (number digit)).getD unprioritised
  | none => unprioritised

/-- `prerequisites_of`: `_PREREQUISITES.search` stops at its first match. -/
def prerequisitesOf (body : Text) : List Nat :=
  match (lineStarts body).findSome? (grouped prerequisiteLine) with
  | some line => refs digit line
  | none => []

/-- The numbers on every line of the body that names prerequisites. -/
def namedPrerequisites (body : Text) : List Nat :=
  ((splitAll '\n' body).filterMap (grouped prerequisiteLine)).flatMap (refs digit)

end Reading

/-! ## The selection -/

structure Candidate where
  issue : Nat
  state : IssueState
  priority : Nat
  prerequisites : List Nat
  active : Bool
  implementationPrOpen : Bool
deriving DecidableEq

structure Selection where
  selected : List Candidate
  skipped : Dict Nat Text
deriving DecidableEq

/-- Why a candidate is left out, if it is. -/
def skipReason (completed : List Nat) (full : Bool) (item : Candidate) : Option Text :=
  if item.state ≠ .opened then
    some "not-open".toList
  else if item.active then
    some "active-cell".toList
  else if item.implementationPrOpen then
    some "implementation-pr-open".toList
  else
    let missing := item.prerequisites.filter (fun dep => dep ∉ completed)
    if missing ≠ [] then
      some ("blocked:".toList ++ [','].intercalate (missing.map decimal))
    else if full then
      some "batch-limit".toList
    else
      none

/-- One round of the loop of `select_backlog`. -/
def Selection.take (completed : List Nat) (limit : Int) (s : Selection) (item : Candidate) :
    Selection :=
  match skipReason completed (limit ≤ s.selected.length) item with
  | some reason => { s with skipped := s.skipped.assign item.issue reason }
  | none => { s with selected := s.selected ++ [item] }

/-- `(item.priority, item.issue)`, compared. -/
def Candidate.le (a b : Candidate) : Prop :=
  a.priority < b.priority ∨ (a.priority = b.priority ∧ a.issue ≤ b.issue)

instance : DecidableRel Candidate.le :=
  fun _ _ => inferInstanceAs (Decidable (_ ∨ _))

/-- `select_backlog`; `none` stands for its `ValueError`. -/
def selectBacklog (candidates : List Candidate) (completed : List Nat) (limit : Int) :
    Option Selection :=
  if limit ≤ 0 then none
  else
    some ((candidates.insertionSort Candidate.le).foldl (Selection.take completed limit) ⟨[], []⟩)

/-! ## The line -/

/-- What the source of the backlog reports. -/
structure Source where
  /-- `list_open_issues` -/
  listed : List Issue
  /-- `list_open_pr_heads` -/
  heads : List Text
  /-- the state of a fetched issue; `none` where `fetch_issue` raises -/
  fetch : Nat → Option IssueState
  distinct : (listed.map Issue.number).Nodup
  opened : ∀ item ∈ listed, item.state = .opened

section Draining

variable (digit : Char → Option Nat)
variable (s : Source)
variable (active : List Nat)

/-- `factory/<issue>-*` is the head of an open pull request. -/
def Source.prOpen (item : Issue) : Bool :=
  s.heads.any (fun head => ("factory/".toList ++ decimal item.number ++ ['-']).isPrefixOf head)

def Source.candidate (item : Issue) : Candidate where
  issue := item.number
  state := item.state
  priority := priorityOf digit item.title
  prerequisites := prerequisitesOf digit item.body
  active := active.contains item.number
  implementationPrOpen := s.prOpen item

def Source.known : List Nat :=
  s.listed.map Issue.number

/-- The prerequisites to fetch, each once and in their order. -/
def Source.wanted : List Nat :=
  (((s.listed.flatMap (fun item => prerequisitesOf digit item.body)).filter
    (fun dep => dep ∉ s.known)).dedup).insertionSort (· ≤ ·)

/-- The prerequisites that are closed; `none` where a fetch raises. -/
def Source.completed : Option (List Nat) :=
  ((s.wanted digit).mapM (fun dep => (s.fetch dep).map (fun state => (dep, state)))).map
    (fun states => (states.filter (fun e => e.2 = .closed)).map Prod.fst)

/-- `drain_line`; `none` where it raises. -/
def drainLine (batch : Int) : Option Selection :=
  (s.completed digit).bind (fun completed =>
    selectBacklog (s.listed.map (s.candidate digit active)) completed batch)

end Draining

end Intake
end SwFactory
