import SwFactory.Lexical.Splitting
import Mathlib.Algebra.Order.Ring.Int
import Mathlib.Algebra.Order.Ring.Nat

/-!
# Printable identities

A run, a job, a gate and a delivery are written by `display` and read back by
`parse`.  A text is the list of its Unicode scalar values.

Source: `rust/crates/swf-domain/src/ids.rs`, and the parts of the Rust string
library that it uses.
-/

namespace SwFactory
namespace Identities

open Lexical

abbrev Str := List Char

/-! ## The string library -/

/-- `char::is_whitespace`: the code points with the property `White_Space`. -/
def isWhitespace (c : Char) : Bool :=
  let n := c.toNat
  (0x09 ≤ n && n ≤ 0x0d) || (0x2000 ≤ n && n ≤ 0x200a) ||
    [0x20, 0x85, 0xa0, 0x1680, 0x2028, 0x2029, 0x202f, 0x205f, 0x3000].contains n

/-- `str::trim`. -/
def trimText (text : Str) : Str :=
  trim isWhitespace text

/-- `str::strip_prefix`. -/
def stripFront (front text : Str) : Option Str :=
  if front.isPrefixOf text then some (text.drop front.length) else none

/-- The values of `i32`. -/
def I32 := { i : Int // -2 ^ 31 ≤ i ∧ i < 2 ^ 31 }
deriving DecidableEq

/-- The values of `u64`. -/
def U64 := { n : Nat // n < 2 ^ 64 }
deriving DecidableEq

def I32.ofInt (i : Int) : Option I32 :=
  if h : -2 ^ 31 ≤ i ∧ i < 2 ^ 31 then some ⟨i, h⟩ else none

def U64.ofNat (n : Nat) : Option U64 :=
  if h : n < 2 ^ 64 then some ⟨n, h⟩ else none

/-- The number a nonempty list of ASCII digits stands for. -/
def readDigits (text : Str) : Option Nat :=
  if text ≠ [] ∧ text.all Char.isDigit then
    some (Nat.ofDigitChars 10 text 0)
  else
    none

/-- `str::parse::<i32>`: an optional sign, then digits, within the range. -/
def I32.parse : Str → Option I32
  | '-' :: digits => (readDigits digits).bind (fun n => I32.ofInt (-(n : Int)))
  | '+' :: digits => (readDigits digits).bind (fun n => I32.ofInt n)
  | digits => (readDigits digits).bind (fun n => I32.ofInt n)

/-- `Display for i32`. -/
def I32.display (i : I32) : Str :=
  if i.1 < 0 then
    '-' :: Nat.toDigits 10 i.1.natAbs
  else
    Nat.toDigits 10 i.1.natAbs

/-- `str::parse::<u64>` of ASCII digits. -/
def U64.parse (text : Str) : Option U64 :=
  (readDigits text).bind U64.ofNat

/-- `Display for u64`. -/
def U64.display (n : U64) : Str :=
  Nat.toDigits 10 n.1

/-! ## Runs and jobs -/

/-- `IdError`. -/
inductive IdError
  | empty (what : String)
  | notARunRef (input : Str)
  | emptyPart (input : Str) (part : String)
  | notAGate (input : Str)
  | notADelivery (input : Str)
deriving DecidableEq

/-- `UNMAPPED`. -/
def unmapped : I32 :=
  ⟨-1, by decide⟩

structure RunRef where
  dagId : Str
  runId : Str
deriving DecidableEq

/-- `RunRef::parse`: split on the first `/`. -/
def RunRef.parse (input : Str) : Except IdError RunRef :=
  let text := trimText input
  if text = [] then
    .error (.empty "run reference")
  else
    match splitOnce '/' text with
    | none => .error (.notARunRef text)
    | some (dagId, runId) =>
        if dagId = [] then
          .error (.emptyPart text "dag_id")
        else if runId = [] then
          .error (.emptyPart text "run_id")
        else
          .ok ⟨dagId, runId⟩

/-- `Display for RunRef`. -/
def RunRef.display (run : RunRef) : Str :=
  run.dagId ++ '/' :: run.runId

structure JobId where
  dagId : Str
  runId : Str
  mapIndex : I32
deriving DecidableEq

/-- `JobId::run`. -/
def JobId.run (job : JobId) : RunRef :=
  ⟨job.dagId, job.runId⟩

/-- The index behind the last `#` of a text, where there is one, and the rest. -/
def JobId.cut (text : Str) : Str × I32 :=
  match rsplitOnce '#' text with
  | some (head, tail) =>
      if head = [] then
        (text, unmapped)
      else
        match I32.parse tail with
        | some index => (head, index)
        | none => (text, unmapped)
  | none => (text, unmapped)

/-- `JobId::parse`. -/
def JobId.parse (input : Str) : Except IdError JobId :=
  let text := trimText input
  if text = [] then
    .error (.empty "job id")
  else
    let (head, mapIndex) := JobId.cut text
    match RunRef.parse head with
    | .error e => .error e
    | .ok run => .ok ⟨run.dagId, run.runId, mapIndex⟩

/-- `Display for JobId`. -/
def JobId.display (job : JobId) : Str :=
  job.run.display ++
    if job.mapIndex = unmapped then [] else '#' :: job.mapIndex.display

/-! ## Gates -/

structure GateId where
  job : JobId
  taskId : Str
deriving DecidableEq

/-- `GATE_TASK_PREFIX`. -/
def gateTaskPrefix : Str :=
  "job.approve_".toList

/-- `expand_gate_task`. -/
def expandGateTask (raw : Str) : Str :=
  let name := trimText raw
  if '.' ∈ name then
    name
  else
    gateTaskPrefix ++ (stripFront "approve_".toList name).getD name

/-- `GateId::parse`: split on the last `:`, before a tail with a letter. -/
def GateId.parse (input : Str) : Except IdError GateId :=
  let text := trimText input
  if text = [] then
    .error (.empty "gate id")
  else
    match rsplitOnce ':' text with
    | none => .error (.notAGate text)
    | some (head, tail) =>
        if head = [] ∨ ¬ tail.any Char.isAlpha then
          .error (.notAGate text)
        else
          match JobId.parse head with
          | .error e => .error e
          | .ok job => .ok ⟨job, expandGateTask tail⟩

/-- `Display for GateId`. -/
def GateId.display (gate : GateId) : Str :=
  gate.job.display ++ ':' :: gate.taskId

/-! ## Deliveries -/

/-- `DeliveryId`. -/
inductive DeliveryId
  | branch (issueId runId : Str)
  | pr (number : U64)
  | url (text : Str)
  | path (text : Str)
deriving DecidableEq

/-- `DELIVERY_BRANCH_PREFIX`. -/
def deliveryBranchPrefix : Str :=
  "factory/".toList

/-- `text.starts_with("http://") || text.starts_with("https://")`. -/
def isUrl (text : Str) : Bool :=
  "http://".toList.isPrefixOf text || "https://".toList.isPrefixOf text

/-- The reading of what follows `factory/`. -/
def DeliveryId.parseBranch (text tail : Str) : Except IdError DeliveryId :=
  match rsplitOnce '-' tail with
  | none => .error (.notADelivery text)
  | some (issueId, runId) =>
      if issueId = [] then
        .error (.emptyPart text "issue_id")
      else if runId = [] then
        .error (.emptyPart text "run_id")
      else
        .ok (.branch issueId runId)

/-- `DeliveryId::parse`: a number, then a URL, then a branch, then a path. -/
def DeliveryId.parse (input : Str) : Except IdError DeliveryId :=
  let text := trimText input
  if text = [] then
    .error (.empty "delivery")
  else
    let digits := (stripFront ['#'] text).getD text
    if digits ≠ [] ∧ digits.all Char.isDigit then
      match U64.parse digits with
      | some number => .ok (.pr number)
      | none => .error (.notADelivery text)
    else if isUrl text then
      .ok (.url text)
    else
      match stripFront deliveryBranchPrefix text with
      | some tail => DeliveryId.parseBranch text tail
      | none => .ok (.path text)

/-- `Display for DeliveryId`. -/
def DeliveryId.display : DeliveryId → Str
  | branch issueId runId => deliveryBranchPrefix ++ issueId ++ '-' :: runId
  | pr number => '#' :: number.display
  | url text => text
  | path text => text

end Identities
end SwFactory
