import SwFactory.Identities.Ids
import Mathlib.Data.Char

/-!
# The console's reader of a JUnit report

`parse_junit` walks the tags of a text and adds up what the direct suites
declare.  The sums are taken in `i64` and kept in `u32`; both wrap around.

Source: `delivery.rs` (`parse_junit`, `scan_elements`, `scan_attrs`).
-/

namespace SwFactory
namespace Junit
namespace Scanner

open Identities
open Lexical

/-- `Element`: local name, nesting depth and attributes. -/
structure Tag where
  name : Str
  depth : Nat
  attrs : List (Str × Str)
deriving DecidableEq, Repr

/-- `JunitCounts`. -/
structure Totals where
  passed : Nat
  failed : Nat
  errors : Nat
  skipped : Nat
  total : Nat
deriving DecidableEq, Repr

/-- `char::is_ascii_whitespace` -/
def isBlank (c : Char) : Bool :=
  c == ' ' || c == '\t' || c == '\n' || c == '\x0c' || c == '\r'

/-- `name.rsplit(':').next()` -/
def localPart (name : Str) : Str :=
  match rsplitOnce ':' name with
  | some (_, tail) => tail
  | none => name

/-- `str::find`: the number of bytes before the first occurrence. -/
def findBytes (part : Str) : Str → Option Nat
  | [] => none
  | c :: rest =>
      if part.isPrefixOf (c :: rest) then
        some 0
      else
        (findBytes part rest).map (· + c.utf8Size)

/-- `scan_attrs`, for as many steps as there are characters. -/
def attrsFrom : Nat → Str → List (Str × Str)
  | 0, _ => []
  | n + 1, text =>
      let text := text.dropWhile (fun c => isBlank c || c == '/')
      let raw := text.takeWhile (fun c => c != '=' && !isBlank c)
      if raw = [] then
        []
      else
        match (text.drop raw.length).dropWhile isBlank with
        | '=' :: rest =>
            match rest.dropWhile isBlank with
            | [] => []
            | quote :: rest =>
                if quote = '"' ∨ quote = '\'' then
                  (localPart raw, rest.takeWhile (· != quote)) ::
                    attrsFrom n ((rest.dropWhile (· != quote)).drop 1)
                else
                  attrsFrom n (quote :: rest)
        | rest => attrsFrom n rest

/-- `scan_attrs` -/
def scanAttrs (text : Str) : List (Str × Str) :=
  attrsFrom text.length text

/-- `<` and what follows, up to the next `>`; the text behind it. -/
def cutTag (text : Str) : Option (Str × Str) :=
  splitOnce '>' text

/-- `tag.trim_end()` -/
def trimEnd (tag : Str) : Str :=
  tag.rdropWhile isWhitespace

/-- The name and the attributes of a tag that is no end tag. -/
def readTag (depth : Nat) (tag : Str) : Option Tag :=
  let body := (trimEnd tag).rdropWhile (· == '/')
  let name := localPart (body.takeWhile (fun c => !isBlank c))
  if name = [] then
    none
  else
    some ⟨name, depth, scanAttrs ((body.dropWhile (fun c => !isBlank c)).drop 1)⟩

/-- `tag.trim_end().ends_with('/')` -/
def selfClosing (tag : Str) : Bool :=
  (trimEnd tag).getLast? == some '/'

/-- What a declaration, a comment or a doctype takes; offsets in bytes, steps in characters. -/
def skipped (text : Str) : Nat :=
  (if "<!--".toList.isPrefixOf text then
    (findBytes "-->".toList text).map (· + 3)
  else
    (findBytes ['>'] text).map (· + 1)).getD text.length

/-- `scan_elements`, for as many steps as there are characters. -/
def tagsFrom : Nat → Nat → Str → List Tag
  | 0, _, _ => []
  | _ + 1, _, [] => []
  | n + 1, depth, c :: rest =>
      if c ≠ '<' then
        tagsFrom n depth rest
      else if rest.head? = some '!' ∨ rest.head? = some '?' then
        tagsFrom n depth ((c :: rest).drop (skipped (c :: rest)))
      else
        match cutTag rest with
        | none => []
        | some (tag, behind) =>
            if tag.head? = some '/' then
              tagsFrom n (depth - 1) behind
            else
              match readTag depth tag with
              | none => tagsFrom n depth behind
              | some element =>
                  element :: tagsFrom n (if selfClosing tag then depth else depth + 1) behind

/-- `scan_elements` -/
def scanElements (xml : Str) : List Tag :=
  tagsFrom xml.length 0 xml

/-- The suites whose attributes count: a `testsuite` root, or the children of a `testsuites` root. -/
def suitesOf (elements : List Tag) : List Tag :=
  match elements with
  | [] => []
  | root :: _ =>
      if root.name = "testsuite".toList then
        [root]
      else if root.name = "testsuites".toList then
        elements.filter (fun element => element.depth = 1 ∧ element.name = "testsuite".toList)
      else
        []

/-- The values of `i64`, reached by wrapping around. -/
def wrap64 (i : Int) : Int :=
  i.bmod (2 ^ 64)

/-- `as u32` -/
def asU32 (i : Int) : Nat :=
  (i % 2 ^ 32).toNat

/-- A number that fits into `i64`. -/
def fitting (i : Int) : Option Int :=
  if -2 ^ 63 ≤ i ∧ i < 2 ^ 63 then some i else none

/-- `str::parse::<i64>` -/
def parseI64 : Str → Option Int
  | '-' :: digits => (readDigits digits).bind (fun n => fitting (-(n : Int)))
  | '+' :: digits => (readDigits digits).bind (fun n => fitting n)
  | digits => (readDigits digits).bind (fun n => fitting n)

/-- What a suite declares under a key; nothing readable is zero. -/
def declared (key : String) (suite : Tag) : Int :=
  ((suite.attrs.lookup key.toList).bind (fun value => parseI64 (trimText value))).getD 0

/-- `sum` -/
def sum (key : String) (suites : List Tag) : Int :=
  suites.foldl (fun acc suite => wrap64 (acc + declared key suite)) 0

/-- The counts of the direct suites. -/
def countSuites (suites : List Tag) : Except String Totals :=
  let total := sum "tests" suites
  let failed := sum "failures" suites
  let errors := sum "errors" suites
  let skipped := sum "skipped" suites
  if total ≤ 0 ∨ failed < 0 ∨ errors < 0 ∨ skipped < 0 then
    .error "JUnit report contains invalid test counts"
  else if wrap64 (wrap64 (failed + errors) + skipped) > total then
    .error "JUnit report result counts exceed its test count"
  else
    let passed := max (wrap64 (wrap64 (wrap64 (total - failed) - errors) - skipped)) 0
    .ok ⟨asU32 passed, asU32 failed, asU32 errors, asU32 skipped, asU32 total⟩

/-- `parse_junit` -/
def parseJunit (xml : Str) : Except String Totals :=
  let suites := suitesOf (scanElements xml)
  if suites = [] then
    .error "JUnit report contains no testsuite"
  else
    countSuites suites

end Scanner
end Junit
end SwFactory
