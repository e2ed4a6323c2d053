import Mathlib.Data.List.Dedup
import Mathlib.Data.List.Lex
import Mathlib.Data.Char
import SwFactory.Lexical.Regex
import SwFactory.Lexical.Splitting
import SwFactory.Text

/-!
# Changed paths and protected paths

What `git diff --name-only` prints for the paths that differ between two
commits, how `changed_paths` reads it back, and which paths
`campaign_fusion._is_protected` protects.
-/

namespace SwFactory
namespace Scope

open Lexical

/-! ## Commits -/

/-- A file name that git can store. -/
structure GitPath where
  bytes : List UInt8
  named : bytes ≠ []
  noNul : 0 ∉ bytes
deriving DecidableEq

/-- The files of a commit below the target directory. -/
structure Commit where
  files : List (GitPath × List UInt8)
deriving DecidableEq

def Commit.blob (c : Commit) (p : GitPath) : Option (List UInt8) :=
  c.files.lookup p

/-- The paths whose blob differs; a rename counts as a deletion and an addition. -/
def changed (before after : Commit) : List GitPath :=
  ((before.files ++ after.files).map Prod.fst).dedup.filter
    (fun p => before.blob p != after.blob p)

theorem changed_self (c : Commit) : changed c c = [] := by
  simp [changed]

/-! ## What git prints -/

def quoteByte : UInt8 :=
  0x22

def backslash : UInt8 :=
  0x5c

/-- A byte that git prints in quotes only. -/
def special (b : UInt8) : Bool :=
  b < 0x20 || 0x7f ≤ b || b == quoteByte || b == backslash

def asciiChar (b : UInt8) : Char :=
  Char.ofNat b.toNat

def octalDigit (n : Nat) : Char :=
  Char.ofNat (0x30 + n % 8)

/-- The escapes of git that have a letter. -/
def escapeLetter (b : UInt8) : Option Char :=
  ([(0x07, 'a'), (0x08, 'b'), (0x09, 't'), (0x0a, 'n'), (0x0b, 'v'), (0x0c, 'f'),
    (0x0d, 'r'), (quoteByte, '"'), (backslash, '\\')] : List (UInt8 × Char)).lookup b

/-- One byte of a quoted name. -/
def quotedByte (b : UInt8) : List Char :=
  if special b then
    match escapeLetter b with
    | some letter => ['\\', letter]
    | none =>
        ['\\', octalDigit (b.toNat / 64), octalDigit (b.toNat / 8), octalDigit b.toNat]
  else
    [asciiChar b]

/-- The name as `git diff --name-only` prints it without `-z`. -/
def printed (p : GitPath) : List Char :=
  if p.bytes.any special then
    '"' :: p.bytes.flatMap quotedByte ++ ['"']
  else
    p.bytes.map asciiChar

/-- The output of `git diff --name-only --relative --no-renames`. -/
def nameOnly (before after : Commit) : List Char :=
  (changed before after).flatMap (fun p => printed p ++ ['\n'])

/-! ## Reading it back -/

/-- `str.strip`. -/
def strip (text : List Char) : List Char :=
  trim Text.isSpace text

/-- `changed_paths`, from the output of git. -/
def changedPaths (before after : Commit) : List (List Char) :=
  (((splitlines (nameOnly before after)).map strip).filter (fun line => !line.isEmpty)).dedup
    |>.mergeSort (fun a b => decide (a ≤ b))

/-! ## Protected paths -/

/-- The part of `TargetContract` that decides what is protected. -/
structure TargetContract where
  protectedPaths : List (List Char)
  testsDir : List Char
deriving DecidableEq

/-- `value.rstrip("/")`. -/
def rstripSlash (value : List Char) : List Char :=
  value.rdropWhile (· == '/')

/-- Paths the agent may not edit in `stage`. -/
def protectedFor (contract : TargetContract) (stage : String) : List (List Char) :=
  if stage = "fix" then
    (contract.protectedPaths ++ [contract.testsDir]).reverse.dedup.reverse
  else
    contract.protectedPaths.filter
      (fun p => rstripSlash p != rstripSlash contract.testsDir)

/-- The segments of a rule in front of its first glob. -/
def literalPrefix (rule : List Char) : List Char :=
  ['/'].intercalate
    ((splitAll '/' (rstripSlash rule)).takeWhile
      (fun segment => !segment.any (fun c => c == '*' || c == '?' || c == '[')))

/-- The path itself and every directory above it. -/
def ancestors (path : List Char) : List (List Char) :=
  (splitAll '/' path).inits.tail.map ['/'].intercalate

/-- The path is the literal part of the rule, lies below it, or is below a match. -/
def matchesRule (path rule : List Char) : Bool :=
  (!(literalPrefix rule).isEmpty &&
      (path == literalPrefix rule || (literalPrefix rule ++ ['/']).isPrefixOf path)) ||
    (ancestors path).any (fun ancestor => fnmatchcase ancestor (rstripSlash rule))

/-- `_is_protected`. -/
def isProtected
    (casefold : List Char → List Char) (path : List Char) (rules : List (List Char)) : Bool :=
  (splitAll '/' path).any (fun part => casefold part == ".git".toList) ||
    rules.any (matchesRule path)

end Scope
end SwFactory
