import Mathlib.Algebra.Order.Ring.Nat
import Mathlib.Data.Char
import Mathlib.Data.List.Lex
import Mathlib.Data.List.Sort
import SwFactory.Lexical.Regex
import SwFactory.Lexical.Splitting
import SwFactory.Text

/-!
# Packed observations

The output of a failed command is packed into a few excerpts of whole lines.  Where
the source holds material of a secret shape, the prompt shows only excerpts that do
not match by themselves.  The digest is a parameter.

Sources: `harness_efficiency.py` (`_sensitivity_kinds`, `verify_quotes`, `_merge`,
`_quote_ranges`, `_reduced_prompt`, `pack_failure_observation`) and `scm.py`
(`SECRET_PATTERNS`, `scan_secrets`).
-/

namespace SwFactory
namespace Harness

open Lexical

abbrev Text := List Char

/-- `len(text.encode("utf-8"))` -/
def utf8Bytes (text : Text) : Nat :=
  (text.map Char.utf8Size).sum

/-! ## Secret shapes -/

def isUpper (c : Char) : Bool :=
  'A' ≤ c && c ≤ 'Z'

def isDigit (c : Char) : Bool :=
  '0' ≤ c && c ≤ '9'

def isAlnum (c : Char) : Bool :=
  isUpper c || ('a' ≤ c && c ≤ 'z') || isDigit c

/-- `[A-Za-z0-9]` and the other characters. -/
def alnumOr (others : String) : Regex :=
  .one (fun c => isAlnum c || others.toList.contains c)

/-- `r{n,}` -/
def atLeastTimes (n : Nat) (r : Regex) : Regex :=
  .chain [.times n r, .many r]

/-- `SECRET_PATTERNS` -/
def secretPatterns : List (String × Regex) :=
  [("aws-access-key-id", .chain [.lit "AKIA", .times 16 (.one (fun c => isDigit c || isUpper c))]),
    ("anthropic-api-key", .chain [.lit "sk-ant-", atLeastTimes 20 (alnumOr "_-")]),
    ("github-token", .chain [.lit "ghp_", .times 36 (alnumOr "")]),
    ("github-fine-grained-token", .chain [.lit "github_pat_", atLeastTimes 20 (alnumOr "_")]),
    ("private-key", .chain [.lit "-----BEGIN ", .many (.one (fun c => isUpper c || c == ' ')),
      .lit "PRIVATE KEY-----"]),
    ("google-api-key", .chain [.lit "AIza", .times 35 (alnumOr "_-")]),
    ("slack-token", .chain [.lit "xox", .oneOf "baprs", .lit "-", atLeastTimes 10 (alnumOr "-")])]

/-- The words of `_GENERIC_SECRET_ASSIGNMENT` -/
def assignmentKey : Regex :=
  .anyOf [.chain [.anyCase "api", .maybe (.oneOf "_-"), .anyCase "key"],
    .chain [.anyCase "access", .maybe (.oneOf "_-"), .anyCase "token"],
    .chain [.anyCase "auth", .maybe (.oneOf "_-"), .anyCase "token"],
    .anyCase "secret", .anyCase "password", .anyCase "passwd",
    .chain [.anyCase "private", .maybe (.oneOf "_-"), .anyCase "key"]]

/-- `_GENERIC_SECRET_ASSIGNMENT` -/
def genericSecretAssignment : Regex :=
  .chain [assignmentKey, .many (.one Text.isSpace), .oneOf ":=", .many (.one Text.isSpace),
    atLeastTimes 8 (.one (fun c => !Text.isSpace c))]

/-- All shapes, each with its name. -/
def shapes : List (String × Regex) :=
  secretPatterns ++ [("generic-secret-assignment", genericSecretAssignment)]

section Classifying

-- `\w`
variable (word : Char → Bool)

/-- `_sensitivity_kinds` -/
def sensitivityKinds (text : Text) : List Text :=
  ((shapes.filter (fun e => e.2.found word text)).map (fun e => e.1.toList)).insertionSort (· ≤ ·)

/-! ## Quotes -/

structure Quote where
  startLine : Nat
  endLine : Nat
  text : Text
deriving DecidableEq

inductive IntegrityError
  | outside (startLine endLine lines : Nat)
  | mismatch (startLine endLine : Nat)
deriving DecidableEq

/-- A range of lines, from the first one up to the one behind the last. -/
abbrev Range :=
  Nat × Nat

/-- `"\n".join(lines[start:end])` -/
def excerpt (lines : List Text) (range : Range) : Text :=
  ['\n'].intercalate ((lines.drop range.1).take (range.2 - range.1))

/-- `verify_quotes` -/
def verifyQuotes (source : Text) : List Quote → Except IntegrityError Unit
  | [] => .ok ()
  | quote :: rest =>
      let lines := splitlines source
      if quote.startLine < 1 ∨ quote.endLine < quote.startLine ∨ lines.length < quote.endLine then
        .error (.outside quote.startLine quote.endLine lines.length)
      else if excerpt lines (quote.startLine - 1, quote.endLine) ≠ quote.text then
        .error (.mismatch quote.startLine quote.endLine)
      else
        verifyQuotes source rest

/-- Pairs are sorted by their first component, then by the second one. -/
def Range.le (a b : Range) : Prop :=
  a.1 < b.1 ∨ (a.1 = b.1 ∧ a.2 ≤ b.2)

instance : DecidableRel Range.le :=
  fun _ _ => inferInstanceAs (Decidable (_ ∨ _))

/-- Go on with the range in hand. -/
def mergeFrom : Range → List Range → List Range
  | last, [] => [last]
  | last, range :: rest =>
      if last.2 < range.1 then last :: mergeFrom range rest
      else mergeFrom (last.1, max last.2 range.2) rest

/-- `_merge` -/
def merge (ranges : List Range) : List Range :=
  match ranges.insertionSort Range.le with
  | [] => []
  | first :: rest => mergeFrom first rest

/-- `_ERROR_RE`; two of its alternatives stand at the start of the line. -/
def isErrorLine (line : Text) : Bool :=
  let bounded := fun text => Regex.chain [.boundary, .anyCase text, .boundary]
  Regex.found word (.anyOf [.anyCase "traceback", .anyCase "assertionerror", bounded "failed",
      bounded "failure", bounded "error", bounded "panic", bounded "exception",
      .anyCase "caused by", .anyCase "##[error]"]) line ||
    (Regex.matchStart word (.alt (.chain [.anyCase "e", .some (.one Text.isSpace)])
      (.anyCase "error:")) line).isSome

def promptBudgetBytes : Nat := 5600

/-- The ranges around the lines that name an error, the last one first, the tail and the head. -/
def candidateRanges (lines : List Text) : List Range :=
  let errors := (lines.zipIdx.filter (fun e => isErrorLine word e.1)).map
    (fun e => (e.2 - 2, min lines.length (e.2 + 3)))
  (merge errors).reverse ++ [(lines.length - 24, lines.length), (0, min 5 lines.length)]

/-- One round of the selection, with the bytes that are used. -/
def select (lines : List Text) (s : List Range × Nat) (range : Range) : List Range × Nat :=
  let cost := utf8Bytes (excerpt lines range) + 48
  if range.2 ≤ range.1 then s
  else if promptBudgetBytes < cost then s
  else if promptBudgetBytes < s.2 + cost ∧ s.1 ≠ [] then s
  else (s.1 ++ [range], s.2 + cost)

/-- The ranges that are quoted. -/
def selectedRanges (lines : List Text) : List Range :=
  merge ((candidateRanges word lines).foldl (select lines) ([], 0)).1

def quoteOf (lines : List Text) (range : Range) : Quote :=
  ⟨range.1 + 1, range.2, excerpt lines range⟩

/-- `_quote_ranges` -/
def quoteRanges (source : Text) : Except IntegrityError (List Quote) :=
  let lines := splitlines source
  if lines = [] then .ok []
  else
    let quotes := (selectedRanges word lines).map (quoteOf lines)
    (verifyQuotes source quotes).map (fun _ => quotes)

/-! ## The prompt -/

structure ObservationRef where
  handle : Text
  sha256 : Text
  sandboxPath : Option Text
  sensitivityKinds : List Text
  sizeBytes : Nat
  lines : Nat
deriving DecidableEq

def decimal (n : Nat) : Text :=
  Nat.toDigits 10 n

/-- One block of the prompt. -/
def block (quote : Quote) : Text :=
  "\n[exact lines ".toList ++ decimal quote.startLine ++ ['-'] ++ decimal quote.endLine ++
    "]\n".toList ++ quote.text

/-- `_reduced_prompt` -/
def reducedPrompt (ref : ObservationRef) (quotes : List Quote) : Text :=
  let recallText := match ref.sandboxPath with
    | some path => "exact source: ".toList ++ path ++
        "\nUse Read on the exact source with an offset/limit when an omitted line matters. ".toList
    | none => "full source: host-only because the local secret classifier matched; ".toList ++
        "raw recall is disabled. ".toList
  let header := "TEST OUTPUT COMPACTED LOCALLY; THE HOST ARCHIVE IS AUTHORITATIVE.\n".toList ++
    "handle: ".toList ++ ref.handle ++ ['\n'] ++ recallText ++ "\nsha256: ".toList ++ ref.sha256 ++
    "\nsource: ".toList ++ decimal ref.sizeBytes ++ " bytes, ".toList ++ decimal ref.lines ++
    " lines\n".toList ++
    "Every excerpt below was verified byte-for-byte against that source before exposure.\n".toList
  trim Text.isSpace (header ++ quotes.flatMap block)

inductive Mode
  | reduced
  | legacyWithHandle
deriving DecidableEq, Repr

structure PackedObservation where
  ref : ObservationRef
  promptText : Text
  mode : Mode
  quotes : List Quote
deriving DecidableEq

/-- The last characters of a text. -/
def tail (n : Nat) (text : Text) : Text :=
  text.drop (text.length - n)

/-- `_legacy_tail` -/
def legacyTail (stdout stderr : Text) : Text :=
  trim Text.isSpace (tail 6000 stdout ++ '\n' :: tail 2000 stderr)

/-- The digits of an escape. -/
def escape (n : Nat) : Text :=
  "\\u".toList ++ (List.replicate 4 '0' ++ Nat.toDigits 16 n).drop (Nat.toDigits 16 n).length

/-- A character of `json.dumps(text, ensure_ascii=True)`. -/
def jsonChar (c : Char) : Text :=
  match ("\"\\\n\r\t\x08\x0c".toList.zip "\"\\nrtbf".toList).lookup c with
  | some letter => ['\\', letter]
  | none =>
      if 0x20 ≤ c.toNat ∧ c.toNat ≤ 0x7e then [c]
      else if c.toNat < 0x10000 then escape c.toNat
      else escape (0xd800 + (c.toNat - 0x10000) / 0x400) ++
        escape (0xdc00 + (c.toNat - 0x10000) % 0x400)

def integer : Int → Text
  | .ofNat n => decimal n
  | .negSucc n => '-' :: decimal (n + 1)

/-- What a command left behind. -/
structure Execution where
  command : Text
  exitCode : Int
  timedOut : Bool
  stdout : Text
  stderr : Text
deriving DecidableEq

/-- `_source` -/
def Execution.source (x : Execution) : Text :=
  "=== execution ===\ncommand: \"".toList ++ x.command.flatMap jsonChar ++
    "\"\nexit_code: ".toList ++ integer x.exitCode ++
    "\ntimed_out: ".toList ++ (if x.timedOut then "true".toList else "false".toList) ++
    "\n=== stdout ===\n".toList ++ x.stdout ++ "\n=== stderr ===\n".toList ++ x.stderr

variable (sha256 : Text → Text)

/-- The reference that `_archive` returns. -/
def Execution.ref (x : Execution) : ObservationRef where
  handle := "obs:sha256:".toList ++ sha256 x.source
  sha256 := sha256 x.source
  sandboxPath :=
    if sensitivityKinds word x.source = [] then
      some (".factory/observations/".toList ++ sha256 x.source ++ ".txt".toList)
    else none
  sensitivityKinds := sensitivityKinds word x.source
  sizeBytes := utf8Bytes x.source
  lines := (splitlines x.source).length

/-- The packed observation of verified quotes. -/
def Execution.packed (x : Execution) (verified : List Quote) : PackedObservation :=
  let ref := x.ref word sha256
  let legacy := legacyTail x.stdout x.stderr
  let quotes := verified.filter (fun quote => sensitivityKinds word quote.text = [])
  let reduced := reducedPrompt ref quotes
  if ref.sensitivityKinds ≠ [] then
    ⟨ref, reduced, .reduced, quotes⟩
  else if utf8Bytes legacy ≤ utf8Bytes reduced then
    ⟨ref, trim Text.isSpace ("FULL TEST OUTPUT ARCHIVED AS ".toList ++ ref.handle ++
      " AT ".toList ++ ref.sandboxPath.getD "None".toList ++ " (sha256:".toList ++ ref.sha256 ++
      "). Use Read for omitted context.\n\n".toList ++ legacy), .legacyWithHandle, quotes⟩
  else
    ⟨ref, reduced, .reduced, quotes⟩

/-- `pack_failure_observation`; a small failure keeps the old prompt. -/
def Execution.pack (x : Execution) : Except IntegrityError (Option PackedObservation) :=
  if x.stdout.length ≤ 6000 ∧ x.stderr.length ≤ 2000 then .ok none
  else (quoteRanges word x.source).map (fun verified => some (x.packed word sha256 verified))

end Classifying

end Harness
end SwFactory
