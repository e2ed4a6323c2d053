import SwFactory.Patch.Scanner

/-!
# How git apply reads a patch stream

The reading that the policy has to cover.  A stream is read line by line, a
line ending at a line feed only.  A file section begins anywhere in the text
where no hunk is in progress: with a `diff --git` line, or with a `---` line in
front of a `+++` line and an `@@` header.  The body of a hunk has the line
counts of its header.  A name is unquoted, ends at its terminator, and loses
its first component where the line belongs to the two sides of the diff.
-/

namespace SwFactory
namespace Patch
namespace Git

open Lexical

abbrev Line := List UInt8

def ascii (s : String) : List UInt8 :=
  s.toList.map (fun c => UInt8.ofNat c.toNat)

def starts (line : Line) (front : String) : Bool :=
  (ascii front).isPrefixOf line

/-! ## Names -/

def isOctal (b : UInt8) : Bool :=
  0x30 ≤ b && b ≤ 0x37

def octalValue (a b c : UInt8) : UInt8 :=
  ((a - 0x30) * 8 + (b - 0x30)) * 8 + (c - 0x30)

/-- The escapes with a letter, the quote and the backslash. -/
def unescape (b : UInt8) : Option UInt8 :=
  ([(0x61, 0x07), (0x62, 0x08), (0x66, 0x0c), (0x6e, 0x0a), (0x72, 0x0d), (0x74, 0x09),
    (0x76, 0x0b), (0x22, 0x22), (0x5c, 0x5c)] : List (UInt8 × UInt8)).lookup b

/-- `unquote_c_style`, behind the opening quote: the name, and what follows. -/
def unquoteC : List UInt8 → Option (List UInt8 × List UInt8)
  | [] => none
  | [b] => if b = 0x22 then some ([], []) else none
  | b :: c :: rest =>
      if b = 0x22 then
        some ([], c :: rest)
      else if b = 0x5c then
        match unescape c with
        | some d => (unquoteC rest).map (fun cut => (d :: cut.1, cut.2))
        | none =>
            match rest with
            | d :: e :: rest =>
                if c ≤ 0x33 && isOctal c && isOctal d && isOctal e then
                  (unquoteC rest).map (fun cut => (octalValue c d e :: cut.1, cut.2))
                else
                  none
            | _ => none
      else
        (unquoteC (c :: rest)).map (fun cut => (b :: cut.1, cut.2))

/-- A name: unquoted, or up to its terminator. -/
def nameOf (terminates : UInt8 → Bool) (text : List UInt8) : List UInt8 :=
  let raw := text.takeWhile (fun b => !terminates b)
  match text with
  | [] => raw
  | b :: rest =>
      if b = 0x22 then
        match unquoteC rest with
        | some (name, _) => name
        | none => raw
      else
        raw

/-- The name without its first component. -/
def stripFirst (name : List UInt8) : Option (List UInt8) :=
  match name.dropWhile (· != 0x2f) with
  | [] => none
  | _ :: rest => some rest

def isReturn (b : UInt8) : Bool :=
  b == 0x0d

def isTabOrReturn (b : UInt8) : Bool :=
  b == 0x09 || b == 0x0d

def isDevNull (text : List UInt8) : Bool :=
  starts text "/dev/null" &&
    ((text.drop 9).head?.all (fun b => b == 0x20 || isTabOrReturn b))

/-- The path that a `---` or a `+++` line names. -/
def fileName (line : Line) : List (List Char) :=
  let text := line.drop 4
  if isDevNull text then
    []
  else
    (stripFirst (nameOf isTabOrReturn text)).toList.map decodeReplace

/-- A text, cut at each blank. -/
def halves : List UInt8 → List UInt8 → List (List UInt8 × List UInt8)
  | _, [] => []
  | front, b :: rest =>
      if b = 0x20 ∨ b = 0x09 then
        (front, rest) :: halves (front ++ [b]) rest
      else
        halves (front ++ [b]) rest

def halfName (text : List UInt8) : Option (List UInt8) :=
  match text with
  | [] => none
  | b :: rest =>
      if b = 0x22 then
        match unquoteC rest with
        | some (name, []) => stripFirst name
        | _ => none
      else
        stripFirst text

/-- The name that both halves of a `diff --git` line have, if they agree. -/
def defaultName (line : Line) : List (List Char) :=
  let text := line.drop 11
  ((halves [] text).findSome? (fun cut =>
    match halfName cut.1, halfName cut.2 with
    | some a, some b => if a = b ∧ a ≠ [] then some a else none
    | _, _ => none)).toList.map decodeReplace

/-! ## Lines -/

/-- What an extended header line names: a side of the diff, a whole path, nothing. -/
inductive HeaderKind
  | side
  | path
  | nothing
deriving DecidableEq, Repr

def extendedHeaders : List (String × HeaderKind) :=
  [("--- ", .side), ("+++ ", .side), ("old mode ", .nothing), ("new mode ", .nothing),
    ("deleted file mode ", .nothing), ("new file mode ", .nothing),
    ("copy from ", .path), ("copy to ", .path), ("rename old ", .path),
    ("rename new ", .path), ("rename from ", .path), ("rename to ", .path),
    ("similarity index ", .nothing), ("dissimilarity index ", .nothing),
    ("index ", .nothing)]

def headerNames (front : String) (kind : HeaderKind) (line : Line) : List (List Char) :=
  match kind with
  | .side => fileName line
  | .path => [decodeReplace (nameOf isReturn (line.drop front.length))]
  | .nothing => []

def isDigit (b : UInt8) : Bool :=
  0x30 ≤ b && b ≤ 0x39

/-- A decimal number in front, and what follows it. -/
def number (text : List UInt8) : Option (Nat × List UInt8) :=
  let digits := text.takeWhile isDigit
  if digits.isEmpty then
    none
  else
    some (digits.foldl (fun n b => n * 10 + (b.toNat - 0x30)) 0, text.dropWhile isDigit)

/-- `start[,count]`: the count, which is one where it is left out. -/
def range (text : List UInt8) : Option (Nat × List UInt8) := do
  let (_, rest) ← number text
  match rest with
  | 0x2c :: rest => number rest
  | rest => some (1, rest)

/-- The line counts of `@@ -a,b +c,d @@`. -/
def hunkCounts (line : Line) : Option (Nat × Nat) := do
  if !starts line "@@ -" then none
  let (old, rest) ← range (line.drop 4)
  if !starts rest " +" then none
  let (new, rest) ← range (rest.drop 2)
  if !starts rest " @@" then none
  return (old, new)

/-! ## Sections -/

/-- Where the reader is. -/
inductive Mode
  | between
  /-- in the header of a git section -/
  | header
  /-- behind the `---` line, and behind the `+++` line, of a traditional section -/
  | plus
  | fragment
  /-- in a hunk, or behind one, with the lines that are owed -/
  | body (old new : Nat)
deriving DecidableEq, Repr

/-- What a line is for its section, with the paths it names. -/
inductive Role
  | git (names : List (List Char))
  | traditional (names : List (List Char))
  | other
deriving DecidableEq, Repr

def Role.names : Role → List (List Char)
  | .git names => names
  | .traditional names => names
  | .other => []

/-- The hunk that an `@@` line begins. -/
def hunk (line : Line) : Option (Role × Mode) :=
  (hunkCounts line).map (fun counts => (.other, .body counts.1 counts.2))

/-- The line goes on with the section that is being read. -/
def continues (mode : Mode) (line : Line) : Option (Role × Mode) :=
  match mode with
  | .between => none
  | .header =>
      match extendedHeaders.find? (fun e => starts line e.1) with
      | some e => some (.git (headerNames e.1 e.2 line), .header)
      | none => hunk line
  | .plus =>
      if starts line "+++ " then some (.traditional (fileName line), .fragment) else none
  | .fragment => hunk line
  | .body 0 0 => if starts line "\\" then some (.other, .body 0 0) else hunk line
  | .body old new =>
      match line with
      | [] => some (.other, .body (old - 1) (new - 1))
      | b :: _ =>
          if b = 0x20 then some (.other, .body (old - 1) (new - 1))
          else if b = 0x2d then some (.other, .body (old - 1) new)
          else if b = 0x2b then some (.other, .body old (new - 1))
          else if b = 0x5c then some (.other, .body old new)
          else none

/-- The line begins a section. -/
def begins (line : Line) (rest : List Line) : Option (Role × Mode) :=
  if starts line "diff --git " then
    some (.git (defaultName line), .header)
  else
    match rest with
    | second :: third :: _ =>
        if starts line "--- " && starts second "+++ " && (hunkCounts third).isSome then
          some (.traditional (fileName line), .plus)
        else
          none
    | _ => none

/-- The role of every line. -/
def reading : Mode → List Line → List (Line × Role)
  | _, [] => []
  | mode, line :: rest =>
      match (continues mode line).or (begins line rest) with
      | some (role, mode) => (line, role) :: reading mode rest
      | none => (line, .other) :: reading .between rest

def lines (patch : List UInt8) : List Line :=
  splitAll 0x0a patch

/-- Every path that some section of the stream names. -/
def paths (patch : List UInt8) : List (List Char) :=
  (reading .between (lines patch)).flatMap (fun l => l.2.names)

end Git
end Patch
end SwFactory
