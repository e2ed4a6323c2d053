import SwFactory.Patch.Quoting

/-!
# The index of a review diff

A large diff is replaced by an index: for each file its path and the numbers of its
hunks, added lines and deleted lines.  The index is read off the text of the diff
line by line.  What git renders stands beside it: a section for each file, with
names in quotes where they need them.

A section whose header is read and whose other lines hold no header gives one row,
with the counts of its lines.

Source: `harness_efficiency.py` (`_DIFF_HEADER_RE`, `_review_diff_files`).
-/

namespace SwFactory
namespace Harness

open Lexical
open Patch (RepoPath startsWith)

/-! ## Reading a diff -/

/-- The text behind the first occurrence of a separator. -/
def behindFirst (sep : List Char) : List Char → Option (List Char)
  | [] => none
  | c :: rest =>
      if startsWith (c :: rest) sep then some ((c :: rest).drop sep.length)
      else behindFirst sep rest

/--
The second group of `_DIFF_HEADER_RE`.  The first group is lazy, so it ends in front
of the first ` b/`, and a line holds no line feed.
-/
def headerPath (line : List Char) : Option (List Char) :=
  if startsWith line "diff --git a/".toList then behindFirst " b/".toList (line.drop 13)
  else none

structure ReviewDiffFile where
  path : List Char
  hunks : Nat
  added : Nat
  deleted : Nat
deriving DecidableEq, Repr

/-- The variables of the loop. -/
structure Reader where
  rows : List ReviewDiffFile
  currentPath : Option (List Char)
  hunks : Nat
  added : Nat
  deleted : Nat
deriving DecidableEq, Repr

def Reader.start : Reader :=
  ⟨[], none, 0, 0, 0⟩

/-- `flush` -/
def Reader.flush (s : Reader) : Reader :=
  match s.currentPath with
  | some path => ⟨s.rows ++ [⟨path, s.hunks, s.added, s.deleted⟩], none, 0, 0, 0⟩
  | none => ⟨s.rows, none, 0, 0, 0⟩

def isHunkLine (line : List Char) : Bool :=
  startsWith line "@@".toList

def isAddedLine (line : List Char) : Bool :=
  startsWith line "+".toList && !startsWith line "+++".toList

def isDeletedLine (line : List Char) : Bool :=
  startsWith line "-".toList && !startsWith line "---".toList

/-- One line of the loop. -/
def Reader.line (s : Reader) (line : List Char) : Reader :=
  match headerPath line with
  | some path => { s.flush with currentPath := some path }
  | none =>
      if s.currentPath = none then s
      else if isHunkLine line then { s with hunks := s.hunks + 1 }
      else if isAddedLine line then { s with added := s.added + 1 }
      else if isDeletedLine line then { s with deleted := s.deleted + 1 }
      else s

/-- `_review_diff_files` -/
def reviewDiffFiles (diff : List Char) : List ReviewDiffFile :=
  ((splitlines diff).foldl Reader.line .start).flush.rows

/-! ## What git renders -/

/-- A text on one line. -/
structure Content where
  text : List Char
  oneLine : '\n' ∉ text
deriving DecidableEq

inductive Mark
  | context
  | added
  | deleted
  | noNewline
deriving DecidableEq, Repr

def Mark.char : Mark → Char
  | context => ' '
  | added => '+'
  | deleted => '-'
  | noNewline => '\\'

/-- A line in the body of a hunk. -/
structure BodyLine where
  mark : Mark
  content : Content
deriving DecidableEq

def BodyLine.text (l : BodyLine) : List Char :=
  l.mark.char :: l.content.text

/-- A hunk; the heading is the line of the source that git prints behind the ranges. -/
structure Hunk where
  oldStart : Nat
  newStart : Nat
  heading : Content
  body : List BodyLine
deriving DecidableEq

/-- A range of lines; a length of one is left out. -/
def lineRange (first length : Nat) : List Char :=
  if length = 1 then Nat.toDigits 10 first
  else Nat.toDigits 10 first ++ ',' :: Nat.toDigits 10 length

/-- The lines of the body that stand on a side. -/
def Hunk.side (h : Hunk) (mark : Mark) : Nat :=
  h.body.countP (fun l => l.mark = .context ∨ l.mark = mark)

def Hunk.header (h : Hunk) : List Char :=
  "@@ -".toList ++ lineRange h.oldStart (h.side .deleted) ++ " +".toList ++
    lineRange h.newStart (h.side .added) ++ " @@".toList ++
    (if h.heading.text = [] then [] else ' ' :: h.heading.text)

def Hunk.lines (h : Hunk) : List (List Char) :=
  h.header :: h.body.map BodyLine.text

/-- The lines between the header of a section and its body. -/
inductive Extended
  | oldMode (mode : Nat)
  | newMode (mode : Nat)
  | deletedFileMode (mode : Nat)
  | newFileMode (mode : Nat)
  | copyFrom (path : RepoPath)
  | copyTo (path : RepoPath)
  | renameFrom (path : RepoPath)
  | renameTo (path : RepoPath)
  | similarityIndex (percent : Nat)
  | dissimilarityIndex (percent : Nat)
  | index (old new : List (Fin 16)) (mode : Option Nat)

/-- The path itself as git prints it. -/
def printedPath (p : RepoPath) : List Char :=
  Scope.printed ⟨p.bytes, p.bytes_ne_nil, p.zero_notMem_bytes⟩

def octal (mode : Nat) : List Char :=
  Nat.toDigits 8 mode

/-- The hexadecimal digits of an object. -/
def objectName (digits : List (Fin 16)) : List Char :=
  digits.map (fun d : Fin 16 => Nat.digitChar d.val)

def percentage (n : Nat) : List Char :=
  Nat.toDigits 10 n ++ ['%']

def Extended.text : Extended → List Char
  | oldMode mode => "old mode ".toList ++ octal mode
  | newMode mode => "new mode ".toList ++ octal mode
  | deletedFileMode mode => "deleted file mode ".toList ++ octal mode
  | newFileMode mode => "new file mode ".toList ++ octal mode
  | copyFrom path => "copy from ".toList ++ printedPath path
  | copyTo path => "copy to ".toList ++ printedPath path
  | renameFrom path => "rename from ".toList ++ printedPath path
  | renameTo path => "rename to ".toList ++ printedPath path
  | similarityIndex n => "similarity index ".toList ++ percentage n
  | dissimilarityIndex n => "dissimilarity index ".toList ++ percentage n
  | index old new mode => "index ".toList ++ objectName old ++ "..".toList ++
      objectName new ++ (match mode with
        | some mode => ' ' :: octal mode
        | none => [])

inductive Body
  | none
  | binary
  | text (hunks : List Hunk)

/-- A changed file; the side of a file that is created or deleted is `/dev/null`. -/
structure ChangedFile where
  old : RepoPath
  new : RepoPath
  created : Bool
  deleted : Bool
  extended : List Extended
  body : Body

namespace ChangedFile

def header (f : ChangedFile) : List Char :=
  "diff --git ".toList ++ Scope.printed f.old.before ++ ' ' :: Scope.printed f.new.after

def oldName (f : ChangedFile) : List Char :=
  if f.created then "/dev/null".toList else Scope.printed f.old.before

def newName (f : ChangedFile) : List Char :=
  if f.deleted then "/dev/null".toList else Scope.printed f.new.after

/-- A name with a blank has a tab behind it. -/
def tabbed (name : List Char) : List Char :=
  if ' ' ∈ name then name ++ ['\t'] else name

def hunks (f : ChangedFile) : List Hunk :=
  match f.body with
  | .text hunks => hunks
  | _ => []

/-- The lines in front of the hunks, without the header. -/
def preamble (f : ChangedFile) : List (List Char) :=
  f.extended.map Extended.text ++
    match f.body with
    | .none => []
    | .binary => ["Binary files ".toList ++ f.oldName ++ " and ".toList ++ f.newName ++
        " differ".toList]
    | .text _ => ["--- ".toList ++ tabbed f.oldName, "+++ ".toList ++ tabbed f.newName]

def lines (f : ChangedFile) : List (List Char) :=
  f.header :: (f.preamble ++ f.hunks.flatMap Hunk.lines)

/-- The number of lines in the hunks with a mark. -/
def count (f : ChangedFile) (mark : Mark) : Nat :=
  (f.hunks.flatMap Hunk.body).countP (fun l => l.mark = mark)

/-- The row that a file should have. -/
def row (f : ChangedFile) : ReviewDiffFile :=
  ⟨f.new.text, f.hunks.length, f.count .added, f.count .deleted⟩

end ChangedFile

/-- The diff of the files. -/
def rendered (files : List ChangedFile) : List Char :=
  (files.flatMap ChangedFile.lines).flatMap (fun line => line ++ ['\n'])

/-! ## The rows of an index -/

namespace Reader

/-- The rows at the end of a diff. -/
def finish (s : Reader) : List ReviewDiffFile :=
  s.flush.rows

theorem finish_eq (s : Reader) :
    s.finish = s.rows ++ (s.currentPath.map fun path =>
      (⟨path, s.hunks, s.added, s.deleted⟩ : ReviewDiffFile)).toList := by
  unfold finish flush
  cases s.currentPath with
  | none => exact (List.append_nil _).symm
  | some path => rfl

/-- A header begins a new row. -/
theorem line_header {s : Reader} {line path : List Char} (h : headerPath line = some path) :
    s.line line = ⟨s.finish, some path, 0, 0, 0⟩ := by
  unfold Reader.line finish flush
  rw [h]
  cases s.currentPath with
  | none => rfl
  | some path => rfl

/-- A line is counted for one thing at most. -/
theorem isAddedLine_of_isHunkLine {line : List Char} (h : isHunkLine line = true) :
    isAddedLine line = false ∧ isDeletedLine line = false := by
  obtain ⟨rest, rfl⟩ := List.isPrefixOf_iff_prefix.mp h
  exact ⟨rfl, rfl⟩

theorem isDeletedLine_of_isAddedLine {line : List Char} (h : isAddedLine line = true) :
    isDeletedLine line = false := by
  obtain ⟨rest, rfl⟩ := List.isPrefixOf_iff_prefix.mp (Bool.and_eq_true_iff.mp h).1
  rfl

/-- A line of a section is counted. -/
theorem line_of_current {s : Reader} {line path : List Char} (hpath : s.currentPath = some path)
    (h : headerPath line = none) :
    s.line line = { s with
      hunks := s.hunks + (isHunkLine line).toNat
      added := s.added + (isAddedLine line).toNat
      deleted := s.deleted + (isDeletedLine line).toNat } := by
  obtain ⟨rows, currentPath, hunks, added, deleted⟩ := s
  cases hpath
  unfold Reader.line
  rw [h]
  dsimp only
  rw [if_neg (by simp)]
  split
  · next hhunk => simp [hhunk, isAddedLine_of_isHunkLine hhunk]
  · next hhunk =>
      split
      · next hadded => simp [hhunk, hadded, isDeletedLine_of_isAddedLine hadded]
      · next hadded => split <;> simp [*]

/-- In front of the first header nothing is counted. -/
theorem line_of_none {s : Reader} {line : List Char} (hpath : s.currentPath = none)
    (h : headerPath line = none) : s.line line = s := by
  unfold Reader.line
  rw [h]
  exact if_pos hpath

theorem toNat_eq_ite (b : Bool) : b.toNat = if b = true then 1 else 0 := by
  cases b <;> rfl

/-- The lines of a section are counted. -/
theorem foldl_line {s : Reader} {lines : List (List Char)} {path : List Char}
    (hpath : s.currentPath = some path) (h : ∀ line ∈ lines, headerPath line = none) :
    lines.foldl Reader.line s = { s with
      hunks := s.hunks + lines.countP isHunkLine
      added := s.added + lines.countP isAddedLine
      deleted := s.deleted + lines.countP isDeletedLine } := by
  induction lines generalizing s with
  | nil => rfl
  | cons line lines ih =>
      obtain ⟨hline, hlines⟩ := List.forall_mem_cons.mp h
      rw [List.foldl_cons, line_of_current hpath hline]
      refine (ih (by exact hpath) hlines).trans ?_
      simp only [List.countP_cons, toNat_eq_ite, Reader.mk.injEq, true_and]
      omega

/-- The number of rows is the number of headers. -/
theorem length_finish_foldl (s : Reader) (lines : List (List Char)) :
    (lines.foldl Reader.line s).finish.length =
      s.finish.length + lines.countP (fun line => (headerPath line).isSome) := by
  induction lines generalizing s with
  | nil => rfl
  | cons line lines ih =>
      rw [List.foldl_cons, ih, List.countP_cons]
      cases hline : headerPath line with
      | some path =>
          rw [line_header hline, finish_eq]
          simp
          omega
      | none =>
          cases hpath : s.currentPath with
          | none =>
              rw [line_of_none hpath hline]
              simp
          | some path =>
              rw [line_of_current hpath hline, finish_eq, finish_eq]
              simp [hpath]

end Reader

end Harness
end SwFactory
