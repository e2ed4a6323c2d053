import SwFactory.Harness.IndexHeaders
import SwFactory.Harness.ReviewIndex

/-!
# The sections of a diff

The lines in front of the hunks are read as they are rendered, and nothing is read
from them but the header.  What the reader makes of the lines of the hunks decides
the row of the section.

Source: `harness_efficiency.py` (`_review_diff_files`).
-/

namespace SwFactory
namespace Harness

open Lexical
open Patch (RepoPath startsWith)
open Scope (GitPath special quotedByte printed asciiChar)

/-! ## Lines without other boundaries -/

section OneLine

/-- The text holds no boundary of lines. -/
def OneLine (text : List Char) : Prop :=
  ∀ c ∈ text, isLineBreak c = false

instance (text : List Char) : Decidable (OneLine text) :=
  List.decidableBAll (fun c => isLineBreak c = false) text

theorem OneLine.append {text other : List Char} (h : OneLine text) (hother : OneLine other) :
    OneLine (text ++ other) :=
  List.forall_mem_append.mpr ⟨h, hother⟩

theorem OneLine.cons {c : Char} {text : List Char} (hc : isLineBreak c = false)
    (h : OneLine text) : OneLine (c :: text) :=
  List.forall_mem_cons.mpr ⟨hc, h⟩

theorem oneLine_nil : OneLine [] := by
  rintro c ⟨⟩

theorem oneLine_toDigits {b : Nat} (hb : 0 < b) (hb' : b ≤ 10) (n : Nat) :
    OneLine (Nat.toDigits b n) := by
  intro c hc
  have hdigit := Nat.isDigit_of_mem_toDigits hb hb' hc
  obtain ⟨hge, hle⟩ := Char.isDigit_iff_toNat.mp hdigit
  have h0 : '0'.toNat = 48 := rfl
  have h9 : '9'.toNat = 57 := rfl
  simp only [isLineBreak, List.contains_cons, List.contains_nil, Bool.or_false,
    Bool.or_eq_false_iff, Bool.and_eq_false_iff, decide_eq_false_iff_not, beq_eq_false_iff_ne]
  omega

theorem oneLine_objectName (digits : List (Fin 16)) : OneLine (objectName digits) := by
  intro c hc
  obtain ⟨d, -, rfl⟩ := List.mem_map.mp hc
  have hall : ∀ d : Fin 16, isLineBreak (Nat.digitChar d.val) = false := by decide
  exact hall d

/-- A printed name holds no boundary of lines. -/
theorem oneLine_printed (q : GitPath) : OneLine (printed q) := by
  have hquoted : ∀ b : UInt8, OneLine (quotedByte b) := by
    have hall : ∀ n : Fin 256, OneLine (quotedByte (UInt8.ofNat n)) := by decide +kernel
    exact fun b => Patch.forall_byte (P := fun b => OneLine (quotedByte b)) hall b
  have hplain : ∀ b : UInt8, special b = false → isLineBreak (asciiChar b) = false := by
    have hall : ∀ n : Fin 256, special (UInt8.ofNat n) = false →
        isLineBreak (asciiChar (UInt8.ofNat n)) = false := by
      decide +kernel
    exact fun b => Patch.forall_byte
      (P := fun b => special b = false → isLineBreak (asciiChar b) = false) hall b
  rcases Patch.printed_cases q with heq | ⟨hbytes, heq⟩
  · rw [heq]
    refine OneLine.cons (by decide) (OneLine.append (fun c hc => ?_) (by decide))
    obtain ⟨b, -, hc⟩ := List.mem_flatMap.mp hc
    exact hquoted b c hc
  · rw [heq]
    intro c hc
    obtain ⟨b, hb, rfl⟩ := List.mem_map.mp hc
    exact hplain b (hbytes b hb)

end OneLine

/-! ## Lines that nothing is read from -/

section Silent

/-- The line is no header and not counted. -/
structure Silent (line : List Char) : Prop where
  header : headerPath line = none
  hunk : isHunkLine line = false
  added : isAddedLine line = false
  deleted : isDeletedLine line = false

/-- The texts differ at a place that both have. -/
def differ (front other : List Char) : Bool :=
  (front.zip other).any (fun e => e.1 != e.2)

theorem not_startsWith_append {front other : List Char} (h : differ front other = true)
    (back : List Char) : startsWith (front ++ back) other = false := by
  induction front generalizing other with
  | nil => cases h
  | cons c front ih =>
      cases other with
      | nil => cases h
      | cons d other =>
          rw [startsWith, List.cons_append, List.isPrefixOf_cons_cons]
          by_cases hc : d = c
          · subst hc
            have hrest : differ front other = true := by
              simpa [differ] using h
            have := ih hrest
            rw [startsWith] at this
            rw [this, Bool.and_false]
          · rw [beq_eq_false_iff_ne.mpr hc, Bool.false_and]

theorem silent_append {front : List Char}
    (h : ∀ other ∈ ["diff --git a/", "@@", "+", "-"], differ front other.toList = true)
    (back : List Char) : Silent (front ++ back) := by
  simp only [List.forall_mem_cons, List.not_mem_nil, false_implies, implies_true, and_true] at h
  obtain ⟨hheader, hhunk, hadded, hdeleted⟩ := h
  constructor
  · rw [headerPath, not_startsWith_append hheader]
    exact if_neg Bool.false_ne_true
  · exact not_startsWith_append hhunk back
  · rw [isAddedLine, not_startsWith_append hadded, Bool.false_and]
  · rw [isDeletedLine, not_startsWith_append hdeleted, Bool.false_and]

/-- The words in front of the extended lines. -/
def extendedWords : List String :=
  ["old mode ", "new mode ", "deleted file mode ", "new file mode ", "copy from ", "copy to ",
    "rename from ", "rename to ", "similarity index ", "dissimilarity index ", "index "]

theorem exists_extendedWord (e : Extended) :
    ∃ word ∈ extendedWords, ∃ back, e.text = word.toList ++ back ∧ OneLine back := by
  have hoctal : ∀ mode, OneLine (octal mode) := oneLine_toDigits (by decide) (by decide)
  have hpercent : ∀ n, OneLine (percentage n) := fun n =>
    (oneLine_toDigits (by decide) (by decide) n).append (by decide)
  have hpath : ∀ p, OneLine (printedPath p) := fun p => oneLine_printed _
  cases e with
  | oldMode mode => exact ⟨"old mode ", by simp [extendedWords], _, rfl, hoctal mode⟩
  | newMode mode => exact ⟨"new mode ", by simp [extendedWords], _, rfl, hoctal mode⟩
  | deletedFileMode mode =>
      exact ⟨"deleted file mode ", by simp [extendedWords], _, rfl, hoctal mode⟩
  | newFileMode mode => exact ⟨"new file mode ", by simp [extendedWords], _, rfl, hoctal mode⟩
  | copyFrom path => exact ⟨"copy from ", by simp [extendedWords], _, rfl, hpath path⟩
  | copyTo path => exact ⟨"copy to ", by simp [extendedWords], _, rfl, hpath path⟩
  | renameFrom path => exact ⟨"rename from ", by simp [extendedWords], _, rfl, hpath path⟩
  | renameTo path => exact ⟨"rename to ", by simp [extendedWords], _, rfl, hpath path⟩
  | similarityIndex n => exact ⟨"similarity index ", by simp [extendedWords], _, rfl, hpercent n⟩
  | dissimilarityIndex n =>
      exact ⟨"dissimilarity index ", by simp [extendedWords], _, rfl, hpercent n⟩
  | index old new mode =>
      refine ⟨"index ", by simp [extendedWords], _,
        (List.append_assoc _ _ _).trans ((List.append_assoc _ _ _).trans (List.append_assoc _ _ _)),
        ?_⟩
      refine (oneLine_objectName old).append (OneLine.append (by decide)
        ((oneLine_objectName new).append ?_))
      cases mode with
      | none => exact oneLine_nil
      | some mode => exact (hoctal mode).cons (by decide)

theorem silent_extended (e : Extended) : Silent e.text ∧ OneLine e.text := by
  obtain ⟨word, hword, back, heq, hback⟩ := exists_extendedWord e
  have hwords : ∀ word ∈ extendedWords, OneLine word.toList ∧
      ∀ other ∈ ["diff --git a/", "@@", "+", "-"], differ word.toList other.toList = true := by
    decide
  rw [heq]
  exact ⟨silent_append (hwords word hword).2 back, (hwords word hword).1.append hback⟩

theorem startsWith_append {front start : List Char} (h : start <+: front) (back : List Char) :
    startsWith (front ++ back) start = true :=
  List.isPrefixOf_iff_prefix.mpr (h.trans (List.prefix_append _ _))

theorem silent_oldName (back : List Char) : Silent ("--- ".toList ++ back) where
  header := by
    rw [headerPath, not_startsWith_append (by decide)]
    exact if_neg Bool.false_ne_true
  hunk := not_startsWith_append (by decide) back
  added := by rw [isAddedLine, not_startsWith_append (by decide), Bool.false_and]
  deleted := by
    have hstart : startsWith ("--- ".toList ++ back) "---".toList = true :=
      startsWith_append (by decide) back
    rw [isDeletedLine, hstart, Bool.not_true, Bool.and_false]

theorem silent_newName (back : List Char) : Silent ("+++ ".toList ++ back) where
  header := by
    rw [headerPath, not_startsWith_append (by decide)]
    exact if_neg Bool.false_ne_true
  hunk := not_startsWith_append (by decide) back
  added := by
    have hstart : startsWith ("+++ ".toList ++ back) "+++".toList = true :=
      startsWith_append (by decide) back
    rw [isAddedLine, hstart, Bool.not_true, Bool.and_false]
  deleted := by rw [isDeletedLine, not_startsWith_append (by decide), Bool.false_and]

end Silent

/-! ## The pieces of a section -/

namespace ChangedFile

theorem oneLine_oldName (f : ChangedFile) : OneLine f.oldName := by
  unfold oldName
  split
  · decide
  · exact oneLine_printed _

theorem oneLine_newName (f : ChangedFile) : OneLine f.newName := by
  unfold newName
  split
  · decide
  · exact oneLine_printed _

theorem oneLine_tabbed {name : List Char} (h : OneLine name) : OneLine (tabbed name) := by
  unfold tabbed
  split
  · exact h.append (by decide)
  · exact h

theorem oneLine_header (f : ChangedFile) : OneLine f.header :=
  (OneLine.append (OneLine.append (by decide) (oneLine_printed _))
    ((oneLine_printed _).cons (by decide)))

/-- The lines in front of the hunks are read as they are, and nothing is read from them. -/
theorem silent_preamble (f : ChangedFile) :
    ∀ line ∈ f.preamble, Silent line ∧ OneLine line := by
  intro line hline
  rcases List.mem_append.mp hline with hline | hline
  · obtain ⟨e, -, rfl⟩ := List.mem_map.mp hline
    exact silent_extended e
  · cases hbody : f.body with
    | none =>
        rw [hbody] at hline
        cases hline
    | binary =>
        rw [hbody] at hline
        rw [List.mem_singleton.mp hline]
        simp only [List.append_assoc]
        refine ⟨silent_append (by decide) _, OneLine.append (by decide) (f.oneLine_oldName.append
          (OneLine.append (by decide) (f.oneLine_newName.append (by decide))))⟩
    | text hunks =>
        rw [hbody] at hline
        rcases List.mem_cons.mp hline with rfl | hline
        · exact ⟨silent_oldName _, OneLine.append (by decide) (oneLine_tabbed f.oneLine_oldName)⟩
        · rw [List.mem_singleton.mp hline]
          exact ⟨silent_newName _, OneLine.append (by decide) (oneLine_tabbed f.oneLine_newName)⟩

end ChangedFile

/-- The lines that the reader makes of one line of the diff. -/
def linePieces (line : List Char) : List (List Char) :=
  splitlines (line ++ ['\n'])

theorem linePieces_of_oneLine {line : List Char} (h : OneLine line) : linePieces line = [line] :=
  splitlinesFrom_line h [] []

theorem splitlines_joined (lines : List (List Char)) :
    splitlines (lines.flatMap (fun line => line ++ ['\n'])) = lines.flatMap linePieces := by
  induction lines with
  | nil => rfl
  | cons line lines ih =>
      rw [List.flatMap_cons, List.flatMap_cons, ← ih, List.append_assoc, List.singleton_append,
        splitlines_append]
      rfl

theorem flatMap_linePieces {lines : List (List Char)} (h : ∀ line ∈ lines, OneLine line) :
    lines.flatMap linePieces = lines := by
  induction lines with
  | nil => rfl
  | cons line lines ih =>
      obtain ⟨hline, hlines⟩ := List.forall_mem_cons.mp h
      rw [List.flatMap_cons, linePieces_of_oneLine hline, ih hlines, List.singleton_append]

namespace ChangedFile

/-- What the reader makes of the lines of the hunks. -/
def bodyPieces (f : ChangedFile) : List (List Char) :=
  (f.hunks.flatMap Hunk.lines).flatMap linePieces

/-- No line of a hunk poses as a header. -/
def NoHeader (f : ChangedFile) : Prop :=
  ∀ piece ∈ f.bodyPieces, headerPath piece = none

theorem pieces_eq (f : ChangedFile) :
    f.lines.flatMap linePieces = f.header :: (f.preamble ++ f.bodyPieces) := by
  rw [lines, List.flatMap_cons, List.flatMap_append, linePieces_of_oneLine f.oneLine_header,
    flatMap_linePieces fun line hline => (f.silent_preamble line hline).2]
  rfl

theorem countP_preamble (f : ChangedFile) {p : List Char → Bool}
    (h : ∀ line, Silent line → p line = false) : f.preamble.countP p = 0 :=
  List.countP_eq_zero.mpr fun line hline => by
    rw [h line (f.silent_preamble line hline).1]
    exact Bool.false_ne_true

/-- The row that a section gives, with the path of its header. -/
def seenRow (f : ChangedFile) (path : List Char) : ReviewDiffFile :=
  ⟨path, f.bodyPieces.countP isHunkLine, f.bodyPieces.countP isAddedLine,
    f.bodyPieces.countP isDeletedLine⟩

/-- A section whose header is read gives its row. -/
theorem finish_foldl {f : ChangedFile} {path : List Char} (hpath : headerPath f.header = some path)
    (hbody : f.NoHeader) (s : Reader) :
    ((f.lines.flatMap linePieces).foldl Reader.line s).finish = s.finish ++ [f.seenRow path] := by
  have hpieces : ∀ piece ∈ f.preamble ++ f.bodyPieces, headerPath piece = none :=
    List.forall_mem_append.mpr ⟨fun line hline => (f.silent_preamble line hline).1.header, hbody⟩
  rw [f.pieces_eq, List.foldl_cons, Reader.line_header hpath, Reader.foldl_line rfl hpieces,
    Reader.finish_eq]
  simp only [List.countP_append, f.countP_preamble fun _ h => h.hunk,
    f.countP_preamble fun _ h => h.added, f.countP_preamble fun _ h => h.deleted, Nat.zero_add]
  rfl

/-- The number of lines of a section that are taken for headers. -/
theorem countP_header (f : ChangedFile) :
    (f.lines.flatMap linePieces).countP (fun line => (headerPath line).isSome) =
      (headerPath f.header).isSome.toNat +
        f.bodyPieces.countP (fun line => (headerPath line).isSome) := by
  rw [f.pieces_eq, List.countP_cons, List.countP_append,
    f.countP_preamble fun _ h => by rw [h.header]; rfl]
  cases (headerPath f.header).isSome <;> simp [Nat.add_comm]

theorem noHeader_iff (f : ChangedFile) :
    f.NoHeader ↔ f.bodyPieces.countP (fun line => (headerPath line).isSome) = 0 := by
  rw [List.countP_eq_zero]
  simp only [Option.isSome_iff_ne_none, ne_eq, not_not]
  rfl

end ChangedFile

end Harness
end SwFactory
