import SwFactory.Files.Tree
import SwFactory.Lexical.Splitting
import SwFactory.Lexical.Utf8

/-!
# The text of a path

A text is a list of code points.  `PurePath.ofText` reads it as `PurePosixPath` does
and `PurePath.text` prints it; a path in its printed form is read back.  A name of a
tree of files is a part of a path that the file system can hold, so the path of a
location is read back as the way to that location.
-/

namespace SwFactory
namespace Files

open Lexical

abbrev Chars :=
  List Nat

/-- `/` -/
def slash : Nat :=
  0x2f

/-- `.` -/
def dot : Nat :=
  0x2e

/-! ## Pure paths -/

structure PurePath where
  rooted : Bool
  parts : List Chars
deriving DecidableEq

namespace PurePath

/-- `PurePosixPath(text)` -/
def ofText (text : Chars) : PurePath where
  rooted := decide (text.head? = some slash)
  parts := (splitAll slash text).filter (fun part => part != [] && part != [dot])

/-- `str(path)` -/
def text (p : PurePath) : Chars :=
  if p.rooted then
    slash :: [slash].intercalate p.parts
  else if p.parts = [] then
    [dot]
  else
    [slash].intercalate p.parts

/-- The path has a part `..`. -/
def climbs (p : PurePath) : Bool :=
  p.parts.contains [dot, dot]

/-- The parts are those of a path that was read. -/
def Clean (parts : List Chars) : Prop :=
  ∀ part ∈ parts, part ≠ [] ∧ part ≠ [dot] ∧ slash ∉ part

theorem clean_ofText (s : Chars) : Clean (ofText s).parts := by
  intro part hpart
  obtain ⟨hmem, hkeep⟩ := List.mem_filter.mp hpart
  simp only [Bool.and_eq_true, bne_iff_ne] at hkeep
  exact ⟨hkeep.1, hkeep.2, not_mem_of_mem_splitAll hmem⟩

theorem filter_clean {parts : List Chars} (h : Clean parts) :
    parts.filter (fun part => part != [] && part != [dot]) = parts := by
  refine List.filter_eq_self.mpr fun part hpart => ?_
  obtain ⟨hnil, hdot, -⟩ := h part hpart
  simp [hnil, hdot]

theorem head?_intercalate {part : Chars} {parts : List Chars} (hne : part ≠ []) :
    ([slash].intercalate (part :: parts)).head? = part.head? := by
  cases part with
  | nil => exact absurd rfl hne
  | cons c part => cases parts <;> simp [List.intercalate]

/-- **A path is read back** from its printed form. -/
theorem ofText_text {p : PurePath} (h : Clean p.parts) : ofText p.text = p := by
  obtain ⟨rooted, parts⟩ := p
  have hslash : ∀ part ∈ parts, slash ∉ part := fun part hpart => (h part hpart).2.2
  cases rooted with
  | true =>
      have hsplit : splitAll slash (slash :: [slash].intercalate parts) =
          [] :: splitAll slash ([slash].intercalate parts) := by
        simp [splitAll]
      have hparts : (splitAll slash ([slash].intercalate parts)).filter
          (fun part => part != [] && part != [dot]) = parts := by
        by_cases hnil : parts = []
        · rw [hnil]
          rfl
        · rw [splitAll_intercalate hnil hslash, filter_clean h]
      unfold text ofText
      rw [if_pos rfl, hsplit, List.filter_cons_of_neg (by simp), hparts]
      rfl
  | false =>
      cases parts with
      | nil =>
          rfl
      | cons part parts =>
          obtain ⟨hnil, -, hno⟩ := h part List.mem_cons_self
          have hhead : ([slash].intercalate (part :: parts)).head? ≠ some slash := by
            rw [head?_intercalate hnil]
            exact fun heq => hno (List.mem_of_mem_head? heq)
          unfold text ofText
          rw [if_neg Bool.false_ne_true, if_neg (List.cons_ne_nil _ _),
            splitAll_intercalate (List.cons_ne_nil _ _) hslash, filter_clean h,
            decide_eq_false hhead]

end PurePath

/-! ## Names -/

/-- `os.fsencode` takes the code point: it is a character, or a byte that is none. -/
def encodable (c : Nat) : Bool :=
  Utf8.isScalar c || (0xdc80 ≤ c && c < 0xdd00)

/-- The part can be the name of an entry. -/
def isName (part : Chars) : Bool :=
  part != [] && part != [dot] && part != [dot, dot] &&
    part.all (fun c => c != slash && c != 0 && encodable c)

/-- The names of entries. -/
abbrev Name :=
  { part : Chars // isName part = true }

/-- A part of a path as a step; none where it can be no name. -/
def step (part : Chars) : Option (Part Name) :=
  if part = [dot, dot] then
    some .up
  else if h : isName part = true then
    some (.into ⟨part, h⟩)
  else
    none

/-- `Path(text)` for the file system. -/
def path? (text : Chars) : Option (Path Name) :=
  ((PurePath.ofText text).parts.mapM step).map (Path.mk (PurePath.ofText text).rooted)

/-- `str` of the path of a location. -/
def locText (loc : Loc Name) : Chars :=
  PurePath.text ⟨true, loc.map Subtype.val⟩

theorem isName_iff {part : Chars} :
    isName part = true ↔ (part ≠ [] ∧ part ≠ [dot] ∧ part ≠ [dot, dot]) ∧
      ∀ c ∈ part, c ≠ slash ∧ c ≠ 0 ∧ encodable c = true := by
  simp only [isName, Bool.and_eq_true, bne_iff_ne, List.all_eq_true, and_assoc]

theorem step_name (n : Name) : step n.1 = some (.into n) := by
  unfold step
  rw [if_neg (isName_iff.mp n.2).1.2.2, dif_pos n.2]

theorem exists_of_mapM_eq_some {α γ : Type*} {f : α → Option γ} {xs : List α} {ys : List γ}
    (h : xs.mapM f = some ys) {x : α} (hx : x ∈ xs) : ∃ y, f x = some y := by
  induction xs generalizing ys with
  | nil => cases hx
  | cons a xs ih =>
      rw [List.mapM_cons] at h
      obtain ⟨y, hy, h⟩ := Option.bind_eq_some_iff.mp h
      obtain ⟨rest, hrest, -⟩ := Option.bind_eq_some_iff.mp h
      rcases List.mem_cons.mp hx with rfl | hx
      · exact ⟨y, hy⟩
      · exact ih hrest hx

/-- The code points of a path that the file system takes can be encoded. -/
theorem encodable_of_path? {text : Chars} {p : Path Name} (h : path? text = some p) :
    ∀ c ∈ text, encodable c = true := by
  obtain ⟨steps, hsteps, -⟩ := Option.map_eq_some_iff.mp h
  have hpart : ∀ part ∈ splitAll slash text, ∀ c ∈ part, encodable c = true := by
    intro part hpart c hc
    by_cases hkeep : part ≠ [] ∧ part ≠ [dot]
    · have hmem : part ∈ (PurePath.ofText text).parts :=
        List.mem_filter.mpr ⟨hpart, by simp [hkeep.1, hkeep.2]⟩
      obtain ⟨s, hs⟩ := exists_of_mapM_eq_some hsteps hmem
      unfold step at hs
      split at hs
      · rename_i hup
        rw [hup] at hc
        rcases List.mem_cons.mp hc with rfl | hc
        · decide
        · rw [List.mem_singleton.mp hc]
          decide
      split at hs
      · rename_i hname
        exact ((isName_iff.mp hname).2 c hc).2.2
      · cases hs
    · rw [not_and_or, not_not, not_not] at hkeep
      rcases hkeep with rfl | rfl
      · cases hc
      · rw [List.mem_singleton.mp hc]
        decide
  intro c hc
  by_cases hslash : c = slash
  · rw [hslash]
    decide
  · have htext := hc
    rw [← intercalate_splitAll slash text] at htext
    rcases mem_intercalate htext with heq | ⟨part, hmem, hmem'⟩
    · exact absurd heq hslash
    · exact hpart part hmem c hmem'

end Files
end SwFactory
