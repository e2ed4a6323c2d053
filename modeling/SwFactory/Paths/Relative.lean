import SwFactory.Lexical.Splitting
import SwFactory.Machine.Fallible
import SwFactory.Text

/-!
# Relative paths

`paths.normalize_relative_path`: a portable POSIX path is brought into its
normal form, and traversal is refused.

Source: `paths.py`.
-/

namespace SwFactory
namespace Paths

open Lexical
open Machine

/-- Why a path is refused. -/
inductive PathError
  | controlCharacters
  | notClean
  | empty
  | leavesRoot
  | namesNothing
deriving DecidableEq, Repr

/-- `_CONTROL_RE` -/
def isControl (c : Char) : Bool :=
  c.toNat ≤ 0x1f || c.toNat == 0x7f

/-- `[A-Za-z]` -/
def isLetter (c : Char) : Bool :=
  ('A' ≤ c && c ≤ 'Z') || ('a' ≤ c && c ≤ 'z')

/-- `_WINDOWS_DRIVE_RE` -/
def hasDrive : List Char → Bool
  | c :: ':' :: _ => isLetter c
  | _ => false

/-- `_clean_posix` -/
def cleanPosix (value : List Char) : Except PathError Unit :=
  if value.any isControl then
    .error .controlCharacters
  else if value ≠ trim Text.isSpace value ∨ '\\' ∈ value ∨ hasDrive value then
    .error .notClean
  else
    .ok ()

/-- The parts of a `PurePosixPath`, without its root. -/
def parts (value : List Char) : List (List Char) :=
  (splitAll '/' value).filter (fun part => part != [] && part != ['.'])

/-- `path.as_posix()` of a relative path; `.` when it has no parts. -/
def asPosix (value : List Char) : List Char :=
  if parts value = [] then ['.'] else ['/'].intercalate (parts value)

/-- `normalize_relative_path`; the empty path only where it is allowed. -/
def normalizeRelativePath (allowEmpty : Bool) (value : List Char) :
    Except PathError (List Char) :=
  cleanPosix value >>= fun _ =>
    if value = [] then
      if allowEmpty then .ok [] else .error .empty
    else if value.head? = some '/' ∨ ['.', '.'] ∈ parts value then
      .error .leavesRoot
    else if asPosix value = ['.'] then
      if allowEmpty then .ok [] else .error .namesNothing
    else
      .ok (asPosix value)

/-- Segments that name something, between single slashes. -/
structure Canonical (path : List Char) : Prop where
  plain : ∀ c ∈ path, isControl c = false ∧ c ≠ '\\'
  clean : path = trim Text.isSpace path
  noDrive : hasDrive path = false
  segments : ∀ segment ∈ splitAll '/' path,
    segment ≠ [] ∧ segment ≠ ['.'] ∧ segment ≠ ['.', '.']

theorem cleanPosix_eq_ok {value : List Char} {u : Unit} :
    cleanPosix value = .ok u ↔
      value.any isControl = false ∧ value = trim Text.isSpace value ∧
        '\\' ∉ value ∧ hasDrive value = false := by
  unfold cleanPosix
  split
  · rename_i h
    simp [h]
  · rename_i hcontrol
    split
    · rename_i h
      constructor
      · rintro ⟨⟩
      · rintro ⟨-, htrim, hback, hdrive⟩
        rcases h with h | h | h
        · exact absurd htrim h
        · exact absurd h hback
        · rw [hdrive] at h
          cases h
    · rename_i h
      simp only [not_or, ne_eq, not_not, Bool.not_eq_true] at h hcontrol
      exact ⟨fun _ => ⟨hcontrol, h.1, h.2.1, h.2.2⟩, fun _ => rfl⟩

/-- A path that is its own normal form is canonical. -/
theorem canonical_of_normalize {path : List Char}
    (h : normalizeRelativePath false path = .ok path) :
    Canonical path := by
  unfold normalizeRelativePath at h
  cases hclean : cleanPosix path with
  | error e =>
      rw [hclean] at h
      cases h
  | ok u =>
      rw [hclean] at h
      obtain ⟨hcontrol, htrim, hback, hdrive⟩ := cleanPosix_eq_ok.mp hclean
      simp only [Bind.bind, Except.bind, Bool.false_eq_true, if_false] at h
      split at h
      · cases h
      split at h
      · cases h
      rename_i hroot
      split at h
      · cases h
      rename_i hdot
      have hposix : asPosix path = path := Except.ok.inj h
      have hparts : parts path ≠ [] := by
        intro hempty
        exact hdot (by simp [asPosix, hempty])
      have hpath : path = ['/'].intercalate (parts path) := by
        rw [asPosix, if_neg hparts] at hposix
        exact hposix.symm
      have hsplit : splitAll '/' path = parts path := by
        conv_lhs => rw [hpath]
        refine splitAll_intercalate hparts fun segment hsegment => ?_
        exact not_mem_of_mem_splitAll (List.mem_filter.mp hsegment).1
      refine ⟨fun c hc => ⟨?_, ?_⟩, htrim, hdrive, fun segment hsegment => ?_⟩
      · exact (List.any_eq_false.mp hcontrol c hc) |> Bool.eq_false_iff.mpr
      · rintro rfl
        exact hback hc
      · rw [hsplit] at hsegment
        have hfilter := (List.mem_filter.mp hsegment).2
        simp only [Bool.and_eq_true, bne_iff_ne, ne_eq] at hfilter
        refine ⟨hfilter.1, hfilter.2, ?_⟩
        rintro rfl
        exact hroot (Or.inr hsegment)

/-- A path in normal form, the empty path among them. -/
structure Normal (dir : List Char) : Prop where
  posix : dir = [] ∨ asPosix dir = dir
  notDot : dir ≠ ['.']

theorem normal_of_normalize {allowEmpty : Bool} {value dir : List Char}
    (h : normalizeRelativePath allowEmpty value = .ok dir) : Normal dir := by
  unfold normalizeRelativePath at h
  obtain ⟨-, -, h⟩ := bind_eq_ok h
  split at h
  · split at h
    · cases h
      exact ⟨Or.inl rfl, by decide⟩
    · cases h
  split at h
  · cases h
  split at h
  · split at h
    · cases h
      exact ⟨Or.inl rfl, by decide⟩
    · cases h
  rename_i hdot
  have hdir : asPosix value = dir := Except.ok.inj h
  have hparts : parts value ≠ [] := by
    intro hempty
    exact hdot (by simp [asPosix, hempty])
  have hposix : dir = ['/'].intercalate (parts value) := by
    rw [← hdir, asPosix, if_neg hparts]
  have hsame : parts dir = parts value := by
    conv_lhs => rw [hposix, parts]
    rw [splitAll_intercalate hparts fun part hpart =>
      not_mem_of_mem_splitAll (List.mem_filter.mp hpart).1]
    exact List.filter_eq_self.mpr fun part hpart => (List.mem_filter.mp hpart).2
  refine ⟨Or.inr ?_, fun heq => hdot (hdir.trans heq)⟩
  rw [asPosix, hsame, if_neg hparts, hposix]

/-- The normal form of a path has no control character. -/
theorem noControl_of_normalize {allowEmpty : Bool} {value path : List Char}
    (h : normalizeRelativePath allowEmpty value = .ok path) :
    ∀ c ∈ path, isControl c = false := by
  unfold normalizeRelativePath at h
  obtain ⟨u, hclean, h⟩ := bind_eq_ok h
  obtain ⟨hcontrol, -, -, -⟩ := cleanPosix_eq_ok.mp hclean
  have hposix : ∀ c ∈ asPosix value, isControl c = false := by
    intro c hc
    unfold asPosix at hc
    split at hc
    · rw [List.mem_singleton.mp hc]
      decide
    · rcases mem_intercalate hc with rfl | ⟨part, hpart, hmem⟩
      · decide
      · have hvalue := mem_of_mem_splitAll (List.mem_filter.mp hpart).1 hmem
        exact Bool.eq_false_iff.mpr (List.any_eq_false.mp hcontrol c hvalue)
  split at h
  · split at h
    · cases h
      rintro c ⟨⟩
    · cases h
  split at h
  · cases h
  split at h
  · split at h
    · cases h
      rintro c ⟨⟩
    · cases h
  · cases h
    exact hposix

/-- A path in normal form is its own normal form, if it is accepted again. -/
theorem normalize_of_normal {allowEmpty : Bool} {dir result : List Char} (hnormal : Normal dir)
    (h : normalizeRelativePath allowEmpty dir = .ok result) :
    result = dir ∧ '\x00' ∉ dir ∧ trim Text.isSpace dir = dir := by
  unfold normalizeRelativePath at h
  obtain ⟨u, hclean, h⟩ := bind_eq_ok h
  obtain ⟨hcontrol, htrim, -, -⟩ := cleanPosix_eq_ok.mp hclean
  refine ⟨?_, fun hnul => ?_, htrim.symm⟩
  · split at h
    · rename_i hempty
      split at h
      · cases h
        exact hempty.symm
      · cases h
    rename_i hempty
    have hposix : asPosix dir = dir := hnormal.posix.resolve_left hempty
    split at h
    · cases h
    rw [hposix, if_neg hnormal.notDot] at h
    cases h
    rfl
  · have := List.any_eq_false.mp hcontrol _ hnul
    exact this (by decide)

example : normalizeRelativePath false "src/./a//b.py/".toList =
    .ok "src/a/b.py".toList := by
  decide +kernel

end Paths
end SwFactory
