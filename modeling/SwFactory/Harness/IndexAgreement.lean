import Mathlib.Algebra.BigOperators.Group.List.Basic
import Mathlib.Algebra.Order.Ring.Nat
import SwFactory.Harness.IndexSections

/-!
# When the index of a diff is faithful

The index has one row for each file, with its new path and its counts, if every
header is read and the lines of the hunks are taken for what they are.  Only a line
of a hunk that poses as a header can stand in for a header that is not read.

Source: `harness_efficiency.py` (`_review_diff_files`).
-/

namespace SwFactory
namespace Harness

open Lexical
open Patch (startsWith)

/-! ## The index -/

section Index

theorem reviewDiffFiles_rendered (files : List ChangedFile) :
    reviewDiffFiles (rendered files) =
      ((files.flatMap fun f => f.lines.flatMap linePieces).foldl Reader.line .start).finish := by
  rw [reviewDiffFiles, rendered, splitlines_joined, List.flatMap_assoc]
  rfl

/-- Where each header is read and no line poses as one, the rows are those of the sections. -/
theorem finish_files {files : List ChangedFile} {path : ChangedFile → List Char}
    (h : ∀ f ∈ files, headerPath f.header = some (path f) ∧ f.NoHeader) (s : Reader) :
    ((files.flatMap fun f => f.lines.flatMap linePieces).foldl Reader.line s).finish =
      s.finish ++ files.map fun f => f.seenRow (path f) := by
  induction files generalizing s with
  | nil => exact (List.append_nil _).symm
  | cons f files ih =>
      obtain ⟨⟨hpath, hbody⟩, hfiles⟩ := List.forall_mem_cons.mp h
      rw [List.flatMap_cons, List.foldl_append, ih hfiles, f.finish_foldl hpath hbody,
        List.append_assoc]
      rfl

/-- The sections whose header is read and which hold no other one. -/
def ChangedFile.OneHeader (f : ChangedFile) : Prop :=
  (headerPath f.header).isSome = true ∧ f.NoHeader

theorem sum_toNat {α : Type*} (p : α → Bool) (xs : List α) :
    (xs.map fun x => (p x).toNat).sum = xs.countP p := by
  induction xs with
  | nil => rfl
  | cons x xs ih =>
      rw [List.map_cons, List.sum_cons, List.countP_cons, ih]
      cases p x <;> simp [Nat.add_comm]

/-- As many headers as files, where each section has at most one or each has at least one. -/
theorem oneHeader_of_length {files : List ChangedFile}
    (h : (∀ f ∈ files, f.NoHeader) ∨ ∀ f ∈ files, (headerPath f.header).isSome = true)
    (hlength : (reviewDiffFiles (rendered files)).length = files.length) :
    ∀ f ∈ files, f.OneHeader := by
  have hsum : files.countP (fun f => (headerPath f.header).isSome) +
      (files.map fun f => f.bodyPieces.countP fun line => (headerPath line).isSome).sum =
        files.length := by
    rw [reviewDiffFiles_rendered, Reader.length_finish_foldl, List.countP_flatMap] at hlength
    rw [← sum_toNat, ← List.sum_map_add, ← hlength]
    simp [Function.comp_def, ChangedFile.countP_header, Reader.finish, Reader.start, Reader.flush]
  rcases h with hnone | hsome
  · have hzero : (files.map fun f =>
        f.bodyPieces.countP fun line => (headerPath line).isSome).sum = 0 := by
      refine List.sum_eq_zero fun n hn => ?_
      obtain ⟨f, hf, rfl⟩ := List.mem_map.mp hn
      exact f.noHeader_iff.mp (hnone f hf)
    rw [hzero, Nat.add_zero] at hsum
    exact fun f hf => ⟨List.countP_eq_length.mp hsum f hf, hnone f hf⟩
  · rw [List.countP_eq_length.mpr hsome] at hsum
    have hzero : (files.map fun f =>
        f.bodyPieces.countP fun line => (headerPath line).isSome).sum = 0 := by
      omega
    intro f hf
    refine ⟨hsome f hf, f.noHeader_iff.mpr ?_⟩
    exact List.sum_eq_zero_iff_forall_eq_nat.mp hzero _ (List.mem_map_of_mem hf)

/-- What the reader needs of a file. -/
structure ChangedFile.ReadRight (f : ChangedFile) : Prop where
  header : f.HeaderRead
  noHeader : f.NoHeader
  hunks : f.bodyPieces.countP isHunkLine = f.hunks.length
  added : f.bodyPieces.countP isAddedLine = f.count .added
  deleted : f.bodyPieces.countP isDeletedLine = f.count .deleted

/-- The row of a section is the one that the file should have exactly if the file is read right. -/
theorem ChangedFile.readRight_iff (f : ChangedFile) :
    f.ReadRight ↔ f.NoHeader ∧ ∃ path, headerPath f.header = some path ∧ f.seenRow path = f.row := by
  constructor
  · intro h
    refine ⟨h.noHeader, f.new.text, (headerPath_header_iff f).mpr h.header, ?_⟩
    rw [seenRow, row, h.hunks, h.added, h.deleted]
  · rintro ⟨hbody, path, hpath, hrow⟩
    obtain ⟨rfl, hhunks, hadded, hdeleted⟩ := ReviewDiffFile.mk.inj hrow
    exact ⟨(headerPath_header_iff f).mp hpath, hbody, hhunks, hadded, hdeleted⟩

/-- With one header in each section the index is faithful exactly if each file is read right. -/
theorem faithful_iff_of_oneHeader {files : List ChangedFile} (h : ∀ f ∈ files, f.OneHeader) :
    reviewDiffFiles (rendered files) = files.map ChangedFile.row ↔
      ∀ f ∈ files, f.ReadRight := by
  have hpath : ∀ f ∈ files,
      headerPath f.header = some ((headerPath f.header).getD []) ∧ f.NoHeader := by
    intro f hf
    obtain ⟨path, hpath⟩ := Option.isSome_iff_exists.mp (h f hf).1
    exact ⟨by rw [hpath]; rfl, (h f hf).2⟩
  rw [reviewDiffFiles_rendered, finish_files hpath]
  change files.map _ = _ ↔ _
  rw [List.map_inj_left]
  refine forall₂_congr fun f hf => ?_
  rw [f.readRight_iff]
  constructor
  · exact fun hrow => ⟨(h f hf).2, _, (hpath f hf).1, hrow⟩
  · rintro ⟨-, path, hsome, hrow⟩
    rwa [hsome]

/-- A line `-- drop` is deleted from a file. -/
def commentDropped : ChangedFile where
  old := ⟨"query.sql".toList, by decide, by decide⟩
  new := ⟨"query.sql".toList, by decide, by decide⟩
  created := false
  deleted := false
  extended := [.index [1, 2, 3] [4, 5, 6] (some 0o100644)]
  body := .text [⟨1, 0, ⟨[], by decide⟩, [⟨.deleted, ⟨"-- drop".toList, by decide⟩⟩]⟩]

/-- The name is quoted, and a form feed hides a header of the same name in a line. -/
def standIn : ChangedFile where
  old := ⟨"é".toList, by decide, by decide⟩
  new := ⟨"é".toList, by decide, by decide⟩
  created := false
  deleted := false
  extended := []
  body := .text [⟨1, 1, ⟨[], by decide⟩,
    [⟨.context, ⟨"\x0cdiff --git a/z b/é\x0c@@".toList, by decide⟩⟩]⟩]

example : reviewDiffFiles (rendered [standIn]) = [standIn.row] ∧ headerPath standIn.header = none := by
  decide +kernel

end Index

end Harness
end SwFactory
