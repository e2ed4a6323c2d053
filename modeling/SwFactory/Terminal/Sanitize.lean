import Mathlib.Data.List.Infix
import SwFactory.Identities.Ids

/-!
# Untrusted text on a terminal

A text is scrubbed in one pass: what a terminal acts on is left out, together with
the body of an escape sequence, and what remains is cut at a bound with one mark
behind it.  What comes out is the visible part of the text, as far as the bound
allows; so a scrubbed text is scrubbed once and for all.

Source: `rust/crates/swf-domain/src/sanitize.rs`.
-/

namespace SwFactory
namespace Terminal

open Identities (Str)

def maxLineChars : Nat :=
  4096

def maxBlockChars : Nat :=
  64 * 1024

def truncationMark : Char :=
  '…'

/-! ## Sequences -/

/-- The code point of a character lies in a range. -/
def within (least most : Nat) (c : Char) : Bool :=
  least ≤ c.toNat && c.toNat ≤ most

/-- `skip_csi_body`: parameters and intermediates, then a final byte if there is one. -/
def skipCsiBody (text : Str) : Str :=
  match text.dropWhile (within 0x20 0x3f) with
  | c :: rest => if within 0x40 0x7e c then rest else c :: rest
  | [] => []

/-- `skip_string_body`: up to a terminator, which is taken, or a newline, which is not. -/
def skipStringBody : Str → Str
  | [] => []
  | c :: rest =>
      if c = '\n' then
        c :: rest
      else if c.toNat = 0x07 ∨ c.toNat = 0x9c then
        rest
      else if c.toNat = 0x1b then
        match rest with
        | '\\' :: rest => rest
        | rest => rest
      else
        skipStringBody rest

/-- `skip_escape`, behind the escape character. -/
def skipEscape (text : Str) : Str :=
  match text with
  | [] => []
  | c :: rest =>
      if c = '[' then
        skipCsiBody rest
      else if c ∈ [']', 'P', 'X', '^', '_'] then
        skipStringBody rest
      else if within 0x20 0x2f c then
        (text.dropWhile (within 0x20 0x2f)).drop 1
      else if within 0x30 0x7e c then
        rest
      else
        text

theorem skipCsiBody_suffix (text : Str) : skipCsiBody text <:+ text := by
  have hdrop := List.dropWhile_suffix (within 0x20 0x3f) (l := text)
  unfold skipCsiBody
  split
  · next c rest heq =>
      rw [heq] at hdrop
      split
      · exact (List.suffix_cons c rest).trans hdrop
      · exact hdrop
  · exact List.nil_suffix

theorem skipStringBody_suffix (text : Str) : skipStringBody text <:+ text := by
  induction text with
  | nil => exact List.suffix_rfl
  | cons c rest ih =>
      unfold skipStringBody
      split
      · exact List.suffix_rfl
      split
      · exact List.suffix_cons c rest
      split
      · split
        · next d rest' => exact ((List.suffix_cons _ _).trans (List.suffix_cons _ _))
        · exact List.suffix_cons c rest
      · exact ih.trans (List.suffix_cons c rest)

theorem skipEscape_suffix (text : Str) : skipEscape text <:+ text := by
  unfold skipEscape
  split
  · exact List.suffix_rfl
  · next c rest =>
      split
      · exact (skipCsiBody_suffix rest).trans (List.suffix_cons c rest)
      split
      · exact (skipStringBody_suffix rest).trans (List.suffix_cons c rest)
      split
      · exact (List.drop_suffix 1 _).trans (List.dropWhile_suffix _)
      split
      · exact List.suffix_cons c rest
      · exact List.suffix_rfl

/-! ## Scrubbing -/

section Scrub

variable (keepNewlines : Bool)

/-- The characters that are shown: tabs, newlines of a block, and no other control. -/
def shown (c : Char) : Bool :=
  if c = '\n' then keepNewlines
  else c = '\t' || (0x20 ≤ c.toNat && c.toNat ≠ 0x7f && !within 0x80 0x9f c)

/-- `scrub`, from the place where `kept` characters have been kept. -/
def scrubFrom (maxChars kept : Nat) : Str → Str
  | [] => []
  | c :: rest =>
      if c.toNat = 0x1b then
        scrubFrom maxChars kept (skipEscape rest)
      else if c.toNat = 0x9b then
        scrubFrom maxChars kept (skipCsiBody rest)
      else if c.toNat ∈ [0x90, 0x98, 0x9d, 0x9e, 0x9f] then
        scrubFrom maxChars kept (skipStringBody rest)
      else if shown keepNewlines c = false then
        scrubFrom maxChars kept rest
      else if kept = maxChars then
        [truncationMark]
      else
        c :: scrubFrom maxChars (kept + 1) rest
termination_by text => text.length
decreasing_by
  · exact Nat.lt_succ_of_le (skipEscape_suffix rest).length_le
  · exact Nat.lt_succ_of_le (skipCsiBody_suffix rest).length_le
  · exact Nat.lt_succ_of_le (skipStringBody_suffix rest).length_le
  · exact Nat.lt_succ_self _
  · exact Nat.lt_succ_self _

/-- `scrub` -/
def scrub (maxChars : Nat) (text : Str) : Str :=
  scrubFrom keepNewlines maxChars 0 text

end Scrub

/-- `sanitize_line` -/
def sanitizeLine (text : Str) : Str :=
  scrub false maxLineChars text

/-- `sanitize_block` -/
def sanitizeBlock (text : Str) : Str :=
  scrub true maxBlockChars text

/-! ## What comes out -/

/-- A text, as far as the bound allows. -/
def bounded (maxChars : Nat) (text : Str) : Str :=
  if text.length ≤ maxChars then text else text.take maxChars ++ [truncationMark]

theorem bounded_cons (maxChars : Nat) (c : Char) (text : Str) :
    bounded (maxChars + 1) (c :: text) = c :: bounded maxChars text := by
  simp only [bounded, List.length_cons, Nat.add_le_add_iff_right, List.take_succ_cons]
  split <;> rfl

theorem length_bounded_le (maxChars : Nat) (text : Str) :
    (bounded maxChars text).length ≤ maxChars + 1 := by
  unfold bounded
  split
  · omega
  · rw [List.length_append, List.length_take, List.length_singleton]
    omega

/-- The texts that fit, or end behind the bound with the mark. -/
theorem bounded_eq_self_iff {maxChars : Nat} {text : Str} :
    bounded maxChars text = text ↔
      text.length ≤ maxChars ∨
        (text.length = maxChars + 1 ∧ text.getLast? = some truncationMark) := by
  unfold bounded
  by_cases hfits : text.length ≤ maxChars
  · simp [hfits]
  · rw [if_neg hfits]
    constructor
    · intro heq
      have hlength := congrArg List.length heq
      rw [List.length_append, List.length_take, List.length_singleton] at hlength
      refine Or.inr ⟨by omega, ?_⟩
      rw [← heq, List.getLast?_concat]
    · rintro (h | ⟨hlength, hlast⟩)
      · exact absurd h hfits
      · obtain ⟨front, rfl⟩ := List.getLast?_eq_some_iff.mp hlast
        rw [List.length_append, List.length_singleton, Nat.add_right_cancel_iff] at hlength
        rw [← hlength, List.take_left]

theorem bounded_bounded (maxChars : Nat) (text : Str) :
    bounded maxChars (bounded maxChars text) = bounded maxChars text := by
  refine bounded_eq_self_iff.mpr ?_
  unfold bounded
  split
  · exact Or.inl ‹_›
  · refine Or.inr ⟨?_, List.getLast?_concat⟩
    rw [List.length_append, List.length_take, List.length_singleton]
    omega

section Scrubbed

variable {keepNewlines : Bool}
variable {maxChars kept : Nat}
variable {text : Str}

/-- A shown character begins no sequence. -/
theorem ne_of_shown {c : Char} (h : shown keepNewlines c = true) :
    c.toNat ≠ 0x1b ∧ c.toNat ≠ 0x9b ∧ c.toNat ∉ [0x90, 0x98, 0x9d, 0x9e, 0x9f] := by
  unfold shown at h
  split at h
  · next hnewline =>
      subst hnewline
      decide
  · rw [Bool.or_eq_true, decide_eq_true_eq] at h
    rcases h with rfl | h
    · decide
    · simp only [within, Bool.and_eq_true, decide_eq_true_eq, Bool.not_eq_true',
        Bool.and_eq_false_iff, decide_eq_false_iff_not] at h
      simp only [List.mem_cons, List.not_mem_nil, or_false]
      omega

theorem shown_truncationMark : shown keepNewlines truncationMark = true := by
  cases keepNewlines <;> decide

theorem shown_bounded (h : ∀ c ∈ text, shown keepNewlines c = true) :
    ∀ c ∈ bounded maxChars text, shown keepNewlines c = true := by
  intro c hc
  unfold bounded at hc
  split at hc
  · exact h c hc
  · rcases List.mem_append.mp hc with hc | hc
    · exact h c (List.mem_of_mem_take hc)
    · rw [List.mem_singleton.mp hc]
      exact shown_truncationMark

/-- Of a text the shown part that is kept is bounded. -/
theorem scrubFrom_eq (hkept : kept ≤ maxChars) :
    ∃ visible, visible.Sublist text ∧ (∀ c ∈ visible, shown keepNewlines c = true) ∧
      scrubFrom keepNewlines maxChars kept text = bounded (maxChars - kept) visible := by
  induction kept, text using scrubFrom.induct keepNewlines maxChars with
  | case1 kept =>
      refine ⟨[], List.Sublist.refl _, nofun, ?_⟩
      rw [scrubFrom]
      rfl
  | case2 kept c rest hescape ih =>
      obtain ⟨visible, hsub, hvisible, heq⟩ := ih hkept
      refine ⟨visible, hsub.trans ?_, hvisible, ?_⟩
      · exact (skipEscape_suffix rest).sublist.trans (List.sublist_cons_self c rest)
      · rw [scrubFrom, if_pos hescape, heq]
  | case3 kept c rest hescape hcsi ih =>
      obtain ⟨visible, hsub, hvisible, heq⟩ := ih hkept
      refine ⟨visible, hsub.trans ?_, hvisible, ?_⟩
      · exact (skipCsiBody_suffix rest).sublist.trans (List.sublist_cons_self c rest)
      · rw [scrubFrom, if_neg hescape, if_pos hcsi, heq]
  | case4 kept c rest hescape hcsi hstring ih =>
      obtain ⟨visible, hsub, hvisible, heq⟩ := ih hkept
      refine ⟨visible, hsub.trans ?_, hvisible, ?_⟩
      · exact (skipStringBody_suffix rest).sublist.trans (List.sublist_cons_self c rest)
      · rw [scrubFrom, if_neg hescape, if_neg hcsi, if_pos hstring, heq]
  | case5 kept c rest hescape hcsi hstring hhidden ih =>
      obtain ⟨visible, hsub, hvisible, heq⟩ := ih hkept
      refine ⟨visible, hsub.trans (List.sublist_cons_self c rest), hvisible, ?_⟩
      rw [scrubFrom, if_neg hescape, if_neg hcsi, if_neg hstring, if_pos hhidden, heq]
  | case6 c rest hescape hcsi hstring hshown =>
      rw [Bool.not_eq_false] at hshown
      refine ⟨[c], (List.nil_sublist rest).cons_cons c, by simpa using hshown, ?_⟩
      rw [scrubFrom, if_neg hescape, if_neg hcsi, if_neg hstring, hshown,
        if_neg Bool.false_ne_true.symm, if_pos rfl, Nat.sub_self]
      rfl
  | case7 kept c rest hescape hcsi hstring hshown hroom ih =>
      rw [Bool.not_eq_false] at hshown
      obtain ⟨visible, hsub, hvisible, heq⟩ := ih (by omega)
      refine ⟨c :: visible, hsub.cons_cons c, List.forall_mem_cons.mpr ⟨hshown, hvisible⟩, ?_⟩
      rw [scrubFrom, if_neg hescape, if_neg hcsi, if_neg hstring, hshown,
        if_neg Bool.false_ne_true.symm, if_neg hroom, heq, ← bounded_cons]
      congr 1
      omega

/-- A shown text is only bounded. -/
theorem scrubFrom_of_shown (h : ∀ c ∈ text, shown keepNewlines c = true) (hkept : kept ≤ maxChars) :
    scrubFrom keepNewlines maxChars kept text = bounded (maxChars - kept) text := by
  induction text generalizing kept with
  | nil =>
      rw [scrubFrom]
      rfl
  | cons c rest ih =>
      obtain ⟨hc, hrest⟩ := List.forall_mem_cons.mp h
      obtain ⟨hescape, hcsi, hstring⟩ := ne_of_shown hc
      rw [scrubFrom, if_neg hescape, if_neg hcsi, if_neg hstring, hc,
        if_neg Bool.false_ne_true.symm]
      split
      · next hfull =>
          rw [hfull, Nat.sub_self]
          rfl
      · next hroom =>
          rw [ih hrest (by omega), ← bounded_cons]
          congr 1
          omega

theorem scrub_of_shown (h : ∀ c ∈ text, shown keepNewlines c = true) :
    scrub keepNewlines maxChars text = bounded maxChars text :=
  scrubFrom_of_shown h (Nat.zero_le _)

end Scrubbed

/-- What a terminal acts on is scrubbed. -/
theorem shown_scrub {keepNewlines : Bool} {maxChars : Nat} {text : Str} :
    ∀ c ∈ scrub keepNewlines maxChars text, shown keepNewlines c = true := by
  obtain ⟨visible, -, hvisible, heq⟩ : ∃ visible, visible.Sublist text ∧
      (∀ c ∈ visible, shown keepNewlines c = true) ∧
        scrub keepNewlines maxChars text = bounded maxChars visible :=
    scrubFrom_eq (Nat.zero_le maxChars)
  rw [heq]
  exact shown_bounded hvisible

/--
A scrubbed text is the bounded visible part of a text, holds nothing that a terminal
acts on, and is left alone by a second scrubbing; the texts that are left alone are
those that are shown and fit, or end behind the bound with the mark.
-/
theorem scrub_once_and_for_all (keepNewlines : Bool) (maxChars : Nat) (text : Str) :
    (∃ visible, visible.Sublist text ∧ (∀ c ∈ visible, shown keepNewlines c = true) ∧
        scrub keepNewlines maxChars text = bounded maxChars visible) ∧
      (∀ c ∈ scrub keepNewlines maxChars text, shown keepNewlines c = true) ∧
        (scrub keepNewlines maxChars text).length ≤ maxChars + 1 ∧
          scrub keepNewlines maxChars (scrub keepNewlines maxChars text) =
              scrub keepNewlines maxChars text ∧
            (scrub keepNewlines maxChars text = text ↔
              (∀ c ∈ text, shown keepNewlines c = true) ∧
                (text.length ≤ maxChars ∨
                  (text.length = maxChars + 1 ∧ text.getLast? = some truncationMark))) := by
  obtain ⟨visible, hsub, hvisible, heq⟩ : ∃ visible, visible.Sublist text ∧
      (∀ c ∈ visible, shown keepNewlines c = true) ∧
        scrub keepNewlines maxChars text = bounded maxChars visible :=
    scrubFrom_eq (Nat.zero_le maxChars)
  have hshown : ∀ c ∈ scrub keepNewlines maxChars text, shown keepNewlines c = true :=
    shown_scrub
  refine ⟨⟨visible, hsub, hvisible, heq⟩, hshown, ?_, ?_, ?_⟩
  · rw [heq]
    exact length_bounded_le maxChars visible
  · rw [scrub_of_shown hshown, heq, bounded_bounded]
  · constructor
    · intro hself
      rw [hself] at hshown
      rw [scrub_of_shown hshown] at hself
      exact ⟨hshown, bounded_eq_self_iff.mp hself⟩
    · rintro ⟨hall, hfits⟩
      rw [scrub_of_shown hall]
      exact bounded_eq_self_iff.mpr hfits

end Terminal
end SwFactory
