import Mathlib.Data.List.Count
import SwFactory.Harness.ReviewIndex

/-!
# The headers of a diff

The header of a section is read right exactly if git prints both names without
quotes and no ` b/` stands in the old one.  That it is read right only then is a
matter of counting slashes: every slash of a path is printed once.

Source: `harness_efficiency.py` (`_DIFF_HEADER_RE`).
-/

namespace SwFactory
namespace Harness

open Lexical
open Patch (RepoPath startsWith)
open Scope (GitPath special quotedByte printed asciiChar)

/-! ## The first occurrence of a separator -/

section Cutting

variable {sep text pre post : List Char}

/-- What is found stands behind the first occurrence. -/
theorem behindFirst_eq_some (h : behindFirst sep text = some post) :
    ∃ pre, text = pre ++ (sep ++ post) ∧
      ∀ pre' post', text = pre' ++ (sep ++ post') → pre.length ≤ pre'.length := by
  induction text with
  | nil => cases h
  | cons c rest ih =>
      unfold behindFirst at h
      split at h
      · next hstart =>
          obtain ⟨tail, htail⟩ := List.isPrefixOf_iff_prefix.mp hstart
          rw [← htail, List.drop_left' rfl] at h
          cases h
          exact ⟨[], htail.symm, fun _ _ _ => Nat.zero_le _⟩
      · next hstart =>
          obtain ⟨pre, rfl, hfirst⟩ := ih h
          refine ⟨c :: pre, rfl, fun pre' post' heq => ?_⟩
          cases pre' with
          | nil =>
              exact absurd (List.isPrefixOf_iff_prefix.mpr ⟨post', heq.symm⟩) hstart
          | cons d pre' =>
              exact Nat.succ_le_succ (hfirst pre' post' (List.cons.inj heq).2)

/-- The text behind an occurrence is found if there is none before it. -/
theorem behindFirst_append (hsep : sep ≠ [])
    (hfirst : ∀ pre' post', pre ++ (sep ++ post) = pre' ++ (sep ++ post') →
      pre.length ≤ pre'.length) :
    behindFirst sep (pre ++ (sep ++ post)) = some post := by
  induction pre with
  | nil =>
      obtain ⟨c, rest, rfl⟩ := List.exists_cons_of_ne_nil hsep
      rw [List.nil_append, List.cons_append, behindFirst, ← List.cons_append, if_pos,
        List.drop_left' rfl]
      exact List.isPrefixOf_iff_prefix.mpr (List.prefix_append _ _)
  | cons c pre ih =>
      rw [List.cons_append, behindFirst, if_neg]
      · exact ih fun pre' post' heq =>
          Nat.succ_le_succ_iff.mp (hfirst (c :: pre') post' (congrArg (c :: ·) heq))
      · intro hstart
        obtain ⟨post', heq⟩ := List.isPrefixOf_iff_prefix.mp hstart
        exact absurd (hfirst [] post' heq.symm) (Nat.not_succ_le_zero _)

end Cutting

/-! ## Slashes -/

section Slashes

theorem count_quotedByte (b : UInt8) :
    (quotedByte b).count '/' = if b = 0x2f then 1 else 0 := by
  have hall : ∀ n : Fin 256, (quotedByte (UInt8.ofNat n)).count '/' =
      if UInt8.ofNat n = 0x2f then 1 else 0 := by
    decide +kernel
  exact Patch.forall_byte (P := fun b => (quotedByte b).count '/' =
    if b = 0x2f then 1 else 0) hall b

theorem count_asciiChar (b : UInt8) :
    [asciiChar b].count '/' = if b = 0x2f then 1 else 0 := by
  have hall : ∀ n : Fin 256, [asciiChar (UInt8.ofNat n)].count '/' =
      if UInt8.ofNat n = 0x2f then 1 else 0 := by
    decide +kernel
  exact Patch.forall_byte (P := fun b => [asciiChar b].count '/' =
    if b = 0x2f then 1 else 0) hall b

/-- Every slash of a name is printed once. -/
theorem count_printed (q : GitPath) : (printed q).count '/' = q.bytes.count 0x2f := by
  rcases Patch.printed_cases q with heq | ⟨-, heq⟩
  · have hquoted : ∀ bytes : List UInt8,
        (bytes.flatMap quotedByte).count '/' = bytes.count 0x2f := by
      intro bytes
      induction bytes with
      | nil => rfl
      | cons b bytes ih =>
          rw [List.flatMap_cons, List.count_append, ih, count_quotedByte, List.count_cons]
          simp only [beq_iff_eq, Nat.add_comm]
    rw [heq, List.count_cons, List.count_append, hquoted]
    rfl
  · rw [heq]
    induction q.bytes with
    | nil => rfl
    | cons b bytes ih =>
        rw [List.map_cons, ← List.singleton_append, List.count_append, ih, count_asciiChar,
          List.count_cons]
        simp only [beq_iff_eq, Nat.add_comm]

/-- The bytes of a character beyond ASCII are beyond ASCII. -/
theorem ofNat_ne_slash {c : Char} (hc : 0x80 ≤ c.toNat) {n : Nat}
    (hn : n ∈ Utf8.encodePoint c.toNat) : UInt8.ofNat n ≠ 0x2f := by
  have hlarge : 0x80 ≤ n := by
    by_contra hsmall
    have hmem : n ∈ Utf8.encode [c.toNat] := by
      rwa [Utf8.encode, List.flatMap_singleton]
    have heq := List.mem_singleton.mp (Utf8.mem_encode_ascii (by omega) hmem)
    omega
  have hbyte : n < 256 := Utf8.lt_of_mem_encodePoint (Utf8.toNat_lt c) hn
  intro heq
  have hnat := congrArg UInt8.toNat heq
  rw [UInt8.toNat_ofNat', Nat.mod_eq_of_lt hbyte] at hnat
  have hslash : (0x2f : UInt8).toNat = 47 := rfl
  omega

theorem count_encodePoint (c : Char) :
    ((Utf8.encodePoint c.toNat).map UInt8.ofNat).count 0x2f = [c].count '/' := by
  by_cases hc : c.toNat < 0x80
  · rw [Utf8.encodePoint_ascii hc]
    have hchar := count_asciiChar (UInt8.ofNat c.toNat)
    rw [asciiChar, UInt8.toNat_ofNat', Nat.mod_eq_of_lt (by omega), Char.ofNat_toNat] at hchar
    rw [hchar, List.map_singleton, List.count_singleton]
    simp only [beq_iff_eq]
  · have hnot : c ≠ '/' := by
      rintro rfl
      exact hc (by decide)
    rw [List.count_eq_zero.mpr, List.count_eq_zero.mpr]
    · exact fun h => hnot (List.mem_singleton.mp h).symm
    · intro h
      obtain ⟨n, hn, heq⟩ := List.mem_map.mp h
      exact ofNat_ne_slash (by omega) hn heq

/-- Every slash of a path is one byte. -/
theorem count_bytes (p : RepoPath) : p.bytes.count 0x2f = p.text.count '/' := by
  unfold RepoPath.bytes RepoPath.code
  induction p.text with
  | nil => rfl
  | cons c text ih =>
      rw [List.map_cons, Utf8.encode, List.flatMap_cons, List.map_append, List.count_append,
        count_encodePoint, ← List.singleton_append (l := text), List.count_append]
      exact congrArg _ ih

end Slashes

/-! ## Plain names -/

section Plain

/-- Git prints the path without quotes. -/
def PlainPath (p : RepoPath) : Prop :=
  ∀ b ∈ p.bytes, special b = false

/-- A plain path is ASCII, and printed as it is. -/
theorem PlainPath.map_asciiChar {p : RepoPath} (h : PlainPath p) :
    p.bytes.map asciiChar = p.text := by
  refine RepoPath.map_asciiChar_of_ascii fun c hc => ?_
  by_contra hlarge
  -- The first byte of a character beyond ASCII is special.
  obtain ⟨n, hn⟩ := List.exists_mem_of_ne_nil _
    (List.ne_nil_of_length_pos (Patch.one_le_length_encodePoint c.toNat))
  have hbyte := Utf8.lt_of_mem_encodePoint (Utf8.toNat_lt c) hn
  have hmem : UInt8.ofNat n ∈ p.bytes :=
    List.mem_map_of_mem (List.mem_flatMap.mpr ⟨c.toNat, List.mem_map_of_mem hc, hn⟩)
  have hsmall : n < 0x80 := by
    by_contra hn'
    have hspecial := h _ hmem
    have hge : (0x7f : UInt8) ≤ UInt8.ofNat n := by
      rw [UInt8.le_iff_toNat_le, UInt8.toNat_ofNat', Nat.mod_eq_of_lt hbyte]
      exact le_trans (by decide) (Nat.le_of_not_lt hn')
    simp [special, hge] at hspecial
  have hmem : n ∈ Utf8.encode [c.toNat] := by
    rwa [Utf8.encode, List.flatMap_singleton]
  have heq := List.mem_singleton.mp (Utf8.mem_encode_ascii hsmall hmem)
  omega

/-- The side of a plain path is its letter and the path, and another one begins with a quote. -/
theorem printed_side {letter : UInt8} (hletter : letter ≠ 0) (hplain : special letter = false)
    (p : RepoPath) :
    (PlainPath p ∧ printed (p.side letter hletter) = asciiChar letter :: '/' :: p.text) ∨
      (¬ PlainPath p ∧
        ∃ rest, printed (p.side letter hletter) = '"' :: asciiChar letter :: '/' :: rest) := by
  have hany : (p.side letter hletter).bytes.any special = p.bytes.any special := by
    rw [RepoPath.side, List.any_cons, hplain]
    rfl
  unfold printed
  rw [hany]
  cases h : p.bytes.any special with
  | false =>
      have hpath : PlainPath p := fun b hb => by simpa using List.any_eq_false.mp h b hb
      refine Or.inl ⟨hpath, ?_⟩
      rw [if_neg Bool.false_ne_true, ← hpath.map_asciiChar]
      rfl
  | true =>
      obtain ⟨b, hb, hspecial⟩ := List.any_eq_true.mp h
      refine Or.inr ⟨fun hpath => ?_, p.bytes.flatMap quotedByte ++ ['"'], ?_⟩
      · rw [hpath b hb] at hspecial
        cases hspecial
      · have hone : quotedByte letter = [asciiChar letter] := by
          rw [quotedByte, hplain]
          rfl
        rw [if_pos rfl, RepoPath.side, List.flatMap_cons, hone]
        rfl

end Plain

/-! ## The header of a section -/

section Header

/-- What is left of a text in front of which ` b/` begins has a slash, and begins with it. -/
theorem slash_of_split {t rest post : List Char} (ht : t ≠ [])
    (h : t ++ ' ' :: rest = ' ' :: 'b' :: '/' :: post) : '/' ∈ t ∧ [' ', 'b', '/'] <+: t := by
  rcases t with _ | ⟨x, _ | ⟨y, _ | ⟨z, t⟩⟩⟩
  · exact absurd rfl ht
  · simp at h
  · simp at h
  · simp only [List.cons_append, List.cons.injEq] at h
    obtain ⟨rfl, rfl, rfl, -⟩ := h
    exact ⟨by simp, t, rfl⟩

/-- A ` b/` in the name of a new side has a slash in front of it. -/
theorem slash_of_name {name t post : List Char}
    (hname : (∃ rest, name = 'b' :: '/' :: rest) ∨ ∃ rest, name = '"' :: 'b' :: '/' :: rest)
    (h : name = t ++ ' ' :: 'b' :: '/' :: post) : '/' ∈ t := by
  rcases hname with ⟨rest, rfl⟩ | ⟨rest, rfl⟩
  · rcases t with _ | ⟨x, _ | ⟨y, t⟩⟩
    · simp at h
    · simp at h
    · simp only [List.cons_append, List.cons.injEq] at h
      obtain ⟨rfl, rfl, -⟩ := h
      simp
  · rcases t with _ | ⟨x, _ | ⟨y, _ | ⟨z, t⟩⟩⟩
    · simp at h
    · simp at h
    · simp at h
    · simp only [List.cons_append, List.cons.injEq] at h
      obtain ⟨rfl, rfl, rfl, -⟩ := h
      simp

/-- Both names are plain, and the old one holds no ` b/`. -/
structure ChangedFile.HeaderRead (f : ChangedFile) : Prop where
  oldPlain : PlainPath f.old
  newPlain : PlainPath f.new
  uncut : ¬ " b/".toList <:+: f.old.text

theorem headerStart : "diff --git a/".toList = "diff --git ".toList ++ ['a', '/'] := by
  decide

/-- Behind a name without quotes the reader looks for ` b/`. -/
theorem headerPath_plain (name back : List Char) :
    headerPath ("diff --git ".toList ++ ('a' :: '/' :: name ++ back)) =
      behindFirst " b/".toList (name ++ back) := by
  have htext : "diff --git ".toList ++ ('a' :: '/' :: name ++ back) =
      "diff --git a/".toList ++ (name ++ back) := by
    rw [headerStart, List.append_assoc]
    rfl
  have hstart : startsWith ("diff --git a/".toList ++ (name ++ back)) "diff --git a/".toList = true :=
    List.isPrefixOf_iff_prefix.mpr (List.prefix_append _ _)
  rw [htext, headerPath, if_pos hstart, List.drop_left' (by decide)]

/-- A header whose first name is in quotes is not read. -/
theorem headerPath_quoted (back : List Char) :
    headerPath ("diff --git ".toList ++ '"' :: back) = none := by
  rw [headerPath, if_neg]
  intro hstart
  rw [headerStart] at hstart
  have hprefix := (List.prefix_append_right_inj _).mp (List.isPrefixOf_iff_prefix.mp hstart)
  exact absurd (List.cons_prefix_cons.mp hprefix).1 (by decide)

theorem headerPath_header {f : ChangedFile} {name : List Char}
    (h : printed f.old.before = name) :
    headerPath f.header =
      headerPath ("diff --git ".toList ++ (name ++ ' ' :: printed f.new.after)) := by
  subst h
  exact congrArg headerPath (List.append_assoc _ _ _)

theorem headerPath_of_plain {f : ChangedFile} (h : PlainPath f.old) :
    headerPath f.header =
      behindFirst " b/".toList (f.old.text ++ ' ' :: printed f.new.after) := by
  have hside := @printed_side 0x61 (by decide) (by decide) f.old
  obtain ⟨-, heq⟩ := hside.resolve_right fun hquoted => hquoted.1 h
  exact (headerPath_header heq).trans (headerPath_plain _ _)

theorem headerPath_of_quoted {f : ChangedFile} (h : ¬ PlainPath f.old) :
    headerPath f.header = none := by
  have hside := @printed_side 0x61 (by decide) (by decide) f.old
  obtain ⟨-, rest, heq⟩ := hside.resolve_left fun hplain => h hplain.1
  exact (headerPath_header heq).trans (headerPath_quoted _)

theorem count_printed_after (p : RepoPath) :
    (printed p.after).count '/' = 1 + p.text.count '/' := by
  rw [count_printed, ← count_bytes]
  exact (List.count_cons_of_ne (by decide)).trans
    (List.count_cons_self.trans (Nat.add_comm _ _))

/-- What is found behind the old path is the new path only where it begins right behind it. -/
theorem headerRead_of_behindFirst {f : ChangedFile} (hold : PlainPath f.old)
    (h : behindFirst " b/".toList (f.old.text ++ ' ' :: printed f.new.after) = some f.new.text) :
    f.HeaderRead := by
  have hside := @printed_side 0x62 (by decide) (by decide) f.new
  have hname : (∃ rest, printed f.new.after = 'b' :: '/' :: rest) ∨
      ∃ rest, printed f.new.after = '"' :: 'b' :: '/' :: rest :=
    hside.imp (fun h => ⟨_, h.2⟩) (fun h => h.2)
  obtain ⟨pre, hsplit, hfirst⟩ := behindFirst_eq_some h
  -- As many slashes stand in front of the cut as in the old path.
  have hslashes : f.old.text.count '/' = pre.count '/' := by
    have hcount := congrArg (List.count '/') hsplit
    have hsep : (" b/".toList).count '/' = 1 := by decide
    rw [List.count_append, List.count_cons_of_ne (by decide), List.count_append,
      List.count_append, count_printed_after, hsep] at hcount
    omega
  have hpre : pre = f.old.text := by
    rcases List.append_eq_append_iff.mp hsplit with ⟨t, rfl, ht⟩ | ⟨t, hlong, ht⟩
    · cases t with
      | nil => exact List.append_nil _
      | cons x t =>
          obtain ⟨rfl, hrest⟩ := List.cons.inj ht
          have hslash := slash_of_name hname hrest
          rw [List.count_append, List.count_cons_of_ne (by decide)] at hslashes
          have hpos := List.count_pos_iff.mpr hslash
          omega
    · by_cases hnil : t = []
      · rw [hlong, hnil, List.append_nil]
      · obtain ⟨hslash, -⟩ := slash_of_split hnil ht.symm
        rw [hlong, List.count_append] at hslashes
        have hpos := List.count_pos_iff.mpr hslash
        omega
  rw [hpre] at hsplit hfirst
  obtain ⟨-, hafter⟩ := List.cons.inj (List.append_cancel_left hsplit)
  refine ⟨hold, ?_, fun hinfix => ?_⟩
  · by_contra hquoted
    obtain ⟨-, rest, heq⟩ := hside.resolve_left fun h => hquoted h.1
    rw [show printed f.new.after = _ from heq] at hafter
    exact absurd (List.cons.inj hafter).1 (by decide)
  · obtain ⟨front, back, hcut⟩ := hinfix
    have hle := hfirst front (back ++ ' ' :: printed f.new.after) (by
      rw [← hcut]
      simp only [List.append_assoc])
    have hlength := congrArg List.length hcut
    have hsep : (" b/".toList).length = 3 := by decide
    rw [List.length_append, List.length_append, hsep] at hlength
    omega

theorem behindFirst_of_headerRead {f : ChangedFile} (h : f.HeaderRead) :
    behindFirst " b/".toList (f.old.text ++ ' ' :: printed f.new.after) = some f.new.text := by
  have hside := @printed_side 0x62 (by decide) (by decide) f.new
  obtain ⟨-, hafter⟩ := hside.resolve_right fun hquoted => hquoted.1 h.newPlain
  have htext : f.old.text ++ ' ' :: printed f.new.after =
      f.old.text ++ ([' ', 'b', '/'] ++ f.new.text) :=
    congrArg (fun name => f.old.text ++ ' ' :: name) hafter
  rw [htext]
  refine @behindFirst_append [' ', 'b', '/'] f.old.text f.new.text (List.cons_ne_nil _ _) ?_
  intro pre' post' heq
  rcases List.append_eq_append_iff.mp heq with ⟨t, rfl, -⟩ | ⟨t, hlong, ht⟩
  · rw [List.length_append]
    exact Nat.le_add_right _ _
  · by_cases hnil : t = []
    · rw [hlong, hnil, List.append_nil]
    · obtain ⟨-, hprefix⟩ := slash_of_split hnil ht.symm
      refine absurd ?_ h.uncut
      rw [hlong]
      exact hprefix.isInfix.trans (List.suffix_append pre' t).isInfix

/-- The header yields the new path exactly if it can be read. -/
theorem headerPath_header_iff (f : ChangedFile) :
    headerPath f.header = some f.new.text ↔ f.HeaderRead := by
  by_cases hold : PlainPath f.old
  · rw [headerPath_of_plain hold]
    exact ⟨headerRead_of_behindFirst hold, behindFirst_of_headerRead⟩
  · rw [headerPath_of_quoted hold]
    exact iff_of_false (by rintro ⟨⟩) fun h => hold h.oldPlain

end Header

end Harness
end SwFactory
