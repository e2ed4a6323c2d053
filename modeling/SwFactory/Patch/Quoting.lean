import SwFactory.Lexical.Utf8
import SwFactory.Patch.Scanner
import SwFactory.Scope.Changes

/-!
# Quoted names in a patch

Git prints a name in quotes when one of its bytes is special, with an escape for
each special byte.  The policy reads an escape as one character, so that it
reads a name back byte by byte: a name of ASCII characters is itself again, and
every other name is longer than it was.
-/

namespace SwFactory
namespace Patch

open Lexical
open Scope (GitPath special escapeLetter octalDigit quotedByte printed asciiChar)

/-! ## Characters and bytes -/

/-- A character beyond ASCII has more than one byte. -/
theorem one_lt_length_encodePoint {n : Nat} (h : 0x80 ≤ n) :
    1 < (Utf8.encodePoint n).length := by
  unfold Utf8.encodePoint
  rw [if_neg (by omega)]
  split
  · simp
  split
  · simp
  · simp

theorem one_le_length_encodePoint (n : Nat) : 1 ≤ (Utf8.encodePoint n).length := by
  by_cases h : n < 0x80
  · rw [Utf8.encodePoint_ascii h]
    exact le_rfl
  · exact (one_lt_length_encodePoint (by omega)).le

/-- A path of the repository: a text that is not empty and has no NUL. -/
structure RepoPath where
  text : List Char
  named : text ≠ []
  noNul : Char.ofNat 0 ∉ text

namespace RepoPath

/-- The UTF-8 code of the path. -/
def code (p : RepoPath) : List Nat :=
  Utf8.encode (p.text.map Char.toNat)

def bytes (p : RepoPath) : List UInt8 :=
  p.code.map UInt8.ofNat

theorem code_lt {p : RepoPath} {n : Nat} (h : n ∈ p.code) : n < 256 := by
  obtain ⟨m, hm, hmem⟩ := List.mem_flatMap.mp h
  obtain ⟨c, -, rfl⟩ := List.mem_map.mp hm
  exact Utf8.lt_of_mem_encodePoint (Utf8.toNat_lt c) hmem

theorem bytes_ne_nil (p : RepoPath) : p.bytes ≠ [] := by
  obtain ⟨c, rest, heq⟩ := List.exists_cons_of_ne_nil p.named
  intro h
  rw [bytes, List.map_eq_nil_iff, code, heq, List.map_cons, Utf8.encode, List.flatMap_cons,
    List.append_eq_nil_iff] at h
  have hone := one_le_length_encodePoint c.toNat
  rw [h.1] at hone
  exact absurd hone (by decide)

theorem zero_notMem_bytes (p : RepoPath) : 0 ∉ p.bytes := by
  intro h
  obtain ⟨n, hn, heq⟩ := List.mem_map.mp h
  have hzero : n = 0 := by
    have := congrArg UInt8.toNat heq
    rwa [UInt8.toNat_ofNat', Nat.mod_eq_of_lt (code_lt hn)] at this
  subst hzero
  obtain ⟨c, hc, hcode⟩ := List.mem_map.mp (Utf8.mem_encode_ascii (by decide) hn)
  refine p.noNul ?_
  rw [← hcode, Char.ofNat_toNat]
  exact hc

/-- The name of one side of a diff: `a/` or `b/` and the path. -/
def side (letter : UInt8) (hletter : letter ≠ 0) (p : RepoPath) : GitPath where
  bytes := letter :: 0x2f :: p.bytes
  named := List.cons_ne_nil _ _
  noNul := by
    rintro h
    rcases List.mem_cons.mp h with h | h
    · exact hletter h.symm
    rcases List.mem_cons.mp h with h | h
    · cases h
    · exact p.zero_notMem_bytes h

def before (p : RepoPath) : GitPath :=
  p.side 0x61 (by decide)

def after (p : RepoPath) : GitPath :=
  p.side 0x62 (by decide)

end RepoPath

/-! ## One byte -/

/-- What holds of the bytes below 256 holds of each byte. -/
theorem forall_byte {P : UInt8 → Prop} (h : ∀ n : Fin 256, P (UInt8.ofNat n)) (b : UInt8) :
    P b := by
  have := h ⟨b.toNat, b.toNat_lt⟩
  rwa [UInt8.ofNat_toNat] at this

/-- A letter that escapes a byte is no octal digit, and is read as the byte. -/
theorem escapeLetter_spec (b : UInt8) :
    ∀ letter, escapeLetter b = some letter →
      ¬ ('0' ≤ letter ∧ letter ≤ '7') ∧ letter ≠ '\n' ∧ cEscape letter = asciiChar b := by
  have hall : ∀ n : Fin 256, (escapeLetter (UInt8.ofNat n)).all (fun letter =>
      !(decide ('0' ≤ letter) && decide (letter ≤ '7')) && decide (letter ≠ '\n') &&
        decide (cEscape letter = asciiChar (UInt8.ofNat n))) = true := by
    decide +kernel
  intro letter hletter
  have hb := forall_byte (P := fun b => (escapeLetter b).all (fun letter =>
    !(decide ('0' ≤ letter) && decide (letter ≤ '7')) && decide (letter ≠ '\n') &&
      decide (cEscape letter = asciiChar b)) = true) hall b
  rw [hletter] at hb
  simpa only [Option.all_some, Bool.and_eq_true, Bool.not_eq_true', Bool.and_eq_false_iff,
    decide_eq_true_eq, decide_eq_false_iff_not, ← not_and_or, and_assoc] using hb

/-- Three octal digits are read as their byte. -/
theorem octal_digits (b : UInt8) :
    octal [octalDigit (b.toNat / 64), octalDigit (b.toNat / 8), octalDigit b.toNat] =
      some (asciiChar b) := by
  have hall : ∀ n : Fin 256,
      octal [octalDigit ((UInt8.ofNat n).toNat / 64), octalDigit ((UInt8.ofNat n).toNat / 8),
        octalDigit (UInt8.ofNat n).toNat] = some (asciiChar (UInt8.ofNat n)) := by
    decide +kernel
  exact forall_byte
    (P := fun b =>
      octal [octalDigit (b.toNat / 64), octalDigit (b.toNat / 8), octalDigit b.toNat] =
        some (asciiChar b)) hall b

/-- A digit is neither a quote nor a backslash, and no line feed. -/
theorem octalDigit_spec (n : Nat) :
    octalDigit n ≠ '"' ∧ octalDigit n ≠ '\\' ∧ octalDigit n ≠ '\n' := by
  have hall : ∀ d : Fin 8, Char.ofNat (0x30 + d) ≠ '"' ∧ Char.ofNat (0x30 + d) ≠ '\\' ∧
      Char.ofNat (0x30 + d) ≠ '\n' := by
    decide
  exact hall ⟨n % 8, Nat.mod_lt _ (by decide)⟩

/-- A byte that is not special is neither a quote nor a backslash. -/
theorem asciiChar_spec (b : UInt8) :
    special b = false → asciiChar b ≠ '"' ∧ asciiChar b ≠ '\\' := by
  have hall : ∀ n : Fin 256, special (UInt8.ofNat n) = false →
      asciiChar (UInt8.ofNat n) ≠ '"' ∧ asciiChar (UInt8.ofNat n) ≠ '\\' := by
    decide +kernel
  exact forall_byte
    (P := fun b => special b = false → asciiChar b ≠ '"' ∧ asciiChar b ≠ '\\') hall b

theorem octal_eq_none {c : Char} {rest : List Char} (h : ¬ ('0' ≤ c ∧ c ≤ '7')) :
    octal (c :: rest) = none := by
  unfold octal
  split
  · next heq =>
      cases heq
      rw [if_neg]
      intro hdigits
      simp only [List.all_cons, Bool.and_eq_true, decide_eq_true_eq] at hdigits
      exact h hdigits.1
  · rfl

/-- How a byte is printed between quotes. -/
theorem quotedByte_cases (b : UInt8) :
    (∃ letter, escapeLetter b = some letter ∧ quotedByte b = ['\\', letter]) ∨
      (quotedByte b =
        ['\\', octalDigit (b.toNat / 64), octalDigit (b.toNat / 8), octalDigit b.toNat]) ∨
      (special b = false ∧ quotedByte b = [asciiChar b]) := by
  unfold quotedByte
  cases hspecial : special b with
  | false => exact Or.inr (Or.inr ⟨rfl, rfl⟩)
  | true =>
      cases hletter : escapeLetter b with
      | none => exact Or.inr (Or.inl rfl)
      | some letter => exact Or.inl ⟨letter, rfl, rfl⟩

/-- A printed byte is read back. -/
theorem unescape_quotedByte (b : UInt8) (rest : List Char) :
    unescape 0 (quotedByte b ++ rest) = asciiChar b :: unescape 0 rest := by
  rcases quotedByte_cases b with ⟨letter, hletter, heq⟩ | heq | ⟨hspecial, heq⟩
  · obtain ⟨hdigit, hfeed, hread⟩ := escapeLetter_spec b letter hletter
    rw [heq, ← hread]
    simp [unescape, octal_eq_none hdigit, hfeed]
  · rw [heq]
    simp [unescape, octal_digits]
  · rw [heq]
    have hne := (asciiChar_spec b hspecial).2
    rw [List.singleton_append, unescape]
    exact fun h => hne h

/-- A printed byte does not end a quoted text. -/
theorem quotedToken_quotedByte (b : UInt8) (rest : List Char) :
    quotedToken (quotedByte b ++ rest) =
      (quotedToken rest).map (fun cut => (quotedByte b ++ cut.1, cut.2)) := by
  have hplain : ∀ {c : Char} {rest : List Char}, c ≠ '"' → c ≠ '\\' →
      quotedToken (c :: rest) = (quotedToken rest).map (fun cut => (c :: cut.1, cut.2)) := by
    intro c rest hquote hslash
    rw [quotedToken.eq_def]
    split
    · next heq => cases heq
    · next heq =>
        cases heq
        exact absurd rfl hquote
    · next heq =>
        cases heq
        exact absurd rfl hslash
    · next heq =>
        cases heq
        exact if_neg hslash
  rcases quotedByte_cases b with ⟨letter, hletter, heq⟩ | heq | ⟨hspecial, heq⟩
  · obtain ⟨-, hfeed, -⟩ := escapeLetter_spec b letter hletter
    rw [heq]
    simp [quotedToken, hfeed]
  · rw [heq]
    have hfirst := octalDigit_spec (b.toNat / 64)
    have hsecond := octalDigit_spec (b.toNat / 8)
    have hthird := octalDigit_spec b.toNat
    simp only [List.cons_append, List.nil_append, quotedToken, if_neg hfirst.2.2,
      hplain hsecond.1 hsecond.2.1, hplain hthird.1 hthird.2.1, Option.map_map,
      Function.comp_def]
  · rw [heq]
    obtain ⟨hquote, hslash⟩ := asciiChar_spec b hspecial
    simp only [List.singleton_append, hplain hquote hslash]

/-! ## One name -/

theorem unescape_quotedBytes (bytes : List UInt8) :
    unescape 0 (bytes.flatMap quotedByte) = bytes.map asciiChar := by
  induction bytes with
  | nil => rfl
  | cons b bytes ih => rw [List.flatMap_cons, unescape_quotedByte, ih, List.map_cons]

theorem quotedToken_quotedBytes (bytes : List UInt8) (rest : List Char) :
    quotedToken (bytes.flatMap quotedByte ++ '"' :: rest) =
      some (bytes.flatMap quotedByte ++ ['"'], rest) := by
  induction bytes with
  | nil => rfl
  | cons b bytes ih =>
      rw [List.flatMap_cons, List.append_assoc, quotedToken_quotedByte, ih, Option.map_some,
        List.append_assoc]

/-- A printed name is in quotes, or its bytes are not special. -/
theorem printed_cases (q : GitPath) :
    printed q = '"' :: (q.bytes.flatMap quotedByte ++ ['"']) ∨
      (∀ b ∈ q.bytes, special b = false) ∧ printed q = q.bytes.map asciiChar := by
  unfold printed
  cases hany : q.bytes.any special with
  | true => exact Or.inl rfl
  | false =>
      refine Or.inr ⟨fun b hb => ?_, rfl⟩
      simpa using List.any_eq_false.mp hany b hb

/-- **A printed name is read back byte by byte.** -/
theorem unquote_printed (q : GitPath) : unquote (printed q) = q.bytes.map asciiChar := by
  rcases printed_cases q with heq | ⟨hplain, heq⟩
  · rw [heq, unquote, if_pos]
    · rw [List.tail_cons, List.dropLast_concat]
      exact unescape_quotedBytes q.bytes
    · refine ⟨by simp, rfl, ?_⟩
      rw [← List.cons_append, List.getLast?_concat]
  · rw [heq, unquote, if_neg]
    rintro ⟨-, hhead, -⟩
    rw [List.head?_map, Option.map_eq_some_iff] at hhead
    obtain ⟨b, hb, hquote⟩ := hhead
    exact (asciiChar_spec b (hplain b (List.mem_of_mem_head? hb))).1 hquote

theorem stripAb_before (p : RepoPath) : stripAb (printed p.before) = p.bytes.map asciiChar := by
  rw [stripAb, unquote_printed]
  rfl

theorem stripAb_after (p : RepoPath) : stripAb (printed p.after) = p.bytes.map asciiChar := by
  rw [stripAb, unquote_printed]
  rfl

/-! ## The header -/

/-- The two names of a file that keeps its path. -/
def header (p : RepoPath) : List Char :=
  printed p.before ++ ' ' :: printed p.after

/-- Two quoted names are two tokens. -/
theorem tokens_quoted (first second : List UInt8) {n : Nat} (hn : 4 ≤ n) :
    tokens n ('"' :: (first.flatMap quotedByte ++ ['"']) ++
        ' ' :: ('"' :: (second.flatMap quotedByte ++ ['"']))) =
      ['"' :: (first.flatMap quotedByte ++ ['"']),
        '"' :: (second.flatMap quotedByte ++ ['"'])] := by
  obtain ⟨n, rfl⟩ := Nat.exists_eq_add_of_le hn
  have hfirst := quotedToken_quotedBytes first
    (' ' :: ('"' :: (second.flatMap quotedByte ++ ['"'])))
  have hsecond := quotedToken_quotedBytes second []
  have hspace : Text.isSpace ' ' = true := by decide
  rw [show 4 + n = n + 1 + 1 + 1 + 1 by omega]
  simp [tokens, hfirst, hsecond, hspace]

/-- Both names are in quotes, or no byte of the path is special. -/
theorem printed_sides (p : RepoPath) :
    (printed p.before = '"' :: (p.before.bytes.flatMap quotedByte ++ ['"']) ∧
        printed p.after = '"' :: (p.after.bytes.flatMap quotedByte ++ ['"'])) ∨
      (∀ b ∈ p.bytes, special b = false) ∧
        printed p.before = 'a' :: '/' :: p.bytes.map asciiChar ∧
        printed p.after = 'b' :: '/' :: p.bytes.map asciiChar := by
  have hbefore : p.before.bytes.any special = p.bytes.any special := rfl
  have hafter : p.after.bytes.any special = p.bytes.any special := rfl
  unfold printed
  rw [hbefore, hafter]
  cases h : p.bytes.any special with
  | true => exact Or.inl ⟨rfl, rfl⟩
  | false =>
      refine Or.inr ⟨fun b hb => ?_, rfl, rfl⟩
      simpa using List.any_eq_false.mp h b hb

/-- A plain header is cut in the middle. -/
theorem middleName_plain (name : List Char) :
    middleName ('a' :: '/' :: name ++ ' ' :: ('b' :: '/' :: name)) = some name := by
  have hlength : ('a' :: '/' :: name ++ ' ' :: ('b' :: '/' :: name)).length =
      2 * (name.length + 2) + 1 := by
    simp
    omega
  have hmid : (2 * (name.length + 2) + 1) / 2 = ('a' :: '/' :: name).length := by
    simp
    omega
  have hodd : (2 * (name.length + 2) + 1) % 2 = 1 := by omega
  have htake : ('a' :: '/' :: name ++ ' ' :: ('b' :: '/' :: name)).take
      ('a' :: '/' :: name).length = 'a' :: '/' :: name := List.take_left' rfl
  have hdrop : ('a' :: '/' :: name ++ ' ' :: ('b' :: '/' :: name)).drop
      (('a' :: '/' :: name).length + 1) = 'b' :: '/' :: name := by
    rw [← List.drop_drop, List.drop_left' rfl]
    rfl
  unfold middleName
  rw [hlength, hmid]
  dsimp only
  rw [htake, hdrop, if_pos]
  · rfl
  · exact ⟨hodd, rfl, rfl, rfl⟩

/-- The names that a header yields. -/
theorem headerPaths_header (p : RepoPath) :
    headerPaths (header p) = [stripAb (printed p.before), stripAb (printed p.after)] ∨
      headerPaths (header p) = [p.bytes.map asciiChar] := by
  rcases printed_sides p with ⟨hbefore, hafter⟩ | ⟨hplain, hbefore, hafter⟩
  · refine Or.inl ?_
    rw [headerPaths, if_pos]
    · rw [header, hbefore, hafter, tokens_quoted _ _ (by simp; omega), List.map_cons,
        List.map_cons, List.map_nil]
    · exact Or.inl (by rw [header, hbefore]; rfl)
  · refine Or.inr ?_
    rw [headerPaths, if_neg]
    · rw [header, hbefore, hafter, middleName_plain]
    · rw [header, hbefore, hafter]
      rintro (hhead | hlast)
      · cases hhead
      · -- the last character is a byte of the path, which is not special
        obtain ⟨front, b, hb⟩ := List.eq_nil_or_concat' p.bytes |>.resolve_left p.bytes_ne_nil
        have hquote : asciiChar b = '"' := by
          rw [hb, List.map_append, List.map_singleton] at hlast
          have hend : 'a' :: '/' :: (front.map asciiChar ++ [asciiChar b]) ++
              ' ' :: 'b' :: '/' :: (front.map asciiChar ++ [asciiChar b]) =
              ('a' :: '/' :: (front.map asciiChar ++ [asciiChar b]) ++
                ' ' :: 'b' :: '/' :: front.map asciiChar) ++ [asciiChar b] := by
            simp
          rw [hend, List.getLast?_concat] at hlast
          exact Option.some.inj hlast
        exact (asciiChar_spec b (hplain b (by rw [hb]; simp))).1 hquote

/-- The names of a header are read byte by byte as well. -/
theorem mem_headerPaths {p : RepoPath} {name : List Char}
    (h : name ∈ headerPaths (header p)) : name = p.bytes.map asciiChar := by
  rcases headerPaths_header p with heq | heq
  · rw [heq, stripAb_before, stripAb_after] at h
    simpa using h
  · rw [heq] at h
    simpa using h

theorem headerPaths_ne_nil (p : RepoPath) : headerPaths (header p) ≠ [] := by
  rcases headerPaths_header p with heq | heq <;> simp [heq]

/-! ## ASCII texts -/

/-- An ASCII text is its own code. -/
theorem RepoPath.map_asciiChar_of_ascii {p : RepoPath} (h : ∀ c ∈ p.text, c.toNat < 0x80) :
    p.bytes.map asciiChar = p.text := by
  have hcode : ∀ text : List Char, (∀ c ∈ text, c.toNat < 0x80) →
      Utf8.encode (text.map Char.toNat) = text.map Char.toNat := by
    intro text htext
    induction text with
    | nil => rfl
    | cons c text ih =>
        obtain ⟨hc, hrest⟩ := List.forall_mem_cons.mp htext
        rw [List.map_cons, Utf8.encode, List.flatMap_cons, Utf8.encodePoint_ascii hc]
        exact congrArg (c.toNat :: ·) (ih hrest)
  rw [bytes, code, hcode p.text h, List.map_map, List.map_map]
  refine (List.map_congr_left fun c hc => ?_).trans (List.map_id _)
  have hlt : c.toNat < 256 := lt_trans (h c hc) (by decide)
  simp only [Function.comp_apply, asciiChar, UInt8.toNat_ofNat', Nat.mod_eq_of_lt hlt,
    Char.ofNat_toNat, id_eq]

theorem length_le_encode (text : List Nat) : text.length ≤ (Utf8.encode text).length := by
  induction text with
  | nil => exact le_rfl
  | cons n text ih =>
      have hone := one_le_length_encodePoint n
      rw [Utf8.encode, List.flatMap_cons, List.length_append, List.length_cons]
      change _ ≤ _ + (Utf8.encode text).length
      omega

/-- Where a text has as many bytes as characters, it is ASCII. -/
theorem ascii_of_length_encode {text : List Nat}
    (h : (Utf8.encode text).length = text.length) : ∀ n ∈ text, n < 0x80 := by
  induction text with
  | nil => exact List.forall_mem_nil _
  | cons n text ih =>
      have hone := one_le_length_encodePoint n
      have hrest := length_le_encode text
      rw [Utf8.encode, List.flatMap_cons, List.length_append, List.length_cons] at h
      change _ + (Utf8.encode text).length = _ at h
      refine List.forall_mem_cons.mpr ⟨?_, ih (by omega)⟩
      by_contra hlarge
      have := one_lt_length_encodePoint (n := n) (by omega)
      omega

/-- A path that is read byte by byte as itself is ASCII. -/
theorem RepoPath.ascii_of_map_asciiChar {p : RepoPath}
    (h : p.bytes.map asciiChar = p.text) : ∀ c ∈ p.text, c.toNat < 0x80 := by
  have hlength := congrArg List.length h
  rw [List.length_map, bytes, List.length_map, code] at hlength
  intro c hc
  have hencode : (Utf8.encode (p.text.map Char.toNat)).length = (p.text.map Char.toNat).length := by
    rw [hlength, List.length_map]
  exact ascii_of_length_encode hencode c.toNat (List.mem_map_of_mem hc)

/-! ## The law -/

/-- The decoder inverts what git prints: each side, and both names of a header. -/
def Inverted (p : RepoPath) : Prop :=
  stripAb (printed p.before) = p.text ∧ stripAb (printed p.after) = p.text ∧
    headerPaths (header p) ≠ [] ∧ ∀ name ∈ headerPaths (header p), name = p.text

/--
The names that git prints for a path are read back as the path exactly when
every character of the path is ASCII.
-/
theorem inverted_iff
    (p : RepoPath) :
    Inverted p ↔ ∀ c ∈ p.text, c.toNat < 0x80 := by
  constructor
  · rintro ⟨hbefore, -, -, -⟩
    rw [stripAb_before] at hbefore
    exact p.ascii_of_map_asciiChar hbefore
  · intro h
    have hread := p.map_asciiChar_of_ascii h
    refine ⟨(stripAb_before p).trans hread, (stripAb_after p).trans hread,
      headerPaths_ne_nil p, fun name hname => (mem_headerPaths hname).trans hread⟩

/-- The path `é`. -/
def accented : RepoPath where
  text := [Char.ofNat 0xe9]
  named := List.cons_ne_nil _ _
  noNul := by decide

/-- One accented letter is read as two letters. -/
theorem accented_not_inverted : ¬ Inverted accented := by
  rintro ⟨h, -, -, -⟩
  revert h
  decide +kernel

end Patch
end SwFactory
