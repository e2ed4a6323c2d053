import Mathlib.Data.List.Basic

/-!
# UTF-8

Code points and bytes are numbers.  The decoder is a machine that reads one
byte at a time, so that what it does with a text that is cut off, or goes on,
is an induction over the bytes.  As with the error handler `surrogatepass`, an
encoded surrogate is decoded; the encoder is only used on code points that are
none.

`bytes.decode("utf-8", errors="replace")`: every maximal part of the bytes that
is no character becomes one replacement character.  An ASCII byte is never part
of a longer character, so it stands for itself wherever it occurs.
-/

namespace SwFactory
namespace Lexical

namespace Utf8

/-- The code points that the strict encoder accepts. -/
def isScalar (n : Nat) : Bool :=
  n < 0xd800 || (0xe000 ≤ n && n < 0x110000)

/-- The bytes of one code point. -/
def encodePoint (n : Nat) : List Nat :=
  if n < 0x80 then
    [n]
  else if n < 0x800 then
    [0xc0 + n / 64, 0x80 + n % 64]
  else if n < 0x10000 then
    [0xe0 + n / 4096, 0x80 + n / 64 % 64, 0x80 + n % 64]
  else
    [0xf0 + n / 262144, 0x80 + n / 4096 % 64, 0x80 + n / 64 % 64, 0x80 + n % 64]

def encode (text : List Nat) : List Nat :=
  text.flatMap encodePoint

/-- Between two characters, or inside one: what is read, and what is owed. -/
inductive Pending
  | none
  | owed (more : Nat) (read least : Nat)
deriving DecidableEq

/-- The decoder, from inside a text. -/
def decodeFrom : Pending → List Nat → Option (List Nat)
  | .none, [] => some []
  | .owed _ _ _, [] => Option.none
  | .none, b :: rest =>
      if b < 0x80 then
        (decodeFrom .none rest).map (b :: ·)
      else if 0xc2 ≤ b ∧ b < 0xe0 then
        decodeFrom (.owed 0 (b - 0xc0) 0x80) rest
      else if 0xe0 ≤ b ∧ b < 0xf0 then
        decodeFrom (.owed 1 (b - 0xe0) 0x800) rest
      else if 0xf0 ≤ b ∧ b < 0xf5 then
        decodeFrom (.owed 2 (b - 0xf0) 0x10000) rest
      else
        Option.none
  | .owed more read least, b :: rest =>
      if 0x80 ≤ b ∧ b < 0xc0 then
        match more with
        | 0 =>
            if least ≤ read * 64 + (b - 0x80) ∧ read * 64 + (b - 0x80) < 0x110000 then
              (decodeFrom .none rest).map ((read * 64 + (b - 0x80)) :: ·)
            else
              Option.none
        | more + 1 => decodeFrom (.owed more (read * 64 + (b - 0x80)) least) rest
      else
        Option.none

def decode (bytes : List Nat) : Option (List Nat) :=
  decodeFrom .none bytes

/-- What was decoded stays decoded when the text goes on. -/
theorem decodeFrom_append {p : Pending} {bytes text : List Nat}
    (h : decodeFrom p bytes = some text) (more : List Nat) :
    decodeFrom p (bytes ++ more) = (decode more).map (text ++ ·) := by
  induction bytes generalizing p text with
  | nil =>
      cases p with
      | none =>
          simp only [decodeFrom, Option.some.injEq] at h
          subst h
          cases hmore : decodeFrom .none more <;> simp [decode, hmore]
      | owed m r l =>
          simp [decodeFrom] at h
  | cons b rest ih =>
      cases p with
      | none =>
          simp only [decodeFrom, List.cons_append] at h ⊢
          split at h
          · rename_i hb
            obtain ⟨tail, htail, rfl⟩ := Option.map_eq_some_iff.mp h
            rw [if_pos hb, ih htail]
            cases decode more <;> rfl
          split at h
          · rename_i hb hb'
            rw [if_neg hb, if_pos hb', ih h]
          split at h
          · rename_i hb hb' hb''
            rw [if_neg hb, if_neg hb', if_pos hb'', ih h]
          split at h
          · rename_i hb hb' hb'' hb'''
            rw [if_neg hb, if_neg hb', if_neg hb'', if_pos hb''', ih h]
          · cases h
      | owed m r l =>
          simp only [decodeFrom, List.cons_append] at h ⊢
          split at h
          · rename_i hb
            rw [if_pos hb]
            cases m with
            | zero =>
                dsimp only at h ⊢
                split at h
                · rename_i hread
                  obtain ⟨tail, htail, rfl⟩ := Option.map_eq_some_iff.mp h
                  rw [if_pos hread, ih htail]
                  cases decode more <;> rfl
                · cases h
            | succ m =>
                exact ih h
          · cases h

/-- Only the empty text has no character. -/
theorem eq_nil_of_decodeFrom {p : Pending} {bytes : List Nat}
    (h : decodeFrom p bytes = some []) : p = .none ∧ bytes = [] := by
  induction bytes generalizing p with
  | nil =>
      cases p with
      | none => exact ⟨rfl, rfl⟩
      | owed m r l => simp [decodeFrom] at h
  | cons b rest ih =>
      cases p with
      | none =>
          simp only [decodeFrom] at h
          split at h
          · obtain ⟨tail, -, heq⟩ := Option.map_eq_some_iff.mp h
            cases heq
          split at h
          · exact absurd (ih h).1 nofun
          split at h
          · exact absurd (ih h).1 nofun
          split at h
          · exact absurd (ih h).1 nofun
          · cases h
      | owed m r l =>
          simp only [decodeFrom] at h
          split at h
          · cases m with
            | zero =>
                dsimp only at h
                split at h
                · obtain ⟨tail, -, heq⟩ := Option.map_eq_some_iff.mp h
                  cases heq
                · cases h
            | succ m =>
                exact absurd (ih h).1 nofun
          · cases h

/-- One character in front. -/
theorem decode_encodePoint {n : Nat} (hn : n < 0x110000) (rest : List Nat) :
    decode (encodePoint n ++ rest) = (decode rest).map (n :: ·) := by
  unfold encodePoint
  split
  · rename_i h
    simp [decode, decodeFrom, h]
  split
  · rename_i h h'
    have h₁ : ¬ 0xc0 + n / 64 < 0x80 := by omega
    have h₂ : 0xc2 ≤ 0xc0 + n / 64 ∧ 0xc0 + n / 64 < 0xe0 := by omega
    have h₃ : 0x80 ≤ 0x80 + n % 64 ∧ 0x80 + n % 64 < 0xc0 := by omega
    have h₄ : (0xc0 + n / 64 - 0xc0) * 64 + (0x80 + n % 64 - 0x80) = n := by omega
    have h₅ : 0x80 ≤ n ∧ n < 0x110000 := by omega
    simp only [decode, decodeFrom, List.cons_append, List.nil_append, if_neg h₁,
      if_pos h₂, if_pos h₃, h₄, if_pos h₅]
  split
  · rename_i h h' h''
    have h₁ : ¬ 0xe0 + n / 4096 < 0x80 := by omega
    have h₂ : ¬ (0xc2 ≤ 0xe0 + n / 4096 ∧ 0xe0 + n / 4096 < 0xe0) := by omega
    have h₃ : 0xe0 ≤ 0xe0 + n / 4096 ∧ 0xe0 + n / 4096 < 0xf0 := by omega
    have h₄ : 0x80 ≤ 0x80 + n / 64 % 64 ∧ 0x80 + n / 64 % 64 < 0xc0 := by omega
    have h₅ : 0x80 ≤ 0x80 + n % 64 ∧ 0x80 + n % 64 < 0xc0 := by omega
    have h₆ : ((0xe0 + n / 4096 - 0xe0) * 64 + (0x80 + n / 64 % 64 - 0x80)) * 64
        + (0x80 + n % 64 - 0x80) = n := by omega
    have h₇ : 0x800 ≤ n ∧ n < 0x110000 := by omega
    simp only [decode, decodeFrom, List.cons_append, List.nil_append, if_neg h₁,
      if_neg h₂, if_pos h₃, if_pos h₄, if_pos h₅, h₆, if_pos h₇]
  · rename_i h h' h''
    have h₁ : ¬ 0xf0 + n / 262144 < 0x80 := by omega
    have h₂ : ¬ (0xc2 ≤ 0xf0 + n / 262144 ∧ 0xf0 + n / 262144 < 0xe0) := by omega
    have h₃ : ¬ (0xe0 ≤ 0xf0 + n / 262144 ∧ 0xf0 + n / 262144 < 0xf0) := by omega
    have h₄ : 0xf0 ≤ 0xf0 + n / 262144 ∧ 0xf0 + n / 262144 < 0xf5 := by omega
    have h₅ : 0x80 ≤ 0x80 + n / 4096 % 64 ∧ 0x80 + n / 4096 % 64 < 0xc0 := by omega
    have h₆ : 0x80 ≤ 0x80 + n / 64 % 64 ∧ 0x80 + n / 64 % 64 < 0xc0 := by omega
    have h₇ : 0x80 ≤ 0x80 + n % 64 ∧ 0x80 + n % 64 < 0xc0 := by omega
    have h₈ : (((0xf0 + n / 262144 - 0xf0) * 64 + (0x80 + n / 4096 % 64 - 0x80)) * 64
        + (0x80 + n / 64 % 64 - 0x80)) * 64 + (0x80 + n % 64 - 0x80) = n := by omega
    have h₉ : 0x10000 ≤ n ∧ n < 0x110000 := by omega
    simp only [decode, decodeFrom, List.cons_append, List.nil_append, if_neg h₁,
      if_neg h₂, if_neg h₃, if_pos h₄, if_pos h₅, if_pos h₆, if_pos h₇, h₈, if_pos h₉]

theorem lt_of_isScalar {n : Nat} (h : isScalar n = true) : n < 0x110000 := by
  simp only [isScalar, Bool.or_eq_true, Bool.and_eq_true, decide_eq_true_eq] at h
  omega

/-- **Round trip.** -/
theorem decode_encode {text : List Nat} (h : ∀ n ∈ text, isScalar n = true) :
    decode (encode text) = some text := by
  induction text with
  | nil =>
      rfl
  | cons n rest ih =>
      rw [encode, List.flatMap_cons,
        decode_encodePoint (lt_of_isScalar (h n List.mem_cons_self))]
      change (decode (encode rest)).map (n :: ·) = _
      rw [ih (fun m hm => h m (List.mem_cons_of_mem _ hm))]
      rfl

/-- The part of an encoded text that can be decoded is the code of a part. -/
theorem eq_append_of_decode {text front : List Nat} {bytes more : List Nat}
    (htext : ∀ n ∈ text, isScalar n = true)
    (hbytes : encode text = bytes ++ more)
    (hfront : decode bytes = some front) :
    ∃ rest, text = front ++ rest ∧ decode more = some rest := by
  have hdecode := decode_encode htext
  rw [hbytes, decode, decodeFrom_append hfront] at hdecode
  obtain ⟨rest, hrest, heq⟩ := Option.map_eq_some_iff.mp hdecode
  exact ⟨rest, heq.symm, hrest⟩

/-- A byte below `0x80` stands for itself and for nothing else. -/
theorem mem_encode_ascii {text : List Nat} {b : Nat} (hb : b < 0x80)
    (h : b ∈ encode text) : b ∈ text := by
  obtain ⟨n, hn, hmem⟩ := List.mem_flatMap.mp h
  suffices b = n by
    rw [this]
    exact hn
  unfold encodePoint at hmem
  split at hmem
  · simpa using hmem
  split at hmem
  · simp only [List.mem_cons, List.not_mem_nil, or_false] at hmem
    omega
  split at hmem
  · simp only [List.mem_cons, List.not_mem_nil, or_false] at hmem
    omega
  · simp only [List.mem_cons, List.not_mem_nil, or_false] at hmem
    omega

theorem toNat_lt (c : Char) : c.toNat < 0x110000 := by
  rcases c.valid with hlow | ⟨-, hhigh⟩
  · exact Nat.lt_trans hlow (by decide)
  · exact hhigh

/-- The code of a code point is made of bytes. -/
theorem lt_of_mem_encodePoint {n m : Nat} (hn : n < 0x110000) (hm : m ∈ encodePoint n) :
    m < 256 := by
  unfold encodePoint at hm
  split at hm
  · simp only [List.mem_cons, List.not_mem_nil, or_false] at hm
    omega
  split at hm
  · simp only [List.mem_cons, List.not_mem_nil, or_false] at hm
    omega
  split at hm
  · simp only [List.mem_cons, List.not_mem_nil, or_false] at hm
    omega
  · simp only [List.mem_cons, List.not_mem_nil, or_false] at hm
    omega

theorem encodePoint_ascii {n : Nat} (h : n < 0x80) : encodePoint n = [n] := by
  simp [encodePoint, h]

end Utf8

/-! ## UTF-8 with replacement -/

namespace Replacement

def replacement : Char :=
  Char.ofNat 0xfffd

def asciiChar (b : UInt8) : Char :=
  Char.ofNat b.toNat

/-- Between two characters, or in front of the next byte of one. -/
inductive Pending
  | none
  | more (need : Nat) (least last : UInt8) (read : Nat)
deriving DecidableEq

/-- What a byte that is no continuation emits, and what is pending behind it. -/
def start (b : UInt8) : List Char × Pending :=
  if b < 0x80 then
    ([asciiChar b], .none)
  else if 0xc2 ≤ b ∧ b < 0xe0 then
    ([], .more 0 0x80 0xbf (b.toNat - 0xc0))
  else if b = 0xe0 then
    ([], .more 1 0xa0 0xbf 0)
  else if b = 0xed then
    ([], .more 1 0x80 0x9f (b.toNat - 0xe0))
  else if 0xe1 ≤ b ∧ b < 0xf0 then
    ([], .more 1 0x80 0xbf (b.toNat - 0xe0))
  else if b = 0xf0 then
    ([], .more 2 0x90 0xbf 0)
  else if 0xf1 ≤ b ∧ b < 0xf4 then
    ([], .more 2 0x80 0xbf (b.toNat - 0xf0))
  else if b = 0xf4 then
    ([], .more 2 0x80 0x8f (b.toNat - 0xf0))
  else
    ([replacement], .none)

def decodeFrom : Pending → List UInt8 → List Char
  | .none, [] => []
  | .more _ _ _ _, [] => [replacement]
  | .none, b :: rest => (start b).1 ++ decodeFrom (start b).2 rest
  | .more need least last read, b :: rest =>
      if 0x80 ≤ b ∧ least ≤ b ∧ b ≤ last then
        match need with
        | 0 => Char.ofNat (read * 64 + (b.toNat - 0x80)) :: decodeFrom .none rest
        | need + 1 =>
            decodeFrom (.more need 0x80 0xbf (read * 64 + (b.toNat - 0x80))) rest
      else
        replacement :: (start b).1 ++ decodeFrom (start b).2 rest

end Replacement

open Replacement

/-- `bytes.decode("utf-8", errors="replace")`. -/
def decodeReplace (bytes : List UInt8) : List Char :=
  decodeFrom .none bytes

namespace Replacement

theorem start_ascii {b : UInt8} (h : b < 0x80) : start b = ([asciiChar b], .none) := by
  simp [start, h]

/-- An ASCII byte ends what is pending and stands for itself. -/
theorem decodeFrom_append {b : UInt8} (h : b < 0x80) (p : Pending) (front rest : List UInt8) :
    decodeFrom p (front ++ b :: rest) =
      decodeFrom p front ++ asciiChar b :: decodeReplace rest := by
  induction front generalizing p with
  | nil =>
      cases p with
      | none =>
          simp [decodeFrom, start_ascii h, decodeReplace]
      | more need least last read =>
          have hnot : ¬ (0x80 ≤ b ∧ least ≤ b ∧ b ≤ last) := by
            rintro ⟨hle, -⟩
            exact absurd h (UInt8.not_lt.mpr hle)
          simp [decodeFrom, hnot, start_ascii h, decodeReplace]
  | cons a front ih =>
      cases p with
      | none =>
          simp only [List.cons_append, decodeFrom, ih, List.append_assoc]
      | more need least last read =>
          simp only [List.cons_append, decodeFrom]
          split
          · cases need with
            | zero =>
                simp [ih]
            | succ need =>
                simp [ih]
          · simp [ih, List.append_assoc]

theorem decodeReplace_append {b : UInt8} (h : b < 0x80) (front rest : List UInt8) :
    decodeReplace (front ++ b :: rest) =
      decodeReplace front ++ asciiChar b :: decodeReplace rest :=
  decodeFrom_append h .none front rest

/-- A text of ASCII bytes reads as these characters. -/
theorem decodeReplace_ascii_append {front : List UInt8} (h : ∀ b ∈ front, b < 0x80)
    (rest : List UInt8) :
    decodeReplace (front ++ rest) = front.map asciiChar ++ decodeReplace rest := by
  induction front with
  | nil =>
      rfl
  | cons b front ih =>
      have hb := decodeReplace_append (h b List.mem_cons_self) [] (front ++ rest)
      rw [List.nil_append] at hb
      rw [List.cons_append, hb, ih (fun c hc => h c (List.mem_cons_of_mem _ hc))]
      rfl

end Replacement

end Lexical
end SwFactory
