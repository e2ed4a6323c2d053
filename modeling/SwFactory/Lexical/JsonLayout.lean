import Mathlib.Data.Nat.Digits.Lemmas
import SwFactory.Lexical.JsonRoundTrip

/-!
# JSON text in ASCII, with a layout

The writer escapes everything that is not printable ASCII and puts spaces
between the parts of a value, as a layout says.  The reader skips the spaces:
whatever the layout is, a value is read back, if no string in it has a high
surrogate.

`json.dumps(value, sort_keys=True, indent=n)` and
`json.dumps(value, sort_keys=True, separators=(",", ":"))` are `layOut` of a value
whose keys stand in order.
-/

namespace SwFactory
namespace Lexical
namespace Json

/-! ## The writer -/

/-- What stands in front of a part at a depth, and behind a colon. -/
structure Layout where
  newline : Nat → Str
  gap : Str
  newline_space : ∀ depth, (newline depth).all isSpace = true
  gap_space : gap.all isSpace = true

/-- `separators=(",", ":")` -/
def compact : Layout where
  newline := fun _ => []
  gap := []
  newline_space := fun _ => rfl
  gap_space := rfl

/-- `indent=n` -/
def indented (n : Nat) : Layout where
  newline := fun depth => 0x0a :: List.replicate (n * depth) 0x20
  gap := [0x20]
  newline_space := by simp [isSpace]
  gap_space := rfl

/-- `\u` and four hexadecimal digits. -/
def unitEscape (u : Nat) : Str :=
  [cp '\\', cp 'u', hexDigit (u / 0x1000 % 16), hexDigit (u / 0x100 % 16),
    hexDigit (u / 0x10 % 16), hexDigit (u % 16)]

/-- The surrogates of a character beyond the first plane. -/
def highUnit (c : Nat) : Nat :=
  0xd800 + (c - 0x10000) / 0x400

def lowUnit (c : Nat) : Nat :=
  0xdc00 + (c - 0x10000) % 0x400

/-- The letter behind the backslash, for the characters of `ESCAPE_DCT`. -/
def shortEscape (c : Nat) : Option Nat :=
  if c = cp '"' ∨ c = cp '\\' then
    some c
  else if c = 0x0a then
    some (cp 'n')
  else if c = 0x0d then
    some (cp 'r')
  else if c = 0x09 then
    some (cp 't')
  else if c = 0x0c then
    some (cp 'f')
  else if c = 0x08 then
    some (cp 'b')
  else
    none

/-- `py_encode_basestring_ascii`, one character. -/
def escapeAscii (c : Nat) : Str :=
  match shortEscape c with
  | some e => [cp '\\', e]
  | none =>
      if 0x20 ≤ c ∧ c ≤ 0x7e then
        [c]
      else if c < 0x10000 then
        unitEscape c
      else
        unitEscape (highUnit c) ++ unitEscape (lowUnit c)

def asciiString (s : Str) : Str :=
  cp '"' :: s.flatMap escapeAscii ++ [cp '"']

mutual

/-- The text of a value that stands at a depth. -/
def layOut (L : Layout) (depth : Nat) : Value → Str
  | .null => word "null"
  | .bool true => word "true"
  | .bool false => word "false"
  | .number literal => literal.1
  | .nan => word "NaN"
  | .infinity false => word "Infinity"
  | .infinity true => word "-Infinity"
  | .string text => asciiString text
  | .array .nil => word "[]"
  | .array (.cons v tail) =>
      cp '[' :: (L.newline (depth + 1) ++ layOut L (depth + 1) v ++
        layOutItems L (depth + 1) tail ++ L.newline depth ++ [cp ']'])
  | .object .nil => word "{}"
  | .object (.cons key v tail) =>
      cp '{' :: (L.newline (depth + 1) ++ asciiString key ++ cp ':' :: L.gap ++
        layOut L (depth + 1) v ++ layOutMembers L (depth + 1) tail ++ L.newline depth ++ [cp '}'])

/-- The items behind the first one. -/
def layOutItems (L : Layout) (depth : Nat) : Items → Str
  | .nil => []
  | .cons v tail => cp ',' :: (L.newline depth ++ layOut L depth v ++ layOutItems L depth tail)

/-- The members behind the first one. -/
def layOutMembers (L : Layout) (depth : Nat) : Members → Str
  | .nil => []
  | .cons key v tail =>
      cp ',' :: (L.newline depth ++ asciiString key ++ cp ':' :: L.gap ++ layOut L depth v ++
        layOutMembers L depth tail)

end

/-! ## Strings -/

theorem hexValue_hexDigit : ∀ n < 16, hexValue (hexDigit n) = some n := by
  decide

theorem hexUnit_unitEscape {u : Nat} (h : u < 0x10000) :
    hexUnit (hexDigit (u / 0x1000 % 16)) (hexDigit (u / 0x100 % 16)) (hexDigit (u / 0x10 % 16))
      (hexDigit (u % 16)) = some u := by
  simp only [hexUnit, hexValue_hexDigit _ (Nat.mod_lt _ (by decide : 0 < 16))]
  congr 1
  omega

theorem pieces_unitEscape {u : Nat} (h : u < 0x10000) (rest : Str) :
    pieces (unitEscape u ++ rest) = (pieces rest).map (fun cut => (.unit u :: cut.1, cut.2)) :=
  pieces_unit (hexUnit_unitEscape h) rest

/-- What the letter of a short escape stands for. -/
theorem escaped_shortEscape {c e : Nat} (h : shortEscape c = some e) :
    e ≠ cp 'u' ∧ escaped e = some c := by
  unfold shortEscape at h
  split at h
  · rename_i hc
    cases h
    rcases hc with rfl | rfl <;> decide
  iterate 5
    split at h
    · rename_i hc
      cases h
      subst hc
      decide
  cases h

/-- A code point that does not start a surrogate pair. -/
def noHigh (c : Nat) : Bool :=
  c < 0x110000 && !isHigh c

/-- The pieces that a character is read as. -/
def asciiPieces (c : Nat) : List Piece :=
  match shortEscape c with
  | some _ => [.plain c]
  | none =>
      if 0x20 ≤ c ∧ c ≤ 0x7e then
        [.plain c]
      else if c < 0x10000 then
        [.unit c]
      else
        [.unit (highUnit c), .unit (lowUnit c)]

theorem pieces_escapeAscii {c : Nat} (h : c < 0x110000) (rest : Str) :
    pieces (escapeAscii c ++ rest) =
      (pieces rest).map (fun cut => (asciiPieces c ++ cut.1, cut.2)) := by
  unfold escapeAscii asciiPieces
  cases hshort : shortEscape c with
  | some e =>
      obtain ⟨hu, hescaped⟩ := escaped_shortEscape hshort
      exact pieces_escape hu hescaped rest
  | none =>
      dsimp only
      by_cases hplain : 0x20 ≤ c ∧ c ≤ 0x7e
      · rw [if_pos hplain, if_pos hplain]
        have hquote : c ≠ cp '"' := by
          rintro rfl
          cases hshort
        have hback : c ≠ cp '\\' := by
          rintro rfl
          cases hshort
        exact pieces_plain hquote hback (by omega) rest
      · rw [if_neg hplain, if_neg hplain]
        by_cases hunit : c < 0x10000
        · rw [if_pos hunit, if_pos hunit]
          exact pieces_unitEscape hunit rest
        · rw [if_neg hunit, if_neg hunit, List.append_assoc,
            pieces_unitEscape (by unfold highUnit; omega),
            pieces_unitEscape (by unfold lowUnit; omega), Option.map_map]
          rfl

theorem join_unit {u : Nat} (h : isHigh u = false) (ps : List Piece) :
    join (.unit u :: ps) = u :: join ps := by
  cases ps with
  | nil => rfl
  | cons p ps =>
      cases p with
      | plain c => rfl
      | unit v => rw [join, h]; rfl

theorem join_asciiPieces {c : Nat} (h : noHigh c = true) (ps : List Piece) :
    join (asciiPieces c ++ ps) = c :: join ps := by
  simp only [noHigh, Bool.and_eq_true, decide_eq_true_eq, Bool.not_eq_true'] at h
  unfold asciiPieces
  split
  · rfl
  split
  · rfl
  split
  · exact join_unit h.2 ps
  · rename_i hbeyond
    have hhigh : isHigh (highUnit c) = true := by
      unfold isHigh highUnit
      rw [Bool.and_eq_true, decide_eq_true_eq, decide_eq_true_eq]
      omega
    have hlow : isLow (lowUnit c) = true := by
      unfold isLow lowUnit
      rw [Bool.and_eq_true, decide_eq_true_eq, decide_eq_true_eq]
      omega
    have hpair : 0x10000 + (highUnit c - 0xd800) * 0x400 + (lowUnit c - 0xdc00) = c := by
      simp only [highUnit, lowUnit]
      omega
    rw [List.cons_append, List.cons_append, List.nil_append, join, hhigh, hlow, hpair]
    rfl

/-- A string in ASCII is read back. -/
theorem string_asciiString {text : Str} (h : text.all noHigh = true) (rest : Str) :
    string ((asciiString text).tail ++ rest) = some (text, rest) := by
  have hpieces : pieces (text.flatMap escapeAscii ++ cp '"' :: rest) =
      some (text.flatMap asciiPieces, rest) := by
    induction text with
    | nil =>
        exact pieces_quote rest
    | cons c text ih =>
        simp only [List.all_cons, Bool.and_eq_true, noHigh, decide_eq_true_eq] at h
        rw [List.flatMap_cons, List.append_assoc, pieces_escapeAscii h.1.1,
          ih (by simpa [noHigh] using h.2)]
        rfl
  have hjoin : join (text.flatMap asciiPieces) = text := by
    clear hpieces
    induction text with
    | nil =>
        rfl
    | cons c text ih =>
        rw [List.all_cons, Bool.and_eq_true] at h
        rw [List.flatMap_cons, join_asciiPieces h.1, ih h.2]
  have hshape : (asciiString text).tail ++ rest =
      text.flatMap escapeAscii ++ cp '"' :: rest := by
    simp [asciiString]
  rw [hshape, string, hpieces]
  exact congrArg some (Prod.ext hjoin rfl)

/-! ## Reading a laid out value -/

theorem skipSpace_all {s : Str} (h : s.all isSpace = true) (rest : Str) :
    skipSpace (s ++ rest) = skipSpace rest := by
  induction s with
  | nil =>
      rfl
  | cons c s ih =>
      rw [List.all_cons, Bool.and_eq_true] at h
      rw [List.cons_append, skipSpace, List.dropWhile_cons_of_pos h.1]
      exact ih h.2

theorem stops_space {s rest : Str} (h : s.all isSpace = true) (hrest : Stops rest) :
    Stops (s ++ rest) := by
  cases s with
  | nil =>
      exact hrest
  | cons c s =>
      rintro _ ⟨⟩
      have hc : isSpace c = true := by simpa using (List.all_eq_true.mp h) c List.mem_cons_self
      simp only [isSpace, Bool.or_eq_true, beq_iff_eq] at hc
      rcases hc with ((rfl | rfl) | rfl) | rfl <;> decide

section Layout

variable (L : Layout)

mutual

theorem weight_le_layOut : (v : Value) → (depth : Nat) → weight v ≤ (layOut L depth v).length
  | .null, _ => by simp [weight, layOut, word]
  | .bool true, _ => by simp [weight, layOut, word]
  | .bool false, _ => by simp [weight, layOut, word]
  | .nan, _ => by simp [weight, layOut, word]
  | .infinity false, _ => by simp [weight, layOut, word]
  | .infinity true, _ => by simp [weight, layOut, word]
  | .number literal, _ => List.length_pos_iff.mpr (literal_ne_nil literal)
  | .string text, _ => by simp [weight, layOut, asciiString]
  | .array .nil, _ => by simp [weight, weightItems, layOut, word]
  | .array (.cons v tail), depth => by
      have := weight_le_layOut v (depth + 1)
      have := weightItems_le_layOut tail (depth + 1)
      simp only [weight, weightItems, layOut, List.length_cons, List.length_append,
        List.length_nil]
      omega
  | .object .nil, _ => by simp [weight, weightMembers, layOut, word]
  | .object (.cons key v tail), depth => by
      have := weight_le_layOut v (depth + 1)
      have := weightMembers_le_layOut tail (depth + 1)
      simp only [weight, weightMembers, layOut, List.length_cons, List.length_append,
        List.length_nil]
      omega

theorem weightItems_le_layOut :
    (xs : Items) → (depth : Nat) → weightItems xs ≤ (layOutItems L depth xs).length
  | .nil, _ => by simp [weightItems]
  | .cons v tail, depth => by
      have := weight_le_layOut v depth
      have := weightItems_le_layOut tail depth
      simp only [weightItems, layOutItems, List.length_cons, List.length_append]
      omega

theorem weightMembers_le_layOut :
    (ms : Members) → (depth : Nat) → weightMembers ms ≤ (layOutMembers L depth ms).length
  | .nil, _ => by simp [weightMembers]
  | .cons key v tail, depth => by
      have := weight_le_layOut v depth
      have := weightMembers_le_layOut tail depth
      simp only [weightMembers, layOutMembers, List.length_cons, List.length_append]
      omega

end

variable {L}

theorem layOut_opens (v : Value) (depth : Nat) :
    ∃ c rest, layOut L depth v = c :: rest ∧ Opens c := by
  cases v with
  | null => exact ⟨_, _, rfl, by unfold Opens; decide⟩
  | bool b => cases b <;> exact ⟨_, _, rfl, by unfold Opens; decide⟩
  | number literal =>
      obtain ⟨c, rest, heq, hopens, -⟩ := literal_opens literal
      exact ⟨c, rest, heq, hopens⟩
  | nan => exact ⟨_, _, rfl, by unfold Opens; decide⟩
  | infinity b => cases b <;> exact ⟨_, _, rfl, by unfold Opens; decide⟩
  | string text => exact ⟨_, _, rfl, by unfold Opens; decide⟩
  | array items => cases items <;> exact ⟨_, _, rfl, by unfold Opens; decide⟩
  | object members => cases members <;> exact ⟨_, _, rfl, by unfold Opens; decide⟩

/-- Spaces in front of a value are skipped. -/
theorem skipSpace_layOut {s : Str} (h : s.all isSpace = true) (v : Value) (depth : Nat)
    (rest : Str) : skipSpace (s ++ (layOut L depth v ++ rest)) = layOut L depth v ++ rest := by
  obtain ⟨c, front, heq, hopens⟩ := layOut_opens (L := L) v depth
  rw [skipSpace_all h, heq, List.cons_append, skipSpace_of_not hopens.1]

/-- A bracket, a brace or a comma behind spaces. -/
theorem skipSpace_mark {s : Str} (h : s.all isSpace = true) {c : Nat}
    (hc : isSpace c = false) (rest : Str) : skipSpace (s ++ c :: rest) = c :: rest := by
  rw [skipSpace_all h, skipSpace_of_not hc]

mutual

/-- **A laid out value is read back**, in front of a text that stops. -/
theorem value_layOut : (v : Value) → plain noHigh v = true →
    ∀ (depth fuel : Nat) (rest : Str), weight v ≤ fuel → Stops rest →
      value fuel (layOut L depth v ++ rest) = some (v, rest)
  | .null, _ => by
      intro depth fuel rest hfuel _
      obtain ⟨fuel, rfl⟩ : ∃ k, fuel = k + 1 := ⟨fuel - 1, by simp [weight] at hfuel; omega⟩
      rfl
  | .bool true, _ => by
      intro depth fuel rest hfuel _
      obtain ⟨fuel, rfl⟩ : ∃ k, fuel = k + 1 := ⟨fuel - 1, by simp [weight] at hfuel; omega⟩
      rfl
  | .bool false, _ => by
      intro depth fuel rest hfuel _
      obtain ⟨fuel, rfl⟩ : ∃ k, fuel = k + 1 := ⟨fuel - 1, by simp [weight] at hfuel; omega⟩
      rfl
  | .number literal, h => by
      intro depth fuel rest hfuel hstop
      exact value_dumps (.number literal) h fuel rest hfuel hstop
  | .nan, h => by simp [plain] at h
  | .infinity _, h => by simp [plain] at h
  | .string text, h => by
      intro depth fuel rest hfuel _
      obtain ⟨fuel, rfl⟩ : ∃ k, fuel = k + 1 := ⟨fuel - 1, by simp [weight] at hfuel; omega⟩
      have hshape : asciiString text ++ rest =
          cp '"' :: ((asciiString text).tail ++ rest) := by
        simp [asciiString]
      rw [layOut, hshape, value, if_pos rfl, string_asciiString (by simpa [plain] using h)]
      rfl
  | .array .nil, _ => by
      intro depth fuel rest hfuel _
      obtain ⟨fuel, rfl⟩ : ∃ k, fuel = k + 1 := ⟨fuel - 1, by simp [weight] at hfuel; omega⟩
      rfl
  | .array (.cons v tail), h => by
      intro depth fuel rest hfuel _
      simp only [weight, weightItems] at hfuel
      simp only [plain, plainItems, Bool.and_eq_true] at h
      obtain ⟨fuel, rfl⟩ : ∃ k, fuel = k + 2 := ⟨fuel - 2, by omega⟩
      obtain ⟨c, front, heq, hopens⟩ := layOut_opens (L := L) v (depth + 1)
      have hshape : layOut L depth (.array (.cons v tail)) ++ rest =
          cp '[' :: (L.newline (depth + 1) ++ (layOut L (depth + 1) v ++
            (layOutItems L (depth + 1) tail ++ (L.newline depth ++ cp ']' :: rest)))) := by
        simp [layOut]
      have hitems := items_layOut tail h.2 (depth + 1) fuel v (L.newline depth) rest
        (fun t ht => value_layOut v h.1 (depth + 1) fuel t (by omega) ht) (by omega)
        (L.newline_space depth)
      rw [hshape, value, if_neg (by decide), if_pos rfl,
        skipSpace_layOut (L.newline_space _), heq, List.cons_append]
      dsimp only
      rw [if_neg hopens.2.1, ← List.cons_append, ← heq, hitems]
      rfl
  | .object .nil, _ => by
      intro depth fuel rest hfuel _
      obtain ⟨fuel, rfl⟩ : ∃ k, fuel = k + 1 := ⟨fuel - 1, by simp [weight] at hfuel; omega⟩
      rfl
  | .object (.cons key v tail), h => by
      intro depth fuel rest hfuel _
      simp only [weight, weightMembers] at hfuel
      have hplain : plainMembers noHigh (.cons key v tail) = true := by simpa [plain] using h
      have hparts := hplain
      simp only [plainMembers, Bool.and_eq_true] at hparts
      obtain ⟨fuel, rfl⟩ : ∃ k, fuel = k + 2 := ⟨fuel - 2, by omega⟩
      have hshape : layOut L depth (.object (.cons key v tail)) ++ rest =
          cp '{' :: (L.newline (depth + 1) ++ cp '"' :: ((asciiString key).tail ++
            (cp ':' :: (L.gap ++ (layOut L (depth + 1) v ++
              (layOutMembers L (depth + 1) tail ++ (L.newline depth ++ cp '}' :: rest))))))) := by
        simp [layOut, asciiString]
      have hmembers := members_layOut tail hparts.2 (depth + 1) fuel key v (L.newline depth) rest
        hparts.1.1.1 (fun t ht => value_layOut v hparts.1.2 (depth + 1) fuel t (by omega) ht)
        (by omega) (L.newline_space depth)
      have hinto : Members.nil.into (.cons key v tail) = .cons key v tail :=
        Members.into_eq _ _ hplain (fun _ _ => rfl)
      rw [hshape, value, if_neg (by decide), if_neg (by decide), if_pos rfl,
        skipSpace_mark (L.newline_space _) (by decide)]
      dsimp only
      rw [if_neg (by decide), hmembers]
      simp [hinto]

/-- The items behind one that is read back, up to the bracket. -/
theorem items_layOut : (xs : Items) → plainItems noHigh xs = true →
    ∀ (depth fuel : Nat) (v : Value) (space rest : Str),
      (∀ t, Stops t → value fuel (layOut L depth v ++ t) = some (v, t)) →
      weightItems xs ≤ fuel → space.all isSpace = true →
      items (fuel + 1)
        (layOut L depth v ++ (layOutItems L depth xs ++ (space ++ cp ']' :: rest))) =
          some (.cons v xs, rest)
  | .nil, _ => by
      intro depth fuel v space rest hv _ hspace
      have hstop : Stops (space ++ cp ']' :: rest) :=
        stops_space hspace (stops_of_ne (Or.inl rfl))
      rw [layOutItems, List.nil_append,
        items_cons (hv _ hstop) (skipSpace_mark hspace (by decide) rest)]
      exact if_pos rfl
  | .cons w tail, h => by
      intro depth fuel v space rest hv hfuel hspace
      simp only [weightItems] at hfuel
      simp only [plainItems, Bool.and_eq_true] at h
      obtain ⟨fuel, rfl⟩ : ∃ k, fuel = k + 1 := ⟨fuel - 1, by omega⟩
      have htail := items_layOut tail h.2 depth fuel w space rest
        (fun t ht => value_layOut w h.1 depth fuel t (by omega) ht) (by omega) hspace
      have hshape : layOutItems L depth (.cons w tail) ++ (space ++ cp ']' :: rest) =
          cp ',' :: (L.newline depth ++ (layOut L depth w ++
            (layOutItems L depth tail ++ (space ++ cp ']' :: rest)))) := by
        simp [layOutItems]
      rw [hshape, items_cons (hv _ (stops_of_ne (Or.inr (Or.inr rfl))))
        (skipSpace_of_not (by decide) _), if_neg (by decide), if_pos rfl,
        skipSpace_layOut (L.newline_space _), htail]
      rfl

/-- The members behind one that is read back, up to the brace. -/
theorem members_layOut : (ms : Members) → plainMembers noHigh ms = true →
    ∀ (depth fuel : Nat) (key : Str) (v : Value) (space rest : Str),
      key.all noHigh = true →
      (∀ t, Stops t → value fuel (layOut L depth v ++ t) = some (v, t)) →
      weightMembers ms ≤ fuel → space.all isSpace = true →
      members (fuel + 1)
        (cp '"' :: ((asciiString key).tail ++ (cp ':' :: (L.gap ++ (layOut L depth v ++
          (layOutMembers L depth ms ++ (space ++ cp '}' :: rest))))))) =
          some (.cons key v ms, rest)
  | .nil, _ => by
      intro depth fuel key v space rest hkey hv _ hspace
      have hstop : Stops (space ++ cp '}' :: rest) :=
        stops_space hspace (stops_of_ne (Or.inr (Or.inl rfl)))
      rw [layOutMembers, List.nil_append,
        members_step (string_asciiString hkey _) (skipSpace_of_not (by decide) _)
          (by rw [skipSpace_layOut L.gap_space]; exact hv _ hstop)
          (skipSpace_mark hspace (by decide) rest)]
      exact if_pos rfl
  | .cons k w tail, h => by
      intro depth fuel key v space rest hkey hv hfuel hspace
      simp only [weightMembers] at hfuel
      simp only [plainMembers, Bool.and_eq_true] at h
      obtain ⟨fuel, rfl⟩ : ∃ k, fuel = k + 1 := ⟨fuel - 1, by omega⟩
      have htail := members_layOut tail h.2 depth fuel k w space rest h.1.1.1
        (fun t ht => value_layOut w h.1.2 depth fuel t (by omega) ht) (by omega) hspace
      have hshape : layOutMembers L depth (.cons k w tail) ++ (space ++ cp '}' :: rest) =
          cp ',' :: (L.newline depth ++ cp '"' :: ((asciiString k).tail ++
            (cp ':' :: (L.gap ++ (layOut L depth w ++
              (layOutMembers L depth tail ++ (space ++ cp '}' :: rest))))))) := by
        simp [layOutMembers, asciiString]
      rw [hshape, members_step (string_asciiString hkey _) (skipSpace_of_not (by decide) _)
          (by rw [skipSpace_layOut L.gap_space]; exact hv _ (stops_of_ne (Or.inr (Or.inr rfl))))
          (skipSpace_of_not (by decide) _),
        if_neg (by decide), if_pos rfl, skipSpace_mark (L.newline_space _) (by decide), htail]
      rfl

end

/-- **Round trip**, whatever the layout and the spaces behind the value. -/
theorem loads_layOut {v : Value} (h : plain noHigh v = true) (depth : Nat) {space : Str}
    (hspace : space.all isSpace = true) : loads (layOut L depth v ++ space) = some v := by
  have hnil : skipSpace space = [] := by
    rw [← List.append_nil space, skipSpace_all hspace]
    rfl
  have hstop : Stops space := by
    rw [← List.append_nil space]
    exact stops_space hspace (by rintro c ⟨⟩)
  have hvalue := value_layOut (L := L) v h depth ((layOut L depth v ++ space).length + 1) space
    (by
      have := weight_le_layOut L v depth
      rw [List.length_append]
      omega) hstop
  have hskip := skipSpace_layOut (L := L) (s := []) rfl v depth space
  rw [List.nil_append] at hskip
  rw [loads, hskip, hvalue]
  exact if_pos hnil

end Layout

/-! ## The characters of a laid out value -/

theorem hexDigit_ascii : ∀ n < 16, hexDigit n < 0x80 := by
  decide

theorem unitEscape_ascii (u : Nat) : ∀ c ∈ unitEscape u, c < 0x80 := by
  have hdigit : ∀ n, hexDigit (n % 16) < 0x80 := fun n =>
    hexDigit_ascii _ (Nat.mod_lt _ (by decide))
  simp only [unitEscape, List.forall_mem_cons]
  exact ⟨by decide, by decide, hdigit _, hdigit _, hdigit _, hdigit _, nofun⟩

theorem shortEscape_ascii {c e : Nat} (h : shortEscape c = some e) : e < 0x80 := by
  unfold shortEscape at h
  split at h
  · rename_i hc
    cases h
    rcases hc with rfl | rfl <;> decide
  iterate 5
    split at h
    · cases h
      decide
  cases h

theorem asciiString_ascii (text : Str) : ∀ c ∈ asciiString text, c < 0x80 := by
  have hescape : ∀ c, ∀ d ∈ escapeAscii c, d < 0x80 := by
    intro c d hd
    unfold escapeAscii at hd
    cases hshort : shortEscape c with
    | some e =>
        rw [hshort] at hd
        rcases List.mem_cons.mp hd with rfl | hd
        · decide
        · rw [List.mem_singleton.mp hd]
          exact shortEscape_ascii hshort
    | none =>
        rw [hshort] at hd
        dsimp only at hd
        split at hd
        · rw [List.mem_singleton.mp hd]
          omega
        split at hd
        · exact unitEscape_ascii c d hd
        · rcases List.mem_append.mp hd with hd | hd
          · exact unitEscape_ascii _ d hd
          · exact unitEscape_ascii _ d hd
  intro c hc
  simp only [asciiString, List.cons_append, List.mem_cons, List.mem_append, List.mem_flatMap,
    List.not_mem_nil, or_false] at hc
  rcases hc with rfl | ⟨d, -, hc⟩ | rfl
  · decide
  · exact hescape d c hc
  · decide

theorem space_ascii {s : Str} (h : s.all isSpace = true) : ∀ c ∈ s, c < 0x80 := by
  intro c hc
  have hspace := (List.all_eq_true.mp h) c hc
  simp only [isSpace, Bool.or_eq_true, beq_iff_eq] at hspace
  omega

mutual

/-- **A laid out value is ASCII.** -/
theorem layOut_ascii (L : Layout) :
    (v : Value) → (depth : Nat) → ∀ c ∈ layOut L depth v, c < 0x80
  | .null, _ => by simp only [layOut]; decide
  | .bool true, _ => by simp only [layOut]; decide
  | .bool false, _ => by simp only [layOut]; decide
  | .nan, _ => by simp only [layOut]; decide
  | .infinity false, _ => by simp only [layOut]; decide
  | .infinity true, _ => by simp only [layOut]; decide
  | .number literal, _ => fun c hc => by
      have := (number_chars literal.2 c hc).2
      omega
  | .string text, _ => asciiString_ascii text
  | .array .nil, _ => by simp only [layOut]; decide
  | .array (.cons v tail), depth => by
      intro c hc
      simp only [layOut, List.mem_cons, List.mem_append, List.not_mem_nil, or_false] at hc
      rcases hc with rfl | (((hc | hc) | hc) | hc) | rfl
      · decide
      · exact space_ascii (L.newline_space _) c hc
      · exact layOut_ascii L v _ c hc
      · exact layOutItems_ascii L tail _ c hc
      · exact space_ascii (L.newline_space _) c hc
      · decide
  | .object .nil, _ => by simp only [layOut]; decide
  | .object (.cons key v tail), depth => by
      intro c hc
      simp only [layOut, List.mem_cons, List.mem_append, List.not_mem_nil, or_false] at hc
      rcases hc with rfl | ((((((hc | hc) | rfl | hc) | hc) | hc) | hc) | rfl)
      · decide
      · exact space_ascii (L.newline_space _) c hc
      · exact asciiString_ascii key c hc
      · decide
      · exact space_ascii L.gap_space c hc
      · exact layOut_ascii L v _ c hc
      · exact layOutMembers_ascii L tail _ c hc
      · exact space_ascii (L.newline_space _) c hc
      · decide

theorem layOutItems_ascii (L : Layout) :
    (xs : Items) → (depth : Nat) → ∀ c ∈ layOutItems L depth xs, c < 0x80
  | .nil, _ => nofun
  | .cons v tail, depth => by
      intro c hc
      simp only [layOutItems, List.mem_cons, List.mem_append] at hc
      rcases hc with rfl | (hc | hc) | hc
      · decide
      · exact space_ascii (L.newline_space _) c hc
      · exact layOut_ascii L v _ c hc
      · exact layOutItems_ascii L tail _ c hc

theorem layOutMembers_ascii (L : Layout) :
    (ms : Members) → (depth : Nat) → ∀ c ∈ layOutMembers L depth ms, c < 0x80
  | .nil, _ => nofun
  | .cons key v tail, depth => by
      intro c hc
      simp only [layOutMembers, List.mem_cons, List.mem_append] at hc
      rcases hc with rfl | (((hc | hc) | rfl | hc) | hc) | hc
      · decide
      · exact space_ascii (L.newline_space _) c hc
      · exact asciiString_ascii key c hc
      · decide
      · exact space_ascii L.gap_space c hc
      · exact layOut_ascii L v _ c hc
      · exact layOutMembers_ascii L tail _ c hc

end

/-! ## Members -/

/-- `d.get(key)` -/
def Members.get? (key : Str) : Members → Option Value
  | .nil => none
  | .cons k v tail => if k = key then some v else tail.get? key

def Members.entries : Members → List (Str × Value)
  | .nil => []
  | .cons k v tail => (k, v) :: tail.entries

/-- The members with these entries. -/
def Members.ofList : List (Str × Value) → Members
  | [] => .nil
  | (k, v) :: rest => .cons k v (ofList rest)

def Items.toList : Items → List Value
  | .nil => []
  | .cons v tail => v :: tail.toList

def Items.ofList : List Value → Items
  | [] => .nil
  | v :: rest => .cons v (ofList rest)

@[simp] theorem Members.entries_ofList : (es : List (Str × Value)) → (ofList es).entries = es
  | [] => rfl
  | e :: rest => congrArg (e :: ·) (entries_ofList rest)

@[simp] theorem Members.ofList_entries : (ms : Members) → ofList ms.entries = ms
  | .nil => rfl
  | .cons k v tail => congrArg (Members.cons k v) (ofList_entries tail)

@[simp] theorem Items.toList_ofList : (vs : List Value) → (ofList vs).toList = vs
  | [] => rfl
  | v :: rest => congrArg (v :: ·) (toList_ofList rest)

theorem Members.lacks_ofList {key : Str} {es : List (Str × Value)}
    (h : key ∉ es.map Prod.fst) : (ofList es).lacks key = true := by
  induction es with
  | nil => rfl
  | cons e rest ih =>
      rw [List.map_cons, List.mem_cons, not_or] at h
      simp [ofList, lacks, Ne.symm h.1, ih h.2]

/-- A member of a dictionary, by its place. -/
theorem Members.get?_at {es : List (Str × Value)} {ms : Members} (hms : ofList es = ms)
    (hkeys : (es.map Prod.fst).Nodup) {i : Nat} {key : Str} {v : Value}
    (h : es[i]? = some (key, v)) : ms.get? key = some v := by
  subst hms
  induction es generalizing i with
  | nil => cases h
  | cons e rest ih =>
      obtain ⟨hnew, hrest⟩ := List.nodup_cons.mp hkeys
      cases i with
      | zero =>
          cases h
          simp [ofList, get?]
      | succ i =>
          rw [List.getElem?_cons_succ] at h
          have hne : e.1 ≠ key := by
            rintro rfl
            exact hnew (List.mem_map.mpr ⟨_, List.mem_of_getElem? h, rfl⟩)
          rw [ofList, get?, if_neg hne, ih hrest h]

theorem plainMembers_ofList {ok : Nat → Bool} {es : List (Str × Value)}
    (hkeys : (es.map Prod.fst).Nodup)
    (h : ∀ e ∈ es, e.1.all ok = true ∧ plain ok e.2 = true) :
    plainMembers ok (Members.ofList es) = true := by
  induction es with
  | nil => rfl
  | cons e rest ih =>
      obtain ⟨hnew, hrest⟩ := List.nodup_cons.mp hkeys
      obtain ⟨hkey, hvalue⟩ := h e List.mem_cons_self
      simp only [Members.ofList, plainMembers, Bool.and_eq_true]
      exact ⟨⟨⟨hkey, Members.lacks_ofList hnew⟩, hvalue⟩,
        ih hrest fun e he => h e (List.mem_cons_of_mem _ he)⟩

theorem plainItems_ofList {ok : Nat → Bool} {vs : List Value} (h : ∀ v ∈ vs, plain ok v = true) :
    plainItems ok (Items.ofList vs) = true := by
  induction vs with
  | nil => rfl
  | cons v rest ih =>
      simp only [Items.ofList, plainItems, Bool.and_eq_true]
      exact ⟨h v List.mem_cons_self, ih fun v hv => h v (List.mem_cons_of_mem _ hv)⟩

/-! ## Integers -/

/-- `str` of a natural number. -/
def natText (n : Nat) : Str :=
  if n = 0 then [cp '0'] else (Nat.digits 10 n).reverse.map (cp '0' + ·)

/-- `str` of an integer. -/
def intText : Int → Str
  | .ofNat n => natText n
  | .negSucc n => cp '-' :: natText (n + 1)

/-- The number that digits stand for. -/
def numeral (s : Str) : Nat :=
  s.foldl (fun n c => c - cp '0' + 10 * n) 0

/-- The integer that a literal stands for, where it has neither a point nor an exponent. -/
def Literal.toInt? (literal : Literal) : Option Int :=
  match literal.1 with
  | [] => none
  | c :: rest =>
      if c = cp '-' then
        if rest.all isDigit then some (-(numeral rest : Int)) else none
      else
        if (c :: rest).all isDigit then some (numeral (c :: rest)) else none

/-- The literal of an integer; a longer one is refused, by the writer as by the reader. -/
def intLiteral (n : Int) : Option Literal :=
  if h : number (intText n) = some (intText n, []) then some ⟨intText n, h⟩ else none

theorem isDigit_add {d : Nat} (h : d < 10) : isDigit (cp '0' + d) = true := by
  unfold isDigit
  rw [Bool.and_eq_true, decide_eq_true_eq, decide_eq_true_eq]
  have : cp '9' = cp '0' + 9 := rfl
  omega

theorem natText_digits (n : Nat) : (natText n).all isDigit = true := by
  unfold natText
  split
  · decide
  · rw [List.all_map, List.all_reverse, List.all_eq_true]
    intro d hd
    exact isDigit_add (Nat.digits_lt_base (by decide) hd)

theorem numeral_natText (n : Nat) : numeral (natText n) = n := by
  unfold natText numeral
  split
  · rename_i h
    rw [h]
    rfl
  · rw [List.foldl_map, List.foldl_reverse]
    have hsub : (fun (d n : Nat) => cp '0' + d - cp '0' + 10 * n) = fun d n => d + 10 * n := by
      funext d n
      rw [Nat.add_sub_cancel_left]
    rw [hsub]
    have hdigits := Nat.ofDigits_digits 10 n
    rw [Nat.ofDigits_eq_foldr] at hdigits
    exact hdigits

theorem natText_ne_nil (n : Nat) : natText n ≠ [] := by
  unfold natText
  split
  · exact nofun
  · rename_i h
    simpa using Nat.digits_ne_nil_iff_ne_zero.mpr h

/-- **The literal of an integer stands for it.** -/
theorem toInt?_intLiteral {n : Int} {literal : Literal} (h : intLiteral n = some literal) :
    literal.toInt? = some n := by
  unfold intLiteral at h
  split at h
  · cases h
    cases n with
    | ofNat n =>
        have hdigits := natText_digits n
        unfold Literal.toInt?
        simp only [intText]
        cases hshape : natText n with
        | nil =>
            exact absurd hshape (natText_ne_nil n)
        | cons c rest =>
            rw [hshape] at hdigits
            have hc : c ≠ cp '-' := by
              rintro rfl
              exact absurd ((List.all_eq_true.mp hdigits) _ List.mem_cons_self) (by decide)
            dsimp only
            rw [if_neg hc, if_pos hdigits, ← hshape, numeral_natText]
            rfl
    | negSucc n =>
        unfold Literal.toInt?
        simp only [intText]
        rw [if_pos (natText_digits (n + 1)), if_pos trivial, numeral_natText]
        rfl
  · cases h

end Json
end Lexical
end SwFactory
