import SwFactory.Lexical.Json

/-!
# JSON text: what is read when the text goes on

Two facts about the reader.  What it has read stays read when the text goes on
(`Reads`), except that a number must not go on with it; and it reads back what
the writer prints.  Together they say that no proper part of a printed object
can be read.
-/

namespace SwFactory
namespace Lexical
namespace Json

/-! ## Numbers -/

/-- The text does not go on with a digit. -/
def NoDigit (s : Str) : Prop :=
  ∀ c ∈ s.head?, isDigit c = false

/-- The text does not go on with anything that could belong to a number. -/
def Stops (s : Str) : Prop :=
  ∀ c ∈ s.head?, isDigit c = false ∧ c ≠ cp '.' ∧ c ≠ cp 'e' ∧ c ≠ cp 'E'

theorem Stops.noDigit {s : Str} (h : Stops s) : NoDigit s :=
  fun c hc => (h c hc).1

theorem digits_append {s t : Str} (h : NoDigit ((digits s).2 ++ t)) :
    digits (s ++ t) = ((digits s).1, (digits s).2 ++ t) := by
  induction s with
  | nil =>
      cases t with
      | nil => rfl
      | cons c t =>
          have hc : isDigit c = false := h c rfl
          simp [digits, hc]
  | cons c s ih =>
      by_cases hc : isDigit c = true
      · have hrest : NoDigit ((digits s).2 ++ t) := by
          simpa [digits, hc] using h
        have := ih hrest
        simp only [digits, Prod.mk.injEq] at this
        simp [digits, hc, this.1, this.2]
      · simp [digits, hc]

theorem takeNat_append {s int r t : Str} (h : takeNat s = some (int, r))
    (hr : NoDigit (r ++ t)) : takeNat (s ++ t) = some (int, r ++ t) := by
  cases s with
  | nil =>
      cases h
  | cons c rest =>
      simp only [takeNat, List.cons_append] at h ⊢
      split at h
      · rename_i hc
        cases h
        rw [if_pos hc]
      split at h
      · rename_i hc hdigit
        cases h
        rw [if_neg hc, if_pos hdigit, digits_append hr]
      · cases h

theorem takeInt_append {s int r t : Str} (h : takeInt s = some (int, r))
    (hr : NoDigit (r ++ t)) : takeInt (s ++ t) = some (int, r ++ t) := by
  cases s with
  | nil =>
      cases h
  | cons c rest =>
      simp only [takeInt, List.cons_append] at h ⊢
      split at h
      · rename_i hc
        obtain ⟨⟨int', r'⟩, hcut, heq⟩ := Option.map_eq_some_iff.mp h
        cases heq
        rw [if_pos hc, takeNat_append hcut hr]
        rfl
      · rename_i hc
        rw [if_neg hc]
        exact takeNat_append h hr

/-- The fraction ends where the digits do, or the text has no point there. -/
theorem takeFraction_append {s t : Str}
    (hdigit : (takeFraction s).1 ≠ [] → NoDigit ((takeFraction s).2 ++ t))
    (hpoint : (takeFraction s).1 = [] → ∀ c ∈ (s ++ t).head?, c ≠ cp '.') :
    takeFraction (s ++ t) = ((takeFraction s).1, (takeFraction s).2 ++ t) := by
  cases s with
  | nil =>
      cases t with
      | nil => rfl
      | cons c t =>
          have hc := hpoint rfl c rfl
          simp [takeFraction, hc]
  | cons c rest =>
      by_cases hc : c = cp '.' ∧ (digits rest).1 ≠ []
      · have hfraction : takeFraction (c :: rest) =
            (c :: (digits rest).1, (digits rest).2) := if_pos hc
        have hrest : NoDigit ((digits rest).2 ++ t) := by
          have := hdigit (by simp [hfraction])
          rwa [hfraction] at this
        rw [hfraction, List.cons_append, takeFraction, digits_append hrest]
        exact if_pos hc
      · have hfraction : takeFraction (c :: rest) = ([], c :: rest) := if_neg hc
        have hnot : c ≠ cp '.' := hpoint (by simp [hfraction]) c rfl
        rw [hfraction, List.cons_append, takeFraction]
        exact if_neg (fun h => hnot h.1)

theorem takeSign_append {s t : Str} (hs : (digits (takeSign s).2).1 ≠ []) :
    takeSign (s ++ t) = ((takeSign s).1, (takeSign s).2 ++ t) := by
  cases s with
  | nil =>
      exact absurd rfl hs
  | cons c rest =>
      simp only [takeSign, List.cons_append]
      split
      · rfl
      · rfl

theorem takeExponent_append {s t : Str}
    (hdigit : (takeExponent s).1 ≠ [] → NoDigit ((takeExponent s).2 ++ t))
    (hletter : (takeExponent s).1 = [] →
      ∀ c ∈ (s ++ t).head?, c ≠ cp 'e' ∧ c ≠ cp 'E') :
    takeExponent (s ++ t) = ((takeExponent s).1, (takeExponent s).2 ++ t) := by
  cases s with
  | nil =>
      cases t with
      | nil => rfl
      | cons c t =>
          have hc := hletter rfl c rfl
          simp [takeExponent, hc]
  | cons c rest =>
      by_cases hc : (c = cp 'e' ∨ c = cp 'E') ∧ (digits (takeSign rest).2).1 ≠ []
      · have hexponent : takeExponent (c :: rest) =
            (c :: (takeSign rest).1 ++ (digits (takeSign rest).2).1,
              (digits (takeSign rest).2).2) := if_pos hc
        have hrest : NoDigit ((digits (takeSign rest).2).2 ++ t) := by
          have := hdigit (by simp [hexponent])
          rwa [hexponent] at this
        rw [hexponent, List.cons_append, takeExponent, takeSign_append hc.2,
          digits_append hrest]
        exact if_pos hc
      · have hexponent : takeExponent (c :: rest) = ([], c :: rest) := if_neg hc
        have hnot := hletter (by simp [hexponent]) c rfl
        rw [hexponent, List.cons_append, takeExponent]
        exact if_neg (fun h => h.1.elim hnot.1 hnot.2)

/-- A part that was taken starts the text it was taken from. -/
theorem head_of_takeFraction {s : Str} (h : (takeFraction s).1 ≠ []) :
    s.head? = some (cp '.') := by
  cases s with
  | nil =>
      exact absurd rfl h
  | cons c rest =>
      simp only [takeFraction] at h
      split at h
      · rename_i hc
        rw [hc.1]
        rfl
      · exact absurd rfl h

theorem takeFraction_nil {s : Str} (h : (takeFraction s).1 = []) :
    (takeFraction s).2 = s := by
  cases s with
  | nil =>
      rfl
  | cons c rest =>
      simp only [takeFraction] at h ⊢
      split at h
      · cases h
      · rename_i hc
        rw [if_neg hc]

theorem head_of_takeExponent {s : Str} (h : (takeExponent s).1 ≠ []) :
    s.head? = some (cp 'e') ∨ s.head? = some (cp 'E') := by
  cases s with
  | nil =>
      exact absurd rfl h
  | cons c rest =>
      simp only [takeExponent] at h
      split at h
      · rename_i hc
        rcases hc.1 with rfl | rfl
        · exact Or.inl rfl
        · exact Or.inr rfl
      · exact absurd rfl h

theorem takeExponent_nil {s : Str} (h : (takeExponent s).1 = []) :
    (takeExponent s).2 = s := by
  cases s with
  | nil =>
      rfl
  | cons c rest =>
      simp only [takeExponent] at h ⊢
      split at h
      · cases h
      · rename_i hc
        rw [if_neg hc]

theorem mem_head?_append {s t : Str} {c d : Nat} (h : s.head? = some d)
    (hc : c ∈ (s ++ t).head?) : c = d := by
  cases s with
  | nil => cases h
  | cons a s =>
      cases h
      cases hc
      rfl

/-- Where the exponent starts, or the text stops, there is no digit and no point. -/
theorem before_exponent {s t : Str} (hstop : Stops ((takeExponent s).2 ++ t)) :
    NoDigit (s ++ t) ∧ ∀ c ∈ (s ++ t).head?, c ≠ cp '.' := by
  by_cases h : (takeExponent s).1 = []
  · rw [takeExponent_nil h] at hstop
    exact ⟨hstop.noDigit, fun c hc => (hstop c hc).2.1⟩
  · have hletter : ∀ c ∈ (s ++ t).head?, c = cp 'e' ∨ c = cp 'E' := by
      intro c hc
      rcases head_of_takeExponent h with hhead | hhead
      · exact Or.inl (mem_head?_append hhead hc)
      · exact Or.inr (mem_head?_append hhead hc)
    constructor
    · intro c hc
      rcases hletter c hc with rfl | rfl <;> decide
    · intro c hc
      rcases hletter c hc with rfl | rfl <;> decide

/-- A number ends where the text stops. -/
theorem number_append {s literal r t : Str} (h : number s = some (literal, r))
    (hstop : Stops (r ++ t)) : number (s ++ t) = some (literal, r ++ t) := by
  unfold number at h ⊢
  cases hint : takeInt s with
  | none =>
      simp [hint] at h
  | some cut =>
      obtain ⟨int, rest⟩ := cut
      simp only [hint] at h
      split at h
      · cases h
      rename_i hsize
      cases h
      obtain ⟨hnodigit, hnopoint⟩ := before_exponent hstop
      have hexponent := takeExponent_append (s := (takeFraction rest).2) (t := t)
        (fun _ => hstop.noDigit)
        (by
          intro hnil c hc
          rw [takeExponent_nil hnil] at hstop
          exact (hstop c hc).2.2)
      have hfraction := takeFraction_append (s := rest) (t := t)
        (fun _ => hnodigit)
        (by
          intro hnil
          rw [takeFraction_nil hnil] at hnopoint
          exact hnopoint)
      have hrest : NoDigit (rest ++ t) := by
        by_cases hnil : (takeFraction rest).1 = []
        · rw [takeFraction_nil hnil] at hnodigit
          exact hnodigit
        · intro c hc
          rw [mem_head?_append (head_of_takeFraction hnil) hc]
          decide
      rw [takeInt_append hint hrest]
      simp only [hfraction, hexponent, if_neg hsize]

/-- A number starts with a digit, or with a minus and a digit. -/
theorem number_head {s literal r : Str} (h : number s = some (literal, r)) :
    (∃ d rest, s = d :: rest ∧ isDigit d = true) ∨
      ∃ d rest, s = cp '-' :: d :: rest ∧ isDigit d = true := by
  have hnat : ∀ {s int r : Str}, takeNat s = some (int, r) →
      ∃ d rest, s = d :: rest ∧ isDigit d = true := by
    intro s int r h
    cases s with
    | nil =>
        cases h
    | cons c rest =>
        simp only [takeNat] at h
        split at h
        · rename_i hc
          exact ⟨c, rest, rfl, by rw [hc]; decide⟩
        split at h
        · rename_i hdigit
          exact ⟨c, rest, rfl, hdigit⟩
        · cases h
  unfold number at h
  cases hint : takeInt s with
  | none =>
      simp [hint] at h
  | some cut =>
      cases s with
      | nil =>
          cases hint
      | cons c rest =>
          simp only [takeInt] at hint
          split at hint
          · rename_i hc
            obtain ⟨cut', hcut, -⟩ := Option.map_eq_some_iff.mp hint
            obtain ⟨d, rest', rfl, hdigit⟩ := hnat hcut
            exact Or.inr ⟨d, rest', by rw [hc], hdigit⟩
          · exact Or.inl (hnat hint)

/-! ## Strings -/

theorem pieces_quote (rest : Str) : pieces (cp '"' :: rest) = some ([], rest) := by
  rw [pieces.eq_def]
  exact if_pos rfl

theorem pieces_unit {a b c d u : Nat} (h : hexUnit a b c d = some u) (rest : Str) :
    pieces (cp '\\' :: cp 'u' :: a :: b :: c :: d :: rest) =
      (pieces rest).map (fun cut => (.unit u :: cut.1, cut.2)) := by
  rw [pieces.eq_def]
  dsimp only
  rw [if_neg (by decide), if_pos rfl, if_pos rfl, h]

theorem pieces_escape {e c : Nat} (hu : e ≠ cp 'u') (h : escaped e = some c)
    (rest : Str) :
    pieces (cp '\\' :: e :: rest) =
      (pieces rest).map (fun cut => (.plain c :: cut.1, cut.2)) := by
  rw [pieces.eq_def]
  dsimp only
  rw [if_neg (by decide), if_pos rfl, if_neg hu, h]

theorem pieces_plain {c : Nat} (hquote : c ≠ cp '"') (hback : c ≠ cp '\\')
    (hcontrol : ¬ c < 0x20) (rest : Str) :
    pieces (c :: rest) = (pieces rest).map (fun cut => (.plain c :: cut.1, cut.2)) := by
  rw [pieces.eq_def]
  dsimp only
  rw [if_neg hquote, if_neg hback, if_neg hcontrol]

theorem pieces_append {s r : Str} {ps : List Piece} (h : pieces s = some (ps, r))
    (t : Str) : pieces (s ++ t) = some (ps, r ++ t) := by
  fun_induction pieces s generalizing ps r with
  | case1 => cases h
  | case2 rest =>
      cases h
      exact pieces_quote _
  | case3 => cases h
  | case4 a b c d rest u hhex hne ih =>
      obtain ⟨⟨ps', r'⟩, hcut, heq⟩ := Option.map_eq_some_iff.mp h
      cases heq
      rw [List.cons_append, List.cons_append, List.cons_append, List.cons_append,
        List.cons_append, List.cons_append, pieces_unit hhex, ih hcut]
      rfl
  | case5 => cases h
  | case6 => cases h
  | case7 e rest hu c hesc hne ih =>
      obtain ⟨⟨ps', r'⟩, hcut, heq⟩ := Option.map_eq_some_iff.mp h
      cases heq
      rw [List.cons_append, List.cons_append, pieces_escape hu hesc, ih hcut]
      rfl
  | case8 => cases h
  | case9 => cases h
  | case10 c rest hquote hback hcontrol ih =>
      obtain ⟨⟨ps', r'⟩, hcut, heq⟩ := Option.map_eq_some_iff.mp h
      cases heq
      rw [List.cons_append, pieces_plain hquote hback hcontrol, ih hcut]
      rfl

theorem string_append {s r text : Str} (h : string s = some (text, r)) (t : Str) :
    string (s ++ t) = some (text, r ++ t) := by
  obtain ⟨⟨ps, r'⟩, hcut, heq⟩ := Option.map_eq_some_iff.mp h
  cases heq
  rw [string, pieces_append hcut]
  rfl

/-- The piece that an escaped character is read as. -/
def pieceOf (c : Nat) : Piece :=
  if c < 0x20 ∧ c ≠ 0x0a ∧ c ≠ 0x0d ∧ c ≠ 0x09 ∧ c ≠ 0x0c ∧ c ≠ 0x08 then
    .unit c
  else
    .plain c

theorem hexUnit_control : ∀ c < 0x20,
    hexUnit (cp '0') (cp '0') (hexDigit (c / 16)) (hexDigit (c % 16)) = some c := by
  decide

theorem pieces_escaped (c : Nat) (rest : Str) :
    pieces (escape c ++ rest) =
      (pieces rest).map (fun cut => (pieceOf c :: cut.1, cut.2)) := by
  unfold escape
  split
  · rename_i h
    subst h
    exact pieces_escape (by decide) (by decide) rest
  split
  · rename_i h
    subst h
    exact pieces_escape (by decide) (by decide) rest
  split
  · rename_i h
    subst h
    exact pieces_escape (by decide) (by decide) rest
  split
  · rename_i h
    subst h
    exact pieces_escape (by decide) (by decide) rest
  split
  · rename_i h
    subst h
    exact pieces_escape (by decide) (by decide) rest
  split
  · rename_i h
    subst h
    exact pieces_escape (by decide) (by decide) rest
  split
  · rename_i h
    subst h
    exact pieces_escape (by decide) (by decide) rest
  split
  · rename_i hn hr ht hf hb hcontrol
    have hpiece : pieceOf c = .unit c := if_pos ⟨hcontrol, hn, hr, ht, hf, hb⟩
    rw [hpiece]
    exact pieces_unit (hexUnit_control c hcontrol) rest
  · rename_i hquote hback _ _ _ _ _ hcontrol
    have hpiece : pieceOf c = .plain c := if_neg (fun h => hcontrol h.1)
    rw [hpiece]
    exact pieces_plain hquote hback hcontrol rest

/-- The pieces of a printed string hold no surrogate escape. -/
theorem join_pieces (text : Str) : join (text.map pieceOf) = text := by
  induction text with
  | nil =>
      rfl
  | cons c rest ih =>
      rw [List.map_cons]
      by_cases hc : c < 0x20 ∧ c ≠ 0x0a ∧ c ≠ 0x0d ∧ c ≠ 0x09 ∧ c ≠ 0x0c ∧ c ≠ 0x08
      · have hpiece : pieceOf c = .unit c := if_pos hc
        have hhigh : isHigh c = false := by
          simp only [isHigh, Bool.and_eq_false_iff, decide_eq_false_iff_not]
          omega
        rw [hpiece]
        cases hrest : rest.map pieceOf with
        | nil =>
            rw [hrest] at ih
            rw [← ih]
            rfl
        | cons p ps =>
            rw [hrest] at ih
            cases p with
            | plain d =>
                rw [← ih]
                rfl
            | unit v =>
                rw [join, hhigh, ih]
                rfl
      · have hpiece : pieceOf c = .plain c := if_neg hc
        rw [hpiece, join, ih]

theorem pieces_flatMap (text rest : Str) :
    pieces (text.flatMap escape ++ cp '"' :: rest) = some (text.map pieceOf, rest) := by
  induction text with
  | nil =>
      exact pieces_quote rest
  | cons c text ih =>
      rw [List.flatMap_cons, List.append_assoc, pieces_escaped, ih]
      rfl

/-- A printed string is read back. -/
theorem string_dumpString (text rest : Str) :
    string ((dumpString text).tail ++ rest) = some (text, rest) := by
  have hshape : (dumpString text).tail ++ rest =
      text.flatMap escape ++ cp '"' :: rest := by
    simp [dumpString]
  rw [hshape, string, pieces_flatMap]
  exact congrArg some (Prod.ext (join_pieces text) rfl)

/-! ## Scalars -/

theorem dropWord_append {w s r : Str} (h : dropWord w s = some r) (t : Str) :
    dropWord w (s ++ t) = some (r ++ t) := by
  induction w generalizing s with
  | nil =>
      cases h
      rfl
  | cons a w ih =>
      cases s with
      | nil =>
          cases h
      | cons c s =>
          simp only [dropWord, List.cons_append] at h ⊢
          split at h
          · rename_i hc
            rw [if_pos hc, ih h]
          · cases h

theorem words_head : ∀ w ∈ words, w.1.head? ≠ none := by
  simp [words, word]

theorem takeWord_append {s r : Str} {v : Value} (h : takeWord s = some (v, r))
    (t : Str) : takeWord (s ++ t) = some (v, r ++ t) := by
  unfold takeWord at h ⊢
  cases hfind : words.find? (fun w => w.1.head? = s.head?) with
  | none =>
      simp [hfind] at h
  | some w =>
      have hhead : w.1.head? = s.head? := by
        simpa using List.find?_some hfind
      have hne : s.head? ≠ none :=
        hhead ▸ words_head w (List.mem_of_find?_eq_some hfind)
      have hsame : (s ++ t).head? = s.head? := by
        cases s with
        | nil => exact absurd rfl hne
        | cons c s => rfl
      rw [hfind] at h
      obtain ⟨rest, hdrop, heq⟩ := Option.map_eq_some_iff.mp h
      cases heq
      rw [hsame, hfind]
      simp [dropWord_append hdrop]

theorem words_head_not_digit :
    ∀ w ∈ words, w.1.head?.any isDigit = false := by
  decide

/-- No word starts like a number. -/
theorem takeWord_of_number {s literal r : Str} (h : number s = some (literal, r)) :
    takeWord s = none := by
  rcases number_head h with ⟨d, rest, rfl, hd⟩ | ⟨d, rest, rfl, hd⟩
  · have hfind : words.find? (fun w => w.1.head? = (d :: rest).head?) = none := by
      rw [List.find?_eq_none]
      intro w hw hhead
      have hnot := words_head_not_digit w hw
      rw [of_decide_eq_true hhead] at hnot
      simp [hd] at hnot
    simp only [takeWord, hfind]
  · have hfind : words.find? (fun w => w.1.head? = (cp '-' :: d :: rest).head?) =
        some (word "-Infinity", .infinity true) := by
      rfl
    have hdrop : dropWord (word "-Infinity") (cp '-' :: d :: rest) = none := by
      change (if d = cp 'I' then _ else none) = none
      refine if_neg ?_
      rintro rfl
      exact absurd hd (by decide)
    simp only [takeWord, hfind, hdrop, Option.map_none]

def Value.isNumber : Value → Bool
  | .number _ => true
  | _ => false

theorem scalar_append {s r : Str} {v : Value} (h : scalar s = some (v, r)) {t : Str}
    (hstop : v.isNumber = true → Stops (r ++ t)) :
    scalar (s ++ t) = some (v, r ++ t) := by
  unfold scalar at h ⊢
  cases hword : takeWord s with
  | some cut =>
      rw [hword] at h
      cases h
      rw [takeWord_append hword]
      rfl
  | none =>
      rw [hword, Option.none_or] at h
      unfold takeNumber at h ⊢
      cases hnumber : number s with
      | none =>
          simp [hnumber] at h
      | some cut =>
          obtain ⟨literal, rest⟩ := cut
          rw [hnumber] at h
          dsimp only at h
          split at h
          · rename_i hliteral
            cases h
            have happend := number_append hnumber (hstop rfl)
            rw [takeWord_of_number happend, happend]
            simp [hliteral]
          · cases h

/-! ## Values -/

theorem skipSpace_append {s r : Str} {c : Nat} (h : skipSpace s = c :: r) (t : Str) :
    skipSpace (s ++ t) = c :: (r ++ t) := by
  induction s with
  | nil =>
      cases h
  | cons d s ih =>
      simp only [skipSpace, List.dropWhile_cons, List.cons_append] at h ⊢
      split at h
      · rename_i hd
        rw [if_pos hd]
        exact ih h
      · rename_i hd
        cases h
        rw [if_neg hd]

/-- Behind a value there is a space, or what comes behind the spaces. -/
theorem stops_of_skipSpace {s r t : Str} {d : Nat} (h : skipSpace s = d :: r)
    (hd : d = cp ']' ∨ d = cp '}' ∨ d = cp ',') : Stops (s ++ t) := by
  cases s with
  | nil =>
      cases h
  | cons c s =>
      rintro _ ⟨⟩
      simp only [skipSpace, List.dropWhile_cons] at h
      split at h
      · rename_i hspace
        simp only [isSpace, Bool.or_eq_true, beq_iff_eq] at hspace
        rcases hspace with ((rfl | rfl) | rfl) | rfl <;> decide
      · cases h
        rcases hd with rfl | rfl | rfl <;> decide

theorem value_nil (fuel : Nat) : value fuel [] = none := by
  cases fuel <;> rfl

theorem items_nil (fuel : Nat) : items fuel [] = none := by
  cases fuel with
  | zero => rfl
  | succ fuel => simp [items, value_nil]

theorem members_nil (fuel : Nat) : members fuel [] = none := by
  cases fuel <;> rfl

/-- What is read stays read, with more fuel and when the text goes on. -/
structure Extends (fuel : Nat) : Prop where
  value : ∀ {s r : Str} {v : Value}, value fuel s = some (v, r) →
    ∀ {more : Nat} {t : Str}, fuel ≤ more →
      (v.isNumber = true → Stops (r ++ t)) →
      Json.value more (s ++ t) = some (v, r ++ t)
  items : ∀ {s r : Str} {xs : Items}, items fuel s = some (xs, r) →
    ∀ {more : Nat} {t : Str}, fuel ≤ more →
      Json.items more (s ++ t) = some (xs, r ++ t)
  members : ∀ {s r : Str} {ms : Members}, members fuel s = some (ms, r) →
    ∀ {more : Nat} {t : Str}, fuel ≤ more →
      Json.members more (s ++ t) = some (ms, r ++ t)

/-- A text that was read behind its spaces. -/
theorem skipSpace_of_read {α : Type} {f : Str → Option α} {s t : Str} {a : α}
    (hnil : f [] = none) (h : f (skipSpace s) = some a) :
    skipSpace (s ++ t) = skipSpace s ++ t := by
  cases hs : skipSpace s with
  | nil =>
      rw [hs, hnil] at h
      cases h
  | cons c r =>
      exact skipSpace_append hs t

theorem extends_zero : Extends 0 where
  value := by rintro s r v ⟨⟩
  items := by rintro s r xs ⟨⟩
  members := by rintro s r ms ⟨⟩

theorem value_extends {fuel : Nat} (ih : Extends fuel)
    {s r t : Str} {v : Value} (h : value (fuel + 1) s = some (v, r))
    {more : Nat} (hmore : fuel ≤ more)
    (hstop : v.isNumber = true → Stops (r ++ t)) :
    value (more + 1) (s ++ t) = some (v, r ++ t) := by
  cases s with
  | nil =>
      cases h
  | cons c rest =>
      simp only [value, List.cons_append] at h ⊢
      split at h
      · rename_i hc
        obtain ⟨⟨text, r'⟩, hcut, heq⟩ := Option.map_eq_some_iff.mp h
        cases heq
        rw [if_pos hc, string_append hcut]
        rfl
      split at h
      · rename_i hc hc'
        rw [if_neg hc, if_pos hc']
        cases hspace : skipSpace rest with
        | nil =>
            simp [hspace] at h
        | cons d rest' =>
            rw [hspace] at h
            rw [skipSpace_append hspace]
            dsimp only at h ⊢
            split at h
            · rename_i hd
              cases h
              rw [if_pos hd]
            · rename_i hd
              obtain ⟨⟨xs, r'⟩, hcut, heq⟩ := Option.map_eq_some_iff.mp h
              cases heq
              rw [if_neg hd, ← List.cons_append, ih.items hcut hmore]
              rfl
      split at h
      · rename_i hc hc' hc''
        rw [if_neg hc, if_neg hc', if_pos hc'']
        cases hspace : skipSpace rest with
        | nil =>
            simp [hspace] at h
        | cons d rest' =>
            rw [hspace] at h
            rw [skipSpace_append hspace]
            dsimp only at h ⊢
            split at h
            · rename_i hd
              cases h
              rw [if_pos hd]
            · rename_i hd
              obtain ⟨⟨ms, r'⟩, hcut, heq⟩ := Option.map_eq_some_iff.mp h
              cases heq
              rw [if_neg hd, ← List.cons_append, ih.members hcut hmore]
              rfl
      · rename_i hc hc' hc''
        rw [if_neg hc, if_neg hc', if_neg hc'', ← List.cons_append]
        exact scalar_append h hstop

theorem items_extends {fuel : Nat} (ih : Extends fuel)
    {s r t : Str} {xs : Items} (h : items (fuel + 1) s = some (xs, r))
    {more : Nat} (hmore : fuel ≤ more) :
    items (more + 1) (s ++ t) = some (xs, r ++ t) := by
  simp only [items] at h ⊢
  cases hvalue : value fuel s with
  | none =>
      simp [hvalue] at h
  | some cut =>
      obtain ⟨v, rest⟩ := cut
      rw [hvalue] at h
      dsimp only at h
      cases hspace : skipSpace rest with
      | nil =>
          simp [hspace] at h
      | cons d rest' =>
          rw [hspace] at h
          dsimp only at h
          split at h
          · rename_i hd
            cases h
            rw [ih.value hvalue hmore
              (fun _ => stops_of_skipSpace hspace (Or.inl hd))]
            dsimp only
            rw [skipSpace_append hspace]
            exact if_pos hd
          split at h
          · rename_i hd hd'
            obtain ⟨⟨xs', r'⟩, hcut, heq⟩ := Option.map_eq_some_iff.mp h
            cases heq
            rw [ih.value hvalue hmore
              (fun _ => stops_of_skipSpace hspace (Or.inr (Or.inr hd')))]
            dsimp only
            rw [skipSpace_append hspace]
            dsimp only
            rw [if_neg hd, if_pos hd', skipSpace_of_read (items_nil fuel) hcut,
              ih.items hcut hmore]
            rfl
          · cases h

theorem members_extends {fuel : Nat} (ih : Extends fuel)
    {s r t : Str} {ms : Members} (h : members (fuel + 1) s = some (ms, r))
    {more : Nat} (hmore : fuel ≤ more) :
    members (more + 1) (s ++ t) = some (ms, r ++ t) := by
  cases s with
  | nil =>
      cases h
  | cons c s =>
      simp only [members, List.cons_append] at h ⊢
      split at h
      · rename_i hc
        rw [if_pos hc]
        cases hkey : string s with
        | none =>
            simp [hkey] at h
        | some cut =>
            obtain ⟨key, rest⟩ := cut
            rw [hkey] at h
            rw [string_append hkey]
            dsimp only at h ⊢
            cases hcolon : skipSpace rest with
            | nil =>
                simp [hcolon] at h
            | cons d rest₁ =>
                rw [hcolon] at h
                rw [skipSpace_append hcolon]
                dsimp only at h ⊢
                split at h
                · rename_i hd
                  rw [if_pos hd]
                  cases hvalue : value fuel (skipSpace rest₁) with
                  | none =>
                      simp [hvalue] at h
                  | some cut =>
                      obtain ⟨v, rest₂⟩ := cut
                      rw [hvalue] at h
                      dsimp only at h
                      rw [skipSpace_of_read (value_nil fuel) hvalue]
                      cases hspace : skipSpace rest₂ with
                      | nil =>
                          simp [hspace] at h
                      | cons e rest₃ =>
                          rw [hspace] at h
                          dsimp only at h
                          split at h
                          · rename_i he
                            cases h
                            rw [ih.value hvalue hmore
                              (fun _ => stops_of_skipSpace hspace (Or.inr (Or.inl he)))]
                            dsimp only
                            rw [skipSpace_append hspace]
                            exact if_pos he
                          split at h
                          · rename_i he he'
                            obtain ⟨⟨ms', r'⟩, hcut, heq⟩ := Option.map_eq_some_iff.mp h
                            cases heq
                            rw [ih.value hvalue hmore
                              (fun _ => stops_of_skipSpace hspace (Or.inr (Or.inr he')))]
                            dsimp only
                            rw [skipSpace_append hspace]
                            dsimp only
                            rw [if_neg he, if_pos he',
                              skipSpace_of_read (members_nil fuel) hcut,
                              ih.members hcut hmore]
                            rfl
                          · cases h
                · cases h
      · cases h

/-- **The reader does not look back.** -/
theorem extends_all (fuel : Nat) : Extends fuel := by
  induction fuel with
  | zero =>
      exact extends_zero
  | succ fuel ih =>
      constructor
      · intro s r v h more t hmore hstop
        obtain ⟨more, rfl⟩ : ∃ k, more = k + 1 := ⟨more - 1, by omega⟩
        exact value_extends ih h (by omega) hstop
      · intro s r xs h more t hmore
        obtain ⟨more, rfl⟩ : ∃ k, more = k + 1 := ⟨more - 1, by omega⟩
        exact items_extends ih h (by omega)
      · intro s r ms h more t hmore
        obtain ⟨more, rfl⟩ : ∃ k, more = k + 1 := ⟨more - 1, by omega⟩
        exact members_extends ih h (by omega)

end Json
end Lexical
end SwFactory
