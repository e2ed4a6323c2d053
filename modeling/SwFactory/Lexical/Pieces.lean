import Mathlib.Data.List.Induction
import Mathlib.Data.List.Infix
import SwFactory.Lexical.Splitting

/-!
# Lines and their ends

A text is its lines, each with the boundary that ends it.  Lines joined by line
feeds are the same part of the text with its boundaries broken anew, and what
holds no boundary stands there as before.
-/

namespace SwFactory
namespace Lexical

/-- A line and the boundary behind it. -/
abbrev Piece :=
  List Char × List Char

/-- Put a character in front of the first line. -/
def consPiece (c : Char) : List Piece → List Piece
  | [] => [([c], [])]
  | p :: ps => (c :: p.1, p.2) :: ps

/-- `text.splitlines(keepends=True)` -/
def pieces : List Char → List Piece
  | [] => []
  | '\r' :: '\n' :: rest => ([], ['\r', '\n']) :: pieces rest
  | c :: rest => if isLineBreak c then ([], [c]) :: pieces rest else consPiece c (pieces rest)

/-- The text of pieces. -/
def joined (ps : List Piece) : List Char :=
  ps.flatMap (fun p => p.1 ++ p.2)

theorem joined_append (ps qs : List Piece) : joined (ps ++ qs) = joined ps ++ joined qs :=
  List.flatMap_append

theorem joined_consPiece (c : Char) (ps : List Piece) :
    joined (consPiece c ps) = c :: joined ps := by
  cases ps <;> rfl

theorem joined_pieces (text : List Char) : joined (pieces text) = text := by
  induction text using pieces.induct with
  | case1 => rfl
  | case2 rest ih => exact congrArg (fun t => '\r' :: '\n' :: t) ih
  | case3 c rest hreturn hbreak ih =>
      rw [pieces, if_pos hbreak]
      · exact congrArg (c :: ·) ih
      · exact hreturn
  | case4 c rest hreturn hbreak ih =>
      rw [pieces, if_neg hbreak, joined_consPiece, ih]
      exact hreturn

/-! ## The lines -/

/-- The lines of pieces, with the line in hand in front of the first one. -/
def linesFrom (line : List Char) : List Piece → List (List Char)
  | [] => if line.isEmpty then [] else [line]
  | p :: ps => (line ++ p.1) :: ps.map Prod.fst

theorem linesFrom_nil (ps : List Piece) : linesFrom [] ps = ps.map Prod.fst := by
  cases ps <;> rfl

theorem linesFrom_consPiece (line : List Char) (c : Char) (ps : List Piece) :
    linesFrom line (consPiece c ps) = linesFrom (line ++ [c]) ps := by
  cases ps with
  | nil => simp [consPiece, linesFrom]
  | cons p ps => simp [consPiece, linesFrom]

theorem splitlinesFrom_eq (line text : List Char) :
    splitlinesFrom false line text = linesFrom line (pieces text) := by
  induction text using pieces.induct generalizing line with
  | case1 => rfl
  | case2 rest ih =>
      have hrest := ih []
      rw [linesFrom_nil] at hrest
      simp [splitlinesFrom, pieces, linesFrom, isLineBreak, hrest]
  | case3 c rest hreturn hbreak ih =>
      have hbehind : splitlinesFrom (c == '\r') [] rest = splitlinesFrom false [] rest := by
        cases hc : c == '\r' with
        | false => rfl
        | true =>
            cases rest with
            | nil => rfl
            | cons d rest =>
                have hd : (d == '\n') = false :=
                  beq_eq_false_iff_ne.mpr fun hd => hreturn rest (beq_iff_eq.mp hc) (hd ▸ rfl)
                simp [splitlinesFrom, hd]
      rw [pieces, if_pos hbreak]
      · rw [splitlinesFrom, Bool.false_and, if_neg Bool.false_ne_true, if_pos hbreak, hbehind, ih,
          linesFrom_nil, linesFrom, List.append_nil]
      · exact hreturn
  | case4 c rest hreturn hbreak ih =>
      rw [pieces, if_neg hbreak, linesFrom_consPiece, ← ih]
      · simp [splitlinesFrom, hbreak]
      · exact hreturn

theorem splitlines_eq (text : List Char) : splitlines text = (pieces text).map Prod.fst :=
  (splitlinesFrom_eq [] text).trans (linesFrom_nil _)

/-! ## The boundaries -/

/-- A line holds no boundary, and what ends it is one. -/
structure Piece.Sound (p : Piece) : Prop where
  line : ∀ c ∈ p.1, isLineBreak c = false
  boundary : ∀ c ∈ p.2, isLineBreak c = true

/-- Only the last line can stand without a boundary. -/
structure Sound (ps : List Piece) : Prop where
  each : ∀ p ∈ ps, p.Sound
  ended : ∀ p ∈ ps.dropLast, p.2 ≠ []

theorem Sound.cons {p : Piece} {ps : List Piece} (hp : p.Sound) (hne : p.2 ≠ [])
    (hps : Sound ps) : Sound (p :: ps) where
  each := List.forall_mem_cons.mpr ⟨hp, hps.each⟩
  ended := by
    cases ps with
    | nil => rintro _ ⟨⟩
    | cons q qs => exact List.forall_mem_cons.mpr ⟨hne, hps.ended⟩

theorem Sound.consPiece {c : Char} (hc : isLineBreak c = false) {ps : List Piece}
    (hps : Sound ps) : Sound (consPiece c ps) := by
  cases ps with
  | nil =>
      refine ⟨fun p hp => ?_, by rintro _ ⟨⟩⟩
      rw [List.mem_singleton.mp hp]
      exact ⟨List.forall_mem_singleton.mpr hc, by rintro _ ⟨⟩⟩
  | cons p ps =>
      obtain ⟨hp, hrest⟩ := List.forall_mem_cons.mp hps.each
      refine ⟨List.forall_mem_cons.mpr ⟨⟨List.forall_mem_cons.mpr ⟨hc, hp.line⟩, hp.boundary⟩,
        hrest⟩, ?_⟩
      cases ps with
      | nil => rintro _ ⟨⟩
      | cons q qs =>
          obtain ⟨hne, hended⟩ := List.forall_mem_cons.mp hps.ended
          exact List.forall_mem_cons.mpr ⟨hne, hended⟩

/-- In front of other pieces each line has its boundary. -/
theorem Sound.ended_of_append {ps qs : List Piece} (h : Sound (ps ++ qs)) (hqs : qs ≠ []) :
    ∀ p ∈ ps, p.2 ≠ [] := by
  have hended := h.ended
  rw [List.dropLast_append_of_ne_nil hqs] at hended
  exact fun p hp => hended p (List.mem_append_left _ hp)

theorem Sound.left {ps qs : List Piece} (h : Sound (ps ++ qs)) : Sound ps := by
  refine ⟨fun p hp => h.each p (List.mem_append_left _ hp), fun p hp => ?_⟩
  cases qs with
  | nil => exact h.ended p (by rwa [List.append_nil])
  | cons q qs => exact h.ended_of_append (List.cons_ne_nil _ _) p (List.mem_of_mem_dropLast hp)

theorem Sound.right {ps qs : List Piece} (h : Sound (ps ++ qs)) : Sound qs := by
  refine ⟨fun p hp => h.each p (List.mem_append_right _ hp), fun p hp => ?_⟩
  have hqs : qs ≠ [] := by
    rintro rfl
    cases hp
  refine h.ended p ?_
  rw [List.dropLast_append_of_ne_nil hqs]
  exact List.mem_append_right _ hp

/-- The text behind a line begins with its boundary. -/
theorem Sound.isLineBreak_head {p : Piece} {ps : List Piece} (h : Sound (p :: ps)) :
    ∀ c ∈ (p.2 ++ joined ps).head?, isLineBreak c = true := by
  intro c hc
  have hp : p.Sound := h.each p List.mem_cons_self
  cases hboundary : p.2 with
  | nil =>
      cases ps with
      | nil =>
          rw [hboundary] at hc
          cases hc
      | cons q qs =>
          exact absurd hboundary (h.ended p List.mem_cons_self)
  | cons d rest =>
      rw [hboundary] at hc
      cases hc
      exact hp.boundary _ (hboundary ▸ List.mem_cons_self)

/-- The text in front of a line ends with a boundary. -/
theorem Sound.isLineBreak_getLast {ps qs : List Piece} (h : Sound (ps ++ qs)) (hqs : qs ≠ []) :
    ∀ c ∈ (joined ps).getLast?, isLineBreak c = true := by
  intro c hc
  induction ps using List.reverseRecOn with
  | nil => cases hc
  | append_singleton ps p _ =>
      have hne : p.2 ≠ [] := h.ended_of_append hqs p List.mem_concat_self
      have hp : p.Sound := h.each p (List.mem_append_left _ List.mem_concat_self)
      rw [joined_append, show joined [p] = p.1 ++ p.2 from List.append_nil _, ← List.append_assoc,
        List.getLast?_append_of_ne_nil _ hne] at hc
      exact hp.boundary c (List.mem_of_getLast? hc)

theorem sound_pieces (text : List Char) : Sound (pieces text) := by
  induction text using pieces.induct with
  | case1 => exact ⟨by rintro _ ⟨⟩, by rintro _ ⟨⟩⟩
  | case2 rest ih =>
      have hboundary : ∀ c ∈ ['\r', '\n'], isLineBreak c = true :=
        List.all_eq_true.mp (by decide)
      exact ih.cons ⟨by rintro _ ⟨⟩, hboundary⟩ (List.cons_ne_nil _ _)
  | case3 c rest hreturn hbreak ih =>
      rw [pieces, if_pos hbreak]
      · exact ih.cons ⟨by rintro _ ⟨⟩, List.forall_mem_singleton.mpr hbreak⟩ (List.cons_ne_nil _ _)
      · exact hreturn
  | case4 c rest hreturn hbreak ih =>
      rw [pieces, if_neg hbreak]
      · exact ih.consPiece (Bool.not_eq_true _ ▸ hbreak)
      · exact hreturn

/-! ## Boundaries broken anew -/

/-- Some boundaries are left out, and some are line feeds now. -/
inductive Rebroken : List Char → List Char → Prop
  | nil : Rebroken [] []
  | keep {c : Char} {text text' : List Char} (hc : isLineBreak c = false)
      (h : Rebroken text text') : Rebroken (c :: text) (c :: text')
  | drop {c : Char} {text text' : List Char} (hc : isLineBreak c = true)
      (h : Rebroken text text') : Rebroken (c :: text) text'
  | put {c : Char} {text text' : List Char} (hc : isLineBreak c = true)
      (h : Rebroken text text') : Rebroken (c :: text) ('\n' :: text')

namespace Rebroken

/-- What holds no boundary stays. -/
theorem refl {text : List Char} (h : ∀ c ∈ text, isLineBreak c = false) : Rebroken text text := by
  induction text with
  | nil => exact nil
  | cons c text ih =>
      obtain ⟨hc, htext⟩ := List.forall_mem_cons.mp h
      exact keep hc (ih htext)

theorem append {text text' other other' : List Char} (h : Rebroken text text')
    (hother : Rebroken other other') : Rebroken (text ++ other) (text' ++ other') := by
  induction h with
  | nil => exact hother
  | keep hc _ ih => exact keep hc ih
  | drop hc _ ih => exact drop hc ih
  | put hc _ ih => exact put hc ih

/-- A boundary becomes one line feed. -/
theorem boundary {text : List Char} (h : ∀ c ∈ text, isLineBreak c = true) (hne : text ≠ []) :
    Rebroken text ['\n'] := by
  cases text with
  | nil => exact absurd rfl hne
  | cons c text =>
      obtain ⟨hc, htext⟩ := List.forall_mem_cons.mp h
      refine put hc ?_
      clear h hne hc
      induction text with
      | nil => exact nil
      | cons d text ih =>
          obtain ⟨hd, htext⟩ := List.forall_mem_cons.mp htext
          exact drop hd (ih htext)

theorem eq_of_unbroken {text text' : List Char} (h : Rebroken text text')
    (htext : ∀ c ∈ text, isLineBreak c = false) : text' = text := by
  induction h with
  | nil => rfl
  | keep _ _ ih => exact congrArg _ (ih (List.forall_mem_cons.mp htext).2)
  | drop hc _ _ => exact absurd hc (by simp [(List.forall_mem_cons.mp htext).1])
  | put hc _ _ => exact absurd hc (by simp [(List.forall_mem_cons.mp htext).1])

/-- A property of the characters that a line feed has stays. -/
theorem forall_mem {P : Char → Prop} {text text' : List Char} (h : Rebroken text text')
    (hfeed : P '\n') (htext : ∀ c ∈ text, P c) : ∀ c ∈ text', P c := by
  induction h with
  | nil => exact htext
  | keep _ _ ih =>
      obtain ⟨hc, htext⟩ := List.forall_mem_cons.mp htext
      exact List.forall_mem_cons.mpr ⟨hc, ih htext⟩
  | drop _ _ ih => exact ih (List.forall_mem_cons.mp htext).2
  | put _ _ ih => exact List.forall_mem_cons.mpr ⟨hfeed, ih (List.forall_mem_cons.mp htext).2⟩

/-- The parts of a text are broken anew one by one. -/
theorem exists_of_append {text other whole : List Char} (h : Rebroken (text ++ other) whole) :
    ∃ text' other', whole = text' ++ other' ∧ Rebroken text text' ∧ Rebroken other other' := by
  induction text generalizing whole with
  | nil => exact ⟨[], whole, rfl, nil, h⟩
  | cons c text ih =>
      cases h with
      | keep hc h =>
          obtain ⟨text', other', rfl, htext, hother⟩ := ih h
          exact ⟨c :: text', other', rfl, keep hc htext, hother⟩
      | drop hc h =>
          obtain ⟨text', other', rfl, htext, hother⟩ := ih h
          exact ⟨text', other', rfl, drop hc htext, hother⟩
      | put hc h =>
          obtain ⟨text', other', rfl, htext, hother⟩ := ih h
          exact ⟨'\n' :: text', other', rfl, put hc htext, hother⟩

/-- Lines joined by line feeds are the pieces, without the boundary behind the last one. -/
theorem intercalate {ps : List Piece} {last : Piece} (h : Sound (ps ++ [last])) :
    Rebroken (joined ps ++ last.1) (['\n'].intercalate ((ps ++ [last]).map Prod.fst)) := by
  induction ps with
  | nil => simpa [joined] using refl (h.each last (List.mem_singleton_self _)).line
  | cons p ps ih =>
      obtain ⟨hp, heach⟩ := List.forall_mem_cons.mp h.each
      have hended := h.ended
      rw [List.dropLast_concat] at hended
      obtain ⟨hne, hended⟩ := List.forall_mem_cons.mp hended
      have hjoin : ['\n'].intercalate ((p :: ps ++ [last]).map Prod.fst) =
          (p.1 ++ ['\n']) ++ ['\n'].intercalate ((ps ++ [last]).map Prod.fst) := by
        cases ps <;> simp [List.intercalate, List.intersperse]
      rw [hjoin, show joined (p :: ps) ++ last.1 = (p.1 ++ p.2) ++ (joined ps ++ last.1) by
        simp [joined]]
      refine ((refl hp.line).append (boundary hp.boundary hne)).append (ih ⟨heach, ?_⟩)
      rwa [List.dropLast_concat]

end Rebroken

end Lexical
end SwFactory
