import Mathlib.Data.List.DropRight
import Mathlib.Data.List.Basic

/-!
# Splitting, trimming and lines

The list operations behind the text readers: a list is cut at the first or at
the last occurrence of a separator, and an unwanted margin is dropped at both
ends.  Each operation is characterised by an equivalence, so that a reader is
inverted by rewriting and never by unfolding.

`str.splitlines`: a line ends at any of the line boundaries of the language,
a carriage return with a line feed behind it being one.  The reader is a
machine whose state is the line in hand and whether a line feed is still part
of the last boundary.
-/

namespace SwFactory
namespace Lexical

universe u

/-- Equality of texts, under one name for the readers that look for a part. -/
instance lawfulText : LawfulBEq (List Char) :=
  inferInstance

variable {α : Type u}

section Splitting

variable [DecidableEq α]

/-- Cut at the first occurrence of the separator. -/
def splitOnce (sep : α) : List α → Option (List α × List α)
  | [] => none
  | a :: rest =>
      if a = sep then
        some ([], rest)
      else
        (splitOnce sep rest).map (fun cut => (a :: cut.1, cut.2))

/-- Cut at the last occurrence of the separator. -/
def rsplitOnce (sep : α) (text : List α) : Option (List α × List α) :=
  (splitOnce sep text.reverse).map
    (fun cut => (cut.2.reverse, cut.1.reverse))

theorem splitOnce_eq_none {sep : α} {text : List α} :
    splitOnce sep text = none ↔ sep ∉ text := by
  induction text with
  | nil =>
      simp [splitOnce]
  | cons a rest ih =>
      by_cases h : a = sep
      · simp [splitOnce, h]
      · simp [splitOnce, h, ih, Ne.symm h]

theorem splitOnce_eq_some {sep : α} {text pre post : List α} :
    splitOnce sep text = some (pre, post) ↔
      text = pre ++ sep :: post ∧ sep ∉ pre := by
  induction text generalizing pre with
  | nil =>
      simp [splitOnce]
  | cons a rest ih =>
      by_cases h : a = sep
      · subst h
        cases pre with
        | nil =>
            simp [splitOnce, eq_comm]
        | cons b pre =>
            simp only [splitOnce, if_true, Option.some.injEq, Prod.mk.injEq,
              List.cons_append, List.cons.injEq, List.mem_cons]
            constructor
            · rintro ⟨⟨⟩, -⟩
            · rintro ⟨⟨rfl, -⟩, hnot⟩
              exact absurd (Or.inl rfl) hnot
      · cases pre with
        | nil =>
            simp [splitOnce, h]
        | cons b pre =>
            simp only [splitOnce, h, if_false, Option.map_eq_some_iff,
              Prod.exists, Prod.mk.injEq, List.cons.injEq, List.cons_append,
              List.mem_cons, not_or]
            constructor
            · rintro ⟨pre', post', hcut, ⟨rfl, rfl⟩, rfl⟩
              obtain ⟨rfl, hnot⟩ := ih.mp hcut
              exact ⟨⟨rfl, rfl⟩, Ne.symm h, hnot⟩
            · rintro ⟨⟨rfl, hrest⟩, -, hnot⟩
              exact ⟨pre, post, ih.mpr ⟨hrest, hnot⟩, ⟨rfl, rfl⟩, rfl⟩

theorem rsplitOnce_eq_none {sep : α} {text : List α} :
    rsplitOnce sep text = none ↔ sep ∉ text := by
  simp [rsplitOnce, splitOnce_eq_none]

theorem rsplitOnce_eq_some {sep : α} {text pre post : List α} :
    rsplitOnce sep text = some (pre, post) ↔
      text = pre ++ sep :: post ∧ sep ∉ post := by
  simp only [rsplitOnce, Option.map_eq_some_iff, Prod.exists, Prod.mk.injEq]
  constructor
  · rintro ⟨back, front, hcut, rfl, rfl⟩
    obtain ⟨htext, hnot⟩ := splitOnce_eq_some.mp hcut
    have hrev := congrArg List.reverse htext
    simp only [List.reverse_reverse, List.reverse_append, List.reverse_cons,
      List.append_assoc, List.singleton_append] at hrev
    exact ⟨hrev, by simpa using hnot⟩
  · rintro ⟨rfl, hnot⟩
    refine ⟨post.reverse, pre.reverse, splitOnce_eq_some.mpr ?_, by simp, by simp⟩
    exact ⟨by simp, by simpa using hnot⟩

/-- Cut at every occurrence of the separator. -/
def splitAll (sep : α) : List α → List (List α)
  | [] => [[]]
  | a :: rest =>
      if a = sep then
        [] :: splitAll sep rest
      else
        match splitAll sep rest with
        | [] => [[a]]
        | part :: parts => (a :: part) :: parts

theorem splitAll_of_not_mem {sep : α} {text : List α} (h : sep ∉ text) :
    splitAll sep text = [text] := by
  induction text with
  | nil =>
      rfl
  | cons a rest ih =>
      simp only [List.mem_cons, not_or] at h
      simp [splitAll, Ne.symm h.1, ih h.2]

theorem splitAll_append {sep : α} {part : List α} (h : sep ∉ part) (rest : List α) :
    splitAll sep (part ++ sep :: rest) = part :: splitAll sep rest := by
  induction part with
  | nil =>
      simp [splitAll]
  | cons a part ih =>
      simp only [List.mem_cons, not_or] at h
      simp [splitAll, Ne.symm h.1, ih h.2]

theorem splitAll_ne_nil (sep : α) (text : List α) : splitAll sep text ≠ [] := by
  cases text with
  | nil => exact List.cons_ne_nil _ _
  | cons a rest =>
      unfold splitAll
      split
      · exact List.cons_ne_nil _ _
      · split <;> exact List.cons_ne_nil _ _

omit [DecidableEq α] in
theorem intercalate_cons {sep : α} {first : List α} {rest : List (List α)}
    (h : rest ≠ []) : [sep].intercalate (first :: rest) = first ++ sep :: [sep].intercalate rest := by
  cases rest with
  | nil => exact absurd rfl h
  | cons second rest => simp [List.intercalate]

theorem intercalate_splitAll (sep : α) (text : List α) :
    [sep].intercalate (splitAll sep text) = text := by
  induction text with
  | nil => rfl
  | cons a rest ih =>
      unfold splitAll
      split
      · next heq =>
          rw [intercalate_cons (splitAll_ne_nil sep rest), ih, heq]
          rfl
      · cases hsplit : splitAll sep rest with
        | nil => exact absurd hsplit (splitAll_ne_nil sep rest)
        | cons part parts =>
            rw [hsplit] at ih
            dsimp only
            cases parts with
            | nil => simpa [List.intercalate] using ih
            | cons second parts =>
                rw [intercalate_cons (List.cons_ne_nil _ _)] at ih ⊢
                rw [← ih]
                rfl

theorem not_mem_of_mem_splitAll {sep : α} {text part : List α}
    (h : part ∈ splitAll sep text) :
    sep ∉ part := by
  induction text generalizing part with
  | nil =>
      simp only [splitAll, List.mem_singleton] at h
      simp [h]
  | cons a rest ih =>
      unfold splitAll at h
      split at h
      · rcases List.mem_cons.mp h with rfl | h
        · simp
        · exact ih h
      · rename_i hne
        split at h
        · rw [List.mem_singleton.mp h]
          simpa using Ne.symm hne
        · rename_i first others heq
          rcases List.mem_cons.mp h with rfl | h
          · have hfirst : sep ∉ first := ih (by simp [heq])
            simp [hfirst, Ne.symm hne]
          · exact ih (by simp [heq, h])

theorem mem_of_mem_splitAll {sep c : α} {text part : List α}
    (h : part ∈ splitAll sep text) (hc : c ∈ part) : c ∈ text := by
  induction text generalizing part with
  | nil =>
      simp only [splitAll, List.mem_singleton] at h
      rw [h] at hc
      cases hc
  | cons a rest ih =>
      unfold splitAll at h
      split at h
      · rcases List.mem_cons.mp h with rfl | h
        · cases hc
        · exact List.mem_cons_of_mem _ (ih h hc)
      · split at h
        · rw [List.mem_singleton.mp h] at hc
          exact List.mem_singleton.mp hc ▸ List.mem_cons_self
        · rename_i first others heq
          rcases List.mem_cons.mp h with rfl | h
          · rcases List.mem_cons.mp hc with rfl | hc
            · exact List.mem_cons_self
            · exact List.mem_cons_of_mem _ (ih (by simp [heq]) hc)
          · exact List.mem_cons_of_mem _ (ih (by simp [heq, h]) hc)

omit [DecidableEq α] in
theorem mem_intercalate {sep c : α} {segments : List (List α)}
    (h : c ∈ [sep].intercalate segments) : c = sep ∨ ∃ segment ∈ segments, c ∈ segment := by
  induction segments with
  | nil => cases h
  | cons first rest ih =>
      cases rest with
      | nil => exact Or.inr ⟨first, List.mem_cons_self, by simpa [List.intercalate] using h⟩
      | cons second rest =>
          rw [intercalate_cons (List.cons_ne_nil _ _), List.mem_append, List.mem_cons] at h
          rcases h with h | rfl | h
          · exact Or.inr ⟨first, List.mem_cons_self, h⟩
          · exact Or.inl rfl
          · exact (ih h).imp id fun ⟨segment, hsegment, hmem⟩ =>
              ⟨segment, List.mem_cons_of_mem _ hsegment, hmem⟩

theorem splitAll_intercalate {sep : α} {segments : List (List α)}
    (hne : segments ≠ [])
    (h : ∀ segment ∈ segments, sep ∉ segment) :
    splitAll sep ([sep].intercalate segments) = segments := by
  induction segments with
  | nil =>
      exact absurd rfl hne
  | cons first rest ih =>
      have hfirst : sep ∉ first := h first List.mem_cons_self
      cases rest with
      | nil =>
          simpa [List.intercalate] using splitAll_of_not_mem hfirst
      | cons second rest =>
          have hrest := ih (by simp) (fun s hs => h s (List.mem_cons_of_mem _ hs))
          rw [intercalate_cons (List.cons_ne_nil _ _), splitAll_append hfirst, hrest]

/-- A text is read back up to its first separator. -/
theorem cut_inj {sep : α} {front front' rest rest' : List α}
    (hfront : sep ∉ front) (hfront' : sep ∉ front')
    (h : front ++ sep :: rest = front' ++ sep :: rest') :
    front = front' ∧ rest = rest' := by
  have hcut : splitOnce sep (front ++ sep :: rest) = some (front, rest) :=
    splitOnce_eq_some.mpr ⟨rfl, hfront⟩
  rw [splitOnce_eq_some.mpr ⟨h, hfront'⟩] at hcut
  simpa [eq_comm] using hcut

/-- A text is read back from its last separator on. -/
theorem rcut_inj {sep : α} {front front' rest rest' : List α}
    (hrest : sep ∉ rest) (hrest' : sep ∉ rest')
    (h : front ++ sep :: rest = front' ++ sep :: rest') :
    front = front' ∧ rest = rest' := by
  have hcut : rsplitOnce sep (front ++ sep :: rest) = some (front, rest) :=
    rsplitOnce_eq_some.mpr ⟨rfl, hrest⟩
  rw [rsplitOnce_eq_some.mpr ⟨h, hrest'⟩] at hcut
  simpa [eq_comm] using hcut

end Splitting

section Trimming

variable (margin : α → Bool)

/-- Drop the margin at both ends. -/
def trim (text : List α) : List α :=
  (text.dropWhile margin).rdropWhile margin

/-- No margin at either end. -/
def Trimmed (text : List α) : Prop :=
  (∀ a ∈ text.head?, margin a = false) ∧
    ∀ a ∈ text.getLast?, margin a = false

instance decidableTrimmed (text : List α) : Decidable (Trimmed margin text) :=
  inferInstanceAs (Decidable (_ ∧ _))

variable {margin}

theorem Trimmed.trim_eq {text : List α} (h : Trimmed margin text) :
    trim margin text = text := by
  have hfront : text.dropWhile margin = text := by
    cases text with
    | nil =>
        rfl
    | cons a rest =>
        have ha := h.1 a rfl
        simp [ha]
  rw [trim, hfront, List.rdropWhile_eq_self_iff]
  intro hne
  have hlast := h.2 _ (List.getLast?_eq_some_getLast hne)
  simp [hlast]

theorem mem_of_mem_trim {text : List α} {a : α} (h : a ∈ trim margin text) : a ∈ text :=
  (List.dropWhile_sublist _).subset ((List.rdropWhile_prefix _ _).subset h)

theorem trimmed_trim (text : List α) :
    Trimmed margin (trim margin text) := by
  constructor
  · intro a ha
    have hprefix : trim margin text <+: text.dropWhile margin :=
      List.rdropWhile_prefix _ _
    obtain ⟨rest, hrest⟩ := hprefix
    have hhead : (text.dropWhile margin).head? = some a := by
      cases htrim : trim margin text with
      | nil =>
          rw [htrim] at ha
          cases ha
      | cons b front =>
          rw [htrim] at ha hrest
          rw [← hrest]
          exact ha
    have := List.head?_dropWhile_not margin text
    rw [hhead] at this
    exact this
  · intro a ha
    have hne : trim margin text ≠ [] := by
      rintro hnil
      rw [hnil] at ha
      cases ha
    have hlast := List.rdropWhile_last_not margin (text.dropWhile margin) hne
    have heq : (trim margin text).getLast hne = a := by
      rw [List.getLast?_eq_some_getLast hne] at ha
      exact Option.some.inj ha
    have ha' : ¬ margin a := heq ▸ hlast
    simpa using ha'

/-- A text with a trimmed front and a trimmed back is trimmed. -/
theorem Trimmed.append {front back : List α} (mid : List α)
    (hfront : Trimmed margin front) (hne : front ≠ [])
    (hback : Trimmed margin back) (hne' : back ≠ []) :
    Trimmed margin (front ++ mid ++ back) := by
  constructor
  · intro a ha
    refine hfront.1 a ?_
    cases front with
    | nil =>
        exact absurd rfl hne
    | cons b rest =>
        simpa using ha
  · intro a ha
    refine hback.2 a ?_
    rw [List.getLast?_append_of_ne_nil _ hne'] at ha
    exact ha

end Trimming

/-! ## Lines -/

/-- The line boundaries of `str.splitlines`. -/
def isLineBreak (c : Char) : Bool :=
  (0x0a ≤ c.toNat && c.toNat ≤ 0x0d) || (0x1c ≤ c.toNat && c.toNat ≤ 0x1e) ||
    [0x85, 0x2028, 0x2029].contains c.toNat

/-- Read on, with the line in hand. -/
def splitlinesFrom : Bool → List Char → List Char → List (List Char)
  | _, line, [] => if line.isEmpty then [] else [line]
  | behindReturn, line, c :: rest =>
      if behindReturn && c == '\n' then
        splitlinesFrom false line rest
      else if isLineBreak c then
        line :: splitlinesFrom (c == '\r') [] rest
      else
        splitlinesFrom false (line ++ [c]) rest

/-- `str.splitlines`. -/
def splitlines (text : List Char) : List (List Char) :=
  splitlinesFrom false [] text

/-- A text without boundaries in front of a line feed is one line. -/
theorem splitlinesFrom_line {text : List Char}
    (htext : ∀ c ∈ text, isLineBreak c = false) (line rest : List Char) :
    splitlinesFrom false line (text ++ '\n' :: rest) =
      (line ++ text) :: splitlines rest := by
  induction text generalizing line with
  | nil =>
      simp [splitlinesFrom, isLineBreak, splitlines]
  | cons c text ih =>
      have hc : isLineBreak c = false := htext c List.mem_cons_self
      rw [List.cons_append, splitlinesFrom, hc]
      simp only [Bool.false_and, Bool.false_eq_true, if_false]
      rw [ih (fun d hd => htext d (List.mem_cons_of_mem _ hd))]
      simp

/-- Behind a line feed the reader starts afresh. -/
theorem splitlinesFrom_append {behindReturn : Bool} {line : List Char}
    (hline : behindReturn = true → line = []) (text rest : List Char) :
    splitlinesFrom behindReturn line (text ++ '\n' :: rest) =
      splitlinesFrom behindReturn line (text ++ ['\n']) ++ splitlines rest := by
  induction text generalizing behindReturn line with
  | nil =>
      cases behindReturn with
      | true =>
          simp [splitlinesFrom, hline rfl, splitlines]
      | false =>
          simp [splitlinesFrom, isLineBreak, splitlines]
  | cons c text ih =>
      rw [List.cons_append, List.cons_append, splitlinesFrom, splitlinesFrom]
      split
      · exact ih (by simp)
      · split
        · rw [ih (by simp), List.cons_append]
        · exact ih (by simp)

theorem splitlines_append (text rest : List Char) :
    splitlines (text ++ '\n' :: rest) = splitlines (text ++ ['\n']) ++ splitlines rest :=
  splitlinesFrom_append (by simp) text rest

/-- A final line feed adds at most an empty line. -/
theorem splitlinesFrom_concat {behindReturn : Bool} {line : List Char}
    (hline : behindReturn = true → line = []) (text : List Char) :
    splitlinesFrom behindReturn line (text ++ ['\n']) = splitlinesFrom behindReturn line text ∨
      splitlinesFrom behindReturn line (text ++ ['\n']) =
        splitlinesFrom behindReturn line text ++ [[]] := by
  induction text generalizing behindReturn line with
  | nil =>
      cases behindReturn with
      | true =>
          simp [splitlinesFrom, hline rfl]
      | false =>
          cases line with
          | nil => simp [splitlinesFrom, isLineBreak]
          | cons d line => simp [splitlinesFrom, isLineBreak]
  | cons c text ih =>
      rw [List.cons_append, splitlinesFrom, splitlinesFrom]
      split
      · exact ih (by simp)
      · split
        · rcases @ih (c == '\r') [] (by simp) with h | h
          · exact Or.inl (by rw [h])
          · exact Or.inr (by rw [h, List.cons_append])
        · exact ih (by simp)

theorem splitlines_concat (text : List Char) :
    splitlines (text ++ ['\n']) = splitlines text ∨
      splitlines (text ++ ['\n']) = splitlines text ++ [[]] :=
  splitlinesFrom_concat (by simp) text

end Lexical
end SwFactory
