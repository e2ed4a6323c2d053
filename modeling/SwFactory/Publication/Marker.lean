import Mathlib.Data.List.SplitBy
import SwFactory.Publication.Pushing

/-!
# The marker of a publication

The marker is appended behind a text that nobody controls, and read back by a
search.  A start of a marker in that text that is never closed runs into the
appended marker, whose fields then come last and count.  A marker that is
complete in the text is found first, and its key is the one that is read.

Source: `publication_identity.py` (`marker_block`, `read_marker`, `adopts`).
-/

namespace SwFactory
namespace Publication

open Lexical

/-! ## Words -/

section Words

theorem splitWords_append_of_edge {a b : Text}
    (h : ∀ x ∈ a.getLast?, ∀ y ∈ b.head?, Text.isSpace x ≠ Text.isSpace y) :
    splitWords (a ++ b) = splitWords a ++ splitWords b := by
  unfold splitWords
  rw [List.splitBy_append (fun x hx y hy => by simpa using h x hx y hy), List.filter_append]

theorem splitWords_spaces {s : Text} (h : ∀ c ∈ s, Text.isSpace c = true) :
    splitWords s = [] := by
  refine List.filter_eq_nil_iff.mpr fun part hpart => ?_
  obtain ⟨c, rest, rfl⟩ := List.exists_cons_of_ne_nil (List.ne_nil_of_mem_splitBy hpart)
  have hc : c ∈ s := by
    rw [← List.flatten_splitBy (fun a b => Text.isSpace a == Text.isSpace b) s]
    exact List.mem_flatten.mpr ⟨_, hpart, List.mem_cons_self⟩
  simp [h c hc]

/-- A text without whitespace. -/
def Unbroken (w : Text) : Prop :=
  ∀ c ∈ w, Text.isSpace c = false

theorem splitWords_word {w : Text} (hne : w ≠ []) (h : Unbroken w) : splitWords w = [w] := by
  have hchain : w.IsChain (fun a b => (Text.isSpace a == Text.isSpace b) = true) := by
    refine List.Pairwise.isChain (List.pairwise_of_forall_mem_list fun a ha b hb => ?_)
    rw [h a ha, h b hb]
    rfl
  unfold splitWords
  rw [List.splitBy_of_isChain hne hchain]
  refine List.filter_eq_self.mpr fun part hpart => ?_
  obtain rfl := List.mem_singleton.mp hpart
  exact List.all_eq_true.mpr fun c hc => by simp [h c hc]

/-- A word in front of other words. -/
theorem splitWords_cons {w rest : Text} (hne : w ≠ []) (h : Unbroken w)
    (hrest : ∀ c ∈ rest.head?, Text.isSpace c = false) :
    splitWords (w ++ ' ' :: rest) = w :: splitWords rest := by
  have hblank : splitWords (' ' :: rest) = splitWords rest := by
    rw [← List.singleton_append, splitWords_append_of_edge, splitWords_spaces, List.nil_append]
    · intro c hc
      rw [List.mem_singleton.mp hc]
      decide
    · intro x hx y hy
      cases hx
      rw [hrest y hy]
      decide
  rw [splitWords_append_of_edge, splitWords_word hne h, hblank, List.singleton_append]
  intro x hx y hy
  cases hy
  rw [h x (List.mem_of_mem_getLast? hx)]
  decide

/-- A word of a text is part of it, and has no whitespace. -/
theorem mem_splitWords {text w : Text} (h : w ∈ splitWords text) :
    Unbroken w ∧ ∀ c ∈ w, c ∈ text := by
  obtain ⟨hpart, hword⟩ := List.mem_filter.mp h
  refine ⟨fun c hc => by simpa using List.all_eq_true.mp hword c hc, fun c hc => ?_⟩
  rw [← List.flatten_splitBy (fun a b => Text.isSpace a == Text.isSpace b) text]
  exact List.mem_flatten.mpr ⟨w, hpart, hc⟩

end Words

/-! ## The block -/

/-- No whitespace, and no `>`. -/
def Readable (text : Text) : Prop :=
  ∀ c ∈ text, Text.isSpace c = false ∧ c ≠ '>'

instance (text : Text) : Decidable (Readable text) :=
  List.decidableBAll (fun c => Text.isSpace c = false ∧ c ≠ '>') text

theorem Readable.unbroken {text : Text} (h : Readable text) : Unbroken text :=
  fun c hc => (h c hc).1

/-- What a publication says about itself: its work key and its producer. -/
structure Producer where
  key : Text
  instanceId : Text
  cellId : Option Text
  epoch : Option Int
  key_ne_nil : key ≠ []
  instance_readable : Readable instanceId
  cell_readable : ∀ cell, cellId = some cell → Readable cell

/-- `str(epoch)` -/
def decimal : Int → Text
  | .ofNat n => Nat.toDigits 10 n
  | .negSucc n => '-' :: Nat.toDigits 10 (n + 1)

theorem decimal_readable (epoch : Int) : Readable (decimal epoch) := by
  have hdigit : ∀ c : Char, c.isDigit = true → Text.isSpace c = false ∧ c ≠ '>' := by
    intro c hc
    simp only [Char.isDigit, ge_iff_le, Bool.and_eq_true, decide_eq_true_eq,
      UInt32.le_iff_toNat_le] at hc
    have hlow : 48 ≤ c.toNat := hc.1
    have hhigh : c.toNat ≤ 57 := hc.2
    refine ⟨?_, fun h => by subst h; exact absurd hhigh (by decide)⟩
    have hne : c.toNat ∉ [0x85, 0xa0, 0x1680, 0x2028, 0x2029, 0x202f, 0x205f, 0x3000] := by
      simp only [List.mem_cons, List.not_mem_nil, or_false]
      omega
    simp only [Text.isSpace, Bool.or_eq_false_iff, Bool.and_eq_false_iff, decide_eq_false_iff_not,
      List.contains_eq_mem, hne, not_false_eq_true, and_true]
    omega
  cases epoch with
  | ofNat n => exact fun c hc => hdigit c (Nat.isDigit_of_mem_toDigits (by decide) le_rfl hc)
  | negSucc n =>
      intro c hc
      rcases List.mem_cons.mp hc with rfl | hc
      · decide
      · exact hdigit c (Nat.isDigit_of_mem_toDigits (by decide) le_rfl hc)

namespace Producer

variable (i : Producer)

/-- The fields behind the key. -/
def otherFields : List Text :=
  ["instance=".toList ++ i.instanceId] ++
    (match i.cellId with
    | some cell => if cell = [] then [] else ["cell=".toList ++ cell]
    | none => []) ++
    (match i.epoch with
    | some epoch => ["epoch=".toList ++ decimal epoch]
    | none => [])

def fields : List Text :=
  ("key=".toList ++ i.key) :: i.otherFields

/-- The fields in one text. -/
def fieldText : Text :=
  [' '].intercalate i.fields

/-- `marker_block` -/
def marker : Text :=
  markerStart ++ ' ' :: (i.fieldText ++ " -->".toList)

/-- The body of the pull request, with the marker behind it. -/
def markedBody (body : Text) : Text :=
  body ++ "\n\n".toList ++ i.marker ++ ['\n']

/-- What the publication hands on. -/
def identity : PublicationIdentity :=
  ⟨i.key, i.marker⟩

end Producer

/-! ## The fields of the block -/

/-- Words that a blank between them keeps apart. -/
def Apart (ws : List Text) : Prop :=
  ∀ w ∈ ws, w ≠ [] ∧ Readable w

theorem joined_head {ws : List Text} (h : Apart ws) :
    ∀ c ∈ ([' '].intercalate ws).head?, Text.isSpace c = false := by
  intro c hc
  cases ws with
  | nil => cases hc
  | cons w rest =>
      obtain ⟨hne, hreadable⟩ := h w List.mem_cons_self
      obtain ⟨d, tail, rfl⟩ := List.exists_cons_of_ne_nil hne
      have hhead : ([' '].intercalate ((d :: tail) :: rest)).head? = some d := by
        cases rest <;> rfl
      rw [hhead] at hc
      cases hc
      exact (hreadable c List.mem_cons_self).1

theorem joined_cons (w w' : Text) (rest : List Text) :
    [' '].intercalate (w :: w' :: rest) = w ++ ' ' :: [' '].intercalate (w' :: rest) := by
  simp [List.intercalate, List.intersperse]

theorem joined_ne_nil {w : Text} (rest : List Text) (h : w ≠ []) :
    [' '].intercalate (w :: rest) ≠ [] := by
  cases rest with
  | nil => simpa [List.intercalate] using h
  | cons w' rest =>
      rw [joined_cons]
      simp

theorem joined_last {ws : List Text} (h : Apart ws) :
    ∀ c ∈ ([' '].intercalate ws).getLast?, Text.isSpace c = false := by
  induction ws with
  | nil =>
      intro c hc
      cases hc
  | cons w rest ih =>
      intro c hc
      have hrest : Apart rest := fun v hv => h v (List.mem_cons_of_mem _ hv)
      cases rest with
      | nil =>
          have hw : [' '].intercalate [w] = w := by simp [List.intercalate]
          rw [hw] at hc
          exact ((h w List.mem_cons_self).2 c (List.mem_of_mem_getLast? hc)).1
      | cons w' rest =>
          have hne := joined_ne_nil rest (hrest w' List.mem_cons_self).1
          obtain ⟨d, tail, htail⟩ := List.exists_cons_of_ne_nil hne
          rw [joined_cons, List.getLast?_append, htail, List.getLast?_cons_cons, ← htail] at hc
          refine ih hrest c ?_
          cases hlast : ([' '].intercalate (w' :: rest)).getLast? with
          | none => exact absurd (List.getLast?_eq_none_iff.mp hlast) hne
          | some e =>
              rw [hlast] at hc
              exact hc

theorem joined_no_gt {ws : List Text} (h : Apart ws) : '>' ∉ [' '].intercalate ws := by
  induction ws with
  | nil => exact List.not_mem_nil
  | cons w rest ih =>
      have hw : '>' ∉ w := fun hmem => ((h w List.mem_cons_self).2 _ hmem).2 rfl
      cases rest with
      | nil => simpa [List.intercalate] using hw
      | cons w' rest =>
          rw [joined_cons]
          have hrest := ih (fun v hv => h v (List.mem_cons_of_mem _ hv))
          simpa using ⟨hw, hrest⟩

/-- Words that are joined by a blank are the words of the text. -/
theorem splitWords_joined {ws : List Text} (h : Apart ws) :
    splitWords ([' '].intercalate ws) = ws := by
  induction ws with
  | nil => rfl
  | cons w rest ih =>
      obtain ⟨hne, hreadable⟩ := h w List.mem_cons_self
      have hrest : Apart rest := fun v hv => h v (List.mem_cons_of_mem _ hv)
      cases rest with
      | nil =>
          have hw : [' '].intercalate [w] = w := by simp [List.intercalate]
          rw [hw, splitWords_word hne hreadable.unbroken]
      | cons w' rest =>
          rw [joined_cons, splitWords_cons hne hreadable.unbroken (joined_head hrest), ih hrest]

theorem readable_append {a b : Text} (ha : Readable a) (hb : Readable b) : Readable (a ++ b) :=
  fun c hc => (List.mem_append.mp hc).elim (ha c) (hb c)

namespace Producer

variable (i : Producer)

theorem otherFields_apart : Apart i.otherFields := by
  intro w hw
  rcases List.mem_append.mp hw with hw | hepoch
  · rcases List.mem_append.mp hw with hinstance | hcell
    · obtain rfl := List.mem_singleton.mp hinstance
      exact ⟨by simp, readable_append (by decide) i.instance_readable⟩
    · cases hid : i.cellId with
      | none =>
          rw [hid] at hcell
          cases hcell
      | some cell =>
          simp only [hid] at hcell
          split at hcell
          · cases hcell
          · obtain rfl := List.mem_singleton.mp hcell
            exact ⟨by simp, readable_append (by decide) (i.cell_readable cell hid)⟩
  · cases he : i.epoch with
    | none =>
        rw [he] at hepoch
        cases hepoch
    | some epoch =>
        rw [he] at hepoch
        obtain rfl := List.mem_singleton.mp hepoch
        exact ⟨by simp, readable_append (by decide) (decimal_readable epoch)⟩

theorem fields_apart (h : Readable i.key) : Apart i.fields := by
  intro w hw
  rcases List.mem_cons.mp hw with rfl | hw
  · exact ⟨by simp, readable_append (by decide) h⟩
  · exact i.otherFields_apart w hw

end Producer

/-! ## The search -/

theorem gt_not_mem_markerStart : '>' ∉ markerStart := by decide

/-- What a start of a marker reads up to the first `>`. -/
theorem markerFields_closed {inside : Text} (h : '>' ∉ inside) (more : Text) :
    markerFields (inside ++ '>' :: more) =
      if inside.head?.any Text.isSpace &&
          ['-', '-'].isSuffixOf (inside.dropWhile Text.isSpace) then
        some (((inside.dropWhile Text.isSpace).take
          ((inside.dropWhile Text.isSpace).length - 2)).rdropWhile Text.isSpace)
      else
        none := by
  have hdrop : (inside ++ '>' :: more).dropWhile Text.isSpace =
      inside.dropWhile Text.isSpace ++ '>' :: more := by
    rw [List.dropWhile_append]
    split
    · next hnil =>
        rw [List.isEmpty_iff.mp hnil, List.dropWhile_cons_of_neg (by decide), List.nil_append]
    · rfl
  have htake : (inside.dropWhile Text.isSpace ++ '>' :: more).takeWhile (· != '>') =
      inside.dropWhile Text.isSpace := by
    rw [List.takeWhile_append_of_pos, List.takeWhile_cons_of_neg (by decide), List.append_nil]
    intro c hc
    exact bne_iff_ne.mpr fun heq => h (heq ▸ (List.dropWhile_suffix _).subset hc)
  have hhead : (inside ++ '>' :: more).head?.any Text.isSpace = inside.head?.any Text.isSpace := by
    cases inside with
    | nil => exact (by decide : Text.isSpace '>' = false)
    | cons c rest => rfl
  have hlength : (inside.dropWhile Text.isSpace).length <
      (inside.dropWhile Text.isSpace ++ '>' :: more).length := by simp
  simp only [markerFields, hdrop, htake, hhead, hlength, decide_true, Bool.and_true]

theorem markerFields_unclosed {rest : Text} (h : '>' ∉ rest) : markerFields rest = none := by
  have htake : (rest.dropWhile Text.isSpace).takeWhile (· != '>') =
      rest.dropWhile Text.isSpace := by
    refine List.takeWhile_eq_self_iff.mpr fun c hc => bne_iff_ne.mpr fun heq => ?_
    exact h (heq ▸ (List.dropWhile_suffix _).subset hc)
  simp only [markerFields, htake, lt_irrefl, decide_false, Bool.and_false, Bool.false_and,
    Bool.false_eq_true, ↓reduceIte]

theorem markerFields_append {rest : Text} (h : '>' ∈ rest) (more : Text) :
    markerFields (rest ++ more) = markerFields rest := by
  obtain ⟨inside, behind, rfl, hinside⟩ := List.eq_append_cons_of_mem h
  rw [List.append_assoc, List.cons_append, markerFields_closed hinside,
    markerFields_closed hinside]

/-- What stands behind the start, where a text starts with it. -/
theorem markerStart_isPrefixOf {text : Text} :
    markerStart.isPrefixOf text = true ↔ ∃ rest, text = markerStart ++ rest := by
  rw [List.isPrefixOf_iff_prefix]
  exact ⟨fun ⟨rest, h⟩ => ⟨rest, h.symm⟩, fun ⟨rest, h⟩ => ⟨rest, h.symm⟩⟩

theorem searchMarker_start (rest : Text) :
    searchMarker (markerStart ++ rest) =
      (markerFields rest).or (searchMarker (markerStart.tail ++ rest)) := by
  have hstart : markerStart ++ rest = '<' :: (markerStart.tail ++ rest) := rfl
  have hp : markerStart.isPrefixOf ('<' :: (markerStart.tail ++ rest)) = true :=
    markerStart_isPrefixOf.mpr ⟨rest, hstart.symm⟩
  rw [hstart, searchMarker, if_pos hp, ← hstart, List.drop_left]
  cases markerFields rest <;> rfl

theorem searchMarker_cons {c : Char} {rest : Text}
    (h : markerStart.isPrefixOf (c :: rest) = false) :
    searchMarker (c :: rest) = searchMarker rest := by
  rw [searchMarker, if_neg (by simp [h])]

theorem searchMarker_unclosed {text : Text} (h : '>' ∉ text) : searchMarker text = none := by
  induction text with
  | nil => rfl
  | cons c rest ih =>
      have hrest := ih (fun hmem => h (List.mem_cons_of_mem _ hmem))
      cases hp : markerStart.isPrefixOf (c :: rest) with
      | false => rw [searchMarker_cons hp, hrest]
      | true =>
          obtain ⟨behind, hbehind⟩ := markerStart_isPrefixOf.mp hp
          rw [hbehind] at h ⊢
          have hgt : '>' ∉ behind := fun hmem => h (List.mem_append_right _ hmem)
          have htail : markerStart.tail ++ behind = rest :=
            (congrArg List.tail hbehind).symm
          rw [searchMarker_start, markerFields_unclosed hgt, htail, hrest]
          rfl

/-- A start of a marker is in a text that goes on, or the text ends within it. -/
theorem isPrefixOf_append_cases {text more : Text}
    (h : markerStart.isPrefixOf (text ++ more) = true) :
    (∃ rest, text = markerStart ++ rest) ∨
      ∃ d ∈ more.head?, ∃ back, markerStart = text ++ d :: back := by
  obtain ⟨rest, hrest⟩ := markerStart_isPrefixOf.mp h
  rcases List.append_eq_append_iff.mp hrest with ⟨back, hstart, hmore⟩ | ⟨behind, htext, -⟩
  · cases back with
    | nil => exact .inl ⟨[], by rw [hstart, List.append_nil, List.append_nil]⟩
    | cons d back => exact .inr ⟨d, by rw [hmore]; rfl, back, hstart⟩
  · exact .inl ⟨behind, htext⟩

theorem isPrefixOf_of_append {text more : Text}
    (h : markerStart.isPrefixOf (text ++ more) = false) :
    markerStart.isPrefixOf text = false := by
  cases hp : markerStart.isPrefixOf text with
  | false => rfl
  | true =>
      obtain ⟨rest, rfl⟩ := markerStart_isPrefixOf.mp hp
      rw [List.append_assoc, markerStart_isPrefixOf.mpr ⟨_, rfl⟩] at h
      cases h

/-- The marker that is found in a text is found in every text that begins with it. -/
theorem searchMarker_append {text fields : Text} (h : searchMarker text = some fields)
    (more : Text) : searchMarker (text ++ more) = some fields := by
  induction text with
  | nil => cases h
  | cons c rest ih =>
      have hgt : '>' ∈ c :: rest := by
        by_contra hnone
        rw [searchMarker_unclosed hnone] at h
        cases h
      cases hp : markerStart.isPrefixOf (c :: rest ++ more) with
      | false =>
          rw [searchMarker_cons (isPrefixOf_of_append hp)] at h
          rw [List.cons_append] at hp ⊢
          rw [searchMarker_cons hp, ih h]
      | true =>
          rcases isPrefixOf_append_cases hp with ⟨behind, hbehind⟩ | ⟨d, -, back, hstart⟩
          · have htail : markerStart.tail ++ behind = rest :=
              (congrArg List.tail hbehind).symm
            rw [hbehind] at h hgt ⊢
            rw [searchMarker_start, htail] at h
            rw [List.append_assoc, searchMarker_start, ← List.append_assoc, htail]
            have hclosed : '>' ∈ behind :=
              (List.mem_append.mp hgt).resolve_left gt_not_mem_markerStart
            rw [markerFields_append hclosed]
            cases hfields : markerFields behind with
            | some found =>
                rw [hfields] at h
                exact h
            | none =>
                rw [hfields] at h
                exact ih h
          · refine absurd ?_ gt_not_mem_markerStart
            rw [hstart]
            exact List.mem_append_left _ hgt

/-- The appended marker, read from a start that stands before it or from its own. -/
theorem markerFields_joined {front : Text} {ws : List Text} (hfront : '>' ∉ front)
    (h : Apart ws) (hne : [' '].intercalate ws ≠ []) (more : Text) :
    markerFields (front ++ ' ' :: ([' '].intercalate ws ++ " -->".toList ++ more)) =
      if (front ++ [' ']).head?.any Text.isSpace then
        some ((front ++ [' ']).dropWhile Text.isSpace ++ [' '].intercalate ws)
      else
        none := by
  have hgt := joined_no_gt h
  have hhead := joined_head h
  have hlast := joined_last h
  generalize [' '].intercalate ws = text at *
  have hsplit : front ++ ' ' :: (text ++ " -->".toList ++ more) =
      (front ++ [' '] ++ text ++ [' ', '-', '-']) ++ '>' :: more := by simp
  have hinside : '>' ∉ front ++ [' '] ++ text ++ [' ', '-', '-'] := by
    simp only [List.mem_append, not_or]
    exact ⟨⟨⟨hfront, by decide⟩, hgt⟩, by decide⟩
  obtain ⟨c, tail, rfl⟩ := List.exists_cons_of_ne_nil hne
  have hc := hhead c rfl
  have hdrop : (front ++ [' '] ++ (c :: tail) ++ [' ', '-', '-']).dropWhile Text.isSpace =
      (front ++ [' ']).dropWhile Text.isSpace ++ (c :: tail) ++ [' '] ++ ['-', '-'] := by
    have hstop : (c :: tail ++ [' ', '-', '-']).dropWhile Text.isSpace =
        c :: tail ++ [' ', '-', '-'] := by
      rw [List.cons_append, List.dropWhile_cons_of_neg (by simp [hc])]
    rw [List.append_assoc (front ++ [' ']), List.dropWhile_append, hstop]
    split
    · next hnil =>
        rw [List.isEmpty_iff.mp hnil]
        simp
    · simp
  have hany : (front ++ [' '] ++ (c :: tail) ++ [' ', '-', '-']).head?.any Text.isSpace =
      (front ++ [' ']).head?.any Text.isSpace := by
    cases front <;> rfl
  have hsuffix : ['-', '-'].isSuffixOf ((front ++ [' ']).dropWhile Text.isSpace ++ (c :: tail) ++
      [' '] ++ ['-', '-']) = true := by
    rw [List.isSuffixOf_iff_suffix]
    exact ⟨_, rfl⟩
  have hself : ((front ++ [' ']).dropWhile Text.isSpace ++ (c :: tail)).rdropWhile Text.isSpace =
      (front ++ [' ']).dropWhile Text.isSpace ++ (c :: tail) := by
    refine List.rdropWhile_eq_self_iff.mpr fun hnil => ?_
    rw [List.getLast_append_of_ne_nil hnil hne]
    simp [hlast _ (List.getLast?_eq_some_getLast hne)]
  rw [hsplit, markerFields_closed hinside, hdrop, hany, hsuffix, Bool.and_true, List.length_append,
    List.length_cons, List.length_cons, List.length_nil, Nat.add_sub_cancel, List.take_left,
    List.rdropWhile_concat_pos _ _ _ (by decide), hself]

/-- What is left of a text that ends with a blank ends with that blank. -/
theorem getLast?_dropWhile (front : Text) :
    ∀ c ∈ ((front ++ [' ']).dropWhile Text.isSpace).getLast?, Text.isSpace c = true := by
  intro c hc
  obtain ⟨dropped, hdropped⟩ := List.dropWhile_suffix (l := front ++ [' ']) Text.isSpace
  have hne : (front ++ [' ']).dropWhile Text.isSpace ≠ [] := by
    intro hnil
    rw [hnil] at hc
    cases hc
  have hlast : (front ++ [' ']).getLast? = some ' ' := List.getLast?_concat
  rw [← hdropped, List.getLast?_append_of_ne_nil _ hne, hc] at hlast
  cases hlast
  decide

namespace Producer

variable (i : Producer)

theorem fieldText_ne_nil : i.fieldText ≠ [] :=
  joined_ne_nil _ (by simp)

theorem markedBody_cons (c : Char) (body : Text) :
    i.markedBody (c :: body) = c :: i.markedBody body := rfl

theorem markedBody_append (front body : Text) :
    i.markedBody (front ++ body) = front ++ i.markedBody body := by
  simp [markedBody]

theorem markedBody_nil : i.markedBody [] =
    '\n' :: '\n' :: (markerStart ++ ' ' :: (i.fieldText ++ " -->".toList ++ ['\n'])) := by
  simp [markedBody, marker]

/-- Behind a text without a marker, the fields of the appended one come last. -/
theorem searchMarker_markedBody {body : Text} (hkey : Readable i.key)
    (h : searchMarker body = none) :
    ∃ pre, (∀ c ∈ pre.getLast?, Text.isSpace c = true) ∧
      searchMarker (i.markedBody body) = some (pre ++ i.fieldText) := by
  have hread := fun front hfront =>
    @markerFields_joined front i.fields hfront (i.fields_apart hkey) i.fieldText_ne_nil ['\n']
  induction body with
  | nil =>
      have hown := hread [] List.not_mem_nil
      rw [List.nil_append] at hown
      refine ⟨[], fun c hc => (by cases hc), ?_⟩
      rw [markedBody_nil, searchMarker_cons rfl, searchMarker_cons rfl, searchMarker_start,
        fieldText, hown]
      rfl
  | cons c rest ih =>
      cases hp : markerStart.isPrefixOf (c :: i.markedBody rest) with
      | false =>
          have hrest : markerStart.isPrefixOf (c :: rest) = false := by
            refine isPrefixOf_of_append (?_ : markerStart.isPrefixOf (c :: rest ++ i.markedBody []) = false)
            rw [← markedBody_append, List.append_nil]
            exact hp
          rw [searchMarker_cons hrest] at h
          rw [markedBody_cons, searchMarker_cons hp]
          exact ih h
      | true =>
          rw [← markedBody_cons, ← List.append_nil (c :: rest), markedBody_append] at hp
          rcases isPrefixOf_append_cases hp with ⟨behind, hbehind⟩ | ⟨d, hd, back, hstart⟩
          · have htail : markerStart.tail ++ behind = rest :=
              (congrArg List.tail hbehind).symm
            rw [hbehind, searchMarker_start, htail, Option.or_eq_none_iff] at h
            rw [hbehind, markedBody_append, searchMarker_start, ← markedBody_append, htail]
            cases hfields : markerFields (i.markedBody behind) with
            | none => exact ih h.2
            | some found =>
                by_cases hgt : '>' ∈ behind
                · rw [← List.append_nil behind, markedBody_append, markerFields_append hgt,
                    h.1] at hfields
                  cases hfields
                · have hafter := hread (behind ++ ['\n', '\n'] ++ markerStart) (by
                    simp only [List.mem_append, not_or]
                    exact ⟨⟨hgt, by decide⟩, gt_not_mem_markerStart⟩)
                  have heq : i.markedBody behind = behind ++ ['\n', '\n'] ++ markerStart ++
                      ' ' :: (i.fieldText ++ " -->".toList ++ ['\n']) := by
                    simp [markedBody, marker]
                  rw [heq, fieldText, hafter] at hfields
                  split at hfields
                  · cases hfields
                    exact ⟨_, getLast?_dropWhile _, rfl⟩
                  · cases hfields
          · -- a start that ran into the line break behind the text would hold one
            cases hd
            refine absurd ?_ (by decide : '\n' ∉ markerStart)
            rw [hstart]
            exact List.mem_append_right _ List.mem_cons_self

end Producer

/-! ## The key that is read -/

theorem readField_named {name value : Text} (hne : name ≠ []) (h : '=' ∉ name) :
    readField (name ++ '=' :: value) = if value = [] then none else some (name, value) := by
  have hsplit : splitOnce '=' (name ++ '=' :: value) = some (name, value) :=
    splitOnce_eq_some.mpr ⟨rfl, h⟩
  simp only [readField, hsplit, hne, false_or]

theorem of_readField {w name value : Text} (h : readField w = some (name, value)) :
    w = name ++ '=' :: value ∧ value ≠ [] := by
  unfold readField at h
  split at h
  · next n v hsplit =>
      split at h
      · cases h
      · next hne =>
          cases h
          exact ⟨(splitOnce_eq_some.mp hsplit).1, fun hnil => hne (.inr hnil)⟩
  · cases h

/-- `key` is what the last `key=` among the words of the fields names. -/
def LastKey (text key : Text) : Prop :=
  key ≠ [] ∧ ∃ before after, splitWords text = before ++ ("key=".toList ++ key) :: after ∧
    ∀ value, "key=".toList ++ value ∈ after → value = []

theorem readField_key (value : Text) : readField ("key=".toList ++ value) =
    if value = [] then none else some ("key".toList, value) :=
  @readField_named "key".toList value (by decide) (by decide)

theorem filterMap_reverse_concat (ws : List Text) (w : Text) :
    ((ws ++ [w]).filterMap readField).reverse =
      (readField w).toList ++ (ws.filterMap readField).reverse := by
  cases h : readField w <;> simp [h]

/-- A later field of the name hides the earlier ones. -/
theorem lookup_filterMap_reverse {ws : List Text} {key : Text} :
    (ws.filterMap readField).reverse.lookup "key".toList = some key ↔
      key ≠ [] ∧ ∃ before after, ws = before ++ ("key=".toList ++ key) :: after ∧
        ∀ value, "key=".toList ++ value ∈ after → value = [] := by
  induction ws using List.reverseRecOn with
  | nil =>
      refine ⟨fun h => (by cases h), ?_⟩
      rintro ⟨-, before, after, h, -⟩
      simp at h
  | append_singleton ws w ih =>
      rw [filterMap_reverse_concat]
      by_cases hw : ∃ value, value ≠ [] ∧ w = "key=".toList ++ value
      · obtain ⟨value, hne, rfl⟩ := hw
        rw [readField_key, if_neg hne, Option.toList_some, List.singleton_append,
          List.lookup_cons_self, Option.some_inj]
        constructor
        · rintro rfl
          exact ⟨hne, ws, [], rfl, fun v hv => absurd hv List.not_mem_nil⟩
        · rintro ⟨-, before, after, heq, hafter⟩
          cases after using List.reverseRecOn with
          | nil => simpa using (List.append_inj' heq rfl).2
          | append_singleton after last =>
              rw [← List.cons_append, ← List.append_assoc] at heq
              obtain rfl : _ = last := by simpa using (List.append_inj' heq rfl).2
              exact absurd (hafter value (by simp)) hne
      · have hhead : ((readField w).toList ++ (ws.filterMap readField).reverse).lookup
            "key".toList = (ws.filterMap readField).reverse.lookup "key".toList := by
          cases hf : readField w with
          | none => rfl
          | some field =>
              obtain ⟨name, value⟩ := field
              obtain ⟨rfl, hne⟩ := of_readField hf
              have hname : ("key".toList == name) = false := by
                refine beq_eq_false_iff_ne.mpr fun heq => hw ⟨value, hne, ?_⟩
                rw [← heq]
                rfl
              rw [Option.toList_some, List.singleton_append, List.lookup_cons, hname]
        rw [hhead, ih]
        constructor
        · rintro ⟨hne, before, after, rfl, hafter⟩
          refine ⟨hne, before, after ++ [w], by simp, fun value hvalue => ?_⟩
          rcases List.mem_append.mp hvalue with hvalue | hvalue
          · exact hafter value hvalue
          · by_contra hnil
            exact hw ⟨value, hnil, (List.mem_singleton.mp hvalue).symm⟩
        · rintro ⟨hne, before, after, heq, hafter⟩
          cases after using List.reverseRecOn with
          | nil => exact absurd ⟨key, hne, by simpa using (List.append_inj' heq rfl).2⟩ hw
          | append_singleton after last =>
              rw [← List.cons_append, ← List.append_assoc] at heq
              exact ⟨hne, before, after, (List.append_inj' heq rfl).1,
                fun value hvalue => hafter value (List.mem_append_left _ hvalue)⟩

theorem adopts_iff {body key : Text} :
    adopts body key = true ↔ ∃ text, searchMarker body = some text ∧ LastKey text key := by
  unfold adopts readMarker LastKey
  cases h : searchMarker body with
  | none => simp
  | some text =>
      simp only [Option.some.injEq, exists_eq_left', ← lookup_filterMap_reverse]
      generalize ((splitWords text).filterMap readField).reverse = fields
      cases hkey : fields.lookup "key".toList with
      | none => exact ⟨fun h => (by cases h), fun h => (by cases h)⟩
      | some read =>
          rw [Option.isSome_some, if_pos rfl]
          exact beq_iff_eq.trans (by rw [hkey])

/-- A text names one key at most. -/
theorem LastKey.unique {text key key' : Text} (h : LastKey text key) (h' : LastKey text key') :
    key = key' := by
  unfold LastKey at h h'
  rw [← lookup_filterMap_reverse] at h h'
  rw [h] at h'
  cases h'
  rfl

theorem markerFields_no_gt {rest text : Text} (h : markerFields rest = some text) :
    '>' ∉ text := by
  by_cases hgt : '>' ∈ rest
  · obtain ⟨inside, behind, rfl, hinside⟩ := List.eq_append_cons_of_mem hgt
    rw [markerFields_closed hinside] at h
    split at h
    · cases h
      intro hmem
      exact hinside ((List.dropWhile_suffix _).subset
        (List.mem_of_mem_take ((List.rdropWhile_prefix _ _).subset hmem)))
    · cases h
  · rw [markerFields_unclosed hgt] at h
    cases h

theorem searchMarker_no_gt {body text : Text} (h : searchMarker body = some text) :
    '>' ∉ text := by
  induction body with
  | nil => cases h
  | cons c rest ih =>
      unfold searchMarker at h
      split at h
      · split at h
        · next found hfound =>
            cases h
            exact markerFields_no_gt hfound
        · exact ih h
      · exact ih h

/-- A key that is read back has neither whitespace nor `>`. -/
theorem LastKey.readable {body text key : Text} (hfound : searchMarker body = some text)
    (h : LastKey text key) : Readable key := by
  obtain ⟨-, before, after, hwords, -⟩ := h
  have hmem : "key=".toList ++ key ∈ splitWords text := by
    rw [hwords]
    exact List.mem_append_right _ List.mem_cons_self
  obtain ⟨hunbroken, hsub⟩ := mem_splitWords hmem
  intro c hc
  refine ⟨hunbroken c (List.mem_append_right _ hc), fun heq => ?_⟩
  exact searchMarker_no_gt hfound (heq ▸ hsub c (List.mem_append_right _ hc))

namespace Producer

variable (i : Producer)

/-- The fields behind the key have other names. -/
theorem not_mem_otherFields (value : Text) : "key=".toList ++ value ∉ i.otherFields := by
  intro h
  rcases List.mem_append.mp h with h | hepoch
  · rcases List.mem_append.mp h with hinstance | hcell
    · simp at hinstance
    · split at hcell
      · split at hcell <;> simp at hcell
      · cases hcell
  · split at hepoch <;> simp at hepoch

/-- The appended marker names its key, whatever stands before its fields. -/
theorem lastKey_fieldText {pre : Text} (hpre : ∀ c ∈ pre.getLast?, Text.isSpace c = true)
    (hkey : Readable i.key) : LastKey (pre ++ i.fieldText) i.key := by
  have hapart := i.fields_apart hkey
  have hwords : splitWords (pre ++ i.fieldText) = splitWords pre ++ i.fields := by
    rw [splitWords_append_of_edge, fieldText, splitWords_joined hapart]
    intro x hx y hy
    rw [hpre x hx, joined_head hapart y hy]
    decide
  exact ⟨i.key_ne_nil, splitWords pre, i.otherFields, hwords,
    fun value hvalue => absurd hvalue (i.not_mem_otherFields value)⟩

end Producer

/-- The marker behind a text identifies its work exactly where the text has no marker of
its own and the key can be read back, or where the text's own marker names the same key. -/
theorem adopts_markedBody_iff
    (i : Producer)
    (body : Text) :
    (∀ key, adopts (i.markedBody body) key = true ↔ key = i.key) ↔
      (searchMarker body = none ∧ Readable i.key) ∨
        ∃ text, searchMarker body = some text ∧ LastKey text i.key := by
  cases hbody : searchMarker body with
  | some text =>
      have hfound : searchMarker (i.markedBody body) = some text := by
        rw [← List.append_nil body, Producer.markedBody_append]
        exact searchMarker_append hbody _
      have hadopts (key : Text) : adopts (i.markedBody body) key = true ↔ LastKey text key := by
        rw [adopts_iff, hfound]
        simp
      constructor
      · intro h
        exact .inr ⟨text, rfl, (hadopts i.key).mp ((h i.key).mpr rfl)⟩
      · rintro (⟨hnone, -⟩ | ⟨_, heq, hkey⟩)
        · cases hnone
        · cases heq
          intro key
          rw [hadopts]
          exact ⟨fun h => h.unique hkey, fun h => h ▸ hkey⟩
  | none =>
      constructor
      · intro h
        obtain ⟨text, hfound, hkey⟩ := adopts_iff.mp ((h i.key).mpr rfl)
        exact .inl ⟨rfl, hkey.readable hfound⟩
      · rintro (⟨-, hreadable⟩ | ⟨_, hsome, -⟩)
        · obtain ⟨pre, hpre, hfound⟩ := i.searchMarker_markedBody hreadable hbody
          have hkey := i.lastKey_fieldText hpre hreadable
          intro key
          rw [adopts_iff, hfound]
          constructor
          · rintro ⟨text, heq, h⟩
            cases heq
            exact h.unique hkey
          · rintro rfl
            exact ⟨_, rfl, hkey⟩
        · cases hsome

/-- A publication behind a text that quotes the marker of another one. -/
def quoting : Producer where
  key := "abc123".toList
  instanceId := "swf-1".toList
  cellId := none
  epoch := none
  key_ne_nil := by decide
  instance_readable := by decide
  cell_readable := fun _ h => nomatch h

theorem quoted_marker_counts :
    ¬ ∀ (i : Producer) (body key : Text),
      adopts (i.markedBody body) key = true ↔ key = i.key := by
  intro h
  have hother := h quoting "see <!-- swf-publication key=def456 -->".toList "def456".toList
  exact absurd (hother.mp (by decide)) (by decide)

end Publication
end SwFactory
