import Mathlib.Data.List.Basic

/-!
# Regular expressions by backtracking, and shell patterns

A match of an expression at a place of a text is a list of the places where it
can end, the preferred one first: an alternative tries its left side first, a
greedy repetition goes on before it stops, and a lazy one stops before it goes
on.  A repetition whose body takes nothing is not repeated.

An expression that asks nothing of its place takes a text wherever it stands.  The
backtracking reader ends behind exactly the texts that the expression takes, and a
search finds a match exactly where some part of the text is taken.

`fnmatch.fnmatchcase`: `*` stands for any text, `?` for any character,
`[seq]` for a character in `seq` and `[!seq]` for one that is not.  A pattern is
read into tokens first; a bracket that is never closed stands for itself.
-/

namespace SwFactory
namespace Lexical

inductive Regex
  | empty
  | one (p : Char → Bool)
  | seq (r s : Regex)
  | alt (r s : Regex)
  | many (r : Regex)
  | few (r : Regex)
  | group (n : Nat) (r : Regex)
  | ahead (r : Regex)
  | lineEnd
  | boundary

namespace Regex

/-- A place in a text: the character before it, what follows, and the groups so far. -/
structure Place where
  before : Option Char
  rest : List Char
  groups : List (Nat × List Char)

/-- The place at the start of a text. -/
def Place.start (text : List Char) : Place :=
  ⟨none, text, []⟩

/-- `match.group(n)` -/
def Place.group? (p : Place) (n : Nat) : Option (List Char) :=
  p.groups.lookup n

/-- What a match from one place to a later one took. -/
def Place.taken (p q : Place) : List Char :=
  p.rest.take (p.rest.length - q.rest.length)

/-- Go on before the stop, while something is taken. -/
def loopMany (f : Place → List Place) : Nat → Place → List Place
  | 0, p => [p]
  | n + 1, p =>
      ((f p).filter (fun q => q.rest.length < p.rest.length)).flatMap (loopMany f n) ++ [p]

/-- Stop before going on. -/
def loopFew (f : Place → List Place) : Nat → Place → List Place
  | 0, p => [p]
  | n + 1, p =>
      p :: ((f p).filter (fun q => q.rest.length < p.rest.length)).flatMap (loopFew f n)

/-- The ends of the matches from a place; `word` is `\w`. -/
def run (word : Char → Bool) : Regex → Place → List Place
  | empty, p => [p]
  | one ok, p =>
      match p.rest with
      | [] => []
      | c :: rest => if ok c then [⟨some c, rest, p.groups⟩] else []
  | seq r s, p => (run word r p).flatMap (run word s)
  | alt r s, p => run word r p ++ run word s p
  | many r, p => loopMany (run word r) p.rest.length p
  | few r, p => loopFew (run word r) p.rest.length p
  | group n r, p => (run word r p).map (fun q => { q with groups := (n, p.taken q) :: q.groups })
  | ahead r, p => if (run word r p).isEmpty then [] else [p]
  | lineEnd, p => if p.rest = [] ∨ p.rest = ['\n'] then [p] else []
  | boundary, p => if p.before.any word = p.rest.head?.any word then [] else [p]

/-! ## Shorthands -/

/-- The characters of a text, one after the other. -/
def lit (text : String) : Regex :=
  text.toList.foldr (fun c r => seq (one (· == c)) r) empty

/-- One of the characters. -/
def oneOf (chars : String) : Regex :=
  one (fun c => chars.toList.contains c)

/-- Each of the expressions behind the one before it. -/
def chain (rs : List Regex) : Regex :=
  rs.foldr seq empty

/-- The expressions in the order in which they are tried. -/
def anyOf : List Regex → Regex
  | [] => one (fun _ => false)
  | [r] => r
  | r :: rs => alt r (anyOf rs)

def maybe (r : Regex) : Regex :=
  alt r empty

/-- `r+` -/
def some (r : Regex) : Regex :=
  seq r (many r)

/-- `r{n}` -/
def times (n : Nat) (r : Regex) : Regex :=
  chain (List.replicate n r)

/-- A letter in lower case, against a character of any case. -/
def sameLetter (letter c : Char) : Bool :=
  c.toLower == letter || (letter == 'i' && (c == 'İ' || c == 'ı')) ||
    (letter == 's' && c == 'ſ') || (letter == 'k' && c == 'K')

/-- The characters of a text in lower case, whatever the case they stand in. -/
def anyCase (text : String) : Regex :=
  chain (text.toList.map (fun letter => one (sameLetter letter)))

/-- `r{0,n}` -/
def upTo : Nat → Regex → Regex
  | 0, _ => empty
  | n + 1, r => alt (seq r (upTo n r)) empty

/-! ## Uses -/

section Uses

variable (word : Char → Bool)

/-- `r.match(text)` -/
def matchStart (r : Regex) (text : List Char) : Option Place :=
  (run word r (.start text)).head?

/-- `r.fullmatch(text)` -/
def fullMatch (r : Regex) (text : List Char) : Bool :=
  (run word r (.start text)).any (fun q => q.rest.isEmpty)

/-- The matches of an expression that takes something, from left to right, each with the text
between it and the one before, and the text behind the last one. -/
def findFrom (r : Regex) : Nat → Option Char → List Char → List Char →
    List (List Char × Place) × List Char
  | 0, _, gap, rest => ([], gap ++ rest)
  | n + 1, before, gap, rest =>
      match (run word r ⟨before, rest, []⟩).head?, rest with
      | .some q, _ =>
          let behind := findFrom r n q.before [] q.rest
          ((gap, q) :: behind.1, behind.2)
      | .none, [] => ([], gap)
      | .none, c :: rest => findFrom r n (.some c) (gap ++ [c]) rest

def find (r : Regex) (text : List Char) : List (List Char × Place) × List Char :=
  findFrom word r (text.length + 1) .none [] text

/-- `r.search(text)` found something. -/
def found (r : Regex) (text : List Char) : Bool :=
  !(find word r text).1.isEmpty

/-- `r.finditer(text)` -/
def findAll (r : Regex) (text : List Char) : List Place :=
  (find word r text).1.map Prod.snd

/-- `r.split(text)` -/
def split (r : Regex) (text : List Char) : List (List Char) :=
  (find word r text).1.map Prod.fst ++ [(find word r text).2]

/-- `r.sub("", text)` -/
def erase (r : Regex) (text : List Char) : List Char :=
  (split word r text).flatten

end Uses

/-! ## The language of an expression -/

/-- Nothing is asked of the place of a match. -/
def plain : Regex → Bool
  | empty => true
  | one _ => true
  | seq r s => plain r && plain s
  | alt r s => plain r && plain s
  | many r => plain r
  | few r => plain r
  | group _ r => plain r
  | ahead _ => false
  | lineEnd => false
  | boundary => false

/-- The text is the parts one after the other, and none of them is empty. -/
def Repeats (takes : List Char → Prop) (text : List Char) : Prop :=
  ∃ parts : List (List Char), text = parts.flatten ∧ ∀ part ∈ parts, part ≠ [] ∧ takes part

/-- The texts that an expression takes. -/
def Takes : Regex → List Char → Prop
  | empty, text => text = []
  | one p, text => ∃ c, p c = true ∧ text = [c]
  | seq r s, text => ∃ front back, text = front ++ back ∧ Takes r front ∧ Takes s back
  | alt r s, text => Takes r text ∨ Takes s text
  | many r, text => Repeats (Takes r) text
  | few r, text => Repeats (Takes r) text
  | group _ r, text => Takes r text
  | ahead _, _ => False
  | lineEnd, _ => False
  | boundary, _ => False

/-- Every character that is read has the property. -/
def Over (P : Char → Prop) : Regex → Prop
  | empty => True
  | one p => ∀ c, p c = true → P c
  | seq r s => Over P r ∧ Over P s
  | alt r s => Over P r ∧ Over P s
  | many r => Over P r
  | few r => Over P r
  | group _ r => Over P r
  | ahead _ => True
  | lineEnd => True
  | boundary => True

section Characters

variable {P : Char → Prop}

theorem Repeats.forall {takes : List Char → Prop} {text : List Char} (h : Repeats takes text)
    (hpart : ∀ part, takes part → ∀ c ∈ part, P c) : ∀ c ∈ text, P c := by
  obtain ⟨parts, rfl, hparts⟩ := h
  intro c hc
  obtain ⟨part, hmem, hc⟩ := List.mem_flatten.mp hc
  exact hpart part (hparts part hmem).2 c hc

theorem Over.forall {r : Regex} (h : Over P r) {text : List Char} (htakes : Takes r text) :
    ∀ c ∈ text, P c := by
  induction r generalizing text with
  | empty =>
      rw [show text = [] from htakes]
      rintro c ⟨⟩
  | one p =>
      obtain ⟨d, hd, rfl⟩ := htakes
      intro c hc
      rw [List.mem_singleton.mp hc]
      exact h d hd
  | seq r s ihr ihs =>
      obtain ⟨front, back, rfl, hfront, hback⟩ := htakes
      intro c hc
      exact (List.mem_append.mp hc).elim (ihr h.1 hfront c) (ihs h.2 hback c)
  | alt r s ihr ihs => exact htakes.elim (ihr h.1) (ihs h.2)
  | many r ih => exact Repeats.forall htakes fun _ hpart => ih h hpart
  | few r ih => exact Repeats.forall htakes fun _ hpart => ih h hpart
  | group n r ih => exact ih h htakes
  | ahead r => cases htakes
  | lineEnd => cases htakes
  | boundary => cases htakes

theorem over_chain {rs : List Regex} (h : ∀ r ∈ rs, Over P r) : Over P (chain rs) := by
  induction rs with
  | nil => trivial
  | cons r rs ih =>
      obtain ⟨hr, hrs⟩ := List.forall_mem_cons.mp h
      exact ⟨hr, ih hrs⟩

theorem over_anyOf {rs : List Regex} (h : ∀ r ∈ rs, Over P r) : Over P (anyOf rs) := by
  induction rs with
  | nil => rintro c ⟨⟩
  | cons r rs ih =>
      obtain ⟨hr, hrs⟩ := List.forall_mem_cons.mp h
      cases rs with
      | nil => exact hr
      | cons s rs => exact ⟨hr, ih hrs⟩

theorem over_times {n : Nat} {r : Regex} (h : Over P r) : Over P (times n r) :=
  over_chain fun _ hr => (List.eq_of_mem_replicate hr) ▸ h

theorem over_lit {text : String} (h : ∀ c ∈ text.toList, P c) : Over P (lit text) := by
  unfold lit
  generalize text.toList = chars at h
  induction chars with
  | nil => trivial
  | cons a rest ih =>
      obtain ⟨ha, hrest⟩ := List.forall_mem_cons.mp h
      exact ⟨fun c hc => beq_iff_eq.mp hc ▸ ha, ih hrest⟩

theorem over_oneOf {chars : String} (h : ∀ c ∈ chars.toList, P c) : Over P (oneOf chars) :=
  fun c hc => h c (List.contains_iff_mem.mp hc)

end Characters

/-- A repetition of one character takes the texts of such characters. -/
theorem takes_many_one_iff {p : Char → Bool} {text : List Char} :
    Takes (many (one p)) text ↔ ∀ c ∈ text, p c = true := by
  constructor
  · have hover : Over (fun c => p c = true) (many (one p)) := fun _ hc => hc
    exact fun h => hover.forall h
  · intro h
    refine ⟨text.map (fun c => [c]), ?_, fun part hpart => ?_⟩
    · induction text with
      | nil => rfl
      | cons c rest ih => exact congrArg (c :: ·) (ih fun d hd => h d (List.mem_cons_of_mem _ hd))
    · obtain ⟨c, hc, rfl⟩ := List.mem_map.mp hpart
      exact ⟨List.cons_ne_nil _ _, c, h c hc, rfl⟩

/-! ## The reader -/

section Reader

variable {f : Place → List Place}

theorem mem_loopFew_iff {n : Nat} {p q : Place} : q ∈ loopFew f n p ↔ q ∈ loopMany f n p := by
  induction n generalizing p with
  | zero => exact Iff.rfl
  | succ n ih =>
      simp only [loopFew, loopMany, List.mem_cons, List.mem_append, List.mem_flatMap,
        List.not_mem_nil, or_false, ih]
      exact or_comm

/-- A repetition ends behind the texts that are repetitions. -/
theorem exists_mem_loopMany_iff {takes : List Char → Prop}
    (hf : ∀ p rest, (∃ q ∈ f p, q.rest = rest) ↔ ∃ m, p.rest = m ++ rest ∧ takes m)
    {n : Nat} {p : Place} (hn : p.rest.length ≤ n) (rest : List Char) :
    (∃ q ∈ loopMany f n p, q.rest = rest) ↔ ∃ m, p.rest = m ++ rest ∧ Repeats takes m := by
  induction n generalizing p with
  | zero =>
      have hempty : p.rest = [] := List.eq_nil_of_length_eq_zero (Nat.le_zero.mp hn)
      simp only [loopMany, List.mem_singleton, exists_eq_left]
      constructor
      · rintro rfl
        exact ⟨[], rfl, [], rfl, by simp⟩
      · rintro ⟨m, hm, -⟩
        rw [hempty] at hm ⊢
        exact (List.append_eq_nil_iff.mp hm.symm).2.symm
  | succ n ih =>
      constructor
      · rintro ⟨q, hq, hrest⟩
        rcases List.mem_append.mp hq with hq | hq
        · obtain ⟨p', hp', hq⟩ := List.mem_flatMap.mp hq
          obtain ⟨hmem, hshort⟩ := List.mem_filter.mp hp'
          have hshort := of_decide_eq_true hshort
          obtain ⟨part, hpart, htakes⟩ := (hf p p'.rest).mp ⟨p', hmem, rfl⟩
          obtain ⟨m, hm, parts, rfl, hparts⟩ := (ih (by omega)).mp ⟨q, hq, hrest⟩
          have hne : part ≠ [] := by
            rintro rfl
            rw [hpart, List.nil_append] at hshort
            exact absurd hshort (Nat.lt_irrefl _)
          refine ⟨part ++ parts.flatten, by rw [hpart, hm, List.append_assoc], part :: parts, rfl, ?_⟩
          exact List.forall_mem_cons.mpr ⟨⟨hne, htakes⟩, hparts⟩
        · rw [List.mem_singleton.mp hq] at hrest
          exact ⟨[], hrest, [], rfl, by simp⟩
      · rintro ⟨m, hm, parts, rfl, hparts⟩
        cases parts with
        | nil => exact ⟨p, List.mem_append_right _ (List.mem_singleton_self p), hm⟩
        | cons part parts =>
            obtain ⟨⟨hne, htakes⟩, hparts⟩ := List.forall_mem_cons.mp hparts
            rw [List.flatten_cons, List.append_assoc] at hm
            obtain ⟨p', hp', hrest'⟩ := (hf p (parts.flatten ++ rest)).mpr ⟨part, hm, htakes⟩
            have hshort : p'.rest.length < p.rest.length := by
              have := List.length_pos_of_ne_nil hne
              simp only [hrest', hm, List.length_append]
              omega
            obtain ⟨q, hq, hrest⟩ := (ih (by omega)).mpr ⟨_, hrest', parts, rfl, hparts⟩
            refine ⟨q, List.mem_append_left _ (List.mem_flatMap.mpr ⟨p', ?_, hq⟩), hrest⟩
            exact List.mem_filter.mpr ⟨hp', decide_eq_true hshort⟩

variable (word : Char → Bool)

/-- The reader ends behind the texts that are taken. -/
theorem exists_mem_run_iff {r : Regex} (h : plain r = true) (p : Place) (rest : List Char) :
    (∃ q ∈ run word r p, q.rest = rest) ↔ ∃ m, p.rest = m ++ rest ∧ Takes r m := by
  induction r generalizing p rest with
  | empty => simp [run, Takes]
  | one ok =>
      unfold run Takes
      cases hp : p.rest with
      | nil => simp
      | cons c tail =>
          dsimp only
          cases hok : ok c with
          | false => simp [hok]
          | true =>
              constructor
              · rintro ⟨q, hq, rfl⟩
                rw [if_pos rfl, List.mem_singleton] at hq
                exact ⟨[c], by rw [hq]; rfl, c, hok, rfl⟩
              · rintro ⟨_, hm, d, hd, rfl⟩
                obtain ⟨-, rfl⟩ := List.cons_eq_cons.mp hm
                exact ⟨_, by rw [if_pos rfl]; exact List.mem_singleton_self _, rfl⟩
  | seq r s ihr ihs =>
      obtain ⟨hr, hs⟩ := Bool.and_eq_true_iff.mp h
      constructor
      · rintro ⟨q, hq, hrest⟩
        obtain ⟨mid, hmid, hq⟩ := List.mem_flatMap.mp hq
        obtain ⟨front, hfront, htakes⟩ := (ihr hr p mid.rest).mp ⟨mid, hmid, rfl⟩
        obtain ⟨back, hback, htakes'⟩ := (ihs hs mid rest).mp ⟨q, hq, hrest⟩
        exact ⟨front ++ back, by rw [hfront, hback, List.append_assoc], front, back, rfl, htakes,
          htakes'⟩
      · rintro ⟨m, hm, front, back, rfl, htakes, htakes'⟩
        rw [List.append_assoc] at hm
        obtain ⟨mid, hmid, hrest⟩ := (ihr hr p (back ++ rest)).mpr ⟨front, hm, htakes⟩
        obtain ⟨q, hq, hrest⟩ := (ihs hs mid rest).mpr ⟨back, hrest, htakes'⟩
        exact ⟨q, List.mem_flatMap.mpr ⟨mid, hmid, hq⟩, hrest⟩
  | alt r s ihr ihs =>
      have hboth : (∃ q ∈ run word (alt r s) p, q.rest = rest) ↔
          (∃ q ∈ run word r p, q.rest = rest) ∨ ∃ q ∈ run word s p, q.rest = rest := by
        simp only [run, List.mem_append, or_and_right, exists_or]
      obtain ⟨hr, hs⟩ := Bool.and_eq_true_iff.mp h
      rw [hboth, ihr hr, ihs hs, ← exists_or]
      exact exists_congr fun m => and_or_left.symm
  | many r ih => exact exists_mem_loopMany_iff (ih h) (Nat.le_refl _) rest
  | few r ih =>
      simp only [run, mem_loopFew_iff]
      exact exists_mem_loopMany_iff (ih h) (Nat.le_refl _) rest
  | group n r ih =>
      change _ ↔ ∃ m, p.rest = m ++ rest ∧ Takes r m
      rw [← ih h]
      simp [run]
  | ahead r => cases h
  | lineEnd => cases h
  | boundary => cases h

/-- A full match takes the whole text. -/
theorem fullMatch_iff {r : Regex} (h : plain r = true) (text : List Char) :
    fullMatch word r text = true ↔ Takes r text := by
  have hrun := exists_mem_run_iff word h (.start text) []
  simp only [fullMatch, List.any_eq_true, List.isEmpty_iff]
  rw [hrun]
  simp [Place.start]

theorem findFrom_ne_nil_iff {r : Regex} (h : plain r = true) {n : Nat} {before : Option Char}
    {gap rest : List Char} (hn : rest.length < n) :
    (findFrom word r n before gap rest).1 ≠ [] ↔ ∃ m, m <:+: rest ∧ Takes r m := by
  induction n generalizing before gap rest with
  | zero => cases hn
  | succ n ih =>
      have hrun : ∀ m, Takes r m → m <+: rest → run word r ⟨before, rest, []⟩ ≠ [] := by
        rintro m hm ⟨tail, htail⟩ hnone
        obtain ⟨q, hq, -⟩ := (exists_mem_run_iff word h ⟨before, rest, []⟩ tail).mpr
          ⟨m, htail.symm, hm⟩
        rw [hnone] at hq
        cases hq
      cases hhead : (run word r ⟨before, rest, []⟩).head? with
      | some q =>
          obtain ⟨m, hm, htakes⟩ := (exists_mem_run_iff word h ⟨before, rest, []⟩ q.rest).mp
            ⟨q, List.mem_of_mem_head? hhead, rfl⟩
          refine iff_of_true ?_ ⟨m, ⟨[], q.rest, hm.symm⟩, htakes⟩
          unfold findFrom
          rw [hhead]
          exact List.cons_ne_nil _ _
      | none =>
          have hnone := List.head?_eq_none_iff.mp hhead
          cases rest with
          | nil =>
              unfold findFrom
              rw [hhead]
              refine iff_of_false (fun hne => hne rfl) ?_
              rintro ⟨m, hinfix, hm⟩
              exact hrun m hm (List.infix_nil.mp hinfix ▸ List.prefix_rfl) hnone
          | cons c rest =>
              unfold findFrom
              rw [hhead]
              refine (ih (by simpa using hn)).trans (exists_congr fun m => and_congr_left fun hm => ?_)
              rw [List.infix_cons_iff]
              exact (or_iff_right fun hprefix => hrun m hm hprefix hnone).symm

/-- A search finds something where some part of the text is taken. -/
theorem found_iff {r : Regex} (h : plain r = true) (text : List Char) :
    found word r text = true ↔ ∃ m, m <:+: text ∧ Takes r m := by
  rw [found, Bool.not_eq_true', List.isEmpty_eq_false_iff]
  exact findFrom_ne_nil_iff word h (Nat.lt_succ_self _)

end Reader

end Regex

/-! ## Shell patterns -/

namespace Glob

/-- A character, or a range of characters that may be empty. -/
inductive Item
  | char (c : Char)
  | range (first last : Char)
deriving DecidableEq, Repr

inductive Token
  | star
  | any
  | char (c : Char)
  | oneOf (negated : Bool) (items : List Item)
deriving DecidableEq, Repr

def Item.covers (c : Char) : Item → Bool
  | .char d => c == d
  | .range first last => decide (first ≤ c) && decide (c ≤ last)

/-- The items of a bracket; a hyphen between two characters makes a range. -/
def items : List Char → List Item
  | first :: '-' :: last :: rest => .range first last :: items rest
  | c :: rest => .char c :: items rest
  | [] => []

/-- The text up to the closing bracket, and what follows it. -/
def closing : List Char → Option (List Char × List Char)
  | [] => none
  | ']' :: rest => some ([], rest)
  | c :: rest => (closing rest).map (fun cut => (c :: cut.1, cut.2))

/-- A bracket that opens behind `[`; the first character never closes it. -/
def bracket : List Char → Option (List Char × List Char)
  | [] => none
  | c :: rest => (closing rest).map (fun cut => (c :: cut.1, cut.2))

/-- Whether the bracket is negated, its characters, and what follows it. -/
def sequence : List Char → Option (Bool × List Char × List Char)
  | '!' :: rest => (bracket rest).map (fun cut => (true, cut.1, cut.2))
  | rest => (bracket rest).map (fun cut => (false, cut.1, cut.2))

/-- The tokens of a pattern; no bracket is longer than the pattern. -/
def tokens : Nat → List Char → List Token
  | 0, _ => []
  | _ + 1, [] => []
  | n + 1, '*' :: rest => .star :: tokens n rest
  | n + 1, '?' :: rest => .any :: tokens n rest
  | n + 1, '[' :: rest =>
      match sequence rest with
      | some (negated, inside, behind) =>
          .oneOf negated (items inside) :: tokens n behind
      | none => .char '[' :: tokens n rest
  | n + 1, c :: rest => .char c :: tokens n rest

/-- The tokens match the whole text. -/
def fits : List Token → List Char → Bool
  | [], text => text.isEmpty
  | .star :: rest, text => text.tails.any (fits rest)
  | .any :: rest, text =>
      match text with
      | [] => false
      | _ :: text => fits rest text
  | .char c :: rest, text =>
      match text with
      | [] => false
      | d :: text => c == d && fits rest text
  | .oneOf negated inside :: rest, text =>
      match text with
      | [] => false
      | d :: text => (inside.any (Item.covers d) != negated) && fits rest text

end Glob

/-- `fnmatch.fnmatchcase`. -/
def fnmatchcase (name pattern : List Char) : Bool :=
  Glob.fits (Glob.tokens (pattern.length + 1) pattern) name

example : fnmatchcase "tests/unit/test_a.py".toList "tests/*.p[!a-x]".toList = true := by
  decide

end Lexical
end SwFactory
