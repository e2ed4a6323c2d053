import Mathlib.Data.List.Infix
import SwFactory.Lexical.Regex
import SwFactory.Lexical.Splitting
import SwFactory.Paths.Relative
import SwFactory.Scope.Changes

/-!
# Two readings of a protected path

The audit of a run and the check of a stage read one rule in two ways.  Both see a
path at or below a literal rule, and a path that a glob matches whole.  The audit
also sees the rule at any depth of the path and a glob by its spelling; the check
also sees what lies below the literal front of a glob or below a match.

Sources: `adherence.py` (`_hits`), `campaign_fusion.py` (`_is_protected`).
-/

namespace SwFactory
namespace Scope

open Lexical

/-- `_hits`; `fnmatch` keeps the case of a POSIX path. -/
def hits (path rule : List Char) : Bool :=
  let rule := rstripSlash (strip rule)
  !rule.isEmpty &&
    (path == rule || (rule ++ ['/']).isPrefixOf path || fnmatchcase path rule ||
      fnmatchcase path ("*/".toList ++ rule))

/-! ## The ways a rule reaches a path -/

/-- The path is `dir`, or lies below it. -/
def At (path dir : List Char) : Prop :=
  path = dir ∨ dir ++ ['/'] <+: path

def isGlobChar (c : Char) : Bool :=
  c == '*' || c == '?' || c == '['

/-- The rule has a character of a glob. -/
def IsGlob (rule : List Char) : Prop :=
  ∃ c ∈ rule, isGlobChar c = true

/-- What both readings see. -/
def Covers (path rule : List Char) : Prop :=
  (¬ IsGlob rule ∧ At path rule) ∨ fnmatchcase path rule = true

/-- What the audit sees besides: the rule below a directory, or a glob by its spelling. -/
def ReachesDeep (path rule : List Char) : Prop :=
  (IsGlob rule ∧ At path rule) ∨
    ∃ front rest, path = front ++ '/' :: rest ∧ fnmatchcase rest rule = true

/-- What the check sees besides: the literal front of a glob, or a match, above the path. -/
def ReachesAbove (path rule : List Char) : Prop :=
  IsGlob rule ∧
    ((literalPrefix rule ≠ [] ∧ At path (literalPrefix rule)) ∨
      ∃ ancestor ∈ ancestors path, fnmatchcase ancestor rule = true)

/-- The rules without their last slashes; a rule of slashes reaches nothing. -/
def effective (rules : List (List Char)) : List (List Char) :=
  (rules.map rstripSlash).filter (· ≠ [])

/-! ## Segments -/

/-- The first segments of a path are a directory of it. -/
theorem at_intercalate {front back : List (List Char)} (hfront : front ≠ []) :
    At (['/'].intercalate (front ++ back)) (['/'].intercalate front) := by
  by_cases hback : back = []
  · rw [hback, List.append_nil]
    exact Or.inl rfl
  · refine Or.inr ⟨['/'].intercalate back, ?_⟩
    induction front with
    | nil => exact absurd rfl hfront
    | cons first front ih =>
        cases front with
        | nil =>
            rw [List.singleton_append, intercalate_cons hback]
            simp [List.intercalate]
        | cons second front =>
            have hrest := ih (List.cons_ne_nil _ _)
            rw [List.cons_append, intercalate_cons (List.cons_ne_nil _ _), List.cons_append,
              intercalate_cons (List.cons_ne_nil _ _)]
            simpa using hrest

theorem at_of_mem_ancestors {path ancestor : List Char} (h : ancestor ∈ ancestors path) :
    At path ancestor := by
  obtain ⟨front, hfront, rfl⟩ := List.mem_map.mp h
  have hinits : front ∈ (splitAll '/' path).inits ∧ front ≠ [] := by
    cases hsplit : splitAll '/' path with
    | nil => exact absurd hsplit (splitAll_ne_nil _ _)
    | cons part parts =>
        rw [hsplit, List.inits_cons, List.tail_cons] at hfront
        obtain ⟨rest, hrest, rfl⟩ := List.mem_map.mp hfront
        exact ⟨(List.mem_inits _ _).mpr (List.prefix_cons_inj part |>.mpr ((List.mem_inits _ _).mp hrest)),
          List.cons_ne_nil _ _⟩
  obtain ⟨back, hback⟩ := (List.mem_inits _ _).mp hinits.1
  have hat : At (['/'].intercalate (front ++ back)) (['/'].intercalate front) :=
    at_intercalate hinits.2
  rwa [hback, intercalate_splitAll] at hat

theorem mem_ancestors_self (path : List Char) : path ∈ ancestors path := by
  refine List.mem_map.mpr ⟨splitAll '/' path, ?_, intercalate_splitAll '/' path⟩
  cases hsplit : splitAll '/' path with
  | nil => exact absurd hsplit (splitAll_ne_nil _ _)
  | cons part parts =>
      rw [List.inits_cons, List.tail_cons]
      exact List.mem_map_of_mem ((List.mem_inits _ _).mpr List.prefix_rfl)

/-! ## Globs -/

theorem tokens_literal {rule : List Char} (h : ¬ IsGlob rule) {n : Nat} (hn : rule.length < n) :
    Glob.tokens n rule = rule.map Glob.Token.char := by
  induction rule generalizing n with
  | nil =>
      cases n with
      | zero => rfl
      | succ n => rfl
  | cons c rest ih =>
      have hc : isGlobChar c = false := Bool.eq_false_iff.mpr fun hc => h ⟨c, List.mem_cons_self, hc⟩
      have hrest : ¬ IsGlob rest := fun ⟨d, hd, hglob⟩ => h ⟨d, List.mem_cons_of_mem _ hd, hglob⟩
      simp only [isGlobChar, Bool.or_eq_false_iff, beq_eq_false_iff_ne, ne_eq] at hc
      obtain ⟨⟨hstar, hany⟩, hbracket⟩ := hc
      cases n with
      | zero => cases hn
      | succ n =>
          rw [Glob.tokens.eq_6 _ _ _ hstar hany hbracket, ih hrest (by simpa using hn)]
          rfl

theorem fits_literal (rule name : List Char) :
    Glob.fits (rule.map Glob.Token.char) name = true ↔ name = rule := by
  induction rule generalizing name with
  | nil => simp [Glob.fits]
  | cons c rest ih =>
      cases name with
      | nil => simp [Glob.fits]
      | cons d name =>
          change (c == d && Glob.fits (rest.map Glob.Token.char) name) = true ↔ _
          rw [Bool.and_eq_true, beq_iff_eq, ih, List.cons_eq_cons, eq_comm]

/-- A rule without a glob matches itself only. -/
theorem fnmatchcase_literal {rule name : List Char} (h : ¬ IsGlob rule) :
    fnmatchcase name rule = true ↔ name = rule := by
  rw [fnmatchcase, tokens_literal h (Nat.lt_succ_self _)]
  exact fits_literal rule name

/-- A rule at any depth. -/
theorem fnmatchcase_deep {rule path : List Char} :
    fnmatchcase path ("*/".toList ++ rule) = true ↔
      ∃ front rest, path = front ++ '/' :: rest ∧ fnmatchcase rest rule = true := by
  have htokens : Glob.tokens (("*/".toList ++ rule).length + 1) ("*/".toList ++ rule) =
      .star :: .char '/' :: Glob.tokens (rule.length + 1) rule := rfl
  rw [fnmatchcase, htokens]
  change (path.tails.any (Glob.fits (.char '/' :: Glob.tokens (rule.length + 1) rule))) = true ↔ _
  rw [List.any_eq_true]
  constructor
  · rintro ⟨text, htext, hfits⟩
    obtain ⟨front, hfront⟩ := (List.mem_tails _ _).mp htext
    cases text with
    | nil => cases hfits
    | cons d rest =>
        obtain ⟨hslash, hrest⟩ := Bool.and_eq_true_iff.mp hfits
        obtain rfl := beq_iff_eq.mp hslash
        exact ⟨front, rest, hfront.symm, hrest⟩
  · rintro ⟨front, rest, rfl, hrest⟩
    refine ⟨'/' :: rest, (List.mem_tails _ _).mpr ⟨front, rfl⟩, ?_⟩
    exact Bool.and_eq_true_iff.mpr ⟨beq_self_eq_true '/', hrest⟩

/-! ## The readings -/

theorem literalPrefix_rstripSlash (rule : List Char) :
    literalPrefix (rstripSlash rule) = literalPrefix rule := by
  have hidem : rstripSlash (rstripSlash rule) = rstripSlash rule :=
    List.rdropWhile_idempotent _ _
  unfold literalPrefix
  rw [hidem]

theorem literalPrefix_literal {rule : List Char} (h : ¬ IsGlob (rstripSlash rule)) :
    literalPrefix rule = rstripSlash rule := by
  unfold literalPrefix
  have hall : (splitAll '/' (rstripSlash rule)).takeWhile
      (fun segment => !segment.any (fun c => c == '*' || c == '?' || c == '[')) =
        splitAll '/' (rstripSlash rule) := by
    refine List.takeWhile_eq_self_iff.mpr fun segment hsegment => ?_
    rw [Bool.not_eq_true', List.any_eq_false]
    intro c hc hglob
    exact h ⟨c, mem_of_mem_splitAll hsegment hc, hglob⟩
  rw [hall, intercalate_splitAll]

theorem at_iff {path dir : List Char} :
    At path dir ↔ (path == dir || (dir ++ ['/']).isPrefixOf path) = true := by
  rw [Bool.or_eq_true, beq_iff_eq, List.isPrefixOf_iff_prefix]
  rfl

/-- What the audit sees. -/
theorem hits_iff {path rule : List Char} (hrule : strip rule = rule) :
    hits path rule = true ↔
      rstripSlash rule ≠ [] ∧
        (Covers path (rstripSlash rule) ∨ ReachesDeep path (rstripSlash rule)) := by
  unfold hits Covers ReachesDeep
  dsimp only
  rw [hrule, Bool.and_eq_true, Bool.or_eq_true, Bool.or_eq_true, ← at_iff, fnmatchcase_deep,
    Bool.not_eq_true', List.isEmpty_eq_false_iff]
  tauto

/-- A relative path names something at its top. -/
structure Relative (path : List Char) : Prop where
  named : path ≠ []
  top : path.head? ≠ some '/'

theorem Relative.not_at_nil {path : List Char} (h : Relative path) : ¬ At path [] := by
  rintro (hnil | ⟨rest, hrest⟩)
  · exact h.named hnil
  · exact h.top (hrest ▸ rfl)

/-- What the check sees. -/
theorem matchesRule_iff {path rule : List Char} (hpath : Relative path) :
    matchesRule path rule = true ↔
      rstripSlash rule ≠ [] ∧
        (Covers path (rstripSlash rule) ∨ ReachesAbove path (rstripSlash rule)) := by
  have hfront : matchesRule path rule = true ↔
      (literalPrefix rule ≠ [] ∧ At path (literalPrefix rule)) ∨
        ∃ ancestor ∈ ancestors path, fnmatchcase ancestor (rstripSlash rule) = true := by
    unfold matchesRule
    rw [Bool.or_eq_true, Bool.and_eq_true, ← at_iff, List.any_eq_true, Bool.not_eq_true',
      List.isEmpty_eq_false_iff]
  rw [hfront]
  by_cases hglob : IsGlob (rstripSlash rule)
  · have hne : rstripSlash rule ≠ [] := by
      obtain ⟨c, hc, -⟩ := hglob
      exact List.ne_nil_of_mem hc
    have habove : ReachesAbove path (rstripSlash rule) ↔
        (literalPrefix rule ≠ [] ∧ At path (literalPrefix rule)) ∨
          ∃ ancestor ∈ ancestors path, fnmatchcase ancestor (rstripSlash rule) = true := by
      rw [ReachesAbove, literalPrefix_rstripSlash]
      exact and_iff_right hglob
    have hcovers : Covers path (rstripSlash rule) → ReachesAbove path (rstripSlash rule) := by
      rintro (⟨hliteral, -⟩ | hmatch)
      · exact absurd hglob hliteral
      · exact habove.mpr (Or.inr ⟨path, mem_ancestors_self path, hmatch⟩)
    rw [← habove, and_iff_right hne]
    exact ⟨Or.inr, fun h => h.elim hcovers id⟩
  · have hcovers : Covers path (rstripSlash rule) ↔ At path (rstripSlash rule) := by
      unfold Covers
      rw [fnmatchcase_literal hglob]
      exact ⟨fun h => h.elim And.right Or.inl, fun h => Or.inl ⟨hglob, h⟩⟩
    have habove : ¬ ReachesAbove path (rstripSlash rule) := fun h => hglob h.1
    rw [literalPrefix_literal hglob, hcovers]
    constructor
    · rintro (⟨hne, hat⟩ | ⟨ancestor, hmem, hmatch⟩)
      · exact ⟨hne, Or.inl hat⟩
      · rw [fnmatchcase_literal hglob] at hmatch
        subst hmatch
        have hat := at_of_mem_ancestors hmem
        exact ⟨fun hnil => hpath.not_at_nil (hnil ▸ hat), Or.inl hat⟩
    · rintro ⟨hne, hat | habove'⟩
      · exact Or.inl ⟨hne, hat⟩
      · exact absurd habove' habove

theorem exists_or_effective {rules : List (List Char)} {P Q : List Char → Prop} :
    ((∃ rule ∈ effective rules, P rule) ∨ ∃ rule ∈ effective rules, Q rule) ↔
      ∃ rule ∈ rules, rstripSlash rule ≠ [] ∧ (P (rstripSlash rule) ∨ Q (rstripSlash rule)) := by
  have hone : ∀ P : List Char → Prop, (∃ rule ∈ effective rules, P rule) ↔
      ∃ rule ∈ rules, rstripSlash rule ≠ [] ∧ P (rstripSlash rule) := by
    intro P
    simp only [effective, List.mem_filter, List.mem_map, decide_eq_true_eq]
    constructor
    · rintro ⟨_, ⟨⟨rule, hrule, rfl⟩, hne⟩, hP⟩
      exact ⟨rule, hrule, hne, hP⟩
    · rintro ⟨rule, hrule, hne, hP⟩
      exact ⟨_, ⟨⟨rule, hrule, rfl⟩, hne⟩, hP⟩
  rw [hone, hone, ← exists_or]
  exact exists_congr fun rule => by rw [← and_or_left, ← and_or_left]

/--
Audit and check agree on a path exactly where some rule covers it for both, or each
of them reaches it in its own way, or neither does.
-/
theorem same_boundary_iff
    (casefold : List Char → List Char)
    (path : List Char)
    (rules : List (List Char))
    (hpath : Relative path)
    (hgit : ∀ part ∈ splitAll '/' path, casefold part ≠ ".git".toList)
    (hrules : ∀ rule ∈ rules, rule ≠ [] ∧ strip rule = rule) :
    ((∃ rule ∈ rules, hits path rule = true) ↔ isProtected casefold path rules = true) ↔
      (∃ rule ∈ effective rules, Covers path rule) ∨
        ((∃ rule ∈ effective rules, ReachesDeep path rule) ↔
          ∃ rule ∈ effective rules, ReachesAbove path rule) := by
  have hfactory : (splitAll '/' path).any (fun part => casefold part == ".git".toList) = false := by
    rw [List.any_eq_false]
    exact fun part hpart h => hgit part hpart (beq_iff_eq.mp h)
  have haudit : (∃ rule ∈ rules, hits path rule = true) ↔
      (∃ rule ∈ effective rules, Covers path rule) ∨
        ∃ rule ∈ effective rules, ReachesDeep path rule := by
    rw [exists_or_effective]
    exact exists_congr fun rule => and_congr_right fun hrule => hits_iff (hrules rule hrule).2
  have hcheck : isProtected casefold path rules = true ↔
      (∃ rule ∈ effective rules, Covers path rule) ∨
        ∃ rule ∈ effective rules, ReachesAbove path rule := by
    rw [isProtected, hfactory, Bool.false_or, List.any_eq_true, exists_or_effective]
    exact exists_congr fun rule => and_congr_right fun _ => matchesRule_iff hpath
  rw [haudit, hcheck]
  by_cases hcovered : ∃ rule ∈ effective rules, Covers path rule
  · exact iff_of_true (iff_of_true (Or.inl hcovered) (Or.inl hcovered)) (Or.inl hcovered)
  · rw [or_iff_right hcovered, or_iff_right hcovered, or_iff_right hcovered]

theorem same_boundary_tests :
    ((∃ rule ∈ ["tests/".toList], hits "tests/test_a.py".toList rule = true) ↔
        isProtected (List.map Char.toLower) "tests/test_a.py".toList ["tests/".toList] = true) ↔
      (∃ rule ∈ effective ["tests/".toList], Covers "tests/test_a.py".toList rule) ∨
        ((∃ rule ∈ effective ["tests/".toList], ReachesDeep "tests/test_a.py".toList rule) ↔
          ∃ rule ∈ effective ["tests/".toList], ReachesAbove "tests/test_a.py".toList rule) :=
  same_boundary_iff (List.map Char.toLower) "tests/test_a.py".toList ["tests/".toList]
    ⟨by decide, by decide⟩ (by decide) (by decide)

/-- The audit fails a commit below `a/tests` that the check let through. -/
theorem audit_reaches_deep :
    ¬ ∀ (casefold : List Char → List Char) (path : List Char) (rules : List (List Char)),
      Relative path → (∀ part ∈ splitAll '/' path, casefold part ≠ ".git".toList) →
      (∀ rule ∈ rules, rule ≠ [] ∧ strip rule = rule) →
        ((∃ rule ∈ rules, hits path rule = true) ↔ isProtected casefold path rules = true) := by
  intro h
  have hsame := h (List.map Char.toLower) "a/tests".toList ["tests".toList]
    ⟨by decide, by decide⟩ (by decide) (by decide)
  have hheld := hsame.mp ⟨"tests".toList, List.mem_singleton_self _, by decide⟩
  exact absurd hheld (by decide)

-- and the other way about: the check refuses what lies below the literal front of a glob
example : hits "src/readme".toList "src/**/*.py".toList = false ∧
    isProtected (List.map Char.toLower) "src/readme".toList ["src/**/*.py".toList] = true := by
  decide

end Scope
end SwFactory
