import SwFactory.Lexical.Regex
import SwFactory.Lexical.Pieces
import SwFactory.Harness.Observation
import SwFactory.Machine.Fallible

/-!
# Quotes and excerpts of an observation

The ranges that are quoted are ranges of lines, each behind the one before it, so
that the verification of the quotes never fails.

A text of a secret shape that stands inside the lines of an excerpt makes the
excerpt match by itself.  A text that stands there only in part goes across the end
of a line, and only the assignment shape goes across the end of a line.

Sources: `harness_efficiency.py` (`verify_quotes`, `_merge`, `_quote_ranges`,
`_GENERIC_SECRET_ASSIGNMENT`, `_sensitivity_kinds`) and `scm.py` (`SECRET_PATTERNS`).
-/

namespace SwFactory
namespace Harness

open Lexical
open Lexical.Regex
open Machine

/-! ## Ranges of lines -/

/-- A range of lines that is not empty. -/
def Range.Within (n : Nat) (range : Range) : Prop :=
  range.1 < range.2 ∧ range.2 ≤ n

/-- Ranges of lines, each behind the one before it. -/
structure Apart (n : Nat) (ranges : List Range) : Prop where
  within : ∀ range ∈ ranges, range.Within n
  ordered : ranges.Pairwise (fun a b => a.2 < b.1)

section Merging

variable {n : Nat}

/-- Merging keeps the ranges that begin behind the one in hand apart. -/
theorem mergeFrom_spec {last : Range} {rest : List Range} (hlast : last.Within n)
    (hrest : ∀ range ∈ rest, range.Within n) (hsorted : (last :: rest).Pairwise Range.le) :
    Apart n (mergeFrom last rest) ∧ ∀ range ∈ mergeFrom last rest, last.1 ≤ range.1 := by
  induction rest generalizing last with
  | nil =>
      have hself : ∀ range ∈ [last], range = last := fun _ h => List.mem_singleton.mp h
      exact ⟨⟨fun range h => hself range h ▸ hlast, List.pairwise_singleton _ _⟩,
        fun range h => hself range h ▸ le_rfl⟩
  | cons range rest ih =>
      obtain ⟨hrange, hrest⟩ := List.forall_mem_cons.mp hrest
      obtain ⟨hbefore, hsorted⟩ := List.pairwise_cons.mp hsorted
      have hfirst : last.1 ≤ range.1 := by
        have hle := hbefore range List.mem_cons_self
        unfold Range.le at hle
        omega
      unfold mergeFrom
      split
      · next hgap =>
          obtain ⟨hapart, hbehind⟩ := ih hrange hrest hsorted
          refine ⟨⟨List.forall_mem_cons.mpr ⟨hlast, hapart.within⟩, List.pairwise_cons.mpr
            ⟨fun r hr => lt_of_lt_of_le hgap (hbehind r hr), hapart.ordered⟩⟩, ?_⟩
          exact List.forall_mem_cons.mpr ⟨le_rfl, fun r hr => hfirst.trans (hbehind r hr)⟩
      · next hjoin =>
          obtain ⟨hrangeLt, hrangeLe⟩ := hrange
          obtain ⟨hlastLt, hlastLe⟩ := hlast
          have hjoined : Range.Within n (last.1, max last.2 range.2) :=
            ⟨lt_of_lt_of_le hlastLt (le_max_left _ _), max_le hlastLe hrangeLe⟩
          refine ih hjoined hrest (List.pairwise_cons.mpr ⟨fun r hr => ?_, ?_⟩)
          · have hle := hbefore r (List.mem_cons_of_mem _ hr)
            have hle' := (List.pairwise_cons.mp hsorted).1 r hr
            unfold Range.le at hle hle' ⊢
            dsimp only
            omega
          · exact (List.pairwise_cons.mp hsorted).2

instance : Std.Total Range.le where
  total a b := by
    unfold Range.le
    omega

instance : IsTrans Range Range.le where
  trans a b c := by
    unfold Range.le
    omega

/-- Merged ranges are apart. -/
theorem merge_spec {ranges : List Range} (h : ∀ range ∈ ranges, range.Within n) :
    Apart n (merge ranges) := by
  have hmem : ∀ range ∈ ranges.insertionSort Range.le, range.Within n :=
    fun range hrange => h range ((List.mem_insertionSort _).mp hrange)
  have hsorted := List.pairwise_insertionSort Range.le ranges
  unfold merge
  cases hs : ranges.insertionSort Range.le with
  | nil => exact ⟨by rintro _ ⟨⟩, List.Pairwise.nil⟩
  | cons first rest =>
      rw [hs] at hmem hsorted
      obtain ⟨hfirst, hrest⟩ := List.forall_mem_cons.mp hmem
      exact (mergeFrom_spec hfirst hrest hsorted).1

end Merging

section Quoting

variable {word : Char → Bool}
variable {lines : List Text}

/-- The candidates end with the last line at most. -/
theorem candidateRanges_le {range : Range} (h : range ∈ candidateRanges word lines) :
    range.2 ≤ lines.length := by
  rcases List.mem_append.mp h with h | h
  · have hwithin : ∀ range ∈ (lines.zipIdx.filter (fun e => isErrorLine word e.1)).map
        (fun e => (e.2 - 2, min lines.length (e.2 + 3))), Range.Within lines.length range := by
      intro range hrange
      obtain ⟨e, he, rfl⟩ := List.mem_map.mp hrange
      have hlt := List.snd_lt_of_mem_zipIdx (List.mem_of_mem_filter he)
      exact ⟨by dsimp only; omega, min_le_left _ _⟩
    exact ((merge_spec hwithin).within range (List.mem_reverse.mp h)).2
  · simp only [List.mem_cons, List.not_mem_nil, or_false] at h
    rcases h with rfl | rfl
    · exact le_rfl
    · exact min_le_right _ _

/-- Where no line names an error, the candidates are the tail and the head. -/
theorem candidateRanges_of_clean (h : ∀ line ∈ lines, isErrorLine word line = false) :
    candidateRanges word lines = [(lines.length - 24, lines.length), (0, min 5 lines.length)] := by
  have hnone : lines.zipIdx.filter (fun e => isErrorLine word e.1) = [] := by
    refine List.filter_eq_nil_iff.mpr fun e he => ?_
    rw [h e.1 (List.fst_mem_of_mem_zipIdx he)]
    exact Bool.false_ne_true
  rw [candidateRanges, hnone]
  rfl

/-- A round selects the range at hand or nothing, and no empty range. -/
theorem select_within {s : List Range × Nat} (hs : ∀ r ∈ s.1, r.Within lines.length)
    {range : Range} (hrange : range.2 ≤ lines.length) :
    ∀ r ∈ (select lines s range).1, r.Within lines.length := by
  unfold select
  extract_lets cost
  split
  · exact hs
  · next hne =>
      split
      · exact hs
      · split
        · exact hs
        · intro r hr
          rcases List.mem_append.mp hr with hr | hr
          · exact hs r hr
          · rw [List.mem_singleton.mp hr]
            exact ⟨Nat.lt_of_not_le hne, hrange⟩

theorem foldl_select_within {ranges : List Range} {s : List Range × Nat}
    (hs : ∀ r ∈ s.1, r.Within lines.length) (hranges : ∀ r ∈ ranges, r.2 ≤ lines.length) :
    ∀ r ∈ (ranges.foldl (select lines) s).1, r.Within lines.length := by
  induction ranges generalizing s with
  | nil => exact hs
  | cons range ranges ih =>
      obtain ⟨hrange, hranges⟩ := List.forall_mem_cons.mp hranges
      exact ih (select_within hs hrange) hranges

/-- The selected ranges are apart. -/
theorem selectedRanges_apart : Apart lines.length (selectedRanges word lines) :=
  merge_spec (foldl_select_within (by rintro _ ⟨⟩) fun _ h => candidateRanges_le h)

/-- The quotes of ranges pass the verification. -/
theorem verifyQuotes_ok {source : Text} {ranges : List Range}
    (h : ∀ range ∈ ranges, range.Within (splitlines source).length) :
    verifyQuotes source (ranges.map (quoteOf (splitlines source))) = .ok () := by
  induction ranges with
  | nil => rfl
  | cons range ranges ih =>
      obtain ⟨⟨hlt, hle⟩, hranges⟩ := List.forall_mem_cons.mp h
      rw [List.map_cons, verifyQuotes, if_neg, if_neg, ih hranges]
      · exact not_not.mpr rfl
      · unfold quoteOf
        dsimp only
        omega

/-- The quotes are the selected ranges. -/
theorem quoteRanges_eq (source : Text) :
    quoteRanges word source = .ok ((selectedRanges word (splitlines source)).map
      (quoteOf (splitlines source))) := by
  have hapart : Apart (splitlines source).length (selectedRanges word (splitlines source)) :=
    selectedRanges_apart
  unfold quoteRanges
  dsimp only
  split
  · next hempty =>
      have hnone : selectedRanges word (splitlines source) = [] := by
        refine List.eq_nil_iff_forall_not_mem.mpr fun range hrange => ?_
        obtain ⟨hlt, hle⟩ := hapart.within range hrange
        rw [hempty] at hle
        exact absurd hlt (by simp only [List.length_nil] at hle; omega)
      rw [hnone, List.map_nil]
  · rw [verifyQuotes_ok hapart.within]
    rfl

/-- Each quote is the lines that it names, and each stands behind the one before it. -/
structure QuotesExact (source : Text) (quotes : List Quote) : Prop where
  exact : ∀ quote ∈ quotes, 1 ≤ quote.startLine ∧ quote.startLine ≤ quote.endLine ∧
    quote.endLine ≤ (splitlines source).length ∧
    quote.text = excerpt (splitlines source) (quote.startLine - 1, quote.endLine)
  ordered : quotes.Pairwise (fun a b => a.endLine < b.startLine)

/-- Quotes of ranges that are apart are exact, also when some are left out. -/
theorem quotesExact_filter {source : Text} {ranges : List Range}
    (h : Apart (splitlines source).length ranges) (keep : Quote → Bool) :
    QuotesExact source ((ranges.map (quoteOf (splitlines source))).filter keep) where
  exact quote hquote := by
    obtain ⟨range, hrange, rfl⟩ := List.mem_map.mp (List.mem_of_mem_filter hquote)
    obtain ⟨hlt, hle⟩ := h.within range hrange
    exact ⟨Nat.le_add_left 1 _, hlt, hle, rfl⟩
  ordered := by
    refine List.Pairwise.filter _ (List.pairwise_map.mpr (h.ordered.imp fun hab => ?_))
    exact hab.trans (Nat.lt_succ_self _)

end Quoting

/-! ## Shapes and boundaries of lines -/

section Shapes

/-- The character ends no line. -/
def Unbroken (c : Char) : Prop :=
  isLineBreak c = false

instance : DecidablePred Unbroken :=
  fun _ => inferInstanceAs (Decidable (_ = _))

theorem unbroken_of_all {text : Text} (h : text.all (fun c => decide (Unbroken c)) = true) :
    ∀ c ∈ text, Unbroken c :=
  fun c hc => of_decide_eq_true (List.all_eq_true.mp h c hc)

theorem isSpace_of_isLineBreak {c : Char} (h : isLineBreak c = true) : Text.isSpace c = true := by
  simp only [isLineBreak, Text.isSpace, List.contains_cons, List.contains_nil, Bool.or_eq_true,
    Bool.and_eq_true, decide_eq_true_eq, beq_iff_eq, Bool.or_false] at h ⊢
  omega

theorem unbroken_of_not_isSpace {c : Char} (h : (!Text.isSpace c) = true) : Unbroken c := by
  refine Bool.eq_false_iff.mpr fun hc => ?_
  rw [isSpace_of_isLineBreak hc] at h
  cases h

/-- The numbers of the characters that end a line. -/
theorem toNat_of_isLineBreak {c : Char} (h : isLineBreak c = true) :
    c.toNat ≤ 0x1e ∨ 0x85 ≤ c.toNat := by
  simp only [isLineBreak, List.contains_cons, List.contains_nil, Bool.or_eq_true,
    Bool.and_eq_true, decide_eq_true_eq, beq_iff_eq, Bool.or_false] at h
  omega

theorem unbroken_of_isAlnum {c : Char} (h : isAlnum c = true) : Unbroken c := by
  refine Bool.eq_false_iff.mpr fun hc => ?_
  have hcode := toNat_of_isLineBreak hc
  simp only [isAlnum, isUpper, isDigit, Bool.or_eq_true, Bool.and_eq_true, decide_eq_true_eq,
    Char.le_def, UInt32.le_iff_toNat_le] at h
  have hval : c.val.toNat = c.toNat := rfl
  have h0 : ('0' : Char).val.toNat = 48 := rfl
  have h9 : ('9' : Char).val.toNat = 57 := rfl
  have hA : ('A' : Char).val.toNat = 65 := rfl
  have hZ : ('Z' : Char).val.toNat = 90 := rfl
  have ha : ('a' : Char).val.toNat = 97 := rfl
  have hz : ('z' : Char).val.toNat = 122 := rfl
  omega

theorem over_alnumOr {others : String} (h : ∀ c ∈ others.toList, Unbroken c) :
    Over Unbroken (alnumOr others) := by
  intro c hc
  rcases Bool.or_eq_true_iff.mp hc with hc | hc
  · exact unbroken_of_isAlnum hc
  · exact h c (List.contains_iff_mem.mp hc)

theorem over_atLeastTimes {n : Nat} {r : Regex} (h : Over Unbroken r) :
    Over Unbroken (atLeastTimes n r) :=
  ⟨over_times h, h, trivial⟩

theorem toLower_of_isLineBreak {c : Char} (h : isLineBreak c = true) : c.toLower = c := by
  have hcode := toNat_of_isLineBreak h
  unfold Char.toLower
  rw [dif_neg]
  rintro ⟨hge, hle⟩
  have hge : 65 ≤ c.toNat := hge
  have hle : c.toNat ≤ 90 := hle
  omega

theorem over_anyCase {text : String} (h : ∀ letter ∈ text.toList, Unbroken letter) :
    Over Unbroken (anyCase text) := by
  refine over_chain fun r hr => ?_
  obtain ⟨letter, hletter, rfl⟩ := List.mem_map.mp hr
  intro c hc
  refine Bool.eq_false_iff.mpr fun hbreak => ?_
  have hcode := toNat_of_isLineBreak hbreak
  rw [sameLetter, toLower_of_isLineBreak hbreak] at hc
  simp only [Bool.or_eq_true, Bool.and_eq_true, beq_iff_eq] at hc
  rcases hc with ((rfl | ⟨-, rfl | rfl⟩) | ⟨-, rfl⟩) | ⟨-, rfl⟩
  · exact absurd hbreak (by rw [h c hletter]; exact Bool.false_ne_true)
  · revert hbreak; decide
  · revert hbreak; decide
  · revert hbreak; decide
  · revert hbreak; decide

/-- Only the assignment shape reads a boundary of lines. -/
theorem over_secretPatterns : ∀ e ∈ secretPatterns, Over Unbroken e.2 := by
  have hchars : ∀ text ∈ ["AKIA", "sk-ant-", "ghp_", "github_pat_", "-----BEGIN ",
      "PRIVATE KEY-----", "AIza", "xox", "-"],
      text.toList.all (fun c => decide (Unbroken c)) = true := by
    decide
  have hlit := fun text htext => over_lit (unbroken_of_all (hchars text htext))
  have hothers : ∀ others ∈ ["_-", "", "_", "-"],
      others.toList.all (fun c => decide (Unbroken c)) = true := by
    decide
  have halnum := fun others hmem => over_alnumOr (unbroken_of_all (hothers others hmem))
  have hletters : Over Unbroken (.oneOf "baprs") := over_oneOf (unbroken_of_all (by decide))
  have hupper : Over Unbroken (.many (.one (fun c => isUpper c || c == ' '))) := by
    intro c hc
    rcases Bool.or_eq_true_iff.mp hc with hc | hc
    · exact unbroken_of_isAlnum (by simp [isAlnum, hc])
    · rw [beq_iff_eq.mp hc]
      rfl
  have hdigit : Over Unbroken (.one (fun c => isDigit c || isUpper c)) := by
    intro c hc
    refine unbroken_of_isAlnum ?_
    rcases Bool.or_eq_true_iff.mp hc with hc | hc <;> simp [isAlnum, hc]
  simp only [List.forall_mem_cons, List.not_mem_nil, false_implies, implies_true, and_true]
    at hlit halnum
  obtain ⟨hakia, hant, hghp, hpat, hbegin, hkey, haiza, hxox, hdash⟩ := hlit
  obtain ⟨hub, hnone, hu, hb⟩ := halnum
  simp only [secretPatterns, List.forall_mem_cons, List.not_mem_nil, false_implies, implies_true,
    and_true]
  refine ⟨over_chain ?_, over_chain ?_, over_chain ?_, over_chain ?_, over_chain ?_, over_chain ?_,
    over_chain ?_⟩ <;> simp only [List.forall_mem_cons, List.not_mem_nil, false_implies,
      implies_true, and_true]
  · exact ⟨hakia, over_times hdigit⟩
  · exact ⟨hant, over_atLeastTimes hub⟩
  · exact ⟨hghp, over_times hnone⟩
  · exact ⟨hpat, over_atLeastTimes hu⟩
  · exact ⟨hbegin, hupper, hkey⟩
  · exact ⟨haiza, over_times hub⟩
  · exact ⟨hxox, hletters, hdash, over_atLeastTimes hb⟩

theorem over_assignmentKey : Over Unbroken assignmentKey := by
  have hletters : ∀ text ∈ ["api", "key", "access", "token", "auth", "secret", "password",
      "passwd", "private"], text.toList.all (fun c => decide (Unbroken c)) = true := by
    decide
  have hwords := fun text htext => over_anyCase (unbroken_of_all (hletters text htext))
  have hmiddle : Over Unbroken (.maybe (.oneOf "_-")) :=
    ⟨over_oneOf (unbroken_of_all (by decide)), trivial⟩
  simp only [List.forall_mem_cons, List.not_mem_nil, false_implies, implies_true, and_true]
    at hwords
  obtain ⟨hapi, hkey, haccess, htoken, hauth, hsecret, hpassword, hpasswd, hprivate⟩ := hwords
  refine over_anyOf ?_
  simp only [List.forall_mem_cons, List.not_mem_nil, false_implies, implies_true, and_true]
  have htwo : ∀ {front back}, Over Unbroken front → Over Unbroken back →
      Over Unbroken (.chain [front, .maybe (.oneOf "_-"), back]) :=
    fun hfront hback => ⟨hfront, hmiddle, hback, trivial⟩
  exact ⟨htwo hapi hkey, htwo haccess htoken, htwo hauth htoken, hsecret, hpassword, hpasswd,
    htwo hprivate hkey⟩

theorem plain_shapes : ∀ e ∈ shapes, plain e.2 = true := by
  decide

/-- An assignment whose boundaries are broken anew is one. -/
theorem takes_assignment_rebroken {m m' : Text} (h : Takes genericSecretAssignment m)
    (hm : Rebroken m m') : Takes genericSecretAssignment m' := by
  obtain ⟨key, back, rfl, hkey, gap, back, rfl, hgap, mark, back, rfl, hmark, gap', back, rfl,
    hgap', value, back, rfl, hvalue, rfl⟩ := h
  obtain ⟨key', back', rfl, hkey', hm⟩ := hm.exists_of_append
  obtain ⟨space, back', rfl, hspace, hm⟩ := hm.exists_of_append
  obtain ⟨mark', back', rfl, hmark', hm⟩ := hm.exists_of_append
  obtain ⟨space', back', rfl, hspace', hm⟩ := hm.exists_of_append
  have hover : Over Unbroken (atLeastTimes 8 (.one (fun c => !Text.isSpace c))) :=
    over_atLeastTimes fun _ hc => unbroken_of_not_isSpace hc
  have hmarks : Over Unbroken (.oneOf ":=") := over_oneOf (unbroken_of_all (by decide))
  rw [List.append_nil] at hm
  rw [hkey'.eq_of_unbroken (over_assignmentKey.forall hkey),
    hmark'.eq_of_unbroken (hmarks.forall hmark), hm.eq_of_unbroken (hover.forall hvalue)]
  have hfeed : Text.isSpace '\n' = true := by decide
  exact ⟨key, _, rfl, hkey, space, _, rfl,
    takes_many_one_iff.mpr (hspace.forall_mem hfeed (takes_many_one_iff.mp hgap)),
    mark, _, rfl, hmark, space', _, rfl,
    takes_many_one_iff.mpr (hspace'.forall_mem hfeed (takes_many_one_iff.mp hgap')),
    value, [], (List.append_nil _).symm, hvalue, rfl⟩

end Shapes

/-! ## Secrets -/

section Secrets

variable {word : Char → Bool}

variable (word) in
/-- Some shape takes the text. -/
def IsSecret (m : Text) : Prop :=
  ∃ e ∈ shapes, fullMatch word e.2 m = true

theorem sensitivityKinds_ne_nil_iff (text : Text) :
    sensitivityKinds word text ≠ [] ↔ ∃ m, m <:+: text ∧ IsSecret word m := by
  have hkinds : sensitivityKinds word text ≠ [] ↔ ∃ e ∈ shapes, e.2.found word text = true := by
    rw [Ne, ← List.length_eq_zero_iff, sensitivityKinds, List.length_insertionSort,
      List.length_map, List.length_eq_zero_iff, List.filter_eq_nil_iff]
    push Not
    rfl
  rw [hkinds]
  constructor
  · rintro ⟨e, he, hfound⟩
    obtain ⟨m, hm, htakes⟩ := (found_iff word (plain_shapes e he) text).mp hfound
    exact ⟨m, hm, e, he, (fullMatch_iff word (plain_shapes e he) m).mpr htakes⟩
  · rintro ⟨m, hm, e, he, htakes⟩
    exact ⟨e, he, (found_iff word (plain_shapes e he) text).mpr
      ⟨m, hm, (fullMatch_iff word (plain_shapes e he) m).mp htakes⟩⟩

/-- A secret across the end of a line is an assignment. -/
theorem IsSecret.assignment {m : Text} (h : IsSecret word m) (hm : ¬ ∀ c ∈ m, Unbroken c) :
    fullMatch word genericSecretAssignment m = true := by
  obtain ⟨e, he, htakes⟩ := h
  rcases List.mem_append.mp he with hpattern | hgeneric
  · have htakes := (fullMatch_iff word (plain_shapes e he) m).mp htakes
    exact absurd ((over_secretPatterns e hpattern).forall htakes) hm
  · rwa [List.mem_singleton.mp hgeneric] at htakes

theorem IsSecret.of_assignment {m : Text} (h : fullMatch word genericSecretAssignment m = true) :
    IsSecret word m :=
  ⟨_, List.mem_append_right _ (List.mem_singleton_self _), h⟩

/-- A secret whose boundaries are broken anew is one. -/
theorem IsSecret.rebroken {m m' : Text} (h : IsSecret word m) (hm : Rebroken m m') :
    IsSecret word m' := by
  by_cases hlines : ∀ c ∈ m, Unbroken c
  · rwa [hm.eq_of_unbroken hlines]
  · have hplain : plain genericSecretAssignment = true := by decide
    have htakes := (fullMatch_iff word hplain m).mp (h.assignment hlines)
    exact .of_assignment ((fullMatch_iff word hplain m').mpr (takes_assignment_rebroken htakes hm))

end Secrets

/-! ## The place of an excerpt -/

section Places

/-- Where a line begins. -/
def lineStart (source : Text) (k : Nat) : Nat :=
  (joined ((pieces source).take k)).length

/-- Where a line ends, in front of its boundary. -/
def lineEnd (source : Text) (k : Nat) : Nat :=
  lineStart source k + ((splitlines source)[k]?.getD []).length

/-- The position stands in the lines of a range. -/
def InLines (source : Text) (range : Range) (k : Nat) : Prop :=
  lineStart source range.1 ≤ k ∧ k < lineEnd source (range.2 - 1)

/-- The text stands at a position of the source. -/
def StandsAt (source m : Text) (i : Nat) : Prop :=
  ∃ front back, source = front ++ m ++ back ∧ front.length = i

/-- The lines of a range hold a character of what stands at a position. -/
def Overlaps (source : Text) (range : Range) (m : Text) (i : Nat) : Prop :=
  ∃ k, i ≤ k ∧ k < i + m.length ∧ InLines source range k

/-- The lines of a range hold all characters of what stands at a position. -/
def Inside (source : Text) (range : Range) (m : Text) (i : Nat) : Prop :=
  ∀ k, i ≤ k → k < i + m.length → InLines source range k

/-- The source around the lines of a range. -/
structure Around (source : Text) (range : Range) (front lines back : Text) : Prop where
  whole : source = front ++ (lines ++ back)
  start : lineStart source range.1 = front.length
  stop : lineEnd source (range.2 - 1) = front.length + lines.length
  excerpt : Rebroken lines (excerpt (splitlines source) range)
  before : ∀ c ∈ front.getLast?, isLineBreak c = true
  behind : ∀ c ∈ back.head?, isLineBreak c = true

/-- The lines of a range stand between boundaries. -/
theorem exists_around {source : Text} {range : Range}
    (h : range.Within (splitlines source).length) :
    ∃ front lines back, Around source range front lines back := by
  obtain ⟨a, b⟩ := range
  obtain ⟨hlt, hle⟩ := h
  have hlines := splitlines_eq source
  rw [hlines, List.length_map] at hle
  dsimp only at hlt hle
  obtain ⟨n, rfl⟩ : ∃ n, b = a + n + 1 := ⟨b - a - 1, by omega⟩
  have hn : a + n < (pieces source).length := hle
  have hjoined : source = joined (pieces source) := (joined_pieces source).symm
  have hsound := sound_pieces source
  -- The pieces before the range, those in front of its last one, this one and the rest.
  obtain ⟨before, inner, last, behind, hps, hbefore, hinner⟩ :
      ∃ before inner last behind, pieces source = before ++ (inner ++ last :: behind) ∧
        before.length = a ∧ inner.length = n := by
    refine ⟨(pieces source).take a, ((pieces source).drop a).take n, (pieces source)[a + n],
      (pieces source).drop (a + n + 1), ?_, ?_, ?_⟩
    · rw [List.getElem_cons_drop, ← List.drop_drop, List.take_append_drop, List.take_append_drop]
    · rw [List.length_take]
      omega
    · rw [List.length_take, List.length_drop]
      omega
  rw [hps] at hjoined hlines hsound
  refine ⟨joined before, joined inner ++ last.1, last.2 ++ joined behind, ?_, ?_, ?_, ?_, ?_, ?_⟩
  · rw [hjoined]
    simp [joined]
  · rw [lineStart, hps, List.take_left' hbefore]
  · have htake : (before ++ (inner ++ last :: behind)).take (a + n) = before ++ inner := by
      rw [← List.append_assoc, List.take_left' (by rw [List.length_append, hbefore, hinner])]
    have hget : (before ++ (inner ++ last :: behind))[a + n]? = some last := by
      rw [← hbefore, ← hinner, ← List.length_append, ← List.append_assoc]
      simp
    rw [lineEnd, lineStart, hlines, hps, Nat.add_sub_cancel, htake, List.getElem?_map, hget,
      joined_append, List.length_append, List.length_append]
    exact Nat.add_assoc _ _ _
  · have hslice : (inner ++ last :: behind).take (a + n + 1 - a) = inner ++ [last] := by
      rw [List.append_cons]
      refine List.take_left' ?_
      rw [List.length_append, hinner, List.length_singleton]
      omega
    rw [excerpt, hlines, ← List.map_drop, ← List.map_take, List.drop_left' hbefore, hslice]
    have hright := hsound.right
    rw [List.append_cons] at hright
    exact Rebroken.intercalate hright.left
  · exact hsound.isLineBreak_getLast (by simp)
  · exact hsound.right.right.isLineBreak_head

/-- What stands at a position puts its characters there. -/
theorem StandsAt.exists_getElem? {source m : Text} {i k : Nat} (h : StandsAt source m i)
    (hk : i ≤ k) (hk' : k < i + m.length) : ∃ c ∈ m, source[k]? = some c := by
  obtain ⟨front, back, rfl, rfl⟩ := h
  obtain ⟨j, rfl⟩ := Nat.exists_eq_add_of_le hk
  have hj : j < m.length := by omega
  refine ⟨m[j], List.getElem_mem hj, ?_⟩
  rw [List.append_assoc, List.getElem?_append_right (by omega), Nat.add_sub_cancel_left,
    List.getElem?_append_left hj, List.getElem?_eq_getElem hj]

/-- What stands inside the lines is a part of them. -/
theorem Around.infix_of_inside {source front lines back m : Text} {range : Range} {i : Nat}
    (h : Around source range front lines back) (hm : StandsAt source m i) (hne : m ≠ [])
    (hinside : Inside source range m i) : m <:+: lines := by
  obtain ⟨u, v, hsource, rfl⟩ := hm
  have hpos := List.length_pos_of_ne_nil hne
  have hfirst := (hinside u.length le_rfl (by omega)).1
  have hlast := (hinside (u.length + m.length - 1) (by omega) (by omega)).2
  rw [h.start] at hfirst
  rw [h.stop] at hlast
  have heq : front ++ (lines ++ back) = u ++ (m ++ v) := by
    rw [← h.whole, hsource, List.append_assoc]
  obtain ⟨w, rfl⟩ : front <+: u :=
    List.prefix_of_prefix_length_le (List.prefix_append front (lines ++ back))
      (heq ▸ List.prefix_append u (m ++ v)) hfirst
  rw [List.append_assoc] at heq
  have hlines : (w ++ m) <+: lines := by
    refine List.prefix_of_prefix_length_le ?_ (List.prefix_append lines back) ?_
    · rw [List.append_cancel_left heq, ← List.append_assoc]
      exact List.prefix_append _ _
    · rw [List.length_append] at hlast ⊢
      omega
  exact (List.suffix_append w m).isInfix.trans hlines.isInfix

/-- What stands in the lines only in part goes across the end of a line. -/
theorem Around.exists_isLineBreak {source front lines back m : Text} {range : Range} {i : Nat}
    (h : Around source range front lines back) (hm : StandsAt source m i)
    (hoverlap : Overlaps source range m i) (hinside : ¬ Inside source range m i) :
    ∃ c ∈ m, isLineBreak c = true := by
  obtain ⟨k, hik, hkm, hstart, hstop⟩ := hoverlap
  rw [h.start] at hstart
  rw [h.stop] at hstop
  obtain ⟨j, hij, hjm, hout⟩ : ∃ j, i ≤ j ∧ j < i + m.length ∧
      (j < front.length ∨ front.length + lines.length ≤ j) := by
    simp only [Inside, InLines, h.start, h.stop, not_forall, not_and_or, not_le, not_lt] at hinside
    obtain ⟨j, hij, hjm, hout⟩ := hinside
    exact ⟨j, hij, hjm, hout⟩
  rcases hout with hbefore | hbehind
  · obtain ⟨c, hc, hget⟩ := hm.exists_getElem? (k := front.length - 1) (by omega) (by omega)
    refine ⟨c, hc, h.before c ?_⟩
    rw [h.whole, List.getElem?_append_left (by omega)] at hget
    rwa [Option.mem_def, List.getLast?_eq_getElem?]
  · obtain ⟨c, hc, hget⟩ := hm.exists_getElem? (k := front.length + lines.length) (by omega)
      (by omega)
    refine ⟨c, hc, h.behind c ?_⟩
    rw [h.whole, List.getElem?_append_right (by omega), Nat.add_sub_cancel_left,
      List.getElem?_append_right le_rfl, Nat.sub_self] at hget
    rwa [Option.mem_def, List.head?_eq_getElem?]

end Places

end Harness
end SwFactory
