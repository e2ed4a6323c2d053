import SwFactory.Harness.Excerpts

/-!
# What a packed observation exposes

The quotes of a packed observation are exactly the lines that they name, and the
prompt of a source with a secret holds no part of it, as long as no assignment goes
across the edge of a quoted range.

Source: `harness_efficiency.py` (`pack_failure_observation`).
-/

namespace SwFactory
namespace Harness

open Lexical
open Lexical.Regex

section Exposure

variable {word : Char → Bool}
variable {source : Text}
variable {range : Range}

variable (word) in
/-- The lines hold a part of a secret of the source. -/
def Exposes (source : Text) (range : Range) : Prop :=
  ∃ m i, StandsAt source m i ∧ IsSecret word m ∧ Overlaps source range m i

variable (word) in
/-- An assignment that goes on behind the end of a line stands in the lines, but only in part. -/
def Cuts (source : Text) (range : Range) : Prop :=
  ∃ m i, StandsAt source m i ∧ fullMatch word genericSecretAssignment m = true ∧
    (∃ c ∈ m, isLineBreak c = true) ∧ Overlaps source range m i ∧ ¬ Inside source range m i

/-- A secret inside the lines of an excerpt makes the excerpt match by itself. -/
theorem sensitivityKinds_excerpt (hrange : range.Within (splitlines source).length) {m : Text}
    {i : Nat} (hm : StandsAt source m i) (hsecret : IsSecret word m) (hne : m ≠ [])
    (hinside : Inside source range m i) :
    sensitivityKinds word (excerpt (splitlines source) range) ≠ [] := by
  obtain ⟨front, lines, back, haround⟩ := exists_around hrange
  obtain ⟨u, v, rfl⟩ := haround.infix_of_inside hm hne hinside
  obtain ⟨um', v', hexcerpt, hum, -⟩ := haround.excerpt.exists_of_append
  obtain ⟨u', m', rfl, -, hm'⟩ := hum.exists_of_append
  exact (sensitivityKinds_ne_nil_iff _).mpr
    ⟨m', ⟨u', v', hexcerpt.symm⟩, hsecret.rebroken hm'⟩

/-- An excerpt that does not match by itself exposes what its edges cut. -/
theorem exposes_iff (hrange : range.Within (splitlines source).length)
    (hclean : sensitivityKinds word (excerpt (splitlines source) range) = []) :
    Exposes word source range ↔ Cuts word source range := by
  constructor
  · rintro ⟨m, i, hm, hsecret, hoverlap⟩
    have hne : m ≠ [] := by
      rintro rfl
      obtain ⟨k, hik, hkm, -⟩ := hoverlap
      exact absurd hkm (Nat.not_lt.mpr hik)
    have hcut : ¬ Inside source range m i :=
      fun hinside => sensitivityKinds_excerpt hrange hm hsecret hne hinside hclean
    obtain ⟨front, lines, back, haround⟩ := exists_around hrange
    obtain ⟨c, hc, hbreak⟩ := haround.exists_isLineBreak hm hoverlap hcut
    refine ⟨m, i, hm, hsecret.assignment fun h => ?_, ⟨c, hc, hbreak⟩, hoverlap, hcut⟩
    exact Bool.false_ne_true ((h c hc).symm.trans hbreak)
  · rintro ⟨m, i, hm, htakes, -, hoverlap, -⟩
    exact ⟨m, i, hm, .of_assignment htakes, hoverlap⟩

variable (word) in
/--
The quotes are exact, and where the source holds a secret, the prompt is made of
quotes that hold no part of one.
-/
structure PackedObservation.Safe (source : Text) (packed : PackedObservation) : Prop where
  exact : QuotesExact source packed.quotes
  clean : packed.ref.sensitivityKinds ≠ [] →
    packed.promptText = reducedPrompt packed.ref packed.quotes ∧
      ∀ quote ∈ packed.quotes, ¬ Exposes word source (quote.startLine - 1, quote.endLine)

variable (word) in
/-- Where the source holds a secret, no quoted range without a match of its own cuts an assignment. -/
def UncutAssignments (source : Text) : Prop :=
  sensitivityKinds word source ≠ [] → ∀ range ∈ selectedRanges word (splitlines source),
    sensitivityKinds word (excerpt (splitlines source) range) = [] → ¬ Cuts word source range

/-- A failure that is not small is packed, with the quotes of the selected ranges. -/
theorem Execution.pack_eq (sha256 : Text → Text) {x : Execution}
    (hlarge : 6000 < x.stdout.length ∨ 2000 < x.stderr.length) :
    x.pack word sha256 = .ok (some (x.packed word sha256
      ((selectedRanges word (splitlines x.source)).map (quoteOf (splitlines x.source))))) := by
  rw [Execution.pack, if_neg (by omega), quoteRanges_eq]
  rfl

/-- The quotes of ranges that are apart are safe where the ranges cut no assignment. -/
theorem PackedObservation.safe_iff {packed : PackedObservation} {ranges : List Range}
    (hapart : Apart (splitlines source).length ranges)
    (hkinds : packed.ref.sensitivityKinds = sensitivityKinds word source)
    (hquotes : packed.quotes = (ranges.map (quoteOf (splitlines source))).filter
      (fun quote => sensitivityKinds word quote.text = []))
    (hprompt : sensitivityKinds word source ≠ [] →
      packed.promptText = reducedPrompt packed.ref packed.quotes) :
    packed.Safe word source ↔
      (sensitivityKinds word source ≠ [] → ∀ range ∈ ranges,
        sensitivityKinds word (excerpt (splitlines source) range) = [] →
          ¬ Cuts word source range) := by
  constructor
  · intro hsafe hsecret range hrange hclean hcuts
    have hquote : quoteOf (splitlines source) range ∈ packed.quotes := by
      rw [hquotes]
      exact List.mem_filter.mpr ⟨List.mem_map_of_mem hrange, decide_eq_true hclean⟩
    exact (hsafe.clean (hkinds ▸ hsecret)).2 _ hquote
      ((exposes_iff (hapart.within range hrange) hclean).mpr hcuts)
  · intro h
    refine ⟨hquotes ▸ quotesExact_filter hapart _, fun hsecret => ?_⟩
    rw [hkinds] at hsecret
    refine ⟨hprompt hsecret, fun quote hquote hexposes => ?_⟩
    rw [hquotes] at hquote
    obtain ⟨hquote, hclean⟩ := List.mem_filter.mp hquote
    obtain ⟨range, hrange, rfl⟩ := List.mem_map.mp hquote
    have hclean := of_decide_eq_true hclean
    exact h hsecret range hrange hclean
      ((exposes_iff (hapart.within range hrange) hclean).mp hexposes)

section Packed

variable (sha256 : Text → Text)
variable (x : Execution)
variable (verified : List Quote)

theorem Execution.packed_ref : (x.packed word sha256 verified).ref = x.ref word sha256 := by
  unfold Execution.packed
  extract_lets
  split
  · rfl
  · split <;> rfl

theorem Execution.packed_quotes : (x.packed word sha256 verified).quotes =
    verified.filter (fun quote => sensitivityKinds word quote.text = []) := by
  unfold Execution.packed
  extract_lets
  split
  · rfl
  · split <;> rfl

theorem Execution.ref_sensitivityKinds :
    (x.ref word sha256).sensitivityKinds = sensitivityKinds word x.source := by
  unfold Execution.ref
  dsimp only

/-- The prompt of a source with a secret is the reduced one. -/
theorem Execution.packed_promptText (h : sensitivityKinds word x.source ≠ []) :
    (x.packed word sha256 verified).promptText = reducedPrompt
      (x.packed word sha256 verified).ref (x.packed word sha256 verified).quotes := by
  rw [x.packed_ref, x.packed_quotes]
  rw [← x.ref_sensitivityKinds sha256] at h
  unfold Execution.packed
  extract_lets
  rw [if_pos h]

end Packed

/--
A large failure is packed, and the packed observation is safe, exactly if no
quoted range cuts an assignment of a source with a secret.
-/
theorem packed_safe_iff
    (word : Char → Bool)
    (sha256 : Text → Text)
    (x : Execution)
    (hlarge : 6000 < x.stdout.length ∨ 2000 < x.stderr.length) :
    (∃ packed, x.pack word sha256 = .ok (some packed) ∧ packed.Safe word x.source) ↔
      UncutAssignments word x.source := by
  rw [x.pack_eq sha256 hlarge]
  simp only [Except.ok.injEq, Option.some.injEq, exists_eq_left']
  refine PackedObservation.safe_iff selectedRanges_apart ?_ (x.packed_quotes sha256 _)
    (x.packed_promptText sha256 _)
  rw [x.packed_ref, x.ref_sensitivityKinds]

end Exposure

/-! ## A password behind the end of a line -/

section Witness

/-- The word characters of a text without others. -/
def isWordChar (c : Char) : Bool :=
  c.isAlphanum || c == '_'

/-- The last lines begin behind the name of a password. -/
def cutExecution : Execution where
  command := "make".toList
  exitCode := 1
  timedOut := false
  stdout := []
  stderr := List.replicate 2001 '\n' ++ "password:\nhunter2hunter2\n".toList ++
    (List.replicate 23 "y\n".toList).flatten

theorem large_cut : 6000 < cutExecution.stdout.length ∨ 2000 < cutExecution.stderr.length := by
  refine Or.inr ?_
  rw [cutExecution, List.length_append, List.length_append, List.length_replicate]
  omega

theorem packed_safe_iff_cut :
    (∃ packed, cutExecution.pack isWordChar id = .ok (some packed) ∧
        packed.Safe isWordChar cutExecution.source) ↔
      UncutAssignments isWordChar cutExecution.source :=
  packed_safe_iff isWordChar id cutExecution large_cut

/-- The lines of the source. -/
def cutLines : List Text :=
  ["=== execution ===", "command: \"make\"", "exit_code: 1", "timed_out: false",
    "=== stdout ===", "", "=== stderr ==="].map String.toList ++
    (List.replicate 2001 [] ++
      ("password:".toList :: "hunter2hunter2".toList :: List.replicate 23 ['y']))

theorem splitlines_cut : splitlines cutExecution.source = cutLines := by
  decide +kernel

theorem isErrorLine_cut : ∀ line ∈ cutLines, isErrorLine isWordChar line = false := by
  have hrepeated : ∀ line ∈ [[], "password:".toList, "hunter2hunter2".toList, ['y']],
      isErrorLine isWordChar line = false := by
    decide
  simp only [List.forall_mem_cons, List.not_mem_nil, false_implies, implies_true, and_true]
    at hrepeated
  obtain ⟨hempty, hname, hvalue, hy⟩ := hrepeated
  refine List.forall_mem_append.mpr ⟨by decide, List.forall_mem_append.mpr ⟨?_, ?_⟩⟩
  · exact fun line hline => List.eq_of_mem_replicate hline ▸ hempty
  · exact List.forall_mem_cons.mpr ⟨hname, List.forall_mem_cons.mpr
      ⟨hvalue, fun line hline => List.eq_of_mem_replicate hline ▸ hy⟩⟩

theorem selectedRanges_cut : (2009, 2033) ∈ selectedRanges isWordChar cutLines := by
  have hlength : cutLines.length = 2033 := by
    rw [cutLines, List.length_append, List.length_append, List.length_cons, List.length_cons,
      List.length_replicate, List.length_replicate, List.length_map]
    rfl
  rw [selectedRanges, candidateRanges_of_clean isErrorLine_cut, hlength]
  decide +kernel

/-- The password stands behind its name, and the quoted range holds the password only. -/
theorem exposes_cut : Exposes isWordChar cutExecution.source (2009, 2033) := by
  have hplace : lineStart cutExecution.source 2009 = 2106 ∧
      2106 < lineEnd cutExecution.source 2032 := by
    decide +kernel
  have htext : (cutExecution.source.drop 2096).take 24 = "password:\nhunter2hunter2".toList := by
    decide +kernel
  have hlength : cutExecution.source.length = 2167 := by decide +kernel
  refine ⟨(cutExecution.source.drop 2096).take 24, 2096,
    ⟨cutExecution.source.take 2096, (cutExecution.source.drop 2096).drop 24, ?_, ?_⟩, ?_,
    2106, by decide, ?_, hplace.1.le, hplace.2⟩
  · rw [List.append_assoc, List.take_append_drop, List.take_append_drop]
  · rw [List.length_take, hlength]
    rfl
  · rw [htext]
    exact .of_assignment (by decide)
  · rw [htext]
    decide

/-- A large failure whose prompt holds the password of its source. -/
theorem packed_unsafe : ¬ ((6000 < cutExecution.stdout.length ∨ 2000 < cutExecution.stderr.length) →
    ∃ packed, cutExecution.pack isWordChar id = .ok (some packed) ∧
      packed.Safe isWordChar cutExecution.source) := by
  intro h
  obtain ⟨packed, hpack, hsafe⟩ := h large_cut
  rw [cutExecution.pack_eq id large_cut, splitlines_cut] at hpack
  have heq := Option.some.inj (Except.ok.inj hpack)
  have hclean : sensitivityKinds isWordChar (quoteOf cutLines (2009, 2033)).text = [] := by
    decide +kernel
  have hsecret : sensitivityKinds isWordChar cutExecution.source ≠ [] := by
    obtain ⟨m, i, ⟨front, back, hsource, -⟩, hm, -⟩ := exposes_cut
    exact (sensitivityKinds_ne_nil_iff _).mpr ⟨m, ⟨front, back, hsource.symm⟩, hm⟩
  have hkinds : packed.ref.sensitivityKinds ≠ [] := by
    rwa [← heq, cutExecution.packed_ref, cutExecution.ref_sensitivityKinds]
  have hquote : quoteOf cutLines (2009, 2033) ∈ packed.quotes := by
    rw [← heq, cutExecution.packed_quotes]
    exact List.mem_filter.mpr ⟨List.mem_map_of_mem selectedRanges_cut, decide_eq_true hclean⟩
  exact (hsafe.clean hkinds).2 _ hquote exposes_cut

end Witness

end Harness
end SwFactory
