import Mathlib.Data.List.DropRight
import Mathlib.Data.List.Infix
import Mathlib.Data.List.Perm.Subperm
import SwFactory.Promotion.Release
import SwFactory.Publication.Marker

/-!
# What the audit of a release guarantees

`reachable` is the closure of the needs.  The audit finds a call of a status
function that is spelled in lower case with its parenthesis directly behind it, and
no other spelling: a release without problems is gated by the evidence exactly where
all such calls are spelled that way.

Source: `promotion_policy.py` (`_reachable`, `audit_policy`).
-/

namespace SwFactory
namespace Promotion

open Machine
open Publication (Text splitWords contains Unbroken)

/-! ## The closure of the needs -/

section Closure

variable {jobs : Dict Text Job}
variable {reached : List Text}

/-- A pass adds jobs that need what is reached. -/
theorem visit_cases (reached : List Text) (entry : Text × Job) :
    visit reached entry = reached ∧
        (entry.1 ∈ reached ∨ ∀ name ∈ entry.2.needs, name ∉ reached) ∨
      visit reached entry = reached ++ [entry.1] ∧ entry.1 ∉ reached ∧
        ∃ name ∈ entry.2.needs, name ∈ reached := by
  unfold visit
  split
  · next h => exact Or.inl ⟨rfl, Or.inl h⟩
  · next hnew =>
      split
      · next h => exact Or.inr ⟨rfl, hnew, by simpa using h⟩
      · next h => exact Or.inl ⟨rfl, Or.inr (by simpa using h)⟩

theorem prefix_visit (reached : List Text) (entry : Text × Job) :
    reached <+: visit reached entry := by
  rcases visit_cases reached entry with ⟨hsame, -⟩ | ⟨hadded, -⟩
  · rw [hsame]
  · rw [hadded]
    exact List.prefix_append _ _

theorem prefix_pass (jobs : Dict Text Job) (reached : List Text) : reached <+: pass jobs reached := by
  induction jobs generalizing reached with
  | nil => exact List.prefix_rfl
  | cons entry rest ih => exact (prefix_visit reached entry).trans (ih (visit reached entry))

/-- What every visit keeps, a pass keeps. -/
theorem pass_induction {P : List Text → Prop} (hvisit : ∀ entry ∈ jobs, ∀ reached, P reached →
    P (visit reached entry)) (h : P reached) : P (pass jobs reached) := by
  induction jobs generalizing reached with
  | nil => exact h
  | cons entry rest ih =>
      obtain ⟨hfirst, hrest⟩ := List.forall_mem_cons.mp hvisit
      exact ih hrest (hfirst reached h)

theorem passes_induction {P : List Text → Prop} (hvisit : ∀ entry ∈ jobs, ∀ reached, P reached →
    P (visit reached entry)) (n : Nat) (h : P reached) : P (passes jobs n reached) := by
  induction n generalizing reached with
  | zero => exact h
  | succ n ih =>
      unfold passes
      split
      · exact h
      · exact ih (pass_induction hvisit h)

/-- Every job that needs a reached one is reached. -/
def Closed (jobs : Dict Text Job) (reached : List Text) : Prop :=
  ∀ entry ∈ jobs, ∀ name ∈ entry.2.needs, name ∈ reached → entry.1 ∈ reached

/-- A pass that changes nothing leaves the set closed. -/
theorem closed_of_pass (h : pass jobs reached = reached) : Closed jobs reached := by
  induction jobs with
  | nil => rintro entry ⟨⟩
  | cons entry rest ih =>
      have hkept : visit reached entry = reached := by
        have hback : visit reached entry <+: reached := by
          have := prefix_pass rest (visit reached entry)
          rwa [show pass rest (visit reached entry) = reached from h] at this
        exact hback.eq_of_length_le (prefix_visit reached entry).length_le
      have hrest : pass rest reached = reached := by
        have := h
        rwa [pass, List.foldl_cons, hkept] at this
      refine List.forall_mem_cons.mpr ⟨fun name hname hreached => ?_, ih hrest⟩
      rcases visit_cases reached entry with ⟨-, hmem | hnone⟩ | ⟨hadded, -⟩
      · exact hmem
      · exact absurd hreached (hnone name hname)
      · rw [hkept] at hadded
        exact absurd (congrArg List.length hadded) (by simp)

/-- Distinct jobs, the start among them. -/
structure Names (jobs : Dict Text Job) (start : Text) (reached : List Text) : Prop where
  nodup : reached.Nodup
  known : ∀ name ∈ reached, name ∈ start :: jobs.keys
  started : start ∈ reached
  needed : ∀ name ∈ reached, name = start ∨ Relation.TransGen (NeedsJob jobs) name start

theorem Names.visit {start : Text} (h : Names jobs start reached) {entry : Text × Job}
    (hentry : entry ∈ jobs) : Names jobs start (visit reached entry) := by
  rcases visit_cases reached entry with ⟨hsame, -⟩ | ⟨hadded, hnew, name, hneeds, hreached⟩
  · rwa [hsame]
  · rw [hadded]
    have hstep : NeedsJob jobs entry.1 name := ⟨entry.2, hentry, hneeds⟩
    have htrans : Relation.TransGen (NeedsJob jobs) entry.1 start := by
      rcases h.needed name hreached with rfl | hpath
      · exact .single hstep
      · exact .head hstep hpath
    constructor
    · exact List.nodup_append.mpr ⟨h.nodup, List.nodup_singleton _, fun a ha b hb heq =>
        hnew (List.mem_singleton.mp hb ▸ heq ▸ ha)⟩
    · intro a ha
      rcases List.mem_append.mp ha with ha | ha
      · exact h.known a ha
      · rw [List.mem_singleton.mp ha]
        exact List.mem_cons_of_mem _ (List.mem_map_of_mem hentry)
    · exact List.mem_append_left _ h.started
    · intro a ha
      rcases List.mem_append.mp ha with ha | ha
      · exact h.needed a ha
      · rw [List.mem_singleton.mp ha]
        exact Or.inr htrans

theorem Names.length_le {start : Text} (h : Names jobs start reached) :
    reached.length ≤ jobs.length + 1 := by
  have hle := (List.subperm_of_subset h.nodup fun name hname => h.known name hname).length_le
  simpa [Dict.keys] using hle

/-- There are passes enough for a closed set. -/
theorem closed_passes {start : Text} {n : Nat} (h : Names jobs start reached)
    (hn : jobs.length + 1 < reached.length + n) : Closed jobs (passes jobs n reached) := by
  induction n generalizing reached with
  | zero => exact absurd hn (not_lt.mpr h.length_le)
  | succ n ih =>
      unfold passes
      split
      · next hsame => exact closed_of_pass hsame
      · next hchanged =>
          have hgrown : reached.length < (pass jobs reached).length := by
            refine lt_of_le_of_ne (prefix_pass jobs reached).length_le fun heq => hchanged ?_
            exact ((prefix_pass jobs reached).eq_of_length heq).symm
          exact ih (pass_induction (fun entry hentry _ h => h.visit hentry) h) (by omega)

theorem names_reachable (jobs : Dict Text Job) (start : Text) :
    Names jobs start (reachable jobs start) :=
  passes_induction (fun _ hentry _ h => h.visit hentry) _
    ⟨List.nodup_singleton _, by simp, List.mem_singleton_self _, by simp⟩

/-- `reachable` holds the start and the jobs that need it, directly or through others. -/
theorem mem_reachable_iff {start name : Text} :
    name ∈ reachable jobs start ↔ name = start ∨ Relation.TransGen (NeedsJob jobs) name start := by
  refine ⟨(names_reachable jobs start).needed name, ?_⟩
  have hclosed : Closed jobs (reachable jobs start) :=
    closed_passes ⟨List.nodup_singleton _, by simp, List.mem_singleton_self start, by simp⟩
      (by rw [List.length_singleton]; omega)
  rintro (rfl | hpath)
  · exact (names_reachable jobs name).started
  · induction hpath using Relation.TransGen.head_induction_on with
    | single hstep =>
        obtain ⟨job, hjob, hneeds⟩ := hstep
        exact hclosed _ hjob _ hneeds (names_reachable jobs start).started
    | head hstep _ ih =>
        obtain ⟨job, hjob, hneeds⟩ := hstep
        exact hclosed _ hjob _ hneeds ih

end Closure

/-! ## Calls and tokens -/

theorem contains_iff {sub value : Text} : contains sub value = true ↔ sub <:+: value := by
  unfold contains
  rw [List.any_eq_true]
  constructor
  · rintro ⟨rest, hrest, hprefix⟩
    exact (List.isPrefixOf_iff_prefix.mp hprefix).isInfix.trans
      ((List.mem_tails _ _).mp hrest).isInfix
  · rintro ⟨front, back, rfl⟩
    refine ⟨sub ++ back, (List.mem_tails _ _).mpr ⟨front, by simp⟩, ?_⟩
    exact List.isPrefixOf_iff_prefix.mpr (List.prefix_append _ _)

/-- The part of a name that was read. -/
def Reading.pending : Reading → Text
  | .name read => read
  | _ => []

theorem infix_append {part rest : Text} (front : Text) (h : part <:+: rest) :
    part <:+: front ++ rest :=
  h.trans (List.suffix_append front rest).isInfix

theorem infix_begin {part rest : Text} {c : Char}
    (h : part <:+: (Reading.begin c).pending ++ rest) : part <:+: c :: rest := by
  unfold Reading.begin at h
  split at h
  · exact infix_append [c] h
  split at h
  · exact h
  · exact infix_append [c] h

/-- A call without blanks stands in the text as it is. -/
theorem infix_of_calls {reading : Reading} {text : Text} {call : Call}
    (h : call ∈ calls reading text) (hblanks : call.blanks = 0) :
    call.name ++ ['('] <:+: reading.pending ++ text := by
  induction text generalizing reading with
  | nil => cases reading <;> cases h
  | cons c rest ih =>
      cases reading with
      | outside => exact infix_begin (ih h)
      | quoted =>
          have hrest := ih h
          split at hrest <;> exact infix_append [c] hrest
      | name read =>
          unfold calls at h
          split at h
          · simpa [Reading.pending] using ih h
          split at h
          · next hopen =>
              subst hopen
              rcases List.mem_cons.mp h with rfl | h
              · exact ⟨[], rest, by simp [Reading.pending]⟩
              · exact infix_append read (infix_append ['('] (ih h))
          split at h
          · exact infix_append read (infix_append [c] (ih h))
          · exact infix_append read (infix_begin (ih h))
      | behind read more =>
          unfold calls at h
          split at h
          · rcases List.mem_cons.mp h with rfl | h
            · cases hblanks
            · exact infix_append [c] (ih h)
          split at h
          · exact infix_append [c] (ih h)
          · exact infix_begin (ih h)

/-- A word of a joined list is part of the joined text. -/
theorem infix_intercalate {word : Text} {words : List Text} (h : word ∈ words) :
    word <:+: [' '].intercalate words := by
  induction words with
  | nil => cases h
  | cons first rest ih =>
      have hjoin : first <+: [' '].intercalate (first :: rest) ∧
          (rest ≠ [] → [' '].intercalate rest <:+ [' '].intercalate (first :: rest)) := by
        cases rest with
        | nil => simp [List.intercalate]
        | cons second rest =>
            have hcons : [' '].intercalate (first :: second :: rest) =
                first ++ ' ' :: [' '].intercalate (second :: rest) := by simp [List.intercalate]
            rw [hcons]
            exact ⟨List.prefix_append _ _, fun _ => ⟨first ++ [' '], by simp⟩⟩
      rcases List.mem_cons.mp h with rfl | h
      · exact hjoin.1.isInfix
      · exact (ih h).trans (hjoin.2 (List.ne_nil_of_mem h)).isInfix

/-- A token without whitespace survives the normalisation. -/
theorem infix_normalized {token raw : Text} (hne : token ≠ []) (htoken : Unbroken token)
    (h : token <:+: raw) : token <:+: [' '].intercalate (splitWords raw) := by
  obtain ⟨pre, post, rfl⟩ := h
  let solid : Char → Bool := fun c => !Text.isSpace c
  have hsolid : ∀ {c : Char}, solid c = true ↔ Text.isSpace c = false := Bool.not_eq_true' _ ▸ Iff.rfl
  -- the token stands in one word, between the whitespace before and behind it
  have hraw : pre ++ token ++ post = pre.rdropWhile solid ++
      ((pre.rtakeWhile solid ++ token ++ post.takeWhile solid) ++ post.dropWhile solid) := by
    rw [← List.append_assoc, ← List.append_assoc, ← List.append_assoc,
      List.rdropWhile_append_rtakeWhile, List.append_assoc _ (post.takeWhile solid),
      List.takeWhile_append_dropWhile]
  have hword : Unbroken (pre.rtakeWhile solid ++ token ++ post.takeWhile solid) := by
    intro c hc
    rcases List.mem_append.mp hc with hc | hc
    · rcases List.mem_append.mp hc with hc | hc
      · exact hsolid.mp (List.mem_rtakeWhile_imp hc)
      · exact htoken c hc
    · exact hsolid.mp (List.mem_takeWhile_imp hc)
  have hwordNe : pre.rtakeWhile solid ++ token ++ post.takeWhile solid ≠ [] := by
    simp [hne]
  have hfront : ∀ x ∈ (pre.rdropWhile solid).getLast?, Text.isSpace x = true := by
    intro x hx
    have hne : pre.rdropWhile solid ≠ [] := by
      intro hnil
      rw [hnil] at hx
      cases hx
    have hlast := List.rdropWhile_last_not solid pre hne
    rw [List.getLast?_eq_some_getLast hne] at hx
    rw [Option.some.inj hx] at hlast
    simpa [solid] using hlast
  have hback : ∀ y ∈ (post.dropWhile solid).head?, Text.isSpace y = true := by
    intro y hy
    have hhead := List.head?_dropWhile_not solid post
    rw [Option.mem_def.mp hy] at hhead
    simpa [solid] using hhead
  have hmem : pre.rtakeWhile solid ++ token ++ post.takeWhile solid ∈
      splitWords (pre ++ token ++ post) := by
    rw [hraw, Publication.splitWords_append_of_edge, Publication.splitWords_append_of_edge,
      Publication.splitWords_word hwordNe hword]
    · simp
    · intro x hx y hy
      rw [hback y hy, hword x (List.mem_of_mem_getLast? hx)]
      decide
    · intro x hx y hy
      have hhead : y ∈ pre.rtakeWhile solid ++ token ++ post.takeWhile solid := by
        rw [List.head?_append_of_ne_nil _ hwordNe] at hy
        exact List.mem_of_mem_head? hy
      rw [hfront x hx, hword y hhead]
      decide
  exact List.IsInfix.trans ⟨_, _, rfl⟩ (infix_intercalate hmem)

/-! ## The gate -/

section Gate

variable {w : Workflow}

theorem unbroken_token : ∀ name ∈ statusFunctions, Unbroken (name ++ ['(']) := by
  unfold Unbroken
  decide

/-- What a release without problems has. -/
structure Audited (w : Workflow) : Prop where
  evidence : ∃ job, w.jobs.get? evidenceJob = some job ∧ job.condition = none
  needs : ∀ entry ∈ w.jobs, entry.1 ∈ reachable w.jobs evidenceJob
  tokens : ∀ entry ∈ w.jobs, ∀ name ∈ statusFunctions,
    ¬ name ++ ['('] <:+: entry.2.normalizedCondition.getD []

theorem audited_of_problems (h : w.problems = []) : Audited w := by
  unfold Workflow.problems at h
  cases hjob : w.jobs.get? evidenceJob with
  | none =>
      rw [hjob] at h
      cases h
  | some evidence =>
      rw [hjob] at h
      dsimp only at h
      simp only [List.append_eq_nil_iff] at h
      obtain ⟨⟨⟨⟨hcondition, -⟩, -⟩, hneeds⟩, htokens⟩ := h
      refine ⟨⟨evidence, hjob, ?_⟩, fun entry hentry => ?_, fun entry hentry name hname hinfix => ?_⟩
      · cases hraw : evidence.condition with
        | none => rfl
        | some raw =>
            rw [Job.normalizedCondition, hraw] at hcondition
            cases hcondition
      · by_contra hout
        have hmem : Problem.outside entry.1 ∈ ((w.jobs.keys.filter
            (fun name => name ∉ reachable w.jobs evidenceJob)).insertionSort (· ≤ ·)).map
              Problem.outside := by
          refine List.mem_map_of_mem ((List.mem_insertionSort _).mpr (List.mem_filter.mpr ⟨?_, ?_⟩))
          · exact List.mem_map_of_mem hentry
          · exact decide_eq_true hout
        rw [hneeds] at hmem
        cases hmem
      · have htoken : name ++ ['('] ∈ fanInOverrides := by
          have hall : ∀ name ∈ statusFunctions, name ++ ['('] ∈ fanInOverrides := by decide
          exact hall name hname
        have hoverride := List.filterMap_eq_nil_iff.mp htokens entry
          ((List.mem_insertionSort _).mpr hentry)
        unfold overrideOf at hoverride
        dsimp only at hoverride
        have hfound : (fanInOverrides.any (fun token =>
            contains token (entry.2.normalizedCondition.getD []))) = true :=
          List.any_eq_true.mpr ⟨_, htoken, contains_iff.mpr hinfix⟩
        rw [if_pos hfound] at hoverride
        cases hoverride

/-- The audit finds a call that is spelled plainly. -/
theorem Audited.no_plain (h : Audited w) {entry : Text × Job} (hentry : entry ∈ w.jobs)
    {call : Call} (hcall : call ∈ entry.2.statusCalls) : ¬ call.Plain := by
  rintro ⟨hname, hblanks⟩
  have hraw : call.name ++ ['('] <:+: entry.2.condition.getD [] :=
    infix_of_calls (List.mem_filter.mp hcall).1 hblanks
  refine h.tokens entry hentry _ hname ?_
  unfold Job.normalizedCondition
  cases hcondition : entry.2.condition with
  | none =>
      rw [hcondition] at hraw
      exact hraw
  | some raw =>
      rw [hcondition] at hraw
      exact infix_normalized (by simp) (unbroken_token _ hname) hraw

end Gate

/--
No release job outruns the evidence of an audited release, exactly where the status
functions of its conditions are spelled in lower case with the parenthesis directly
behind the name.
-/
theorem evidence_gates_iff
    (w : Workflow)
    (haudit : w.problems = []) :
    EvidenceGates w ↔ ∀ entry ∈ w.jobs, ∀ call ∈ entry.2.statusCalls, call.Plain := by
  have haudited := audited_of_problems haudit
  constructor
  · intro hgates entry hentry call hcall
    by_contra
    -- the job with the call runs alone
    have hne : entry.1 ≠ evidenceJob := by
      intro heq
      obtain ⟨job, hjob, hnone⟩ := haudited.evidence
      have hsame : entry.2 = job :=
        Option.some.inj ((Dict.get?_of_mem w.nodup (heq ▸ hentry)).symm.trans hjob)
      have hempty : entry.2.statusCalls = [] := by
        rw [hsame, Job.statusCalls, hnone]
        rfl
      rw [hempty] at hcall
      cases hcall
    refine hgates ⟨fun name => name = entry.1, fun _ => False⟩ ?_ id entry hentry hne rfl
    intro other hother hran
    have hsame : other = entry := by
      refine Prod.ext hran (Option.some.inj ?_)
      exact (Dict.get?_of_mem w.nodup hother).symm.trans
        ((congrArg w.jobs.get? hran).trans (Dict.get?_of_mem w.nodup hentry))
    rw [hsame]
    exact Or.inl (List.ne_nil_of_mem hcall)
  · intro hplain run hfollows hfailed entry hentry hne hran
    rcases hfollows entry hentry hran with hcalls | hneeds
    · obtain ⟨call, hcall⟩ := List.exists_mem_of_ne_nil _ hcalls
      exact haudited.no_plain hentry hcall (hplain entry hentry call hcall)
    · rcases mem_reachable_iff.mp (haudited.needs entry hentry) with heq | hpath
      · exact hne heq
      · exact hfailed (hneeds evidenceJob hpath)

/-! ## A release of two jobs -/

def evidence : Text × Job :=
  (evidenceJob, { runText := "uv run scripts/promotion_policy.py release-evidence".toList })

/-- A release that publishes after the evidence, on a condition. -/
def publishing (condition : String) : Workflow where
  jobs := [evidence,
    ("publish".toList, { needs := [evidenceJob], condition := some condition.toList })]
  nodup := (by decide : [evidenceJob, "publish".toList].Nodup)

theorem evidence_gates_success :
    EvidenceGates (publishing "github.ref_type == 'tag'") ↔
      ∀ entry ∈ (publishing "github.ref_type == 'tag'").jobs, ∀ call ∈ entry.2.statusCalls,
        call.Plain :=
  evidence_gates_iff (publishing "github.ref_type == 'tag'") (by decide +kernel)

/-- The audit has nothing to say about `Always()`, which runs the job after a failure. -/
theorem capital_outruns :
    ¬ ∀ w : Workflow, w.problems = [] → EvidenceGates w := by
  intro h
  have hgates := h (publishing "Always()") (by decide +kernel)
  refine hgates ⟨fun name => name = "publish".toList, fun _ => False⟩ ?_ id
    ("publish".toList, { needs := [evidenceJob], condition := some "Always()".toList })
    (List.mem_cons_of_mem _ List.mem_cons_self) (by decide) rfl
  intro entry hentry hran
  rcases List.mem_cons.mp hentry with rfl | hentry
  · exact absurd hran (by decide)
  · rw [List.mem_singleton.mp hentry]
    exact Or.inl (by decide)

end Promotion
end SwFactory
