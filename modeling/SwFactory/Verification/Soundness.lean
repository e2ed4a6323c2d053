import SwFactory.Verification.Attestation
import Mathlib.Algebra.Order.BigOperators.Group.List
import Mathlib.Algebra.Order.Ring.Int

/-!
# When a verified delivery is what it says

The verdict is verified exactly if the second run came out green and neither
the forge's answer nor the run's record contradicts the delivery.  What the
report says about the tested commit is the forge's word.
-/

namespace SwFactory
namespace Verification

open Contracts
open Identities
open Lexical
open Machine
open Junit.Scanner (declared suitesOf scanElements)

/-! ## The checks of one level -/

theorem unrefuted_append {xs ys : List Evidence} :
    Unrefuted (xs ++ ys) ↔ Unrefuted xs ∧ Unrefuted ys := by
  simp only [Unrefuted, List.mem_append]
  exact ⟨fun h => ⟨fun c hc => h c (Or.inl hc), fun c hc => h c (Or.inr hc)⟩,
    fun h c hc => hc.elim (h.1 c) (h.2 c)⟩

theorem unrefuted_nil : Unrefuted [] := by
  rintro c ⟨⟩

theorem unrefuted_cons {x : Evidence} {xs : List Evidence} :
    Unrefuted (x :: xs) ↔ x.status ≠ .fail ∧ Unrefuted xs := by
  simp [Unrefuted]

/-- Checks of another level carry nothing. -/
theorem carries_append {xs ys : List Evidence} {tests : Option TestEvidence}
    (h : ∀ c ∈ xs, c.level ≠ .verified) :
    Carries (xs ++ ys) tests ↔ Carries ys tests := by
  constructor
  · rintro ⟨⟨c, hc, hlevel, hpass⟩, hall, htests⟩
    refine ⟨⟨c, ?_, hlevel, hpass⟩, fun c hc => hall c (List.mem_append_right _ hc), htests⟩
    exact (List.mem_append.mp hc).resolve_left fun hc => h c hc hlevel
  · rintro ⟨⟨c, hc, hlevel, hpass⟩, hall, htests⟩
    refine ⟨⟨c, List.mem_append_right _ hc, hlevel, hpass⟩, fun c hc hlevel => ?_, htests⟩
    exact hall c ((List.mem_append.mp hc).resolve_left fun hc => h c hc hlevel) hlevel

theorem level_reported {record : Option RunMetrics} {target : Target} {blocked : Bool} :
    ∀ c ∈ reportedChecks record target blocked, c.level = .reported := by
  intro c hc
  unfold reportedChecks at hc
  cases record with
  | none =>
      rw [List.mem_singleton.mp hc]
      rfl
  | some record =>
      dsimp only at hc
      rcases List.mem_append.mp hc with hc | hc
      · rcases List.mem_append.mp hc with hc | hc
        · rw [List.mem_singleton.mp hc]
          rfl
        · split at hc
          · rw [List.mem_singleton.mp hc]
            rfl
          · cases hc
      · rw [List.mem_singleton.mp hc]
        split
        · rfl
        · split <;> rfl

theorem unrefuted_reported_iff {record : Option RunMetrics} {target : Target} :
    Unrefuted (reportedChecks record target target.blocked) ↔ ReportedHolds record target := by
  unfold reportedChecks
  cases record with
  | none =>
      refine iff_of_true ?_ ⟨by rintro r ⟨⟩, by rintro r ⟨⟩⟩
      exact unrefuted_cons.mpr ⟨by rintro ⟨⟩, unrefuted_nil⟩
  | some record =>
      dsimp only
      rw [unrefuted_append, unrefuted_append, unrefuted_cons, unrefuted_cons]
      have hissue : Unrefuted (if target.issueId ≠ [] ∧ record.issueId ≠ [] ∧
            record.issueId ≠ target.issueId then
          [Evidence.fail "metrics.issue_matches" .reported
            "the committed metrics answer a different issue than the branch names".toList
            target.issueId record.issueId]
          else []) ↔
          target.issueId = [] ∨ record.issueId = [] ∨ record.issueId = target.issueId := by
        split
        · rename_i hbad
          refine iff_of_false (fun h => (unrefuted_cons.mp h).1 rfl) ?_
          rintro (h | h | h)
          · exact hbad.1 h
          · exact hbad.2.1 h
          · exact hbad.2.2 h
        · rename_i hgood
          refine iff_of_true unrefuted_nil ?_
          simpa only [not_and_or, not_not, ne_eq] using hgood
      rw [hissue]
      constructor
      · rintro ⟨⟨-, hmatch⟩, htests, -⟩
        refine ⟨?_, ?_⟩
        · rintro r ⟨⟩
          exact hmatch
        · rintro r ⟨⟩
          by_contra hbad
          rw [not_or, Bool.not_eq_true, Bool.not_eq_true] at hbad
          rw [hbad.1, hbad.2] at htests
          exact htests rfl
      · rintro ⟨hmatch, htests⟩
        refine ⟨⟨⟨by rintro ⟨⟩, unrefuted_nil⟩, hmatch _ rfl⟩, ?_, unrefuted_nil⟩
        rcases htests _ rfl with h | h
        · rw [h]
          rintro ⟨⟩
        · rw [h]
          cases target.blocked <;> rintro ⟨⟩

section Published

variable {sanitizeLine : Str → Str}

theorem level_branch {target : Target} : ∀ c ∈ branchChecks target, c.level = .published := by
  intro c hc
  unfold branchChecks at hc
  split at hc
  · cases hc
  · rcases List.mem_append.mp hc with hc | hc
    · split at hc
      · cases hc
      · rw [List.mem_singleton.mp hc]
        rfl
    · split at hc
      · rw [List.mem_singleton.mp hc]
        rfl
      · cases hc

theorem level_title {target : Target} {pr : PrHead} :
    (titleCheck sanitizeLine target pr).level = .published := by
  unfold titleCheck
  dsimp only
  split <;> rfl

theorem level_labels {pr : PrHead} : (labelCheck pr).level = .published := by
  unfold labelCheck
  dsimp only
  split
  · rfl
  · split <;> rfl

theorem level_base {pr : PrHead} {opts : VerifyOpts} : (baseCheck pr opts).level = .published := by
  unfold baseCheck
  split
  · split <;> rfl
  · rfl

theorem level_published {lookup : PrLookup} {target : Target} {opts : VerifyOpts} :
    ∀ c ∈ publishedChecks sanitizeLine lookup target opts, c.level = .published := by
  intro c hc
  unfold publishedChecks at hc
  rcases List.mem_append.mp hc with hc | hc
  · exact level_branch c hc
  · cases lookup with
    | notConfigured =>
        rw [List.mem_singleton.mp hc]
        rfl
    | missing =>
        rw [List.mem_singleton.mp hc]
        split <;> rfl
    | failed detail =>
        rw [List.mem_singleton.mp hc]
        split <;> rfl
    | found pr =>
        simp only [List.mem_cons, List.not_mem_nil, or_false] at hc
        rcases hc with rfl | rfl | rfl | rfl
        · rfl
        · exact level_title
        · exact level_labels
        · exact level_base

/-- The check of the name of a branch. -/
def nameChecks (target : Target) : List Evidence :=
  match validateGitRef target.branch "branch".toList with
  | .ok () => []
  | .error detail =>
      [.fail "branch.name_invalid" .published detail "a safe git ref".toList target.branch]

theorem unrefuted_name_iff {target : Target} :
    Unrefuted (nameChecks target) ↔ safeGitRef target.branch = true := by
  unfold nameChecks validateGitRef
  split
  · rename_i hok
    split at hok
    · rename_i hsafe
      exact iff_of_true unrefuted_nil hsafe
    · cases hok
  · rename_i hbad
    split at hbad
    · cases hbad
    · rename_i hunsafe
      exact iff_of_false (fun h => (unrefuted_cons.mp h).1 rfl) hunsafe

theorem unrefuted_branch_iff {target : Target} :
    Unrefuted (branchChecks target) ↔ (target.branch ≠ [] →
      safeGitRef target.branch = true ∧ target.issueId ≠ [] ∧ target.runId ≠ []) := by
  unfold branchChecks
  split
  · rename_i hempty
    exact iff_of_true unrefuted_nil fun h => absurd hempty h
  · rename_i hbranch
    rw [unrefuted_append]
    refine (and_congr_left' unrefuted_name_iff).trans ?_
    split
    · rename_i hmissing
      refine iff_of_false (fun h => (unrefuted_cons.mp h.2).1 rfl) fun h => ?_
      exact hmissing.elim (h hbranch).2.1 (h hbranch).2.2
    · rename_i hthere
      rw [not_or] at hthere
      exact ⟨fun h _ => ⟨h.1, hthere⟩, fun h => ⟨(h hbranch).1, unrefuted_nil⟩⟩

theorem title_holds_iff {target : Target} {pr : PrHead} :
    (titleCheck sanitizeLine target pr).status ≠ .fail ↔ target.issueId = [] ∨
      (target.issueId ++ ": ".toList).isPrefixOf (strippedTitle pr.title) = true := by
  unfold titleCheck
  dsimp only
  split
  · rename_i h
    exact iff_of_true (by rintro ⟨⟩) h
  · rename_i h
    exact iff_of_false (fun hne => hne rfl) h

theorem labels_hold_iff {pr : PrHead} :
    (labelCheck pr).status ≠ .fail ↔ (∀ label ∈ requiredLabels, label ∈ pr.labels) ∧
      ¬ ("factory:blocked".toList ∈ pr.labels ∧ "factory:rejected".toList ∈ pr.labels) := by
  have hmissing : requiredLabels.filter (· ∉ pr.labels) = [] ↔
      ∀ label ∈ requiredLabels, label ∈ pr.labels := by
    rw [List.filter_eq_nil_iff]
    simp only [decide_eq_true_eq, not_not]
  unfold labelCheck
  dsimp only
  split
  · rename_i h
    exact iff_of_false (fun hne => hne rfl) fun hall => h (hmissing.mpr hall.1)
  · rename_i h
    rw [not_not] at h
    split
    · rename_i hboth
      exact iff_of_false (fun hne => hne rfl) fun hall => hall.2 hboth
    · rename_i hboth
      exact iff_of_true (by rintro ⟨⟩) ⟨hmissing.mp h, hboth⟩

theorem base_holds_iff {pr : PrHead} {opts : VerifyOpts} :
    (baseCheck pr opts).status ≠ .fail ↔
      ∀ base, opts.baseBranch = some base → pr.baseRef = base := by
  unfold baseCheck
  cases opts.baseBranch with
  | none =>
      exact iff_of_true (by rintro ⟨⟩) (by rintro base ⟨⟩)
  | some base =>
      dsimp only
      split
      · rename_i h
        refine iff_of_true (by rintro ⟨⟩) ?_
        rintro base' ⟨⟩
        exact h
      · rename_i h
        exact iff_of_false (fun hne => hne rfl) fun hall => h (hall base rfl)

theorem unrefuted_published_iff {lookup : PrLookup} {target : Target} {opts : VerifyOpts} :
    Unrefuted (publishedChecks sanitizeLine lookup target opts) ↔
      PublishedHolds lookup target opts := by
  unfold publishedChecks
  rw [unrefuted_append, unrefuted_branch_iff]
  cases lookup with
  | notConfigured =>
      rw [unrefuted_cons]
      refine ⟨fun h => ⟨h.1, by rintro ⟨⟩, by rintro _ ⟨⟩, by rintro _ ⟨⟩, by rintro _ _ ⟨⟩⟩,
        fun h => ⟨h.name, by rintro ⟨⟩, unrefuted_nil⟩⟩
  | failed detail =>
      rw [unrefuted_cons]
      refine ⟨fun h => ⟨h.1, by rintro ⟨⟩, by rintro _ ⟨⟩, by rintro _ ⟨⟩, by rintro _ _ ⟨⟩⟩,
        fun h => ⟨h.name, ?_, unrefuted_nil⟩⟩
      cases opts.origin.isSome <;> rintro ⟨⟩
  | missing =>
      rw [unrefuted_cons]
      constructor
      · rintro ⟨hname, horigin, -⟩
        refine ⟨hname, fun _ => ?_, by rintro _ ⟨⟩, by rintro _ ⟨⟩, by rintro _ _ ⟨⟩⟩
        by_contra h
        rw [if_neg h] at horigin
        exact horigin rfl
      · intro h
        refine ⟨h.name, ?_, unrefuted_nil⟩
        rw [if_pos (h.missing rfl)]
        rintro ⟨⟩
  | found pr =>
      rw [unrefuted_cons, unrefuted_cons, unrefuted_cons, unrefuted_cons, title_holds_iff,
        labels_hold_iff, base_holds_iff]
      constructor
      · rintro ⟨hname, -, htitle, hlabels, hbase, -⟩
        refine ⟨hname, by rintro ⟨⟩, ?_, ?_, ?_⟩
        · rintro _ ⟨⟩
          exact htitle
        · rintro _ ⟨⟩
          exact hlabels
        · rintro _ base ⟨⟩
          exact hbase base
      · intro h
        exact ⟨h.name, by rintro ⟨⟩, h.title pr rfl, h.labels pr rfl,
          fun base => h.base pr base rfl, unrefuted_nil⟩

end Published

/-! ## The second run -/

/-- A check that keeps the level from being attained. -/
def Blocking (e : Evidence) : Prop :=
  e.level = .verified ∧ (e.status = .fail ∨ e.status.isUnavailable = true)

theorem Blocking.not_carries {checks : List Evidence} {tests : Option TestEvidence}
    {e : Evidence} (h : Blocking e) (he : e ∈ checks) : ¬ Carries checks tests := by
  intro hcarries
  have hgood := hcarries.evaluated e he h.1
  rcases h.2 with hbad | hbad
  · exact hgood.1 hbad
  · rw [hgood.2] at hbad
    cases hbad

theorem blocking_fail {id : String} {detail expected actual : Str} :
    Blocking (.fail id .verified detail expected actual) :=
  ⟨rfl, Or.inl rfl⟩

theorem blocking_unavailable {id : String} {reason : Str} :
    Blocking (.unavailable id .verified reason) :=
  ⟨rfl, Or.inr rfl⟩

theorem succeeded_iff {answer : Answer} :
    answer.succeeded = true ↔ ∃ output, answer.result = .ok output ∧ output.code = 0 := by
  unfold Answer.succeeded
  cases answer.result <;> simp

section SecondRun

variable {toml : Str → Except Str Table}
variable {world : World}
variable {opts : VerifyOpts}

@[simp] theorem outcome_ask (question : Ask) :
    (ask question).outcome world = .ok (world question) :=
  rfl

@[simp] theorem trace_ask (question : Ask) :
    (ask question).trace world = [⟨question, world question⟩] :=
  rfl

/-- The event of one command. -/
def ranEvent (world : World) (step : Command) : Event Ask Reply :=
  ⟨.run step, world (.run step)⟩

theorem runPlan_ok {steps : List Command} (h : ∀ step ∈ steps, Succeeds world step) :
    (runPlan steps).outcome world = .ok none ∧
      (runPlan steps).trace world = steps.map (ranEvent world) := by
  induction steps with
  | nil => exact ⟨rfl, rfl⟩
  | cons step rest ih =>
      obtain ⟨output, hresult, hcode⟩ := succeeded_iff.mp (h step List.mem_cons_self)
      obtain ⟨hout, htrace⟩ := ih fun s hs => h s (List.mem_cons_of_mem _ hs)
      unfold runPlan
      simp only [outcome_bind, trace_bind, outcome_ask, trace_ask, ok_bind, traceAfter_ok,
        hresult, hcode, if_true, hout, htrace]
      exact ⟨trivial, rfl⟩

theorem runPlan_failed {steps : List Command} (h : ¬ ∀ step ∈ steps, Succeeds world step) :
    ∃ e, (runPlan steps).outcome world = .ok (some e) ∧ Blocking e := by
  induction steps with
  | nil => exact absurd (by rintro _ ⟨⟩) h
  | cons step rest ih =>
      unfold runPlan
      simp only [outcome_bind, outcome_ask, ok_bind]
      cases hresult : Answer.result (world (.run step)) with
      | error e => exact ⟨_, rfl, blocking_unavailable⟩
      | ok output =>
          by_cases hcode : output.code = 0
          · simp only [hcode, if_true]
            refine ih fun hrest => h fun s hs => ?_
            rcases List.mem_cons.mp hs with rfl | hs
            · exact succeeded_iff.mpr ⟨output, hresult, hcode⟩
            · exact hrest s hs
          · simp only [hcode, if_false]
            exact ⟨_, rfl, blocking_unavailable⟩

theorem scratchDir_ok {scratch : Str} (h : ScratchAt world opts scratch) :
    (scratchDir opts).outcome world = .ok (.ok scratch) := by
  unfold ScratchAt at h
  unfold scratchDir
  cases hdir : opts.workdir with
  | none =>
      rw [hdir] at h
      dsimp only at h ⊢
      rw [outcome_bind, outcome_ask, ok_bind, h]
      rfl
  | some dir =>
      rw [hdir] at h
      dsimp only at h ⊢
      rw [outcome_bind, outcome_ask, ok_bind, h.1, h.2]
      rfl

theorem scratchDir_cases :
    (∃ scratch, ScratchAt world opts scratch) ∨
      ∃ e, (scratchDir opts).outcome world = .ok (.error e) ∧ Blocking e := by
  unfold ScratchAt scratchDir
  cases opts.workdir with
  | none =>
      dsimp only
      rw [outcome_bind, outcome_ask, ok_bind]
      cases hworld : world (.scratch opts.keepCheckout) with
      | error e => exact Or.inr ⟨_, rfl, blocking_unavailable⟩
      | ok scratch => exact Or.inl ⟨scratch, rfl⟩
  | some dir =>
      dsimp only
      rw [outcome_bind, outcome_ask, ok_bind]
      cases hworld : world (.createDirAll dir) with
      | error e => exact Or.inr ⟨_, rfl, blocking_unavailable⟩
      | ok u => exact Or.inl ⟨dir, rfl, rfl⟩

theorem contractDir_outcome (checkout : Str) :
    (contractDir checkout opts).outcome world = .ok (dirOf world checkout opts) := by
  unfold contractDir dirOf
  cases opts.targetDir <;> rfl

/-- The judgement is a pass, or it blocks. -/
theorem judge_pass {dir : Str} {contract : TargetContract} {totals : Junit.Scanner.Totals}
    (hfailed : totals.failed = 0) (herrors : totals.errors = 0) :
    (judge dir contract 0 false (.ok totals)).1.level = .verified ∧
      (judge dir contract 0 false (.ok totals)).1.status = .pass ∧
      (judge dir contract 0 false (.ok totals)).2.ok = true := by
  simp [judge, Except.isOk, Except.toBool, hfailed, herrors, Evidence.pass]

theorem judge_cases {dir : Str} {contract : TargetContract} {code : Int} {timedOut : Bool}
    {counts : Except Str Junit.Scanner.Totals} :
    (code = 0 ∧ timedOut = false ∧ ∃ totals, counts = .ok totals ∧ totals.failed = 0 ∧
      totals.errors = 0) ∨ Blocking (judge dir contract code timedOut counts).1 := by
  have hother : ∀ (detail shown : Str) (late : Bool), Blocking (if late = true then
      Evidence.unavailable "tests.rerun" .verified
        (contract.test ++ " did not finish within the budget".toList)
      else Evidence.fail "tests.rerun" .verified detail
        "a green run and a coherent report".toList shown) := by
    intro detail shown late
    cases late
    · exact blocking_fail
    · exact blocking_unavailable
  unfold judge
  cases counts with
  | error e =>
      simp only [Except.isOk, Except.toBool, Bool.and_false, Bool.false_and, Bool.false_eq_true,
        if_false]
      exact Or.inr (hother _ _ _)
  | ok totals =>
      dsimp only
      split
      · rename_i hok
        simp only [Bool.and_eq_true, decide_eq_true_eq, Bool.not_eq_true'] at hok
        obtain ⟨⟨⟨⟨hcode, -⟩, hfailed⟩, herrors⟩, htimed⟩ := hok
        exact Or.inl ⟨hcode, htimed, totals, rfl, hfailed, herrors⟩
      · exact Or.inr (hother _ _ _)

/-- A question that runs no command. -/
def Ask.quiet : Ask → Bool
  | .run _ => false
  | _ => true

/-- No command is run. -/
def Quiet (log : Log) : Prop :=
  ∀ e ∈ log, e.1.quiet = true

theorem Quiet.append {xs ys : Log} (hxs : Quiet xs) (hys : Quiet ys) : Quiet (xs ++ ys) := by
  intro e he
  exact (List.mem_append.mp he).elim (hxs e) (hys e)

theorem quiet_nil : Quiet [] := by
  rintro e ⟨⟩

theorem quiet_singleton {e : Event Ask Reply} (h : e.1.quiet = true) : Quiet [e] := by
  intro e' he'
  rw [List.mem_singleton.mp he']
  exact h

theorem contractDir_quiet (checkout : Str) :
    Quiet ((contractDir checkout opts).trace world) := by
  unfold contractDir
  cases opts.targetDir with
  | some dir => exact quiet_nil
  | none =>
      rw [trace_bind, trace_ask]
      exact quiet_singleton rfl

/-- The three last statements of a green run. -/
def lastSteps (world : World) (suite : Suite) : Log :=
  [⟨.removeFile (join suite.dir suite.contract.junit),
      world (.removeFile (join suite.dir suite.contract.junit))⟩,
    ranEvent world (.suite suite.dir suite.contract.test),
    ⟨.readReport (join suite.dir suite.contract.junit), Except.ok suite.xml⟩]

theorem runSuite_green {suite : Suite} (h : suite.Tested toml world opts) :
    ∃ e t, (runSuite suite.dir suite.contract).outcome world = .ok (e, some t) ∧
      e.level = .verified ∧ e.status = .pass ∧ t.ok = true ∧
      (runSuite suite.dir suite.contract).trace world = lastSteps world suite := by
  obtain ⟨output, hresult, hcode⟩ := succeeded_iff.mp h.ran
  obtain ⟨totals, hcounts, hfailed, herrors⟩ := h.counts
  have hjudge := @judge_pass suite.dir suite.contract totals hfailed herrors
  have hread : countsOf (world (.readReport (join suite.dir suite.contract.junit))) =
      .ok totals := by
    rw [h.report]
    change (Junit.Scanner.parseJunit suite.xml).mapError String.toList = _
    rw [hcounts]
    rfl
  refine ⟨_, _, ?_, hjudge.1, hjudge.2.1, hjudge.2.2, ?_⟩
  · unfold runSuite
    simp only [outcome_bind, outcome_ask, ok_bind]
    cases hremoval : world (.removeFile (join suite.dir suite.contract.junit)) with
    | failed e => exact absurd hremoval (h.cleared e)
    | _ =>
        simp only [outcome_bind, outcome_ask, ok_bind, hresult, afterSuite, readBack, hcode,
          hread, outcome_ret]
  · unfold runSuite lastSteps
    simp only [trace_bind, outcome_ask, trace_ask, traceAfter_ok]
    cases hremoval : world (.removeFile (join suite.dir suite.contract.junit)) with
    | failed e => exact absurd hremoval (h.cleared e)
    | _ =>
        simp only [trace_bind, outcome_ask, trace_ask, traceAfter_ok, hresult, afterSuite,
          readBack, h.report]
        rfl

theorem runSuite_cases {dir : Str} {contract : TargetContract} :
    ((∀ e, world (.removeFile (join dir contract.junit)) ≠ Removal.failed e) ∧
      Succeeds world (.suite dir contract.test) ∧
      ∃ xml totals, world (.readReport (join dir contract.junit)) = Except.ok xml ∧
        Junit.Scanner.parseJunit xml = .ok totals ∧ totals.failed = 0 ∧ totals.errors = 0) ∨
      ∃ e t, (runSuite dir contract).outcome world = .ok (e, t) ∧ Blocking e := by
  by_cases hcleared : ∀ e, world (.removeFile (join dir contract.junit)) ≠ Removal.failed e
  · have hrun : (runSuite dir contract).outcome world =
        (afterSuite dir contract
          (Answer.result (world (.run (.suite dir contract.test))))).outcome world := by
      unfold runSuite
      simp only [outcome_bind, outcome_ask, ok_bind]
    rw [hrun]
    cases hresult : Answer.result (world (.run (.suite dir contract.test))) with
    | error e =>
        cases e with
        | other e => exact Or.inr ⟨_, _, rfl, blocking_unavailable⟩
        | timeout e =>
            refine Or.inr ⟨_, _, rfl, ?_⟩
            exact judge_cases.resolve_left fun h => absurd h.2.1 (by decide)
    | ok output =>
        rcases @judge_cases dir contract output.code false
          (countsOf (world (.readReport (join dir contract.junit)))) with
          ⟨hcode, -, totals, hcounts, hfailed, herrors⟩ | hblocking
        · refine Or.inl ⟨hcleared, succeeded_iff.mpr ⟨output, hresult, hcode⟩, ?_⟩
          cases hreport : world (.readReport (join dir contract.junit)) with
          | error e =>
              rw [hreport] at hcounts
              cases hcounts
          | ok xml =>
              rw [hreport] at hcounts
              change (Junit.Scanner.parseJunit xml).mapError String.toList = _ at hcounts
              cases hparse : Junit.Scanner.parseJunit xml with
              | error e =>
                  rw [hparse] at hcounts
                  cases hcounts
              | ok found =>
                  rw [hparse] at hcounts
                  cases hcounts
                  exact ⟨xml, totals, rfl, hparse, hfailed, herrors⟩
        · exact Or.inr ⟨_, _, rfl, hblocking⟩
  · push Not at hcleared
    obtain ⟨e, he⟩ := hcleared
    refine Or.inr ⟨.unavailable "tests.rerun" .verified
      ("could not clear stale JUnit report: ".toList ++ e), none, ?_, blocking_unavailable⟩
    unfold runSuite
    simp only [outcome_bind, outcome_ask, he]
    rfl

theorem testCheckout_outcome (checkout : Str) :
    (testCheckout toml checkout opts).outcome world =
      (testDir toml (dirOf world checkout opts)).outcome world := by
  unfold testCheckout
  rw [outcome_bind, contractDir_outcome, ok_bind]

theorem testCheckout_trace (checkout : Str) :
    (testCheckout toml checkout opts).trace world =
      (contractDir checkout opts).trace world ++
        (testDir toml (dirOf world checkout opts)).trace world := by
  unfold testCheckout
  rw [trace_bind, contractDir_outcome, traceAfter_ok]

theorem testCheckout_green {suite : Suite} (h : suite.Tested toml world opts) :
    ∃ e t before, (testCheckout toml suite.checkout opts).outcome world = .ok (e, some t) ∧
      e.level = .verified ∧ e.status = .pass ∧ t.ok = true ∧
      (testCheckout toml suite.checkout opts).trace world = before ++ lastSteps world suite ∧
      Quiet before ∧
      ⟨.readContract (join suite.dir contractFile), Except.ok suite.text⟩ ∈ before := by
  obtain ⟨e, t, hrun, hlevel, hpass, hok, htrace⟩ := runSuite_green h
  refine ⟨e, t, (contractDir suite.checkout opts).trace world ++
    [⟨.readContract (join suite.dir contractFile), Except.ok suite.text⟩], ?_, hlevel, hpass, hok,
    ?_, (contractDir_quiet _).append (quiet_singleton rfl),
    List.mem_append_right _ (List.mem_singleton.mpr rfl)⟩
  · rw [testCheckout_outcome, h.dir]
    change (afterRead toml suite.dir (world (.readContract (join suite.dir contractFile)))).outcome
      world = _
    rw [h.text]
    unfold afterRead
    dsimp only
    rw [h.contract]
    exact hrun
  · rw [testCheckout_trace, h.dir, List.append_assoc]
    change _ ++ (⟨_, world (.readContract (join suite.dir contractFile))⟩ ::
      (afterRead toml suite.dir (world (.readContract (join suite.dir contractFile)))).trace
        world) = _
    rw [h.text]
    unfold afterRead
    dsimp only
    rw [h.contract, ← htrace]
    rfl

theorem testCheckout_cases (scratch : Str) :
    (∃ suite : Suite, suite.scratch = scratch ∧ suite.Tested toml world opts) ∨
      ∃ e t, (testCheckout toml (checkoutOf scratch) opts).outcome world = .ok (e, t) ∧
        Blocking e := by
  rw [testCheckout_outcome]
  cases hdir : dirOf world (checkoutOf scratch) opts with
  | none => exact Or.inr ⟨_, _, rfl, blocking_unavailable⟩
  | some dir =>
      change _ ∨ ∃ e t, (afterRead toml dir
        (world (.readContract (join dir contractFile)))).outcome world = _ ∧ _
      cases htext : world (.readContract (join dir contractFile)) with
      | error e => exact Or.inr ⟨_, _, rfl, blocking_unavailable⟩
      | ok text =>
          unfold afterRead
          dsimp only
          cases hcontract : parseContract toml text with
          | error e => exact Or.inr ⟨_, _, rfl, blocking_fail⟩
          | ok contract =>
              rcases @runSuite_cases world dir contract with
                ⟨hcleared, hran, xml, totals, hreport, hcounts⟩ | hblocked
              · exact Or.inl ⟨⟨scratch, dir, text, contract, xml⟩, rfl,
                  ⟨hdir, htext, hcontract, hcleared, hran, hreport, totals, hcounts⟩⟩
              · exact Or.inr hblocked

theorem inspect_outcome {url checkout branch : Str} {e : Evidence} {t : Option TestEvidence}
    (h : (testCheckout toml checkout opts).outcome world = .ok (e, t)) :
    (inspect toml url checkout branch opts).outcome world =
      .ok ⟨.pass "branch.exists" .verified (branch ++ " was cloned from ".toList ++ url) ::
        (if opts.origin.isSome then
          [.pass "branch.in_origin" .published (branch ++ " was fetched from ".toList ++ url)]
        else
          []) ++ [e], t, claimsOf world checkout⟩ := by
  unfold inspect
  simp only [outcome_bind, outcome_ask, ok_bind, h]
  rfl

theorem inspect_trace {url checkout branch : Str} :
    (inspect toml url checkout branch opts).trace world =
      ranEvent world (.trailer checkout) ::
        ⟨.committed checkout, world (.committed checkout)⟩ ::
        (testCheckout toml checkout opts).trace world := by
  unfold inspect
  simp only [trace_bind, outcome_ask, trace_ask, traceAfter_ok]
  cases (testCheckout toml checkout opts).outcome world <;> simp [Prog.traceAfter, ranEvent]

theorem scratchDir_quiet : Quiet ((scratchDir opts).trace world) := by
  unfold scratchDir
  cases opts.workdir with
  | none =>
      dsimp only
      rw [trace_bind, trace_ask, outcome_ask, traceAfter_ok]
      refine (quiet_singleton rfl).append ?_
      cases world (.scratch opts.keepCheckout) <;> exact quiet_nil
  | some dir =>
      dsimp only
      rw [trace_bind, trace_ask, outcome_ask, traceAfter_ok]
      refine (quiet_singleton rfl).append ?_
      cases world (.createDirAll dir) <;> exact quiet_nil

/-- The evidence of a green run. -/
def greenEvidence (url branch : Str) (opts : VerifyOpts) (e : Evidence) : List Evidence :=
  .pass "branch.exists" .verified (branch ++ " was cloned from ".toList ++ url) ::
    (if opts.origin.isSome then
      [.pass "branch.in_origin" .published (branch ++ " was fetched from ".toList ++ url)]
    else
      []) ++ [e]

/-- What a green run performs before its last statements. -/
def firstSteps (world : World) (suite : Suite) (steps : List Command) (front before : Log) :
    Log :=
  front ++ (steps.map (ranEvent world) ++ (ranEvent world (.trailer suite.checkout) ::
    ⟨.committed suite.checkout, world (.committed suite.checkout)⟩ :: before))

/-- What a green run performs. -/
def GreenTrace (world : World) (suite : Suite) (steps : List Command) (log : Log) : Prop :=
  ∃ front before, log = firstSteps world suite steps front before ++ lastSteps world suite ∧
    Quiet front ∧ Quiet before ∧
    ⟨.readContract (join suite.dir contractFile), Except.ok suite.text⟩ ∈ before

theorem rerun_green {repo : Str} {target : Target} {suite : Suite}
    (h : suite.Green toml world repo target opts) :
    ∃ e t, (rerunTests toml repo target opts).outcome world =
        .ok ⟨greenEvidence (urlOf repo opts) (branchOf target opts) opts e, some t,
          claimsOf world suite.checkout⟩ ∧
      e.level = .verified ∧ e.status = .pass ∧ t.ok = true ∧
      GreenTrace world suite (plan (urlOf repo opts) suite.checkout (branchOf target opts))
        ((rerunTests toml repo target opts).trace world) := by
  obtain ⟨e, t, before, hout, hlevel, hpass, hok, htrace, hquiet, hread⟩ :=
    testCheckout_green h.tested
  obtain ⟨hplan, hplanTrace⟩ := runPlan_ok h.cloned
  refine ⟨e, t, ?_, hlevel, hpass, hok, (scratchDir opts).trace world, before, ?_,
    scratchDir_quiet, hquiet, hread⟩
  · unfold rerunTests
    dsimp only
    rw [if_neg h.branch, outcome_bind, scratchDir_ok h.scratch, ok_bind]
    dsimp only
    change ((runPlan (plan (urlOf repo opts) suite.checkout (branchOf target opts))) >>=
      _).outcome world = _
    rw [outcome_bind, hplan, ok_bind]
    exact inspect_outcome hout
  · unfold rerunTests
    dsimp only
    rw [if_neg h.branch, trace_bind, scratchDir_ok h.scratch, traceAfter_ok]
    dsimp only
    change _ ++ ((runPlan (plan (urlOf repo opts) suite.checkout (branchOf target opts))) >>=
      _).trace world = _
    rw [trace_bind, hplan, hplanTrace, traceAfter_ok]
    dsimp only
    change _ ++ (_ ++ (inspect toml (urlOf repo opts) suite.checkout (branchOf target opts)
      opts).trace world) = _
    rw [inspect_trace, htrace, firstSteps, List.append_assoc, List.append_assoc]
    rfl

/-- What `rerunTests` does behind the clone. -/
def afterPlan (toml : Str → Except Str Table) (opts : VerifyOpts) (repo scratch : Str)
    (target : Target) : Option Evidence → Script Rerun
  | some evidence => .ret (.without evidence)
  | none => inspect toml (urlOf repo opts) (checkoutOf scratch) (branchOf target opts) opts

/-- What `rerunTests` does with its scratch directory. -/
def afterScratch (toml : Str → Except Str Table) (opts : VerifyOpts) (repo : Str)
    (target : Target) : Except Evidence Str → Script Rerun
  | .error evidence => .ret (.without evidence)
  | .ok scratch =>
      runPlan (plan (urlOf repo opts) (checkoutOf scratch) (branchOf target opts)) >>=
        afterPlan toml opts repo scratch target

theorem rerun_cases (repo : Str) (target : Target) :
    (∃ suite : Suite, suite.Green toml world repo target opts) ∨
      ∃ r, (rerunTests toml repo target opts).outcome world = .ok r ∧
        ∃ e ∈ r.evidence, Blocking e := by
  by_cases hbranch : branchOf target opts = []
  · refine Or.inr ⟨_, by unfold rerunTests; rw [if_pos hbranch]; rfl, _,
      List.mem_singleton.mpr rfl, blocking_unavailable⟩
  have hstart : (rerunTests toml repo target opts).outcome world =
      (scratchDir opts).outcome world >>= fun a =>
        (afterScratch toml opts repo target a).outcome world := by
    unfold rerunTests
    dsimp only
    rw [if_neg hbranch]
    exact outcome_bind world (scratchDir opts) (afterScratch toml opts repo target)
  rw [hstart]
  rcases @scratchDir_cases world opts with ⟨scratch, hscratch⟩ | ⟨e, hout, hblocking⟩
  · rw [scratchDir_ok hscratch, ok_bind, afterScratch, outcome_bind]
    by_cases hcloned : ∀ step ∈ plan (urlOf repo opts) (checkoutOf scratch)
        (branchOf target opts), Succeeds world step
    · rw [(runPlan_ok hcloned).1, ok_bind, afterPlan]
      rcases @testCheckout_cases toml world opts scratch with
        ⟨suite, rfl, htested⟩ | ⟨e, t, hout, hblocking⟩
      · exact Or.inl ⟨suite, hbranch, hscratch, hcloned, htested⟩
      · refine Or.inr ⟨_, inspect_outcome hout, e, ?_, hblocking⟩
        exact List.mem_append_right _ (List.mem_singleton.mpr rfl)
    · obtain ⟨e, hout, hblocking⟩ := runPlan_failed hcloned
      rw [hout, ok_bind]
      exact Or.inr ⟨_, rfl, e, List.mem_singleton.mpr rfl, hblocking⟩
  · rw [hout, ok_bind]
    exact Or.inr ⟨_, rfl, e, List.mem_singleton.mpr rfl, hblocking⟩

theorem green_carries {url branch : Str} {e : Evidence} {t : TestEvidence}
    (hlevel : e.level = .verified) (hpass : e.status = .pass) (hok : t.ok = true) :
    Unrefuted (greenEvidence url branch opts e) ∧
      Carries (greenEvidence url branch opts e) (some t) := by
  have hall : ∀ c ∈ greenEvidence url branch opts e, c.status = .pass := by
    intro c hc
    unfold greenEvidence at hc
    rcases List.mem_append.mp hc with hc | hc
    · rcases List.mem_cons.mp hc with rfl | hc
      · rfl
      · split at hc
        · rw [List.mem_singleton.mp hc]
          rfl
        · cases hc
    · rw [List.mem_singleton.mp hc]
      exact hpass
  refine ⟨fun c hc => ?_, ⟨⟨e, ?_, hlevel, hpass⟩, fun c hc _ => ?_, ?_⟩⟩
  · rw [hall c hc]
    rintro ⟨⟩
  · exact List.mem_append_right _ (List.mem_singleton.mpr rfl)
  · rw [hall c hc]
    exact ⟨by rintro ⟨⟩, rfl⟩
  · rintro _ ⟨⟩
    exact hok

end SecondRun

/-! ## The tested commit -/

theorem suiteOf_quiet {e : Event Ask Reply} (h : e.1.quiet = true) : suiteOf e = none := by
  obtain ⟨question, answer⟩ := e
  cases question <;> first | rfl | cases h

theorem after_quiet {e : Event Ask Reply} (h : e.1.quiet = true) (repo : Repo) :
    repo.after e = repo := by
  obtain ⟨question, answer⟩ := e
  cases question <;> first | rfl | cases h

theorem foldl_quiet {log : Log} (h : Quiet log) (repo : Repo) :
    log.foldl Repo.after repo = repo := by
  induction log with
  | nil => rfl
  | cons e rest ih =>
      rw [List.foldl_cons, after_quiet (h e List.mem_cons_self)]
      exact ih fun e' he' => h e' (List.mem_cons_of_mem _ he')

theorem takeWhile_none {log : Log} (h : ∀ e ∈ log, suiteOf e = none) (rest : Log) :
    (log ++ rest).takeWhile (fun e => (suiteOf e).isNone) =
      log ++ rest.takeWhile (fun e => (suiteOf e).isNone) := by
  refine List.takeWhile_append_of_pos fun e he => ?_
  rw [h e he]
  rfl

section Tested

variable {world : World}
variable {suite : Suite}
variable {url branch : Str}

/-- A quiet beginning changes nothing. -/
theorem GreenTrace.prepend {steps : List Command} {log front' : Log} (hquiet : Quiet front')
    (h : GreenTrace world suite steps log) :
    GreenTrace world suite steps (front' ++ log) := by
  obtain ⟨front, before, rfl, hfront, hrest⟩ := h
  exact ⟨front' ++ front, before, by simp only [firstSteps, List.append_assoc],
    hquiet.append hfront, hrest⟩

theorem suiteOf_firstSteps {front before : Log} (hfront : Quiet front) (hbefore : Quiet before) :
    ∀ e ∈ firstSteps world suite (plan url suite.checkout branch) front before,
      suiteOf e = none := by
  intro e he
  simp only [firstSteps, plan, List.map_cons, List.map_nil, List.mem_append, List.mem_cons,
    List.not_mem_nil, or_false] at he
  rcases he with he | (rfl | rfl | rfl) | rfl | rfl | he
  · exact suiteOf_quiet (hfront e he)
  · rfl
  · rfl
  · rfl
  · rfl
  · rfl
  · exact suiteOf_quiet (hbefore e he)

/-- After the checkout the clone stands on the commit that the fetch brought. -/
theorem foldl_plan (hplan : ∀ step ∈ plan url suite.checkout branch, Succeeds world step) :
    ((plan url suite.checkout branch).map (ranEvent world)).foldl Repo.after ⟨none, none⟩ =
      ⟨some (world (.run (.fetch suite.checkout branch))).tip,
        some (world (.run (.fetch suite.checkout branch))).tip⟩ := by
  have hfetch : Answer.succeeded (world (.run (.fetch suite.checkout branch))) = true :=
    hplan _ (by simp [plan])
  have hcheckout : Answer.succeeded (world (.run (.checkout suite.checkout))) = true :=
    hplan _ (by simp [plan])
  simp only [plan, List.map_cons, List.map_nil, List.foldl_cons, List.foldl_nil, ranEvent,
    Repo.after, hfetch, hcheckout, if_true]

/-- The suite runs on the commit that the fetch brought. -/
theorem GreenTrace.testedCommit {log : Log}
    (h : GreenTrace world suite (plan url suite.checkout branch) log)
    (hplan : ∀ step ∈ plan url suite.checkout branch, Succeeds world step) :
    testedCommit log = some (world (.run (.fetch suite.checkout branch))).tip := by
  obtain ⟨front, before, rfl, hfront, hbefore, -⟩ := h
  have hlast : (lastSteps world suite).takeWhile (fun e => (suiteOf e).isNone) =
      [⟨.removeFile (join suite.dir suite.contract.junit),
        world (.removeFile (join suite.dir suite.contract.junit))⟩] := rfl
  have htail (repo : Repo) : (ranEvent world (.trailer suite.checkout) ::
      ⟨.committed suite.checkout, world (.committed suite.checkout)⟩ ::
      before).foldl Repo.after repo = repo := by
    rw [List.foldl_cons, List.foldl_cons]
    exact foldl_quiet hbefore repo
  unfold Verification.testedCommit
  rw [takeWhile_none (suiteOf_firstSteps hfront hbefore), hlast, List.foldl_append, firstSteps,
    List.foldl_append, foldl_quiet hfront, List.foldl_append, foldl_plan hplan, htail]
  rfl

/-- The suite is run once. -/
theorem GreenTrace.once {log : Log}
    (h : GreenTrace world suite (plan url suite.checkout branch) log) :
    ∃ before, log = before ++ lastSteps world suite ∧ before.filterMap suiteOf = [] ∧
      (∀ step ∈ plan url suite.checkout branch, ranEvent world step ∈ log) ∧
      ⟨.readContract (join suite.dir contractFile), Except.ok suite.text⟩ ∈ log := by
  obtain ⟨front, before, rfl, hfront, hbefore, hread⟩ := h
  refine ⟨_, rfl, List.filterMap_eq_nil_iff.mpr (suiteOf_firstSteps hfront hbefore), ?_, ?_⟩
  · intro step hstep
    exact List.mem_append_left _ (List.mem_append_right _
      (List.mem_append_left _ (List.mem_map_of_mem hstep)))
  · refine List.mem_append_left _ (List.mem_append_right _ (List.mem_append_right _ ?_))
    exact List.mem_cons_of_mem _ (List.mem_cons_of_mem _ hread)

/-- There is one clone. -/
theorem GreenTrace.checkout_eq {log : Log}
    (h : GreenTrace world suite (plan url suite.checkout branch) log)
    {url' checkout' : Str} {answer : Answer}
    (hmem : ⟨.run (.clone url' checkout'), answer⟩ ∈ log) : checkout' = suite.checkout := by
  obtain ⟨front, before, rfl, hfront, hbefore, -⟩ := h
  simp only [firstSteps, plan, lastSteps, List.map_cons, List.map_nil, List.mem_append,
    List.mem_cons, List.not_mem_nil, or_false, ranEvent] at hmem
  rcases hmem with (hmem | (hmem | hmem | hmem) | hmem | hmem | hmem) | hmem | hmem | hmem
  · cases hfront _ hmem
  · cases hmem
    rfl
  · cases hmem
  · cases hmem
  · cases hmem
  · cases hmem
  · cases hbefore _ hmem
  · cases hmem
  · cases hmem
  · cases hmem

end Tested

/-! ## The report of the suite -/

theorem wrap64_of_small {i : Int} (h0 : 0 ≤ i) (h : i < 2 ^ 63) :
    Junit.Scanner.wrap64 i = i := by
  unfold Junit.Scanner.wrap64
  exact Int.bmod_eq_of_le (by omega) (by omega)

theorem foldl_wrap {key : String} {suites : List Junit.Scanner.Tag} {acc : Int}
    (hacc : 0 ≤ acc) (hall : ∀ suite ∈ suites, 0 ≤ declared key suite)
    (hsmall : acc + (suites.map (declared key)).sum < 2 ^ 63) :
    suites.foldl (fun acc suite => Junit.Scanner.wrap64 (acc + declared key suite)) acc =
      acc + (suites.map (declared key)).sum := by
  induction suites generalizing acc with
  | nil => simp
  | cons suite rest ih =>
      have hfirst := hall suite List.mem_cons_self
      have hrest : ∀ s ∈ rest, 0 ≤ declared key s :=
        fun s hs => hall s (List.mem_cons_of_mem _ hs)
      have hsum : 0 ≤ (rest.map (declared key)).sum := by
        refine List.sum_nonneg fun i hi => ?_
        obtain ⟨s, hs, rfl⟩ := List.mem_map.mp hi
        exact hrest s hs
      rw [List.map_cons, List.sum_cons] at hsmall
      rw [List.foldl_cons, wrap64_of_small (by omega) (by omega),
        ih (by omega) hrest (by omega), List.map_cons, List.sum_cons, add_assoc]

/-- A sized number that is kept as zero is zero in every suite. -/
theorem Sized.all_zero {key : String} {xml : Str} (h : Sized key xml)
    (hkept : Junit.Scanner.asU32 (Junit.Scanner.sum key (suitesOf (scanElements xml))) = 0) :
    ∀ suite ∈ suitesOf (scanElements xml), declared key suite = 0 := by
  have hsmall : plainSum key xml < 2 ^ 32 := h.small
  have hnonneg : 0 ≤ plainSum key xml := by
    refine List.sum_nonneg fun i hi => ?_
    obtain ⟨s, hs, rfl⟩ := List.mem_map.mp hi
    exact h.nonneg s hs
  have hsum : Junit.Scanner.sum key (suitesOf (scanElements xml)) = plainSum key xml := by
    have := @foldl_wrap key (suitesOf (scanElements xml)) 0 le_rfl h.nonneg
      (by change 0 + plainSum key xml < _; omega)
    rw [zero_add] at this
    exact this
  rw [hsum] at hkept
  unfold Junit.Scanner.asU32 at hkept
  have hzero : plainSum key xml = 0 := by omega
  intro suite hsuite
  have hle : declared key suite ≤ plainSum key xml := by
    refine List.single_le_sum ?_ _ (List.mem_map_of_mem hsuite)
    intro i hi
    obtain ⟨s, hs, rfl⟩ := List.mem_map.mp hi
    exact h.nonneg s hs
  have := h.nonneg suite hsuite
  omega

theorem sized_of_zero {key : String} {xml : Str}
    (h : ∀ suite ∈ suitesOf (scanElements xml), declared key suite = 0) :
    Sized key xml ∧ plainSum key xml = 0 := by
  have hsum : plainSum key xml = 0 := by
    unfold plainSum
    refine List.sum_eq_zero fun i hi => ?_
    obtain ⟨s, hs, rfl⟩ := List.mem_map.mp hi
    exact h s hs
  exact ⟨⟨fun s hs => (h s hs).ge, by rw [hsum]; decide⟩, hsum⟩

theorem counts_kept {xml : Str} {totals : Junit.Scanner.Totals}
    (h : Junit.Scanner.parseJunit xml = .ok totals) :
    totals.failed =
        Junit.Scanner.asU32 (Junit.Scanner.sum "failures" (suitesOf (scanElements xml))) ∧
      totals.errors =
        Junit.Scanner.asU32 (Junit.Scanner.sum "errors" (suitesOf (scanElements xml))) := by
  unfold Junit.Scanner.parseJunit at h
  dsimp only at h
  split at h
  · cases h
  · unfold Junit.Scanner.countSuites at h
    dsimp only at h
    split at h
    · cases h
    · split at h
      · cases h
      · cases h
        exact ⟨rfl, rfl⟩

/-- A report that was counted green is clean exactly if its summary hides nothing. -/
theorem clean_iff_candid {cases : Str → Option (List Junit.Outcome)} {xml : Str}
    (h : ∃ totals, Junit.Scanner.parseJunit xml = .ok totals ∧ totals.failed = 0 ∧
      totals.errors = 0) :
    CleanReport cases xml ↔ Candid cases xml := by
  obtain ⟨totals, hparse, hfailed, herrors⟩ := h
  obtain ⟨hkeptFailed, hkeptErrors⟩ := counts_kept hparse
  constructor
  · rintro ⟨hdeclared, outcomes, hcases, hclean⟩
    have hfailures := sized_of_zero fun s hs => (hdeclared s hs).1
    have herrs := sized_of_zero fun s hs => (hdeclared s hs).2
    exact ⟨hfailures.1, herrs.1, outcomes, hcases, fun _ hmem => (hclean _ hmem).1 rfl,
      fun _ hmem => (hclean _ hmem).2 rfl⟩
  · rintro ⟨hfailures, herrs, outcomes, hcases, hnofailed, hnoerror⟩
    have hzeroFailed := hfailures.all_zero (hkeptFailed.symm.trans hfailed)
    have hzeroErrors := herrs.all_zero (hkeptErrors.symm.trans herrors)
    refine ⟨fun s hs => ⟨hzeroFailed s hs, hzeroErrors s hs⟩, outcomes, hcases, ?_⟩
    intro outcome hmem
    refine ⟨?_, ?_⟩
    · rintro rfl
      exact hnofailed (sized_of_zero hzeroFailed).2 hmem
    · rintro rfl
      exact hnoerror (sized_of_zero hzeroErrors).2 hmem

end Verification
end SwFactory
