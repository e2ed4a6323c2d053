import SwFactory.Verification.Soundness

/-!
# The word of the verifier

The verdict is verified exactly if every answer is in order.  The report then
attests the second run, except that its commit is the forge's word, that the
contract may be read outside the checkout, and that the report of the suite is
believed by its summary.
-/

namespace SwFactory
namespace Verification

open Contracts
open Identities
open Lexical
open Machine

section Steps

variable {sanitizeLine : Str → Str}
variable {toml : Str → Except Str Table}
variable {github metrics : Bool}
variable {contextRepo : Option Str}
variable {id : DeliveryId}
variable {opts : VerifyOpts}
variable {world world' : World}

/-! ## The steps of a verification -/

theorem verify_outcome {report : DeliveryReport} :
    (verify sanitizeLine toml github metrics contextRepo id opts).outcome world = .ok report ↔
      ∃ resolved lookup committed rerun,
        (resolve github id).outcome world = .ok resolved ∧
        (lookUpPr sanitizeLine github resolved).outcome world = .ok lookup ∧
        (committedRuns metrics (resolved.adopt lookup)).outcome world = .ok committed ∧
        (attemptRerun toml contextRepo (resolved.adopt lookup) opts).outcome world =
          .ok rerun ∧
        report = reportOf sanitizeLine lookup committed rerun (resolved.adopt lookup) opts := by
  unfold verify
  dsimp only
  constructor
  · intro h
    rw [outcome_bind] at h
    obtain ⟨resolved, hresolved, h⟩ := bind_eq_ok h
    rw [outcome_bind] at h
    obtain ⟨lookup, hlookup, h⟩ := bind_eq_ok h
    rw [outcome_bind] at h
    obtain ⟨committed, hcommitted, h⟩ := bind_eq_ok h
    rw [outcome_bind] at h
    obtain ⟨rerun, hrerun, h⟩ := bind_eq_ok h
    cases h
    exact ⟨resolved, lookup, committed, rerun, hresolved, hlookup, hcommitted, hrerun, rfl⟩
  · rintro ⟨resolved, lookup, committed, rerun, hresolved, hlookup, hcommitted, hrerun, rfl⟩
    rw [outcome_bind, hresolved, ok_bind, outcome_bind, hlookup, ok_bind, outcome_bind,
      hcommitted, ok_bind, outcome_bind, hrerun, ok_bind]
    rfl

theorem verify_trace {resolved : Target} {lookup : PrLookup} {committed : List RunMetrics}
    {rerun : Rerun}
    (hresolved : (resolve github id).outcome world = .ok resolved)
    (hlookup : (lookUpPr sanitizeLine github resolved).outcome world = .ok lookup)
    (hcommitted : (committedRuns metrics (resolved.adopt lookup)).outcome world = .ok committed)
    (hrerun : (attemptRerun toml contextRepo (resolved.adopt lookup) opts).outcome world =
      .ok rerun) :
    (verify sanitizeLine toml github metrics contextRepo id opts).trace world =
      (resolve github id).trace world ++ ((lookUpPr sanitizeLine github resolved).trace world ++
        ((committedRuns metrics (resolved.adopt lookup)).trace world ++
          (attemptRerun toml contextRepo (resolved.adopt lookup) opts).trace world)) := by
  unfold verify
  dsimp only
  rw [trace_bind, hresolved, traceAfter_ok, trace_bind, hlookup, traceAfter_ok, trace_bind,
    hcommitted, traceAfter_ok, trace_bind, hrerun, traceAfter_ok, trace_ret, List.append_nil]

theorem resolvePr_quiet {number : U64} : Quiet ((resolvePr github number).trace world) := by
  unfold resolvePr
  cases github with
  | false => exact quiet_nil
  | true =>
      rw [if_pos rfl, trace_bind, trace_ask, outcome_ask, traceAfter_ok]
      refine (quiet_singleton rfl).append ?_
      cases world .prs with
      | error e => exact quiet_nil
      | ok prs =>
          dsimp only
          split <;> exact quiet_nil

theorem resolve_quiet : Quiet ((resolve github id).trace world) := by
  unfold resolve
  cases id with
  | branch issueId runId => exact quiet_nil
  | pr number => exact resolvePr_quiet
  | url url =>
      dsimp only
      split
      · exact resolvePr_quiet
      · exact quiet_nil
  | path path =>
      dsimp only
      rw [trace_bind, trace_ask, outcome_ask, traceAfter_ok]
      refine (quiet_singleton rfl).append ?_
      unfold resolvePath
      split <;> exact quiet_nil

theorem lookUpPr_quiet {target : Target} :
    Quiet ((lookUpPr sanitizeLine github target).trace world) := by
  unfold lookUpPr
  split
  · exact quiet_nil
  · rw [trace_bind, trace_ask, outcome_ask, traceAfter_ok]
    refine (quiet_singleton rfl).append ?_
    split <;> exact quiet_nil

theorem committedRuns_quiet {target : Target} :
    Quiet ((committedRuns metrics target).trace world) := by
  unfold committedRuns
  split
  · exact quiet_singleton rfl
  · split
    · rw [trace_bind, trace_ask, outcome_ask, traceAfter_ok]
      refine (quiet_singleton rfl).append ?_
      split <;> exact quiet_nil
    · exact quiet_nil

/-! ## The verdict -/

theorem report_isVerified_iff {lookup : PrLookup} {committed : List RunMetrics} {rerun : Rerun}
    {target : Target} :
    (reportOf sanitizeLine lookup committed rerun target opts).verdict.isVerified = true ↔
      ReportedHolds (attributed committed rerun.head target).2
          (attributed committed rerun.head target).1 ∧
        PublishedHolds lookup (attributed committed rerun.head target).1 opts ∧
        Unrefuted rerun.evidence ∧ Carries rerun.evidence rerun.tests := by
  unfold reportOf
  dsimp only
  rw [isVerified_iff, unrefuted_append, unrefuted_append, unrefuted_reported_iff,
    unrefuted_published_iff, carries_append, and_assoc, and_assoc]
  intro c hc
  rcases List.mem_append.mp hc with hc | hc
  · rw [level_reported c hc]
    decide
  · rw [level_published c hc]
    decide

theorem attributed_headSha {committed : List RunMetrics} {head : HeadClaims} {target : Target} :
    (attributed committed head target).1.headSha = target.headSha := by
  have hnamed : (runNamed committed head target).1.headSha = target.headSha := by
    unfold runNamed
    cases head.runId <;> rfl
  unfold attributed
  dsimp only
  split
  · split <;> exact hnamed
  · exact hnamed

theorem resolve_headSha {resolved : Target} (h : (resolve github id).outcome world = .ok resolved) :
    resolved.headSha = none := by
  have hpr : ∀ number, (resolvePr github number).outcome world = .ok resolved →
      resolved.headSha = none := by
    intro number h
    unfold resolvePr at h
    split at h
    · rw [outcome_bind] at h
      obtain ⟨prs, -, h⟩ := bind_eq_ok h
      cases prs with
      | error e => cases h
      | ok prs =>
          dsimp only at h
          split at h
          · cases h
          · cases h
            rfl
    · cases h
  unfold resolve at h
  cases id with
  | branch issueId runId =>
      cases h
      rfl
  | pr number => exact hpr number h
  | url url =>
      dsimp only at h
      split at h
      · exact hpr _ h
      · cases h
  | path path =>
      dsimp only at h
      rw [outcome_bind] at h
      obtain ⟨found, -, h⟩ := bind_eq_ok h
      cases found with
      | true =>
          cases h
          rfl
      | false => cases h

/-- The reported commit is the one the forge named. -/
theorem adopt_headSha_iff {resolved : Target} {lookup : PrLookup} {sha : Str}
    (h : resolved.headSha = none) :
    (resolved.adopt lookup).headSha = some sha ↔
      ∃ pr, lookup = .found pr ∧ pr.headSha = sha ∧ sha ≠ [] := by
  cases lookup with
  | found pr =>
      have hadopt : (resolved.adopt (.found pr)).headSha =
          if pr.headSha = [] then none else some pr.headSha := rfl
      rw [hadopt]
      constructor
      · intro hsha
        split at hsha
        · cases hsha
        · rename_i hne
          cases hsha
          exact ⟨pr, rfl, rfl, hne⟩
      · rintro ⟨pr', hpr, rfl, hne⟩
        cases hpr
        rw [if_neg hne]
  | _ =>
      refine iff_of_false ?_ (by rintro ⟨pr, ⟨⟩, -⟩)
      change resolved.headSha ≠ some sha
      rw [h]
      rintro ⟨⟩

/-- A verified report comes from answers that are all in order. -/
theorem inOrder_of_verified {report : DeliveryReport}
    (hout : (verify sanitizeLine toml github metrics contextRepo id opts).outcome world =
      .ok report)
    (hverified : report.verdict.isVerified = true) :
    ∃ s : Setting, s.InOrder sanitizeLine toml github metrics contextRepo id opts world := by
  obtain ⟨resolved, lookup, committed, rerun, hresolved, hlookup, hcommitted, hrerun, rfl⟩ :=
    verify_outcome.mp hout
  obtain ⟨hreported, hpublished, hunrefuted, hcarries⟩ := report_isVerified_iff.mp hverified
  unfold attemptRerun at hrerun
  split at hrerun
  · rename_i hclone
    cases hrepo : repoOf contextRepo opts with
    | none =>
        rw [hrepo] at hrerun
        cases hrerun
    | some repo =>
        rw [hrepo] at hrerun
        dsimp only at hrerun
        rcases @rerun_cases toml world opts repo (resolved.adopt lookup) with
          ⟨suite, hgreen⟩ | ⟨r, hr, e, he, hblocking⟩
        · obtain ⟨e, t, hrun, -⟩ := rerun_green hgreen
          rw [hrun] at hrerun
          cases hrerun
          exact ⟨⟨resolved, lookup, committed, repo, suite⟩, hresolved, hlookup, hcommitted,
            hclone, hrepo, hgreen, hpublished, hreported⟩
        · rw [hr] at hrerun
          cases hrerun
          exact absurd hcarries (hblocking.not_carries he)
  · cases hrerun
    obtain ⟨c, hc, -, hpass⟩ := hcarries.some_pass
    rw [List.mem_singleton.mp hc] at hpass
    cases hpass

/-- What a verification comes to when every answer is in order. -/
theorem Setting.InOrder.verified {s : Setting}
    (h : s.InOrder sanitizeLine toml github metrics contextRepo id opts world) :
    ∃ report, (verify sanitizeLine toml github metrics contextRepo id opts).outcome world =
        .ok report ∧ report.verdict.isVerified = true ∧
      report.delivery.headSha = s.target.headSha ∧
      GreenTrace world s.suite
        (plan (urlOf s.repo opts) s.suite.checkout (branchOf s.target opts))
        ((verify sanitizeLine toml github metrics contextRepo id opts).trace world) := by
  obtain ⟨e, t, hrun, hlevel, hpass, hok, htrace⟩ := rerun_green h.green
  have hattempt : attemptRerun toml contextRepo s.target opts =
      rerunTests toml s.repo s.target opts := by
    unfold attemptRerun
    rw [if_pos h.requested, h.repo]
  have hrerun := hrun
  rw [← hattempt] at hrerun
  obtain ⟨hunrefuted, hcarries⟩ := @green_carries opts (urlOf s.repo opts)
    (branchOf s.target opts) e t hlevel hpass hok
  refine ⟨_, verify_outcome.mpr ⟨s.resolved, s.lookup, s.committed, _, h.resolved, h.lookup,
    h.committed, hrerun, rfl⟩, ?_, ?_, ?_⟩
  · exact report_isVerified_iff.mpr ⟨h.reported, h.published, hunrefuted, hcarries⟩
  · exact attributed_headSha
  · rw [verify_trace h.resolved h.lookup h.committed hrerun]
    change GreenTrace world s.suite _ (_ ++ (_ ++ (_ ++
      (attemptRerun toml contextRepo s.target opts).trace world)))
    rw [hattempt]
    exact ((htrace.prepend committedRuns_quiet).prepend lookUpPr_quiet).prepend resolve_quiet

/-! ## Other records -/

theorem resolve_congr (h : SameButRecords world world') :
    (resolve github id).outcome world' = (resolve github id).outcome world := by
  have hpr : ∀ number, (resolvePr github number).outcome world' =
      (resolvePr github number).outcome world := by
    intro number
    unfold resolvePr
    cases github with
    | false => rfl
    | true =>
        rw [if_pos rfl, outcome_bind, outcome_bind, outcome_ask, outcome_ask, ← h .prs rfl,
          ok_bind, ok_bind]
        cases world .prs with
        | error e => rfl
        | ok prs =>
            dsimp only
            split <;> rfl
  unfold resolve
  cases id with
  | branch issueId runId => rfl
  | pr number => exact hpr number
  | url url =>
      dsimp only
      split
      · exact hpr _
      · rfl
  | path path =>
      dsimp only
      rw [outcome_bind, outcome_bind, outcome_ask, outcome_ask, ← h (.isDir path) rfl, ok_bind,
        ok_bind]
      cases world (.isDir path) <;> rfl

theorem lookUpPr_congr (h : SameButRecords world world') {target : Target} :
    (lookUpPr sanitizeLine github target).outcome world' =
      (lookUpPr sanitizeLine github target).outcome world := by
  unfold lookUpPr
  split
  · rfl
  · rw [outcome_bind, outcome_bind, outcome_ask, outcome_ask,
      ← h (.prForBranch target.branch) rfl, ok_bind, ok_bind]
    split <;> rfl

/-- The second run does not look at the records. -/
theorem Suite.Green.congr (h : SameButRecords world world') {suite : Suite} {repo : Str}
    {target : Target} (hgreen : suite.Green toml world repo target opts) :
    suite.Green toml world' repo target opts := by
  have hran : ∀ step, Succeeds world step → Succeeds world' step := by
    intro step hstep
    unfold Succeeds at hstep ⊢
    rwa [← h (.run step) rfl]
  have hscratch : ScratchAt world' opts suite.scratch := by
    have := hgreen.scratch
    unfold ScratchAt at this ⊢
    cases hdir : opts.workdir with
    | none =>
        rw [hdir] at this
        dsimp only at this ⊢
        rwa [← h (.scratch opts.keepCheckout) rfl]
    | some dir =>
        rw [hdir] at this
        dsimp only at this ⊢
        rwa [← h (.createDirAll dir) rfl]
  have hdir : dirOf world' suite.checkout opts = some suite.dir := by
    rw [← hgreen.tested.dir]
    unfold dirOf
    rw [h (.folders suite.checkout) rfl]
  exact ⟨hgreen.branch, hscratch, fun step hstep => hran step (hgreen.cloned step hstep), hdir,
    by rw [← h _ rfl]; exact hgreen.tested.text, hgreen.tested.contract,
    fun e => by rw [← h _ rfl]; exact hgreen.tested.cleared e, hran _ hgreen.tested.ran,
    by rw [← h _ rfl]; exact hgreen.tested.report, hgreen.tested.counts⟩

/-- Other records would at most refute a verified delivery. -/
theorem Setting.InOrder.other_records {s : Setting}
    (h : s.InOrder sanitizeLine toml github metrics contextRepo id opts world)
    (hsame : SameButRecords world world') {report : DeliveryReport}
    (hout : (verify sanitizeLine toml github metrics contextRepo id opts).outcome world' =
      .ok report) :
    report.verdict.isVerified = true ∨ report.verdict = .refuted := by
  obtain ⟨resolved, lookup, committed, rerun, hresolved, hlookup, -, hrerun, rfl⟩ :=
    verify_outcome.mp hout
  rw [resolve_congr hsame, h.resolved] at hresolved
  cases hresolved
  rw [lookUpPr_congr hsame, h.lookup] at hlookup
  cases hlookup
  obtain ⟨e, t, hrun, hlevel, hpass, hok, -⟩ := rerun_green (h.green.congr hsame)
  unfold attemptRerun at hrerun
  rw [if_pos h.requested, h.repo] at hrerun
  change (rerunTests toml s.repo s.target opts).outcome world' = _ at hrerun
  rw [hrun] at hrerun
  cases hrerun
  obtain ⟨hunrefuted, hcarries⟩ := @green_carries opts (urlOf s.repo opts)
    (branchOf s.target opts) e t hlevel hpass hok
  by_cases hall : Unrefuted (reportOf sanitizeLine s.lookup committed
      ⟨greenEvidence (urlOf s.repo opts) (branchOf s.target opts) opts e, some t,
        claimsOf world' s.suite.checkout⟩ (s.resolved.adopt s.lookup) opts).checks
  · refine Or.inl (report_isVerified_iff.mpr ?_)
    have hparts := unrefuted_append.mp hall
    have hfirst := unrefuted_append.mp hparts.1
    exact ⟨unrefuted_reported_iff.mp hfirst.1, unrefuted_published_iff.mp hfirst.2, hunrefuted,
      hcarries⟩
  · exact Or.inr (refuted_of_fail hall)

theorem unrefuted_of_verified {report : DeliveryReport}
    (hout : (verify sanitizeLine toml github metrics contextRepo id opts).outcome world =
      .ok report)
    (hverified : report.verdict.isVerified = true) : Unrefuted report.checks := by
  obtain ⟨resolved, lookup, committed, rerun, -, -, -, -, rfl⟩ := verify_outcome.mp hout
  exact (isVerified_iff.mp hverified).1

end Steps

/-! ## What a verified report is worth -/

section Worth

/-- The report that was read. -/
def xmlOf : Event Ask Reply → Option Str
  | ⟨.readReport _, report⟩ => Except.toOption report
  | _ => none

variable (sanitizeLine : Str → Str)
variable (toml : Str → Except Str Table)
variable (cases : Str → Option (List Junit.Outcome))

/-- A verified report is honest exactly if, where every answer is in order, the forge named the
commit that was fetched, the contract lies in the checkout, and the report hides nothing. -/
theorem verified_attests_iff
    (github metrics : Bool)
    (contextRepo : Option Str)
    (id : DeliveryId)
    (opts : VerifyOpts)
    (world : World) :
    Honest sanitizeLine toml cases github metrics contextRepo id opts world ↔
      ∀ s : Setting, s.InOrder sanitizeLine toml github metrics contextRepo id opts world →
        s.Trustworthy cases opts world := by
  constructor
  · intro hhonest s hs
    obtain ⟨report, hout, hverified, hsha, htrace⟩ := hs.verified
    obtain ⟨⟨-, ⟨suite, hretested⟩, hhead⟩, -⟩ := hhonest report hout hverified
    obtain ⟨before, hlog, -⟩ := htrace.once
    obtain ⟨before', removal, answer, hlog', -, -⟩ := hretested.once
    have hlast := List.append_inj_right' (hlog.symm.trans hlog') rfl
    have hevents := (List.cons.inj hlast).2
    have hdir : s.suite.dir = suite.dir := by
      have := congrArg suiteOf (List.cons.inj hevents).1
      exact congrArg Prod.fst (Option.some.inj this)
    have hxml : s.suite.xml = suite.xml := by
      have := congrArg xmlOf (List.cons.inj (List.cons.inj hevents).2).1
      exact Option.some.inj this
    obtain ⟨url, branch, a, b, c, hclone, -⟩ := hretested.cloned
    have hcheckout := htrace.checkout_eq hclone
    refine ⟨?_, ?_, ?_⟩
    · intro pr hpr
      by_cases hempty : pr.headSha = []
      · exact Or.inl hempty
      · refine Or.inr ?_
        have htarget := (adopt_headSha_iff (resolve_headSha hs.resolved)).mpr
          ⟨pr, hpr, rfl, hempty⟩
        have htested := hhead _ (hsha.trans htarget)
        rw [htrace.testedCommit hs.green.cloned] at htested
        exact (Option.some.inj htested).symm
    · rw [hdir, ← hcheckout]
      exact hretested.inside
    · refine (clean_iff_candid hs.green.tested.counts).mp ?_
      rw [hxml]
      exact hretested.clean
  · intro htrust report hout hverified
    obtain ⟨s, hs⟩ := inOrder_of_verified hout hverified
    obtain ⟨report', hout', -, hsha, htrace⟩ := hs.verified
    rw [hout] at hout'
    cases hout'
    obtain ⟨before, hlog, hbefore, hplan, hread⟩ := htrace.once
    have hgood := htrust s hs
    refine ⟨⟨unrefuted_of_verified hout hverified, ⟨s.suite, hgood.inside, ?_, ?_, ?_, ?_⟩, ?_⟩, ?_⟩
    · exact ⟨_, _, _, _, _, hplan _ (by simp [plan]; rfl), hplan _ (by simp [plan]; rfl),
        hplan _ (by simp [plan])⟩
    · exact ⟨hread, hs.green.tested.contract⟩
    · exact ⟨before, _, _, hlog, hbefore, hs.green.tested.ran⟩
    · exact (clean_iff_candid hs.green.tested.counts).mpr hgood.report
    · intro sha hreported
      obtain ⟨pr, hpr, rfl, hne⟩ := (adopt_headSha_iff (resolve_headSha hs.resolved)).mp
        (hsha.symm.trans hreported)
      rw [htrace.testedCommit hs.green.cloned]
      exact congrArg some ((hgood.head pr hpr).resolve_left hne).symm
    · intro world' report' hsame hout'
      exact hs.other_records hsame hout'

/-- The branch moves between the forge's answer and the fetch. -/
def movingWorld : World
  | .prs => Except.ok []
  | .prForBranch _ => Except.ok (some ⟨"https://forge/pull/7".toList, "OPEN".toList,
      "42: fix".toList, requiredLabels, "aaaa".toList, "main".toList⟩)
  | .isDir _ => false
  | .localRuns _ => []
  | .runs => Except.ok []
  | .createDirAll _ => Except.ok ()
  | .scratch _ => Except.ok "/tmp/verify".toList
  | .run _ => ⟨.ok ⟨0, [], []⟩, "bbbb".toList⟩
  | .committed _ => []
  | .folders _ => .node true []
  | .readContract _ => Except.ok "[commands]".toList
  | .removeFile _ => Removal.notFound
  | .readReport _ => Except.ok "<testsuite tests=\"1\"/>".toList

/-- A contract with a test command. -/
def pytestToml (_ : Str) : Except Str Table :=
  .ok [("commands", .table [("test", .string "pytest".toList)])]

def cloneOpts : VerifyOpts :=
  ⟨true, some "acme/shop".toList, none, none, none, false, none, none⟩

/-- The report is verified, and names a commit that was not tested. -/
theorem verified_names_untested_commit :
    ¬ Honest (fun text => text) pytestToml (fun _ => some [.passed]) true false none
      (.branch "42".toList "r1".toList) cloneOpts movingWorld := by
  intro h
  have hrun : ∃ report,
      (verify (fun text => text) pytestToml true false none (.branch "42".toList "r1".toList)
        cloneOpts).outcome movingWorld = .ok report ∧
      report.verdict.isVerified = true ∧ report.delivery.headSha = some "aaaa".toList :=
    ⟨_, rfl, by decide +kernel, by decide +kernel⟩
  obtain ⟨report, hout, hverified, hsha⟩ := hrun
  have hhead := (h report hout hverified).1.head _ hsha
  revert hhead
  decide +kernel

end Worth

end Verification
end SwFactory
