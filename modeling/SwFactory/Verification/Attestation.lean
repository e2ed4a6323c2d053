import SwFactory.Junit.Readers
import SwFactory.Verification.Verify

/-!
# What a verified delivery attests

A report is verified only after a second run in the checkout, with no failure
anywhere.  Which commit was tested is read off the commands: a fetch brings the
commit the remote branch has at that moment, whatever the forge said before.
-/

namespace SwFactory
namespace Verification

open Contracts
open Identities
open Lexical
open Machine
open Junit.Scanner (declared suitesOf scanElements)

abbrev World :=
  ∀ question, Reply question

abbrev Log :=
  List (Event Ask Reply)

/-! ## What was tested -/

/-- The clone, as far as the commands change it. -/
structure Repo where
  fetchHead : Option Str
  head : Option Str
deriving DecidableEq, Repr

/-- The command was run and ended with status zero. -/
def Answer.succeeded (answer : Answer) : Bool :=
  match answer.result with
  | .ok output => output.code = 0
  | .error _ => false

/-- A fetch brings the commit of the remote branch; a checkout takes what was fetched. -/
def Repo.after (repo : Repo) : Event Ask Reply → Repo
  | ⟨.run (.fetch _ _), answer⟩ =>
      if Answer.succeeded answer then { repo with fetchHead := some answer.tip } else repo
  | ⟨.run (.checkout _), answer⟩ =>
      if Answer.succeeded answer then { repo with head := repo.fetchHead } else repo
  | _ => repo

/-- The directory and the command of a run of the suite. -/
def suiteOf : Event Ask Reply → Option (Str × Str)
  | ⟨.run (.suite dir test), _⟩ => some (dir, test)
  | _ => none

/-- The commit that is checked out when the suite is run first. -/
def testedCommit (log : Log) : Option Str :=
  ((log.takeWhile (fun e => (suiteOf e).isNone)).foldl Repo.after ⟨none, none⟩).head

/-- The directory is the checkout or lies below it. -/
def Inside (checkout dir : Str) : Prop :=
  dir = checkout ∨ ∃ rest, dir = checkout ++ '/' :: rest ∧ ['.', '.'] ∉ splitAll '/' rest

section Reports

-- The outcomes of the cases of a report, as an XML parser finds them; none of a malformed one.
variable (cases : Str → Option (List Junit.Outcome))

/-- No suite declares a failed or errored test, and no case is one. -/
structure CleanReport (xml : Str) : Prop where
  declared : ∀ suite ∈ suitesOf (scanElements xml),
    declared "failures" suite = 0 ∧ declared "errors" suite = 0
  cases : ∃ outcomes, cases xml = some outcomes ∧
    ∀ outcome ∈ outcomes, outcome ≠ .failed ∧ outcome ≠ .error

/-- What the suites declare under a key, added up without wrapping around. -/
def plainSum (key : String) (xml : Str) : Int :=
  ((suitesOf (scanElements xml)).map (declared key)).sum

/-- The declared numbers are sizes of test suites. -/
structure Sized (key : String) (xml : Str) : Prop where
  nonneg : ∀ suite ∈ suitesOf (scanElements xml), 0 ≤ declared key suite
  small : plainSum key xml < 2 ^ 32

/-- The summary of the report hides nothing. -/
structure Candid (xml : Str) : Prop where
  failures : Sized "failures" xml
  errors : Sized "errors" xml
  cases : ∃ outcomes, cases xml = some outcomes ∧
    (plainSum "failures" xml = 0 → .failed ∉ outcomes) ∧
    (plainSum "errors" xml = 0 → .error ∉ outcomes)

end Reports

/-! ## What a verification comes to -/

section Runs

variable (toml : Str → Except Str Table)
variable (world : World)

/-- The directory of the contract. -/
def dirOf (checkout : Str) (opts : VerifyOpts) : Option Str :=
  match opts.targetDir with
  | some dir => some (join checkout dir)
  | none => findContract checkout (world (.folders checkout))

/-- The second run: where, by which contract, and the report it left. -/
structure Suite where
  scratch : Str
  dir : Str
  text : Str
  contract : TargetContract
  xml : Str

def Suite.checkout (suite : Suite) : Str :=
  checkoutOf suite.scratch

/-- The scratch directory is there. -/
def ScratchAt (opts : VerifyOpts) (scratch : Str) : Prop :=
  match opts.workdir with
  | some dir => world (.createDirAll dir) = .ok () ∧ scratch = dir
  | none => world (.scratch opts.keepCheckout) = .ok scratch

def Succeeds (step : Command) : Prop :=
  Answer.succeeded (world (.run step)) = true

/-- The suite of the checkout was run and came out green. -/
structure Suite.Tested (suite : Suite) (opts : VerifyOpts) : Prop where
  dir : dirOf world suite.checkout opts = some suite.dir
  text : world (.readContract (join suite.dir contractFile)) = Except.ok suite.text
  contract : parseContract toml suite.text = .ok suite.contract
  cleared : ∀ e, world (.removeFile (join suite.dir suite.contract.junit)) ≠ Removal.failed e
  ran : Succeeds world (.suite suite.dir suite.contract.test)
  report : world (.readReport (join suite.dir suite.contract.junit)) = Except.ok suite.xml
  counts : ∃ totals, Junit.Scanner.parseJunit suite.xml = .ok totals ∧
    totals.failed = 0 ∧ totals.errors = 0

/-- The branch was cloned, and its suite was green. -/
structure Suite.Green (suite : Suite) (repo : Str) (target : Target) (opts : VerifyOpts) :
    Prop where
  branch : branchOf target opts ≠ []
  scratch : ScratchAt world opts suite.scratch
  cloned : ∀ step ∈ plan (urlOf repo opts) suite.checkout (branchOf target opts),
    Succeeds world step
  tested : suite.Tested toml world opts

/-- What the head says about itself. -/
def claimsOf (checkout : Str) : HeadClaims where
  runId := match (world (.run (.trailer checkout))).result with
    | .ok output => if output.code = 0 then trailerRunId output.stdout else none
    | .error _ => none
  committed := world (.committed checkout)

end Runs

/-- The forge's answer bears out the publication. -/
structure PublishedHolds (lookup : PrLookup) (target : Target) (opts : VerifyOpts) : Prop where
  name : target.branch ≠ [] →
    safeGitRef target.branch = true ∧ target.issueId ≠ [] ∧ target.runId ≠ []
  missing : lookup = .missing → opts.origin.isSome = true
  title : ∀ pr, lookup = .found pr → target.issueId = [] ∨
    (target.issueId ++ ": ".toList).isPrefixOf (strippedTitle pr.title) = true
  labels : ∀ pr, lookup = .found pr → (∀ label ∈ requiredLabels, label ∈ pr.labels) ∧
    ¬ ("factory:blocked".toList ∈ pr.labels ∧ "factory:rejected".toList ∈ pr.labels)
  base : ∀ pr base, lookup = .found pr → opts.baseBranch = some base → pr.baseRef = base

/-- The run's own record does not contradict the delivery. -/
structure ReportedHolds (record : Option RunMetrics) (target : Target) : Prop where
  issue : ∀ r ∈ record, target.issueId = [] ∨ r.issueId = [] ∨ r.issueId = target.issueId
  tests : ∀ r ∈ record, target.blocked = true ∨ r.testsPassed = true

section Verdicts

variable (sanitizeLine : Str → Str)
variable (toml : Str → Except Str Table)
variable (cases : Str → Option (List Junit.Outcome))
variable (github metrics : Bool)
variable (contextRepo : Option Str)
variable (id : DeliveryId)
variable (opts : VerifyOpts)

/-- What the checks are made on. -/
structure Setting where
  resolved : Target
  lookup : PrLookup
  committed : List RunMetrics
  repo : Str
  suite : Suite

def Setting.target (s : Setting) : Target :=
  s.resolved.adopt s.lookup

/-- Every answer is in order. -/
structure Setting.InOrder (s : Setting) (world : World) : Prop where
  resolved : (resolve github id).outcome world = .ok s.resolved
  lookup : (lookUpPr sanitizeLine github s.resolved).outcome world = .ok s.lookup
  committed : (committedRuns metrics s.target).outcome world = .ok s.committed
  requested : opts.clone = true
  repo : repoOf contextRepo opts = some s.repo
  green : s.suite.Green toml world s.repo s.target opts
  published : PublishedHolds s.lookup
    (attributed s.committed (claimsOf world s.suite.checkout) s.target).1 opts
  reported : ReportedHolds
    (attributed s.committed (claimsOf world s.suite.checkout) s.target).2
    (attributed s.committed (claimsOf world s.suite.checkout) s.target).1

/-- The tested commit is the one the forge named, the tests are the branch's own, and the report
hides nothing. -/
structure Setting.Trustworthy (s : Setting) (world : World) : Prop where
  head : ∀ pr, s.lookup = .found pr → pr.headSha = [] ∨
    pr.headSha = (world (.run (.fetch s.suite.checkout (branchOf s.target opts)))).tip
  inside : Inside s.suite.checkout s.suite.dir
  report : Candid cases s.suite.xml

/-- The suite of the branch was run once in the checkout, and its report is clean. -/
structure Retested (log : Log) (suite : Suite) : Prop where
  inside : Inside suite.checkout suite.dir
  cloned : ∃ url branch a b c, ⟨.run (.clone url suite.checkout), a⟩ ∈ log ∧
    ⟨.run (.fetch suite.checkout branch), b⟩ ∈ log ∧ ⟨.run (.checkout suite.checkout), c⟩ ∈ log
  contract : ⟨.readContract (join suite.dir contractFile), Except.ok suite.text⟩ ∈ log ∧
    parseContract toml suite.text = .ok suite.contract
  once : ∃ before removal answer, log = before ++
      [⟨.removeFile (join suite.dir suite.contract.junit), removal⟩,
        ⟨.run (.suite suite.dir suite.contract.test), answer⟩,
        ⟨.readReport (join suite.dir suite.contract.junit), Except.ok suite.xml⟩] ∧
    before.filterMap suiteOf = [] ∧ Answer.succeeded answer = true
  clean : CleanReport cases suite.xml

/-- What the log of a verification has to show for a verified report. -/
structure Attested (log : Log) (report : DeliveryReport) : Prop where
  noFailure : Unrefuted report.checks
  retested : ∃ suite, Retested toml cases log suite
  head : ∀ sha, report.delivery.headSha = some sha → testedCommit log = some sha

/-- The questions that only the run's own records answer. -/
def Ask.isRecords : Ask → Bool
  | .localRuns _ | .runs | .committed _ => true
  | _ => false

/-- The two worlds differ at most in the run's own records. -/
def SameButRecords (world world' : World) : Prop :=
  ∀ question, question.isRecords = false → world question = world' question

/-- A verified report attests the second run, and other records would at most refute it. -/
def Honest (world : World) : Prop :=
  ∀ report, (verify sanitizeLine toml github metrics contextRepo id opts).outcome world =
      .ok report → report.verdict.isVerified = true →
    Attested toml cases
      ((verify sanitizeLine toml github metrics contextRepo id opts).trace world) report ∧
    ∀ world' report', SameButRecords world world' →
      (verify sanitizeLine toml github metrics contextRepo id opts).outcome world' =
        .ok report' →
      report'.verdict.isVerified = true ∨ report'.verdict = .refuted

end Verdicts

end Verification
end SwFactory
