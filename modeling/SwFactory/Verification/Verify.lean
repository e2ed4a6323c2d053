import SwFactory.Contracts.Parsers
import SwFactory.Junit.Scanner
import SwFactory.Machine.Logs
import SwFactory.Verification.Evidence
import Mathlib.Data.List.Lex

/-!
# The verification of one delivery

`verify` asks the forge about the branch, clones the branch and runs its test
command, and judges what the run said about itself.  Each command's answer also
carries the commit the remote branch has while the command runs, which the
program never sees.

Source: `delivery.rs` (`verify`, `resolve`, `look_up_pr`, `reported_checks`,
`published_checks`, `rerun_tests`) and `blueprint.rs` (`validate_git_ref`).
-/

namespace SwFactory
namespace Verification

open Contracts
open Identities
open Lexical
open Machine

/-! ## What is asked, and what is answered -/

/-- A pull request as the listing shows it. -/
structure PullRequest where
  number : Int
  url : Str
  title : Str
  head : Str
  labels : List Str
deriving DecidableEq, Repr

/-- `PrHead` -/
structure PrHead where
  url : Str
  state : Str
  title : Str
  labels : List Str
  headSha : Str
  baseRef : Str
deriving DecidableEq, Repr

/-- The fields of `RunMetrics` that a verification reads. -/
structure RunMetrics where
  runId : Str
  issueId : Str
  stages : Nat
  blockers : Int
  testsPassed : Bool
deriving DecidableEq, Repr

/-- `CommandOutput` -/
structure Output where
  code : Int
  stdout : Str
  stderr : Str
deriving DecidableEq, Repr

/-- `CommandOutput::message` -/
def Output.message (output : Output) : Str :=
  if trimText output.stderr = [] then trimText output.stdout else trimText output.stderr

/-- `AdapterError`, with the text it is displayed with. -/
inductive AdapterError
  | timeout (text : Str)
  | other (text : Str)
deriving DecidableEq, Repr

def AdapterError.display : AdapterError → Str
  | .timeout text => text
  | .other text => text

/-- The answer to a command, and the commit of the remote branch meanwhile. -/
structure Answer where
  result : Except AdapterError Output
  tip : Str

/-- The commands of a verification. -/
inductive Command
  | clone (url checkout : Str)
  | fetch (checkout branch : Str)
  | checkout (dir : Str)
  | trailer (checkout : Str)
  | suite (dir test : Str)
deriving DecidableEq, Repr

def Command.argv : Command → List Str
  | .clone url dir =>
      ["git".toList, "clone".toList, "--quiet".toList, "--depth".toList, "50".toList, url, dir]
  | .fetch dir branch =>
      ["git".toList, "-C".toList, dir, "fetch".toList, "--quiet".toList, "--depth".toList,
        "50".toList, "origin".toList, branch]
  | .checkout dir =>
      ["git".toList, "-C".toList, dir, "checkout".toList, "--quiet".toList,
        "FETCH_HEAD".toList]
  | .trailer dir =>
      ["git".toList, "-C".toList, dir, "log".toList, "-1".toList,
        "--format=%(trailers:key=Factory-Run,valueonly)".toList]
  | .suite dir test =>
      ["sh".toList, "-c".toList, "cd \"$1\" || exit 1; eval \"$2\"".toList, "swf".toList, dir, test]

/-- A directory entry: not empty, and without a slash. -/
structure Entry where
  name : Str
  named : name ≠ []
  oneLevel : '/' ∉ name

/-- What a search for a contract sees of a directory. -/
inductive Folder
  | node (hasContract : Bool) (children : List (Entry × Folder))

def Folder.hasContract : Folder → Bool
  | node found _ => found

def Folder.children : Folder → List (Entry × Folder)
  | node _ children => children

/-- How `remove_file` ends. -/
inductive Removal
  | done
  | notFound
  | failed (text : Str)
deriving DecidableEq, Repr

/-- What a verification asks its surroundings. -/
inductive Ask
  | prs
  | prForBranch (branch : Str)
  | isDir (path : Str)
  | localRuns (path : Str)
  | runs
  | createDirAll (path : Str)
  | scratch (keep : Bool)
  | run (command : Command)
  | committed (checkout : Str)
  | folders (checkout : Str)
  | readContract (path : Str)
  | removeFile (path : Str)
  | readReport (path : Str)
deriving DecidableEq, Repr

def Reply : Ask → Type
  | .prs => Except Str (List PullRequest)
  | .prForBranch _ => Except Str (Option PrHead)
  | .isDir _ => Bool
  | .localRuns _ => List RunMetrics
  | .runs => Except Str (List RunMetrics)
  | .createDirAll _ => Except Str Unit
  | .scratch _ => Except Str Str
  | .run _ => Answer
  | .committed _ => List RunMetrics
  | .folders _ => Folder
  | .readContract _ => Except Str Str
  | .removeFile _ => Removal
  | .readReport _ => Except Str Str

/-- `OpsError` -/
inductive OpsError
  | operational (text : Str)
  | notFound (text : Str)
  | usage (text : Str)
deriving DecidableEq, Repr

abbrev Script (α : Type) :=
  Prog Ask Reply OpsError α

def ask (question : Ask) : Script (Reply question) :=
  Prog.perform question

/-- `VerifyOpts` -/
structure VerifyOpts where
  clone : Bool
  repo : Option Str
  baseBranch : Option Str
  targetDir : Option Str
  workdir : Option Str
  keepCheckout : Bool
  origin : Option Str
  branch : Option Str
deriving DecidableEq, Repr

/-- `Target` -/
structure Target where
  branch : Str
  issueId : Str
  runId : Str
  prUrl : Option Str
  headSha : Option Str
  blocked : Bool
  localDir : Option Str
deriving DecidableEq, Repr

def Target.default : Target :=
  ⟨[], [], [], none, none, false, none⟩

/-! ## The delivery that is meant -/

def blockedLabels : List Str :=
  ["factory:blocked".toList, "factory:rejected".toList]

def blockedBanners : List Str :=
  ["[BLOCKED] ".toList, "[REJECTED] ".toList]

def requiredLabels : List Str :=
  ["factory".toList, "agent-authored".toList]

/-- `is_blocked` -/
def isBlocked (title : Str) (labels : List Str) : Bool :=
  blockedLabels.any (· ∈ labels) || blockedBanners.any (fun banner => banner.isPrefixOf title)

/-- `split_branch` -/
def splitBranch (branch : Str) : Str × Str :=
  match DeliveryId.parse branch with
  | .ok (.branch issueId runId) => (issueId, runId)
  | _ => ([], [])

/-- What follows the first occurrence of a part. -/
def behind (part : Str) : Str → Option Str
  | [] => none
  | c :: rest =>
      if part.isPrefixOf (c :: rest) then
        some ((c :: rest).drop part.length)
      else
        behind part rest

/-- `pr_number_in`; the digits end before another `/pull/` would begin. -/
def prNumberIn (url : Str) : Option U64 :=
  (behind "/pull/".toList url).bind (fun tail => U64.parse (tail.takeWhile Char.isDigit))

/-- `i64::try_from(number).unwrap_or(i64::MAX)` -/
def toI64 (number : U64) : Int :=
  if number.1 < 2 ^ 63 then number.1 else 2 ^ 63 - 1

/-- The branch of `resolve` for a pull request number. -/
def resolvePr (github : Bool) (number : U64) : Script Target :=
  if github then
    ask .prs >>= fun
      | .error e => .raise (.operational e)
      | .ok prs =>
          match prs.find? (fun pr => pr.number = toI64 number) with
          | none =>
              .raise (.notFound ("no factory pull request #".toList ++ Nat.toDigits 10 number.1))
          | some pr =>
              .ret ⟨pr.head, (splitBranch pr.head).1, (splitBranch pr.head).2, some pr.url, none,
                isBlocked pr.title pr.labels, none⟩
  else
    .raise (.operational
      "a pull request number needs a repo to look it up in; this context has none".toList)

/-- The branch of `resolve` for a path. -/
def resolvePath (path : Str) : Bool → Script Target
  | true => .ret { Target.default with localDir := some path }
  | false =>
      .raise (.notFound (path ++
        " is not a delivery: no such branch, pull request or directory".toList))

/-- `resolve` -/
def resolve (github : Bool) : DeliveryId → Script Target
  | .branch issueId runId =>
      .ret { Target.default with
        branch := deliveryBranchPrefix ++ issueId ++ '-' :: runId
        issueId := issueId
        runId := runId }
  | .pr number => resolvePr github number
  | .url url =>
      match prNumberIn url with
      | some number => resolvePr github number
      | none => .raise (.usage (url ++ " is not a pull request URL".toList))
  | .path path =>
      ask (.isDir path) >>= fun found => resolvePath path found

/-- `PrLookup` -/
inductive PrLookup
  | notConfigured
  | missing
  | found (pr : PrHead)
  | failed (text : Str)
deriving DecidableEq, Repr

section Texts

-- `sanitize_line`
variable (sanitizeLine : Str → Str)

/-- `look_up_pr` -/
def lookUpPr (github : Bool) (target : Target) : Script PrLookup :=
  if github = false ∨ target.branch = [] then
    .ret .notConfigured
  else
    ask (.prForBranch target.branch) >>= fun
      | .ok (some pr) => .ret (.found pr)
      | .ok none => .ret .missing
      | .error e => .ret (.failed (sanitizeLine e))

/-- What `verify` takes over from the pull request. -/
def Target.adopt (target : Target) : PrLookup → Target
  | .found pr =>
      { target with
        prUrl := some pr.url
        headSha := if pr.headSha = [] then none else some pr.headSha
        blocked := isBlocked pr.title pr.labels }
  | _ => target

/-! ## The three claims -/

/-- `HeadClaims` -/
structure HeadClaims where
  runId : Option Str
  committed : List RunMetrics
deriving DecidableEq, Repr

/-- `pick_record` -/
def pickRecord (committed : List RunMetrics) (target : Target) : Option RunMetrics :=
  if target.runId ≠ [] then
    committed.find? (fun run => run.runId = target.runId)
  else
    match committed with
    | [only] => some only
    | _ => none

/-- `head_record` -/
def headRecord (head : HeadClaims) (committed : List RunMetrics) (runId : Str) :
    Option RunMetrics :=
  (head.committed ++ committed).find? (fun run => run.runId = runId)

/-- `is_publication_key` -/
def isPublicationKey (suffix : Str) : Bool :=
  (suffix.map Char.utf8Size).sum = 12 && suffix.all (fun c => c.isDigit || ('a' ≤ c && c ≤ 'f'))

/-- `trailer_run_id`; a line may end in `\r\n`, and the trim drops that too. -/
def trailerRunId (stdout : Str) : Option Str :=
  match ((splitAll '\n' stdout).map trimText).filter (· ≠ []) with
  | [only] =>
      if (only.map Char.utf8Size).sum ≤ 64 ∧
          only.all (fun c => c.isAlphanum || c = '-' || c = '_') then
        some only
      else
        none
  | _ => none

/-- `reported_checks` -/
def reportedChecks (record : Option RunMetrics) (target : Target) (blocked : Bool) :
    List Evidence :=
  match record with
  | none =>
      [.skipped "metrics.present" .reported
        "no committed metrics.json for this run is readable here".toList]
  | some record =>
      [.pass "metrics.present" .reported
        ("metrics.json for run ".toList ++ record.runId ++ " (".toList ++
          Nat.toDigits 10 record.stages ++ " stage(s), ".toList ++
          (toString record.blockers).toList ++ " blocker(s))".toList)] ++
      (if target.issueId ≠ [] ∧ record.issueId ≠ [] ∧ record.issueId ≠ target.issueId then
        [.fail "metrics.issue_matches" .reported
          "the committed metrics answer a different issue than the branch names".toList
          target.issueId record.issueId]
      else
        []) ++
      [if blocked then
        .skipped "metrics.tests_passed" .reported
          "the delivery is blocked, so its own test verdict is not the question".toList
      else if record.testsPassed then
        .pass "metrics.tests_passed" .reported
          "the run reports its tests green (self-reported, not verified)".toList
      else
        .fail "metrics.tests_passed" .reported
          "the run reports its own tests as failing".toList "true".toList "false".toList]

def refSuspect : List Char :=
  ['~', '^', ':', '?', '*', '\\', '[']

/-- `str::contains` -/
def contains (part text : Str) : Bool :=
  text.tails.any part.isPrefixOf

/-- `str::ends_with` -/
def endsWith (tail text : Str) : Bool :=
  tail.reverse.isPrefixOf text.reverse

/-- `py_repr` -/
def pyRepr (value : Str) : Str :=
  '\'' :: value.flatMap (fun c =>
    if c = '\\' then ['\\', '\\'] else if c = '\'' then ['\\', '\''] else [c]) ++ ['\'']

/-- The checks of `validate_git_ref`. -/
def safeGitRef (value : Str) : Bool :=
  !(value = [] || value = ['@'] ||
    (value.zip (value.drop 1)).any (fun w =>
      (w.1.toNat ≤ 0x20 || w.1 ∈ refSuspect) && w.2 = ']') ||
    value.head? = some '-' || value.head? = some '/' ||
    value.getLast? = some '/' || value.getLast? = some '.' ||
    contains "..".toList value || contains "//".toList value || contains ['@', '\x7b'] value ||
    (splitAll '/' value).any (fun part =>
      part = [] || part.head? = some '.' || endsWith ".lock".toList part))

/-- `validate_git_ref` -/
def validateGitRef (value field : Str) : Except Str Unit :=
  if safeGitRef value then
    .ok ()
  else
    .error (field ++ " is not a safe Git ref: ".toList ++ pyRepr value)

/-- The findings on the branch name. -/
def branchChecks (target : Target) : List Evidence :=
  if target.branch = [] then
    []
  else
    (match validateGitRef target.branch "branch".toList with
    | .ok () => []
    | .error detail =>
        [.fail "branch.name_invalid" .published detail "a safe git ref".toList target.branch]) ++
    (if target.issueId = [] ∨ target.runId = [] then
      [.fail "branch.name_parses" .published
        "the branch does not split into an issue id and a run id".toList
        (deliveryBranchPrefix ++ "<issue>-<run>".toList) target.branch]
    else
      [])

/-- The title without a banner. -/
def strippedTitle (title : Str) : Str :=
  ((blockedBanners.filterMap (fun banner => stripFront banner title)).head?).getD title

def commaJoined (texts : List Str) : Str :=
  ", ".toList.intercalate texts

def titleCheck (target : Target) (pr : PrHead) : Evidence :=
  let expected := target.issueId ++ ": ".toList
  if target.issueId = [] ∨ expected.isPrefixOf (strippedTitle pr.title) then
    .pass "pr.title_shape" .published (sanitizeLine pr.title)
  else
    .fail "pr.title_shape" .published
      "the title does not name the issue this branch answers".toList
      (expected ++ ['…']) (sanitizeLine pr.title)

def labelCheck (pr : PrHead) : Evidence :=
  let missing := requiredLabels.filter (· ∉ pr.labels)
  if missing ≠ [] then
    .fail "pr.labels" .published
      "the delivery is missing a label the factory always applies".toList
      (commaJoined missing) (commaJoined pr.labels)
  else if "factory:blocked".toList ∈ pr.labels ∧ "factory:rejected".toList ∈ pr.labels then
    .fail "pr.labels" .published "a delivery cannot be both blocked and rejected".toList
      "one of factory:blocked, factory:rejected".toList (commaJoined pr.labels)
  else
    .pass "pr.labels" .published (commaJoined pr.labels)

def baseCheck (pr : PrHead) (opts : VerifyOpts) : Evidence :=
  match opts.baseBranch with
  | some base =>
      if pr.baseRef = base then
        .pass "pr.base" .published ("merges into ".toList ++ base)
      else
        .fail "pr.base" .published
          "the delivery targets a different branch than the blueprint's base".toList
          base pr.baseRef
  | none => .skipped "pr.base" .published "no base branch was given to check against".toList

/-- `published_checks` -/
def publishedChecks (lookup : PrLookup) (target : Target) (opts : VerifyOpts) : List Evidence :=
  branchChecks target ++
    match lookup with
    | .notConfigured =>
        [.skipped "pr.exists" .published
          "no repo is configured for this context, so the forge was not asked".toList]
    | .failed detail =>
        [if opts.origin.isSome then
          .skipped "pr.exists" .published
            ("this delivery was published to a named remote; the forge was not reachable: ".toList
              ++ detail)
        else
          .unavailable "pr.exists" .published
            ("the forge could not be asked: ".toList ++ detail)]
    | .missing =>
        [if opts.origin.isSome then
          .skipped "pr.exists" .published
            "this delivery was published to a named remote, not to a forge".toList
        else
          .fail "pr.exists" .published "no pull request has this branch as its head".toList
            ("a pull request whose head is ".toList ++ target.branch) "none".toList]
    | .found pr =>
        [.pass "pr.exists" .published (pr.url ++ " (".toList ++ pr.state ++ ")".toList),
          titleCheck sanitizeLine target pr, labelCheck pr, baseCheck pr opts]

end Texts

/-! ## The second run of the tests -/

/-- `Path::join` -/
def join (base rest : Str) : Str :=
  if rest.head? = some '/' then rest else base ++ '/' :: rest

def contractFile : Str :=
  "factory.toml".toList

/-- The directories one level down, sorted by name, without hidden ones. -/
def nextLevel (frontier : List (Str × Folder)) : List (Str × Folder) :=
  frontier.flatMap (fun dir =>
    ((dir.2.children.filter (fun child => child.1.name.head? ≠ some '.')).mergeSort
      (fun a b => a.1.name ≤ b.1.name)).map (fun child => (join dir.1 child.1.name, child.2)))

/-- The levels of `find_contract` that are left. -/
def findFrom : Nat → List (Str × Folder) → Option Str
  | 0, _ => none
  | n + 1, frontier =>
      match frontier.find? (fun dir => dir.2.hasContract) with
      | some dir => some dir.1
      | none =>
          if nextLevel frontier = [] then none else findFrom n (nextLevel frontier)

/-- `find_contract` -/
def findContract (root : Str) (folder : Folder) : Option Str :=
  findFrom 4 [(root, folder)]

/-- What `rerun_tests` returns, with what it found on the head. -/
structure Rerun where
  evidence : List Evidence
  tests : Option TestEvidence
  head : HeadClaims
deriving DecidableEq, Repr

def noClaims : HeadClaims :=
  ⟨none, []⟩

/-- A second run that ended before the clone was there. -/
def Rerun.without (evidence : Evidence) : Rerun :=
  ⟨[evidence], none, noClaims⟩

/-- The directory for the clone. -/
def scratchDir (opts : VerifyOpts) : Script (Except Evidence Str) :=
  match opts.workdir with
  | some dir =>
      ask (.createDirAll dir) >>= fun
        | .error e =>
            .ret (.error (.unavailable "branch.exists" .verified
              ("cannot use ".toList ++ dir ++ ": ".toList ++ e)))
        | .ok () => .ret (.ok dir)
  | none =>
      ask (.scratch opts.keepCheckout) >>= fun
        | .error e =>
            .ret (.error (.unavailable "branch.exists" .verified
              ("cannot create a scratch directory: ".toList ++ e)))
        | .ok dir => .ret (.ok dir)

/-- The loop over the plan: the first command that fails ends it. -/
def runPlan : List Command → Script (Option Evidence)
  | [] => .ret none
  | step :: rest =>
      ask (.run step) >>= fun answer =>
        match (answer : Answer).result with
        | .ok output =>
            if output.code = 0 then
              runPlan rest
            else
              .ret (some (.unavailable "branch.exists" .verified
                ([' '].intercalate step.argv ++ ": ".toList ++ output.message)))
        | .error e =>
            .ret (some (.unavailable "branch.exists" .verified
              ([' '].intercalate step.argv ++ ": ".toList ++ e.display)))

def plan (url checkout branch : Str) : List Command :=
  [.clone url checkout, .fetch checkout branch, .checkout checkout]

/-- The directory of the contract, where there is one. -/
def contractDir (checkout : Str) (opts : VerifyOpts) : Script (Option Str) :=
  match opts.targetDir with
  | some dir => .ret (some (join checkout dir))
  | none => ask (.folders checkout) >>= fun folder => .ret (findContract checkout folder)

def noContract : Evidence :=
  .unavailable "tests.rerun" .verified
    "target has no factory.toml; the factory refuses to guess commands".toList

def showCounts (passed failed errors skipped : Nat) : Str :=
  Nat.toDigits 10 passed ++ " passed, ".toList ++ Nat.toDigits 10 failed ++ " failed, ".toList ++
    Nat.toDigits 10 errors ++ " errored, ".toList ++ Nat.toDigits 10 skipped ++ " skipped".toList

/-- The judgement of one run of the suite. -/
def judge (dir : Str) (contract : TargetContract) (code : Int) (timedOut : Bool)
    (counts : Except Str Junit.Scanner.Totals) : Evidence × TestEvidence :=
  let totals := match counts with
    | .ok totals => totals
    | .error _ => ⟨0, 0, 0, 0, 0⟩
  let detail := match counts with
    | .ok t => showCounts t.passed t.failed t.errors t.skipped
    | .error detail => detail
  let ok := code = 0 && counts.isOk && totals.failed = 0 && totals.errors = 0 && !timedOut
  (if ok then
      .pass "tests.rerun" .verified (contract.test ++ " -> ".toList ++ detail)
    else if timedOut then
      .unavailable "tests.rerun" .verified
        (contract.test ++ " did not finish within the budget".toList)
    else
      .fail "tests.rerun" .verified
        ("the target's own tests do not pass on this branch: ".toList ++ detail)
        "a green run and a coherent report".toList
        ("exit ".toList ++ (toString code).toList ++ "; ".toList ++ detail),
    ⟨contract.test, dir, contract.junit, code, totals.passed, totals.failed, totals.errors,
      totals.skipped, counts.isOk, ok, timedOut⟩)

/-- The report, read and parsed. -/
def countsOf : Except Str Str → Except Str Junit.Scanner.Totals
  | .error e => .error e
  | .ok xml => (Junit.Scanner.parseJunit xml).mapError String.toList

/-- The report that a run of the suite left, and its judgement. -/
def readBack (dir : Str) (contract : TargetContract) (code : Int) (timedOut : Bool) :
    Script (Evidence × Option TestEvidence) :=
  ask (.readReport (join dir contract.junit)) >>= fun report =>
    let judged := judge dir contract code timedOut (countsOf report)
    .ret (judged.1, some judged.2)

/-- What follows the run of the suite. -/
def afterSuite (dir : Str) (contract : TargetContract) :
    Except AdapterError Output → Script (Evidence × Option TestEvidence)
  | .error (.other e) =>
      .ret (.unavailable "tests.rerun" .verified
        ("the test command could not be run: ".toList ++ e), none)
  | .error (.timeout _) => readBack dir contract (-1) true
  | .ok output => readBack dir contract output.code false

/-- The run of the suite, once the stale report is gone. -/
def runSuite (dir : Str) (contract : TargetContract) :
    Script (Evidence × Option TestEvidence) :=
  ask (.removeFile (join dir contract.junit)) >>= fun removal =>
    match (removal : Removal) with
    | .failed e =>
        .ret (.unavailable "tests.rerun" .verified
          ("could not clear stale JUnit report: ".toList ++ e), none)
    | _ =>
        ask (.run (.suite dir contract.test)) >>= fun answer =>
          afterSuite dir contract (Answer.result answer)

section Readers

-- `sanitize_line` and `toml::from_str`
variable (sanitizeLine : Str → Str)
variable (toml : Str → Except Str Table)

/-- `parse_contract`, on the text of the file. -/
def parseContract (text : Str) : Except Str TargetContract :=
  match toml text with
  | .error e => .error e
  | .ok doc => (Console.parse doc).mapError String.toList

/-- What follows the reading of the contract. -/
def afterRead (dir : Str) : Except Str Str → Script (Evidence × Option TestEvidence)
  | .error _ => .ret (noContract, none)
  | .ok text =>
      match parseContract toml text with
      | .error detail =>
          .ret (.fail "target.contract" .verified detail
            "a factory.toml the factory can read".toList (join dir contractFile), none)
      | .ok contract => runSuite dir contract

/-- The tests of a directory, where there is one. -/
def testDir : Option Str → Script (Evidence × Option TestEvidence)
  | none => .ret (noContract, none)
  | some dir => ask (.readContract (join dir contractFile)) >>= fun text => afterRead toml dir text

/-- The tests of the checkout: find the contract, read it, run its command. -/
def testCheckout (checkout : Str) (opts : VerifyOpts) :
    Script (Evidence × Option TestEvidence) :=
  contractDir checkout opts >>= testDir toml

/-- What follows the checkout. -/
def inspect (url checkout branch : Str) (opts : VerifyOpts) : Script Rerun :=
  ask (.run (.trailer checkout)) >>= fun trailer =>
    let runId := match (trailer : Answer).result with
      | .ok output => if output.code = 0 then trailerRunId output.stdout else none
      | .error _ => none
    ask (.committed checkout) >>= fun committed =>
      testCheckout toml checkout opts >>= fun tested =>
        .ret ⟨.pass "branch.exists" .verified (branch ++ " was cloned from ".toList ++ url) ::
          (if opts.origin.isSome then
            [.pass "branch.in_origin" .published (branch ++ " was fetched from ".toList ++ url)]
          else
            []) ++ [tested.1], tested.2, ⟨runId, committed⟩⟩

/-- The branch to clone. -/
def branchOf (target : Target) (opts : VerifyOpts) : Str :=
  if target.branch = [] then opts.branch.getD [] else target.branch

/-- Where the branch is cloned from. -/
def urlOf (repo : Str) (opts : VerifyOpts) : Str :=
  opts.origin.getD ("https://github.com/".toList ++ repo ++ ".git".toList)

def checkoutOf (scratch : Str) : Str :=
  join scratch "checkout".toList

/-- `rerun_tests` -/
def rerunTests (repo : Str) (target : Target) (opts : VerifyOpts) : Script Rerun :=
  let branch := branchOf target opts
  if branch = [] then
    .ret (.without (.unavailable "tests.rerun" .verified
      "this delivery has no published branch to clone".toList))
  else
    scratchDir opts >>= fun
      | .error evidence => .ret (.without evidence)
      | .ok scratch =>
          let url := urlOf repo opts
          let checkout := checkoutOf scratch
          runPlan (plan url checkout branch) >>= fun
            | some evidence => .ret (.without evidence)
            | none => inspect toml url checkout branch opts

/-! ## The report -/

/-- The records the run committed about itself. -/
def committedRuns (metrics : Bool) (target : Target) : Script (List RunMetrics) :=
  match target.localDir with
  | some dir => ask (.localRuns dir)
  | none =>
      if metrics then
        ask .runs >>= fun
          | .ok runs => .ret runs
          | .error _ => .ret []
      else
        .ret []

def notRequested : Evidence :=
  .skipped "tests.rerun" .verified
    "--clone was not requested, so nothing above `published` was attempted".toList

/-- The repository to clone; a named origin stands in for it. -/
def repoOf (contextRepo : Option Str) (opts : VerifyOpts) : Option Str :=
  match opts.origin, opts.repo.or contextRepo with
  | some _, named => some (named.getD [])
  | none, named => named

/-- The second run, where one was asked for. -/
def attemptRerun (contextRepo : Option Str) (target : Target) (opts : VerifyOpts) :
    Script Rerun :=
  if opts.clone then
    match repoOf contextRepo opts with
    | none =>
        .raise (.operational "verification needs a repo; this context does not name one".toList)
    | some repo => rerunTests toml repo target opts
  else
    .ret ⟨[notRequested], none, noClaims⟩

/-- The record of the run; a head that names its run is the only one asked. -/
def runNamed (committed : List RunMetrics) (head : HeadClaims) (target : Target) :
    Target × Option RunMetrics :=
  match head.runId with
  | some runId => ({ target with runId := runId }, headRecord head committed runId)
  | none =>
      (target, if isPublicationKey target.runId then none else pickRecord committed target)

/-- The record of the run, and the delivery as that record names it. -/
def attributed (committed : List RunMetrics) (head : HeadClaims) (target : Target) :
    Target × Option RunMetrics :=
  let named := runNamed committed head target
  match named.2 with
  | some record =>
      if named.1.runId = [] then
        ({ named.1 with runId := record.runId, issueId := record.issueId }, some record)
      else
        named
  | none => named

/-- The report on everything that was gathered. -/
def reportOf (lookup : PrLookup) (committed : List RunMetrics) (rerun : Rerun)
    (target : Target) (opts : VerifyOpts) : DeliveryReport :=
  let named := attributed committed rerun.head target
  .resolve
    ⟨named.1.branch, named.1.prUrl, named.1.headSha, none, named.1.issueId, named.1.runId⟩
    (reportedChecks named.2 named.1 named.1.blocked ++
      publishedChecks sanitizeLine lookup named.1 opts ++ rerun.evidence)
    rerun.tests named.1.blocked

/-- `verify` -/
def verify (github metrics : Bool) (contextRepo : Option Str) (id : DeliveryId)
    (opts : VerifyOpts) : Script DeliveryReport :=
  resolve github id >>= fun resolved =>
    lookUpPr sanitizeLine github resolved >>= fun lookup =>
      let target := resolved.adopt lookup
      committedRuns metrics target >>= fun committed =>
        attemptRerun toml contextRepo target opts >>= fun rerun =>
          .ret (reportOf sanitizeLine lookup committed rerun target opts)

end Readers

end Verification
end SwFactory
