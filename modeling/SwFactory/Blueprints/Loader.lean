import SwFactory.Blueprints.Documents
import SwFactory.Lexical.Regex
import SwFactory.Paths.Relative

/-!
# The validated blueprint, and the shape of a line

`loads` takes a document apart into the tables of the model, checks every field
where it stands, and the line as a whole.  A document that is refused has no
blueprint.

`read_shape` looks up in the raw document what the structure of a DAG depends
on, with defaults of its own.  The validated blueprint says the same of a line
under the condition `SameLine`.

Sources: `blueprint.py`, `approval_policy.py` (`declared_mode`), `linear_intake.py`,
`linear_source.py` (`_uuid`), `intake_governance.py` (`ScheduleLimits`), `paths.py`
and `dags/blueprints.py` (`gate_mode`, `read_shape`).
-/

namespace SwFactory
namespace Blueprints

open Lexical
open Machine
open Paths

/-- What the language knows of a character: its value as a decimal digit, and `isdigit`. -/
structure Alphabet where
  digit : Char → Option Nat
  isDigit : Char → Bool

/-! ## Names and paths -/

def isAlnum (c : Char) : Bool :=
  isLetter c || ('0' ≤ c && c ≤ '9')

/-- A first character of `[A-Za-z0-9]`, and at most `most` of the others. -/
def isName (others : Char → Bool) (most : Nat) : Text → Bool
  | [] => false
  | c :: rest => isAlnum c && rest.length ≤ most && rest.all (fun c => isAlnum c || others c)

/-- `NAME_PATTERN` -/
def namePattern : Text → Bool :=
  isName (fun c => c == '_' || c == '-') 62

/-- `_REPO_PART_RE` -/
def repoPart : Text → Bool :=
  isName (fun c => c == '.' || c == '_' || c == '-') 99

/-- `validate_repo` -/
def validateRepo (value : Text) : Option Text :=
  let parts := splitAll '/' value
  if parts.length = 2 ∧ parts.all repoPart ∧
      parts.all (fun part => part != ['.'] && part != "..".toList && !".lock".toList.isSuffixOf part)
  then some value
  else none

/-- `_INVALID_REF_RE`: the class ends in front of the last bracket. -/
def invalidRef : Text → Bool
  | c :: ']' :: rest => c.toNat ≤ 0x20 || "~^:?*\\[".toList.contains c || invalidRef (']' :: rest)
  | _ :: rest => invalidRef rest
  | [] => false

/-- `part in value` -/
def hasInfix (part value : Text) : Bool :=
  value.tails.any (fun rest => part.isPrefixOf rest)

/-- `validate_git_ref` -/
def validateGitRef (value : Text) : Option Text :=
  if value = [] ∨ value = ['@'] ∨ invalidRef value ∨ value.head? = some '-' ∨
      value.head? = some '/' ∨ value.getLast? = some '/' ∨ value.getLast? = some '.' ∨
      hasInfix "..".toList value ∨ hasInfix "//".toList value ∨ hasInfix "@\x7b".toList value ∨
      (splitAll '/' value).any
        (fun part => part == [] || part.head? == some '.' || ".lock".toList.isSuffixOf part)
  then none
  else some value

/-- `_no_target_separator` -/
def noTargetSeparator (value : Text) : Option Text :=
  if '@' ∈ value then none else some value

/-- `normalize_target_dir` -/
def normalizeTargetDir (value : Text) : Option Text :=
  (normalizeRelativePath true value).toOption.bind noTargetSeparator

/-- `validate_target_base_branch` -/
def validateTargetBaseBranch (value : Text) : Option Text :=
  (validateGitRef value).bind noTargetSeparator

/-- `normalize_relative_path` -/
def relativePath (value : Text) : Option Text :=
  (normalizeRelativePath false value).toOption

/-- `path.as_posix()` of an absolute path; two leading slashes are kept. -/
def absolutePosix (value : Text) : Text :=
  let root := if "//".toList.isPrefixOf value ∧ ¬ "///".toList.isPrefixOf value then "//".toList
    else ['/']
  root ++ ['/'].intercalate (parts value)

/-- `normalize_absolute_posix_path` -/
def absolutePath (value : Text) : Option Text := do
  (cleanPosix value).toOption
  if value.head? = some '/' ∧ "..".toList ∉ parts value ∧ absolutePosix value ≠ ['/'] then
    some ((absolutePosix value).reverse.dropWhile (· == '/')).reverse
  else
    none

/-- `[0-9a-f]`, in any case. -/
def isHex (c : Char) : Bool :=
  ('0' ≤ c && c ≤ '9') || ('a' ≤ c && c ≤ 'f') || ('A' ≤ c && c ≤ 'F')

/-- `_uuid`: 8-4-4-4-12 hexadecimal digits that are not all zero, in lower case. -/
def uuid (value : Text) : Option Text :=
  let groups := splitAll '-' value
  if groups.map List.length = [8, 4, 4, 4, 12] ∧ groups.flatten.all isHex ∧
      groups.flatten.any (· != '0')
  then some (value.map Char.toLower)
  else none

/-! ## The tables of the model -/

structure Target where
  repo : Text
  dir : Text
  baseBranch : Text
deriving DecidableEq

def Target.read (v : Toml) : Option Target := do
  let t ← v.asTable
  only ["repo", "dir", "base_branch"] t
  let repo ← required t "repo" (textBy validateRepo)
  let dir ← fieldOr t "dir" [] (textBy normalizeTargetDir)
  let baseBranch ← fieldOr t "base_branch" "main".toList (textBy validateTargetBaseBranch)
  some { repo, dir, baseBranch }

inductive GateMode
  | human
  | auto
  | policy
deriving DecidableEq, Repr

/-- One of `GATE_MODES`. -/
def GateMode.read : Toml → Option GateMode
  | .string text =>
      if text = "human".toList then some .human
      else if text = "auto".toList then some .auto
      else if text = "policy".toList then some .policy
      else none
  | _ => none

/-- The mode that `mode` and the legacy `auto` of a gate declare together. -/
def resolveMode (spec : Table) : Option GateMode :=
  match spec.get? "mode", spec.get? "auto" with
  | none, none => some .human
  | none, some (.boolean auto) => some (if auto then .auto else .human)
  | some mode, none => GateMode.read mode
  | some mode, some (.boolean auto) =>
      (GateMode.read mode).filter (fun mode => auto == (mode == .auto))
  | _, some _ => none

/-- `declared_mode` -/
def declaredMode (spec : Table) : Option GateMode :=
  resolveMode spec

structure GateSpec where
  after : Text
  artifact : Text
  timeoutH : Int
  assigned : List Text
  mode : GateMode
deriving DecidableEq

/-- `GateSpec._mode`, and the field. -/
def GateSpec.modeOf (t : Table) : Option GateMode :=
  if "auto" ∈ t.keys then declaredMode t else fieldOr t "mode" .human GateMode.read

structure Limits where
  maxBuildIterations : Int
  maxReviewFixes : Int
  maxTurns : Int
  budgetUsdPerStage : Rat
  budgetUsd : Rat
  stageTimeoutH : Int
  maxParallelJobs : Int
  maxParallelForks : Int
deriving DecidableEq

def Limits.default : Limits :=
  ⟨3, 1, 40, 2, 8, 3, 4, 1⟩

structure PolicyOverride where
  model : Option Text
  extraAllowedTools : List Text
  maxTurns : Option Int
deriving DecidableEq

/-- `_EXTRA_TOOL_RE` -/
def extraTool : Regex :=
  .seq
    (.anyOf (["Read", "Grep", "Glob", "Edit", "Write", "MultiEdit", "NotebookEdit"].map Regex.lit))
    (.maybe (.chain [.lit "(", .many (.one (fun c => c != ',' && c != '\r' && c != '\n')),
      .lit ")"]))

/-- `list(dict.fromkeys(texts))` -/
def distinct : List Text → List Text
  | [] => []
  | text :: rest => text :: (distinct rest).filter (· ≠ text)

/-- `PolicyOverride._tools` -/
def PolicyOverride.tools (value : List Text) : Option (List Text) :=
  let tools := value.map (trim Text.isSpace)
  if tools.all (extraTool.fullMatch (fun _ => false)) then some (distinct tools) else none

structure ReviewSpec where
  policy : Text
  nitCap : Int
deriving DecidableEq

def ReviewSpec.default : ReviewSpec :=
  ⟨"REVIEW.md".toList, 3⟩

inductive SandboxKind
  | local
  | islo
  | srt
  | docker
  | toolset
  | boat
deriving DecidableEq

def SandboxKind.read : Toml → Option SandboxKind
  | .string text =>
      (["local".toList, "islo".toList, "srt".toList, "docker".toList, "toolset".toList,
        "boat".toList].zip [.local, .islo, .srt, .docker, .toolset, .boat]).lookup text
  | _ => none

structure SandboxSpec where
  kind : SandboxKind
  gatewayProfile : Text
  environment : Text
  ttlS : Int
  idleS : Int
  snapshot : Option Text
  backend : Text
  workdir : Text
deriving DecidableEq

def SandboxSpec.default : SandboxSpec where
  kind := .islo
  gatewayProfile := "swfactory".toList
  environment := "swfactory".toList
  ttlS := 172800
  idleS := 900
  snapshot := none
  backend := "sbx".toList
  workdir := "/workspace/repo".toList

/-- `SandboxSpec._backend` -/
def SandboxSpec.checkBackend (value : Text) : Option Text :=
  let value := trim Text.isSpace value
  if value = [] ∨ value.any Text.isSpace then none else some value

structure Backlog where
  label : Text
  batch : Int
  scan : Int
deriving DecidableEq

inductive TriggerKind
  | manual
  | cron
deriving DecidableEq

def TriggerKind.read : Toml → Option TriggerKind
  | .string text =>
      if text = "manual".toList then some .manual
      else if text = "cron".toList then some .cron
      else none
  | _ => none

structure Trigger where
  kind : TriggerKind
  cron : Option Text
  start : Option Moment
  maxActiveRuns : Option Int
  issues : List Text
  backlog : Option Backlog
deriving DecidableEq

def Trigger.default : Trigger :=
  ⟨.manual, none, none, none, [], none⟩

structure FusionSpec where
  maxRounds : Int
  maxParallel : Int
  maxCostUsd : Rat
  timeoutS : Int
  models : List (String × Text)
deriving DecidableEq

structure LinearWorkSource where
  workspaceId : Text
  projectId : Text
deriving DecidableEq

def LinearWorkSource.read (v : Toml) : Option LinearWorkSource := do
  let t ← v.asTable
  only ["kind", "workspace_id", "project_id"] t
  let _ ← required t "kind" (textBy (fun kind => if kind = "linear".toList then some kind else none))
  let workspaceId ← required t "workspace_id" (textBy uuid)
  let projectId ← required t "project_id" (textBy uuid)
  some { workspaceId, projectId }

section Readers

variable (A : Alphabet)
variable (C : Coercion)

def GateSpec.read (v : Toml) : Option GateSpec := do
  let t ← v.asTable
  only ["after", "artifact", "timeout_h", "assigned", "mode", "auto"] t
  let mode ← GateSpec.modeOf t
  let after ← required t "after" Toml.asString
  let artifact ← required t "artifact" (textBy relativePath)
  let timeoutH ← fieldOr t "timeout_h" 24 (atLeast C 1)
  let assigned ← fieldOr t "assigned" [] Toml.asTexts
  some { after, artifact, timeoutH, assigned, mode }

def Limits.read (v : Toml) : Option Limits := do
  let t ← v.asTable
  only ["max_build_iterations", "max_review_fixes", "max_turns", "budget_usd_per_stage",
    "budget_usd", "stage_timeout_h", "max_parallel_jobs", "max_parallel_forks"] t
  let maxBuildIterations ← fieldOr t "max_build_iterations" 3 (atLeast C 1)
  let maxReviewFixes ← fieldOr t "max_review_fixes" 1 (atLeast C 0)
  let maxTurns ← fieldOr t "max_turns" 40 (atLeast C 1)
  let budgetUsdPerStage ← fieldOr t "budget_usd_per_stage" 2 (positive C)
  let budgetUsd ← fieldOr t "budget_usd" 8 (positive C)
  let stageTimeoutH ← fieldOr t "stage_timeout_h" 3 (atLeast C 1)
  let maxParallelJobs ← fieldOr t "max_parallel_jobs" 4 (atLeast C 1)
  let maxParallelForks ← fieldOr t "max_parallel_forks" 1 (within C 1 16)
  some { maxBuildIterations, maxReviewFixes, maxTurns, budgetUsdPerStage, budgetUsd, stageTimeoutH,
         maxParallelJobs, maxParallelForks }

def PolicyOverride.read (v : Toml) : Option PolicyOverride := do
  let t ← v.asTable
  only ["model", "extra_allowed_tools", "max_turns"] t
  let model ← optional t "model" Toml.asString
  let extraAllowedTools ← fieldOr t "extra_allowed_tools" []
    (fun v => v.asTexts.bind PolicyOverride.tools)
  let maxTurns ← optional t "max_turns" (atLeast C 1)
  some { model, extraAllowedTools, maxTurns }

def ReviewSpec.read (v : Toml) : Option ReviewSpec := do
  let t ← v.asTable
  only ["policy", "nit_cap"] t
  let policy ← fieldOr t "policy" "REVIEW.md".toList (textBy relativePath)
  let nitCap ← fieldOr t "nit_cap" 3 (atLeast C 0)
  some { policy, nitCap }

def SandboxSpec.read (v : Toml) : Option SandboxSpec := do
  let t ← v.asTable
  only ["kind", "gateway_profile", "environment", "ttl_s", "idle_s", "snapshot", "backend",
    "workdir"] t
  let kind ← fieldOr t "kind" .islo SandboxKind.read
  let gatewayProfile ← fieldOr t "gateway_profile" "swfactory".toList Toml.asString
  let environment ← fieldOr t "environment" "swfactory".toList Toml.asString
  let ttlS ← fieldOr t "ttl_s" 172800 (atLeast C 1)
  let idleS ← fieldOr t "idle_s" 900 (atLeast C 1)
  let snapshot ← optional t "snapshot" Toml.asString
  let backend ← fieldOr t "backend" "sbx".toList (textBy SandboxSpec.checkBackend)
  let workdir ← fieldOr t "workdir" "/workspace/repo".toList (textBy absolutePath)
  some { kind, gatewayProfile, environment, ttlS, idleS, snapshot, backend, workdir }

def Backlog.read (v : Toml) : Option Backlog := do
  let t ← v.asTable
  only ["label", "batch", "scan"] t
  let label ← required t "label"
    (textBy (fun label => if 1 ≤ label.length ∧ label.length ≤ 128 then some label else none))
  let batch ← fieldOr t "batch" 1 (atLeast C 1)
  let scan ← fieldOr t "scan" 100 (within C 1 1000)
  some { label, batch, scan }

/-- One item of `Trigger._issues`. -/
def Trigger.issue (item : Text) : Option Text :=
  let value := trim Text.isSpace item
  if value = [] then none
  else if value.all A.isDigit then some value
  else relativePath value

/-- `Trigger._cron_present` -/
def Trigger.present (t : Trigger) : Bool :=
  !(t.kind == .cron && (trim Text.isSpace (t.cron.getD [])).isEmpty) &&
    !(!t.issues.isEmpty && t.backlog.isSome) &&
    !(t.kind == .cron && t.start.isNone)

def Trigger.read (v : Toml) : Option Trigger := do
  let t ← v.asTable
  only ["kind", "cron", "start", "max_active_runs", "issues", "backlog"] t
  let kind ← fieldOr t "kind" .manual TriggerKind.read
  let cron ← optional t "cron" Toml.asString
  let start ← optional t "start" C.datetime
  let maxActiveRuns ← optional t "max_active_runs" (atLeast C 1)
  let issues ← fieldOr t "issues" []
    (fun v => v.asTexts.bind (fun items => (items.mapM (Trigger.issue A)).map distinct))
  let backlog ← optional t "backlog" (Backlog.read C)
  if Trigger.present { kind, cron, start, maxActiveRuns, issues, backlog } then
    some { kind, cron, start, maxActiveRuns, issues, backlog }
  else
    none

/-- `FusionSpec._models` -/
def FusionSpec.readModels (v : Toml) : Option (List (String × Text)) := do
  let t ← v.asTable
  only ["repair-a", "repair-b", "diagnostic", "challenger", "synthesis"] t
  t.mapM (fun e => (textBy (fun name => if name.all Text.isSpace then none else some name) e.2).map
    (fun name => (e.1, name)))

def FusionSpec.read (v : Toml) : Option FusionSpec := do
  let t ← v.asTable
  only ["max_rounds", "max_parallel", "max_cost_usd", "timeout_s", "models"] t
  let maxRounds ← fieldOr t "max_rounds" 2 (within C 1 2)
  let maxParallel ← fieldOr t "max_parallel" 4 (within C 1 4)
  let maxCostUsd ← fieldOr t "max_cost_usd" 2 (positive C)
  let timeoutS ← fieldOr t "timeout_s" 600 (within C 1 1800)
  let models ← fieldOr t "models" [] FusionSpec.readModels
  some { maxRounds, maxParallel, maxCostUsd, timeoutS, models }

end Readers

/-! ## The blueprint -/

structure Blueprint where
  name : Text
  description : Text
  trigger : Trigger
  targets : List Target
  order : List Text
  gates : List GateSpec
  limits : Limits
  policy : List (String × PolicyOverride)
  review : ReviewSpec
  sandbox : SandboxSpec
  labels : List Text
  workSource : Option LinearWorkSource
  fusion : Option FusionSpec

/-- What `schedule_limits` says of a line. -/
structure ScheduleLimits where
  origin : Option Moment
  maxActiveRuns : Int
  maxCells : Int
  runTimeout : Int
deriving DecidableEq

/-- `ScheduleLimits.__post_init__` -/
def ScheduleLimits.valid (l : ScheduleLimits) : Bool :=
  l.origin.all Moment.aware && 0 < l.maxActiveRuns && 0 < l.maxCells && 0 < l.runTimeout

/-- `Trigger.active_runs` -/
def Trigger.activeRuns (t : Trigger) : Int :=
  let runs := t.maxActiveRuns.getD 0
  if runs ≠ 0 then runs else if t.kind = .cron then 1 else 16

def canonicalOrder : List Text :=
  ["intent".toList, "spec".toList, "plan".toList, "build_and_test".toList, "review".toList,
    "deliver".toList]

/-- `POLICIES`: the stages of an agent policy, and whether they write. -/
def policies : List (String × Bool) :=
  [("spec", false), ("plan", false), ("build", true), ("fix", true), ("review", false),
    ("diagnose", false)]

namespace Blueprint

variable (bp : Blueprint)

/-- `_check_order` -/
def checkOrder : Bool :=
  bp.order != [] &&
    bp.order.all (fun s => canonicalOrder.contains s) &&
    (bp.order.map (fun s => canonicalOrder.idxOf s)).Pairwise (· < ·) &&
    bp.order.head? == some "intent".toList &&
    bp.order.getLast? == some "deliver".toList &&
    (bp.order.contains "plan".toList ||
      !(bp.order.contains "build_and_test".toList || bp.order.contains "review".toList)) &&
    (bp.order.contains "build_and_test".toList || !bp.order.contains "review".toList)

/-- The files a gate may show. -/
def stageArtifacts (stage : Text) : List Text :=
  if stage = "intent".toList then ["intent.md".toList]
  else if stage = "plan".toList then ["plan.md".toList, "plan.json".toList]
  else []

/-- `_check_gates` -/
def checkGates : Bool :=
  (bp.gates.map GateSpec.after).Nodup &&
    bp.gates.all (fun g => bp.order.contains g.after &&
      (g.after == "intent".toList || g.after == "plan".toList) &&
      (stageArtifacts g.after).contains g.artifact)

/-- `schedule_limits` -/
def scheduleLimits : Option ScheduleLimits :=
  (timedelta bp.sandbox.ttlS).bind (fun runTimeout =>
    let limits : ScheduleLimits :=
      ⟨bp.trigger.start, bp.trigger.activeRuns, bp.limits.maxParallelJobs, runTimeout⟩
    if limits.valid then some limits else none)

/-- `gate_timeout_h` -/
def gateTimeoutH : Int :=
  (bp.gates.map GateSpec.timeoutH).foldl max 0

/-- What linear intake requires. -/
def checkWorkSource : Bool :=
  bp.workSource.isNone ||
    (bp.trigger.kind == .manual && bp.trigger.issues.isEmpty && bp.trigger.backlog.isNone &&
      ["intent".toList, "plan".toList].all (fun stage =>
        bp.gates.any (fun g => g.after == stage && g.mode == .human)) &&
      bp.gates.all (fun g => g.mode != .human || g.after == "intent".toList ||
        g.after == "plan".toList))

/-- `_check_fusion` of the build stage and the job budget. -/
def checkFusion : Bool :=
  bp.fusion.all (fun fusion =>
    bp.order.contains "build_and_test".toList && fusion.maxCostUsd ≤ bp.limits.budgetUsd)

/-- The name of a tool in front of its matcher. -/
def toolHead (tool : Text) : Text :=
  tool.takeWhile (· != '(')

/-- The policy of each stage. -/
def checkPolicy : Bool :=
  bp.policy.all (fun e =>
    match policies.lookup e.1 with
    | none => false
    | some writes =>
        e.2.extraAllowedTools.all (fun tool => toolHead tool != "Bash".toList &&
          (writes || !(["Edit".toList, "MultiEdit".toList, "NotebookEdit".toList,
            "Write".toList].contains (toolHead tool)))) &&
        e.2.maxTurns.all (· ≤ bp.limits.maxTurns))

/-- `_shape` -/
def checkShape : Bool :=
  bp.checkOrder && bp.checkGates && bp.checkWorkSource && bp.scheduleLimits.isSome &&
    bp.limits.budgetUsdPerStage ≤ bp.limits.budgetUsd && bp.checkFusion &&
    bp.gateTimeoutH * 3600 < bp.sandbox.ttlS &&
    (bp.trigger.backlog.isNone ||
      bp.targets.all (fun t => some t.repo == bp.targets.head?.map Target.repo)) &&
    bp.checkPolicy

/-- `gate_after` -/
def gateAfter (stage : Text) : Option GateSpec :=
  bp.gates.find? (fun g => g.after = stage)

end Blueprint

section Loading

variable (A : Alphabet)
variable (C : Coercion)

/-- The fields of the model, each validated where it stands. -/
def Blueprint.fields (t : Table) : Option Blueprint := do
  only ["name", "version", "description", "trigger", "targets", "order", "gates", "limits",
    "policy", "review", "sandbox", "labels", "work_source", "fusion"] t
  let name ← required t "name" (textBy (fun name => if namePattern name then some name else none))
  let _ ← fieldOr t "version" () (fun v => if C.literalOne v then some () else none)
  let description ← fieldOr t "description" [] Toml.asString
  let trigger ← fieldOr t "trigger" Trigger.default (Trigger.read A C)
  let targets ← required t "targets"
    (fun v => (listOf Target.read v).filter (fun targets => !targets.isEmpty))
  let order ← required t "order" Toml.asTexts
  let gates ← fieldOr t "gates" [] (listOf (GateSpec.read C))
  let limits ← fieldOr t "limits" Limits.default (Limits.read C)
  let policy ← fieldOr t "policy" [] (fun v => v.asTable.bind (fun entries =>
    entries.mapM (fun e => (PolicyOverride.read C e.2).map (fun o => (e.1, o)))))
  let review ← fieldOr t "review" ReviewSpec.default (ReviewSpec.read C)
  let sandbox ← fieldOr t "sandbox" SandboxSpec.default (SandboxSpec.read C)
  let labels ← fieldOr t "labels" ["factory".toList, "agent-authored".toList] Toml.asTexts
  let workSource ← optional t "work_source" LinearWorkSource.read
  let fusion ← optional t "fusion" (FusionSpec.read C)
  some { name, description, trigger, targets, order, gates, limits, policy, review, sandbox, labels,
         workSource, fusion }

/-- `Blueprint.model_validate` -/
def Blueprint.validate (t : Table) : Option Blueprint :=
  (Blueprint.fields A C t).filter Blueprint.checkShape

/-- `_SECTIONS` -/
def sections : List String :=
  ["blueprint", "trigger", "targets", "stages", "gates", "limits", "policy", "review", "sandbox",
    "deliver", "work_source", "fusion"]

/-- The tables that `_flatten` carries over. -/
def carried : List String :=
  ["trigger", "targets", "gates", "limits", "policy", "review", "sandbox", "work_source", "fusion"]

/-- `if key in data: out[key] = data[key]` -/
def carry (data out : Table) (key : String) : Table :=
  match data.get? key with
  | none => out
  | some v => out.assign key v

/-- Lift the one key of a section; an absent section is an empty one. -/
def lift (data out : Table) (section' key field : String) : Option Table := do
  let t ← fieldOr data section' ([] : Table) Toml.asTable
  only [key] t
  match Dict.get? t key with
  | none => some out
  | some v => some (out.assign field v)

/-- `_flatten` -/
def flatten (data : Table) : Option Table := do
  let blueprint ← fieldOr data "blueprint" ([] : Table) Toml.asTable
  let out := carried.foldl (carry data) blueprint
  let out ← lift data out "stages" "order" "order"
  lift data out "deliver" "labels" "labels"

/-- The fields of `[blueprint]`. -/
def inlined (data : Table) : Table :=
  ((data.get? "blueprint").bind Toml.asTable).getD []

/-- `loads`, of a parsed document -/
def loads (data : Table) : Option Blueprint := do
  only sections data
  let t ← flatten data
  Blueprint.validate A C t

end Loading

/-! ## The shape of a line -/

structure Shape where
  name : Toml
  cron : Option Toml
  start : Option Toml
  maxActiveRuns : Int
  runTimeout : Int
  mergeTimeout : Int
  order : List Toml
  /-- The entries written into the dictionary, in their order. -/
  gates : List (Toml × Toml)
  stageTimeout : Int
  maxParallelJobs : Int

/-- `gate_mode` -/
def gateMode (gate : Toml) : Option GateMode :=
  gate.asTable.bind resolveMode

/-- `for item in value` -/
def iterate : Toml → Option (List Toml)
  | .array items => some items
  | .table entries => some (entries.map (fun e => .string e.1.toList))
  | .string text => some (text.map (fun c => .string [c]))
  | _ => none

/-- Whether a value can be the key of a dictionary. -/
def hashable : Toml → Bool
  | .array _ => false
  | .table _ => false
  | _ => true

/-- `t.get(key) == text` -/
def equalsText (t : Table) (key text : String) : Bool :=
  (t.get? key).bind Toml.asString == some text.toList

/-- `trigger.get("cron") if trigger.get("kind") == "cron" else None` -/
def shapeCron (trigger : Table) : Option Toml :=
  if equalsText trigger "kind" "cron" then trigger.get? "cron" else none

/-- `trigger.start`, which is required for `cron` and has to be aware. -/
def shapeStart (cron : Option Toml) (trigger : Table) : Option (Option Toml) :=
  match trigger.get? "start" with
  | none => if cron.isSome then none else some none
  | some (.datetime m) => if m.aware then some (some (.datetime m)) else none
  | some _ => none

/-- `list(data["stages"]["order"])` -/
def shapeOrder (data : Table) : Option (List Toml) := do
  let stages ← required data "stages" Toml.asTable
  required stages "order" iterate

/-- `(g["after"], g)` -/
def gateEntry (gate : Toml) : Option (Toml × Toml) := do
  let t ← gate.asTable
  let after ← t.get? "after"
  if hashable after then some (after, gate) else none

/-- `{g["after"]: g for g in data.get("gates", [])}` -/
def shapeGates (data : Table) : Option (List (Toml × Toml)) := do
  let gates ← fieldOr data "gates" [] iterate
  gates.mapM gateEntry

section Reading

variable (digit : Char → Option Nat)

/-- `int(t.get(key, default))` -/
def intField (t : Table) (key : String) (default : Int) : Option Int :=
  fieldOr t key default (int digit)

/-- `int(trigger.get("max_active_runs") or (1 if cron else 16))` -/
def shapeRuns (cron : Option Toml) (trigger : Table) : Option Int :=
  let default := if cron.any Toml.truthy then 1 else 16
  match trigger.get? "max_active_runs" with
  | none => some default
  | some v => if v.truthy then int digit v else some default

/-- `read_shape`; `stem` is the name of the file, and `merge` what the file of the autonomous
line says. -/
def readShape (stem : Text) (merge : Option Int) (data : Table) : Option Shape := do
  let trigger ← fieldOr data "trigger" ([] : Table) Toml.asTable
  let limits ← fieldOr data "limits" ([] : Table) Toml.asTable
  let blueprint ← fieldOr data "blueprint" ([] : Table) Toml.asTable
  let sandbox ← fieldOr data "sandbox" ([] : Table) Toml.asTable
  let cron := shapeCron trigger
  let start ← shapeStart cron trigger
  let maxActiveRuns ← shapeRuns digit cron trigger
  let runTimeout ← (intField digit sandbox "ttl_s" 172800).bind timedelta
  let mergeTimeout ← if equalsText blueprint "name" "autonomous" then merge else some 7200
  let order ← shapeOrder data
  let gates ← shapeGates data
  let stageTimeout ← (intField digit limits "stage_timeout_h" 3).bind (fun h => timedelta (3600 * h))
  let maxParallelJobs ← intField digit limits "max_parallel_jobs" 4
  let name := (Dict.get? blueprint "name").filter Toml.truthy
  some { name := name.getD (.string stem), cron, start, maxActiveRuns, runTimeout, mergeTimeout,
         order, gates, stageTimeout, maxParallelJobs }

end Reading

/-! ## Saying the same -/

/-- The shape says of the line what the blueprint and its schedule limits say; `cron` is the
expression that the shape is to have. -/
structure Agrees (shape : Shape) (bp : Blueprint) (limits : ScheduleLimits) (cron : Option Text) :
    Prop where
  name : shape.name = .string bp.name
  cron : shape.cron = cron.map Toml.string
  start : shape.start = limits.origin.map Toml.datetime
  maxActiveRuns : shape.maxActiveRuns = limits.maxActiveRuns
  runTimeout : shape.runTimeout = limits.runTimeout
  order : shape.order = bp.order.map Toml.string
  gates : shape.gates.map (fun e => (e.1, gateMode e.2)) =
    bp.gates.map (fun g => (.string g.after, some g.mode))
  stageTimeout : shape.stageTimeout = 3600 * bp.limits.stageTimeoutH
  maxParallelJobs : shape.maxParallelJobs = limits.maxCells

/-- The expression that is in force. -/
def Blueprint.cronInForce (bp : Blueprint) : Option Text :=
  if bp.trigger.kind = .cron then bp.trigger.cron else none

/-- The field is a number that `int` takes, or absent. -/
def Whole (digit : Char → Option Nat) (t : Table) (key : String) : Prop :=
  ∀ v, t.get? key = some v → (int digit v).isSome

/-- The field is validated as the default, or absent. -/
def Defaulted (C : Coercion) (t : Table) (key : String) (default : Int) : Prop :=
  ∀ v, t.get? key = some v → C.int v = some default

/-- A number of a section: `int` takes it where it is the section's own, and a section that
stands in `[blueprint]` instead leaves it at its default. -/
structure SameNumber (digit : Char → Option Nat) (C : Coercion) (data : Table)
    (sec key : String) (default : Int) : Prop where
  whole : ∀ t : Table, data.get? sec = some (.table t) → Whole digit t key
  defaulted : data.get? sec = none → ∀ t : Table, (inlined data).get? sec = some (.table t) →
    Defaulted C t key default

/-- What makes the two readers read the same line. -/
structure SameLine (digit : Char → Option Nat) (C : Coercion) (data : Table) : Prop where
  /-- The order stands in `[stages]`. -/
  order : ∃ stages : Table, data.get? "stages" = some (.table stages) ∧ (stages.get? "order").isSome
  /-- No gates stand in `[blueprint]` instead. -/
  gates : data.get? "gates" = none → ∀ v, (inlined data).get? "gates" = some v → v = .array []
  /-- An origin is a date and time of TOML. -/
  start : ∀ (t : Table) v, data.get? "trigger" = some (.table t) → t.get? "start" = some v →
    ∃ m, v = .datetime m
  runs : ∀ t : Table, data.get? "trigger" = some (.table t) → Whole digit t "max_active_runs"
  /-- A trigger that stands in `[blueprint]` instead is the default one. -/
  trigger : data.get? "trigger" = none → ∀ t : Table, (inlined data).get? "trigger" = some (.table t) →
    t.get? "start" = none ∧ Defaulted C t "max_active_runs" 16
  ttl : SameNumber digit C data "sandbox" "ttl_s" 172800
  jobs : SameNumber digit C data "limits" "max_parallel_jobs" 4
  timeout : SameNumber digit C data "limits" "stage_timeout_h" 3
  /-- The stage timeout is an interval of the language. -/
  bounded : ∀ (t : Table) v n, data.get? "limits" = some (.table t) → t.get? "stage_timeout_h" = some v →
    int digit v = some n → n < 24000000000

/-- A cron expression stands in a trigger of kind `cron`. -/
def CronOfItsKind (data : Table) : Prop :=
  ∀ t : Table, (data.get? "trigger").or ((inlined data).get? "trigger") = some (.table t) →
    (t.get? "cron").isSome → equalsText t "kind" "cron"

end Blueprints
end SwFactory
