import Mathlib.Data.List.Dedup
import Mathlib.Data.List.Nodup

/-!
# The inputs a run is admitted with

The first context of a run pins one snapshot of everything that decides what
the run builds; every later context is compared with it.  Where the source
stores the `sha256` of a text or of a document, the snapshot here holds the
text or the document itself, and only the digest of the whole snapshot is a
function on it.
-/

namespace SwFactory
namespace Gates

/-- `blueprint.CANONICAL_ORDER`. -/
inductive Stage
  | intent
  | spec
  | plan
  | buildAndTest
  | review
  | deliver
deriving DecidableEq, Repr

/-- `blueprint.GATE_STAGES`: the stages a gate may follow. -/
inductive GateName
  | intent
  | plan
deriving DecidableEq, Repr

def GateName.after : GateName → Stage
  | .intent => .intent
  | .plan => .plan

inductive GateMode
  | human
  | auto
  | policy
deriving DecidableEq, Repr

/-- `stages.Gate`. -/
structure Gate where
  name : GateName
  artifact : String
  mode : GateMode
deriving DecidableEq, Repr

structure GateSpec where
  after : GateName
  artifact : String
  timeoutH : Nat
  assigned : List String
  mode : GateMode
deriving DecidableEq, Repr

/-- What `Blueprint._shape` has accepted: no stage is walked twice. -/
structure Blueprint where
  order : List Stage
  gates : List GateSpec
  reviewPolicy : String
  /-- the tables of the line that admission only pins -/
  settings : List (String × String)
  ordered : order.Nodup
deriving DecidableEq

namespace Blueprint

/-- The gate following `stage`, if any. -/
def gateAfter (bp : Blueprint) (stage : Stage) : Option GateSpec :=
  bp.gates.find? (fun g => g.after.after == stage)

/-- The gates of `Blueprint.pipeline`, in the order they are met. -/
def pipelineGates (bp : Blueprint) : List Gate :=
  bp.order.filterMap (fun stage =>
    (bp.gateAfter stage).map (fun g => ⟨g.after, g.artifact, g.mode⟩))

theorem name_of_gateAfter
    {bp : Blueprint} {stage : Stage} {g : GateSpec}
    (h : bp.gateAfter stage = some g) :
    g.after.after = stage := by
  simpa using List.find?_some h

/-- No gate is met twice. -/
theorem nodup_pipelineGates (bp : Blueprint) :
    (bp.pipelineGates.map Gate.name).Nodup := by
  rw [pipelineGates, List.map_filterMap]
  refine List.Nodup.filterMap (fun stage stage' name h h' => ?_) bp.ordered
  -- the name of a gate is the stage it follows
  have after : ∀ {stage : Stage},
      name ∈ ((bp.gateAfter stage).map
        (fun g => (⟨g.after, g.artifact, g.mode⟩ : Gate))).map Gate.name →
      name.after = stage := by
    intro stage hname
    simp only [Option.map_map, Option.mem_def, Option.map_eq_some_iff] at hname
    obtain ⟨g, hg, rfl⟩ := hname
    exact name_of_gateAfter hg
  exact (after h).symm.trans (after h')

end Blueprint

/-- `stages.PIPELINE`, walked where a context has no blueprint. -/
def defaultGates : List Gate :=
  [⟨.intent, "intent.md", .human⟩, ⟨.plan, "plan.md", .human⟩]

structure Issue where
  id : String
  title : String
  body : String
  labels : List String
deriving DecidableEq

structure CellBinding where
  cellId : Option String
  epoch : Option Nat
  managed : Bool
deriving DecidableEq, Repr

inductive Decision
  | approve
  | reject
deriving DecidableEq, Repr

structure ReplayEntry where
  decision : Decision
  actor : String
deriving DecidableEq, Repr

/-- The file that `SWF_GATE_REPLAY` names, as it reads at the moment. -/
inductive ReplayFile
  | unreadable
  | malformed (content : String)
  | fixture (content : String) (entries : List (GateName × ReplayEntry))

/-- What a worker has installed: templates, review policies, tool policies. -/
structure Host where
  template : String → Option String
  reviewPolicy : String → Option String
  agentPolicies : List (String × String)
  profile : String
  policyRevision : String

/-- The settings of `Config` by their names, and the declared replay fixture. -/
structure Config where
  setting : String → String
  gateReplay : Option ReplayFile

namespace Config

def scm (cfg : Config) : String :=
  cfg.setting "scm"

def agent (cfg : Config) : String :=
  cfg.setting "agent"

def approve (cfg : Config) : String :=
  cfg.setting "approve"

end Config

/-- `stages.Ctx`, as far as admission and the gates read it. -/
structure Ctx where
  cfg : Config
  host : Host
  issue : Issue
  blueprint : Option Blueprint
  /-- the binding `build_ctx` takes from the job, if it is bound to a Cell -/
  binding : Option CellBinding

/-- `stages._pipeline`, its gates. -/
def Ctx.gates (ctx : Ctx) : List Gate :=
  match ctx.blueprint with
  | some bp => bp.pipelineGates
  | none => defaultGates

theorem Ctx.nodup_gates (ctx : Ctx) : (ctx.gates.map Gate.name).Nodup := by
  unfold Ctx.gates
  cases ctx.blueprint with
  | some bp =>
      exact bp.nodup_pipelineGates
  | none =>
      decide

/-! ## The snapshot -/

def schemaVersion : Nat :=
  2

/-- `POLICY_SETTINGS`. -/
def policySettings : List String :=
  ["sandbox", "agent", "scm", "approve", "tests", "crabbox_provider",
    "max_build_iterations", "max_review_fixes", "max_turns",
    "max_budget_usd_per_stage", "max_budget_usd", "gate_timeout_h",
    "stage_timeout_h", "max_parallel_jobs", "max_parallel_forks",
    "gateway_profile", "islo_environment", "sandbox_ttl_s", "sandbox_idle_s",
    "islo_snapshot", "toolset_backend", "toolset_sbx_host_network_policy",
    "toolset_sbx_image", "toolset_smolvm_socket", "toolset_smolvm_image",
    "toolset_smolvm_cpus", "toolset_smolvm_memory_mb", "toolset_workdir",
    "srt_allowed_domains", "docker_image", "docker_credentials",
    "docker_network", "docker_user", "allow_local_agent"]

/-- `STAGE_PROMPTS`. -/
def stagePrompts : Stage → List String
  | .intent => []
  | .spec => ["spec"]
  | .plan => ["plan", "dialect"]
  | .buildAndTest =>
      ["build", "fix", "build_node", "fusion", "dialect", "file_pack"]
  | .review => ["review", "fix", "dialect"]
  | .deliver => []

/-- The templates this blueprint's stages actually render, sorted. -/
def referencedPrompts : Option Blueprint → List String
  | none => []
  | some bp =>
      (bp.order.flatMap stagePrompts).dedup.mergeSort (fun a b => decide (a ≤ b))

/-- Every referenced template with its text, `none` where it is missing. -/
def promptDocument (ctx : Ctx) : List (String × Option String) :=
  (referencedPrompts ctx.blueprint).map (fun name => (name, ctx.host.template name))

def packagedReviewPolicy (ctx : Ctx) : Option String :=
  ctx.host.reviewPolicy
    (match ctx.blueprint with
    | some bp => bp.reviewPolicy
    | none => "REVIEW.md")

/-- `_replay_digest`: not declared, unreadable, or the content. -/
def replayContent : Option ReplayFile → Option (Option String)
  | none => none
  | some .unreadable => some none
  | some (.malformed content) => some (some content)
  | some (.fixture content _) => some (some content)

def autonomyRevision (ctx : Ctx) : Option String :=
  match ctx.blueprint with
  | none => none
  | some bp =>
      if bp.gates.any (fun g => g.mode == .policy) then
        some ctx.host.policyRevision
      else
        none

/-- `policy_document`. -/
structure PolicyDocument where
  schemaVersion : Nat
  config : List (String × String)
  gateReplay : Option (Option String)
  autonomyRevision : Option String
  blueprint : Option Blueprint
  promptTemplates : List (String × Option String)
  reviewPolicy : Option String
  agentPolicies : List (String × String)
  externalAgent : Option String
deriving DecidableEq

def policyDocument (ctx : Ctx) : PolicyDocument where
  schemaVersion := schemaVersion
  config := policySettings.map (fun name => (name, ctx.cfg.setting name))
  gateReplay := replayContent ctx.cfg.gateReplay
  autonomyRevision := autonomyRevision ctx
  blueprint := ctx.blueprint
  promptTemplates := promptDocument ctx
  reviewPolicy := packagedReviewPolicy ctx
  agentPolicies := ctx.host.agentPolicies
  externalAgent := if ctx.cfg.agent = "external" then some ctx.host.profile else none

/-- The versioned, immutable snapshot admitted for one Cell epoch. -/
structure AcceptedInputs where
  schemaVersion : Nat
  cellId : Option String
  cellEpoch : Option Nat
  managed : Bool
  issueId : String
  issue : Issue
  blueprintName : String
  blueprint : Option Blueprint
  promptTemplates : List (String × Option String)
  reviewPolicy : Option String
  policy : PolicyDocument
  repo : String
  targetDir : String
  baseBranch : String
deriving DecidableEq

/-- The snapshot the context's inputs would be admitted as. -/
def snapshot (ctx : Ctx) : AcceptedInputs where
  schemaVersion := schemaVersion
  cellId := ctx.binding.bind CellBinding.cellId
  cellEpoch := ctx.binding.bind CellBinding.epoch
  managed := (ctx.binding.map CellBinding.managed).getD false
  issueId := ctx.issue.id
  issue := ctx.issue
  blueprintName := ctx.cfg.setting "blueprint"
  blueprint := ctx.blueprint
  promptTemplates := promptDocument ctx
  reviewPolicy := packagedReviewPolicy ctx
  policy := policyDocument ctx
  repo := ctx.cfg.setting "repo"
  targetDir := ctx.cfg.setting "target_dir"
  baseBranch := ctx.cfg.setting "base_branch"

/-- The snapshot pins every setting of the policy bucket. -/
theorem setting_eq_of_snapshot_eq
    {ctx ctx' : Ctx}
    (h : snapshot ctx = snapshot ctx')
    {name : String}
    (hname : name ∈ policySettings) :
    ctx.cfg.setting name = ctx'.cfg.setting name := by
  have hconfig : (policyDocument ctx).config = (policyDocument ctx').config :=
    congrArg (fun s => s.policy.config) h
  have hpairs : policySettings.map (fun name => (name, ctx.cfg.setting name)) =
      policySettings.map (fun name => (name, ctx'.cfg.setting name)) :=
    hconfig
  exact (Prod.mk.inj (List.map_inj_left.mp hpairs name hname)).2

/-- Contexts with one snapshot publish through one scm. -/
theorem scm_eq_of_snapshot_eq
    {ctx ctx' : Ctx}
    (h : snapshot ctx = snapshot ctx') :
    ctx.cfg.scm = ctx'.cfg.scm :=
  setting_eq_of_snapshot_eq h (by decide)

end Gates
end SwFactory
