import Mathlib.Data.List.MinMax
import Mathlib.Data.Prod.Lex
import SwFactory.Build.Ratchet
import SwFactory.Machine.Dicts
import SwFactory.Paths.Relative
import SwFactory.Scope.Changes
import SwFactory.Spending.Ledger

/-!
# Candidates of a replica fusion

What the fusion of replicas records: the attempts of each round with their
verification receipts, and the progress document that survives a dead worker.
A commit is named by its content, so that a commit stands for its name.  Amounts
are micro-dollars.

Sources: `replica_fusion.py`, `campaign_fusion.py` (`FIXED_PROTECTED`,
`_changes`), `blueprint.py` (`FusionSpec`).
-/

namespace SwFactory
namespace Fusion

open Machine

/-- Why the stage or one of its steps is left. -/
inductive Failure
  /-- a `StageError` with its kind and its text -/
  | stage (kind message : String)
  /-- any other exception -/
  | other (name : String)
deriving DecidableEq, Repr

/-- `StageError("policy", message)` -/
abbrev policy (message : String) : Failure :=
  .stage "policy" message

def Failure.isStage : Failure → Bool
  | .stage _ _ => true
  | .other _ => false

/-! ## Roles and identities -/

inductive Role
  | repairA
  | repairB
  | diagnostic
  | challenger
  | synthesis
  | composition
deriving DecidableEq, Repr

/-- `ROLES` -/
def roles : List Role :=
  [.repairA, .repairB, .diagnostic, .challenger]

def Role.name : Role → String
  | .repairA => "repair-a"
  | .repairB => "repair-b"
  | .diagnostic => "diagnostic"
  | .challenger => "challenger"
  | .synthesis => "synthesis"
  | .composition => "composition"

/-- The place of the role in the order of the names. -/
def Role.rank : Role → Nat
  | .challenger => 0
  | .composition => 1
  | .diagnostic => 2
  | .repairA => 3
  | .repairB => 4
  | .synthesis => 5

/-- The roles whose stage may edit the checkout. -/
def Role.writes : Role → Bool
  | .repairA | .repairB | .synthesis => true
  | .diagnostic | .challenger | .composition => false

structure Identity where
  round : Nat
  role : Role
deriving DecidableEq, Repr

/-- `f"round-{number}-{role}"` -/
def Identity.text (identity : Identity) : String :=
  "round-" ++ toString identity.round ++ "-" ++ identity.role.name

/-! ## Commits -/

inductive Mode
  | regular
  | executable
  /-- a symbolic link or a submodule -/
  | special
deriving DecidableEq, Repr

structure Entry where
  mode : Mode
  object : String
deriving DecidableEq, Repr

/-- The files of a commit. -/
abbrev Tree :=
  Dict (List Char) Entry

structure Commit where
  sha : String
  tree : Tree
deriving DecidableEq

/-- The paths that differ between two trees; a rename is a deletion and an addition. -/
def differing (before after : Tree) : List (List Char) :=
  ((before.keys ++ after.keys).dedup).filter (fun p => before.get? p != after.get? p)

theorem mem_differing {before after : Tree} {p : List Char} :
    p ∈ differing before after ↔ before.get? p ≠ after.get? p := by
  simp only [differing, List.mem_filter, List.mem_dedup, List.mem_append, bne_iff_ne, ne_eq,
    and_iff_right_iff_imp]
  intro hne
  by_contra hnone
  rw [not_or] at hnone
  exact hne ((Dict.get?_eq_none_iff.mpr hnone.1).trans (Dict.get?_eq_none_iff.mpr hnone.2).symm)

/-- `FIXED_PROTECTED` -/
def fixedProtected : List (List Char) :=
  [".git", ".github", ".gitmodules", ".claude", ".factory", ".factory-runs",
    ".swfactory/candidate-run.json", "docs/factory", "factory.toml", "AGENTS.md", "CLAUDE.md",
    "REVIEW.md", "REVIEW_LIQUID.md"].map String.toList

def isSpecial (entry : Option Entry) : Bool :=
  entry.any (fun e => e.mode == .special)

/-- `MAX_CHANGED_FILES` -/
def maxChangedFiles : Nat :=
  512

/-- The entries of a raw diff, each checked before it is counted. -/
def checkEntries (before after : Tree) : List (List Char) → Nat → Except Failure Unit
  | [], _ => .ok ()
  | path :: rest, count =>
      match Paths.normalizeRelativePath false path with
      | .error _ => .error (.other "PathError")
      | .ok clean =>
          if clean ≠ path then
            .error (.other "CampaignFusionError: candidate path is not canonical")
          else if isSpecial (before.get? path) || isSpecial (after.get? path) then
            .error (.other
              "CampaignFusionError: fusion refuses symlinks, submodules and non-regular entries")
          else if maxChangedFiles < count + 1 then
            .error (.other "CampaignFusionError: contributor exceeds the 512-file fusion limit")
          else
            checkEntries before after rest (count + 1)

/-- `_changes`, where `base` is an ancestor of `head`. -/
def changes (base head : Commit) : Except Failure (List (List Char)) := do
  checkEntries base.tree head.tree (differing base.tree head.tree) 0
  if differing base.tree head.tree = [] then
    .error (.other "CampaignFusionError: contributor has no source changes")
  else
    .ok (differing base.tree head.tree)

/-! ## What is pinned -/

structure Plan where
  files : List (List Char)
deriving DecidableEq

/-- The commands of the target and what decides which paths are protected. -/
structure Contract extends Scope.TargetContract where
  lint : Option String
  test : String
deriving DecidableEq

/-- `FusionSpec` -/
structure FusionSpec where
  maxRounds : Nat
  maxParallel : Nat := 4
  maxCostUsd : Nat
  timeoutS : Nat := 600
  models : List (String × String) := []
  one_le_maxRounds : 1 ≤ maxRounds := by decide
deriving DecidableEq

/-- `cell.json` -/
structure Cell where
  managed : Bool
  cellId : String
  epoch : Nat
  policyDigest : String
deriving DecidableEq

/-- The documents of the run that an experiment is opened with. -/
structure Inputs where
  plan : Plan
  contract : Contract
  binding : Option Cell
  digest : Option String
deriving DecidableEq

/-- What `pin` is the digest of. -/
structure Pin where
  spec : FusionSpec
  inputs : Inputs
deriving DecidableEq

/-- The path is listed in the plan, and nothing protects it in the stage. -/
def inScope (casefold : List Char → List Char) (pin : Pin) (stage : String)
    (path : List Char) : Bool :=
  decide (path ∈ pin.inputs.plan.files) &&
    !Scope.isProtected casefold path
      (fixedProtected ++ Scope.protectedFor pin.inputs.contract.toTargetContract stage)

/-- `scope` -/
def scope (casefold : List Char → List Char) (pin : Pin) (base head : Commit)
    (stage : String) : Except Failure Unit :=
  if head = base then
    .ok ()
  else do
    let paths ← changes base head
    match paths.find? (fun path => !inScope casefold pin stage path) with
    | some path =>
        .error (policy ("fusion candidate escaped approved file scope: " ++ String.ofList path))
    | none => .ok ()

/-! ## Attempts and progress -/

/-- The receipt of a verification, of a candidate or of the adopted commit. -/
structure Receipt where
  identity : Option Identity
  head : Commit
  tree : Tree
  cell : Option Cell
  passed : Bool
  tests : Build.TestResult
  lintOk : Option Bool
deriving DecidableEq

/-- The row of an attempt that has ended. -/
structure Row where
  identity : Identity
  base : Commit
  answered : Bool := false
  costUsd : Nat := 0
  usageUnknown : Bool := false
  head : Option Commit := none
  verification : Option Receipt := none
  observations : List String := []
  error : Option String := none
deriving DecidableEq

/-- `row.get("verification", {}).get("passed")` -/
def Row.passed (row : Row) : Bool :=
  row.verification.any Receipt.passed

inductive Attempt
  | inFlight
  | ended (row : Row)
deriving DecidableEq

/-- `row.get("cost_usd", 0.0)` -/
def Attempt.costUsd : Attempt → Nat
  | .inFlight => 0
  | .ended row => row.costUsd

/-- `row.get("usage_unknown")` -/
def Attempt.usageUnknown : Attempt → Bool
  | .inFlight => false
  | .ended row => row.usageUnknown

structure RoundReceipt where
  number : Nat
  base : Commit
  composition : String
  attempts : List Identity
deriving DecidableEq

structure Winner where
  row : Row
  fusionOnly : Bool
deriving DecidableEq

inductive Phase
  | search
  | adopting
  | complete
deriving DecidableEq, Repr

/-- `replica-fusion.json` -/
structure Progress where
  pin : Pin
  base : Commit
  attempts : Dict Identity Attempt := []
  rounds : List RoundReceipt := []
  verifications : Nat := 0
  phase : Phase := .search
  winner : Option Winner := none
  final : Option Receipt := none
deriving DecidableEq

/-- The sum of `cost_usd` over all attempts. -/
def Progress.costs (p : Progress) : Nat :=
  (p.attempts.map (fun e => e.2.costUsd)).sum

def Progress.inFlight (p : Progress) : Bool :=
  p.attempts.any (fun e => e.2 == .inFlight)

def Progress.usageUnknown (p : Progress) : Bool :=
  p.attempts.any (fun e => e.2.usageUnknown)

/-- How many verifications the experiment may start. -/
def FusionSpec.maxVerifications (spec : FusionSpec) : Nat :=
  4 * spec.maxRounds + 1

end Fusion
end SwFactory
