import SwFactory.Autonomy.Policy
import SwFactory.Patch.Scanner
import Mathlib.Data.List.Sort

/-!
# The records a merge rests on

A gate decision and a publication are bound once for each Cell and epoch.  The
evidence of GitHub is read again for every look at a pull request.  Digests are
texts.

Sources: `autonomy.py` (`AutonomyStore`), `backend/autonomous_service.py`,
`scm.py` (`autonomous_snapshot`).
-/

namespace SwFactory
namespace Autonomy

open Gates (GateName Approval)
open Machine (bind_eq_ok)

/-- `re.fullmatch` of lowercase hex characters. -/
def isHex (length : Nat) (value : String) : Bool :=
  value.toList.length == length && value.toList.all Text.isLowerHex

/-! ## What is bound -/

/-- The decision of a policy gate, as `approve` binds it. -/
structure GateDecision where
  approval : Approval String
  paths : List Path
  budgetUsd : Option ℚ
  planSha256 : Option String
deriving DecidableEq

/-- `autonomous_evidence`; the artifact digests stand by name. -/
structure Evidence where
  agent : String
  testsPassed : Bool
  reviewVerdict : String
  blockers : Nat
  costUsd : Option ℚ
  budgetUsd : Option ℚ
  approvals : List (Approval String)
  artifactDigests : List (String × String)
deriving DecidableEq

/-- What the journalled publication returns. -/
structure Receipt where
  patchSha256 : String
  repository : String
  baseRevision : String
  headRevision : String
  contentDigest : String
  branch : String
  prNumber : Option Nat
  prState : String
deriving DecidableEq

/-- What `validate_publication` returns. -/
structure PublicationDecision where
  revision : String
  evidence : Evidence
  paths : List Path
deriving DecidableEq

structure Publication extends PublicationDecision where
  receipt : Receipt
deriving DecidableEq

/-! ## Requests -/

/-- What every fenced request names. -/
structure Fence where
  cellId : String
  epoch : Nat
  policyDigest : String
  operationKey : String
deriving DecidableEq

structure GateBody extends Fence where
  revision : Option String
  baseBranch : Option String
  gate : String
  costUsd : Option ℚ
  budgetUsd : Option ℚ
  paths : List Path
  artifactSha256 : Option String
  inputsDigest : Option String
  planSha256 : Option String
deriving DecidableEq

structure PublishBody extends Fence where
  revision : Option String
  baseBranch : Option String
  branch : String
  labels : List String
  allowedPrefixes : Option (List String)
  patch : List UInt8
  evidence : Option Evidence
deriving DecidableEq

structure MergeBody extends Fence where
  revision : Option String
  baseBranch : Option String
deriving DecidableEq

/-- A request that a process of the backend serves. -/
inductive Request
  | gate (body : GateBody)
  | publish (body : PublishBody)
  | merge (body : MergeBody)

/-! ## The decision store -/

/-- The keys of the store; a blocked gate is named by its request. -/
inductive Key
  | gate (cellId : String) (epoch : Nat) (gate : GateName)
  | publication (cellId : String) (epoch : Nat)
  | blockedGate (body : GateBody)
deriving DecidableEq

/-- What is bound to a key. -/
abbrev Key.Value : Key → Type
  | .gate _ _ _ => GateDecision
  | .publication _ _ => Publication
  | .blockedGate _ => Refusal

instance Key.decidableEqValue : (key : Key) → DecidableEq key.Value
  | .gate _ _ _ => inferInstanceAs (DecidableEq GateDecision)
  | .publication _ _ => inferInstanceAs (DecidableEq Publication)
  | .blockedGate _ => inferInstanceAs (DecidableEq Refusal)

/-- The table `decisions`. -/
abbrev Decisions :=
  (key : Key) → Option key.Value

/-- `INSERT OR IGNORE`. -/
def Decisions.insert (decisions : Decisions) (key : Key) (value : key.Value) : Decisions :=
  if (decisions key).isSome then
    decisions
  else
    Function.update decisions key (some value)

theorem Decisions.insert_self (decisions : Decisions) (key : Key) (value : key.Value) :
    decisions.insert key value key = some ((decisions key).getD value) := by
  unfold Decisions.insert
  cases h : decisions key with
  | none =>
      simp
  | some v =>
      simp [h]

theorem Decisions.insert_of_ne {decisions : Decisions} {key key' : Key}
    {value : key.Value}
    (h : key' ≠ key) :
    decisions.insert key value key' = decisions key' := by
  unfold Decisions.insert
  split
  · rfl
  · exact Function.update_of_ne h _ _

/-- What is bound stays bound. -/
theorem Decisions.insert_of_some {decisions : Decisions} {key key' : Key}
    {value : key.Value} {value' : key'.Value}
    (h : decisions key' = some value') :
    decisions.insert key value key' = some value' := by
  by_cases heq : key' = key
  · subst heq
    rw [Decisions.insert_self, h]
    rfl
  · rw [Decisions.insert_of_ne heq, h]

/-! ## The evidence of GitHub -/

structure PullRequest where
  headSha : Option String
  headRepo : Option String
  baseRef : Option String
  baseRepo : Option String
  merged : Bool
  state : String
  draft : Bool
  changedFiles : Option Nat

structure FileRow where
  filename : Path
  previousFilename : Option Path
  status : String

structure CheckRun where
  id : Option Nat
  name : Option String
  appId : Option Nat
  headSha : Option String
  status : Option String
  conclusion : Option String

structure Review where
  id : Option Nat
  state : String
  userId : Option Nat

/-- The answers of GitHub behind one snapshot. -/
structure Rows where
  pr : PullRequest
  files : List FileRow
  content : String → String
  checks : List CheckRun
  reviews : List Review

structure Snapshot where
  pr : PullRequest
  paths : List Path
  checks : List CheckRun
  reviews : List Review

/-- The paths of one row of the listing. -/
def FileRow.paths (row : FileRow) : List Path :=
  row.filename :: row.previousFilename.toList

/-- `autonomous_snapshot`, from the answers that were read. -/
def autonomousSnapshot (sha256 : String → String) (digests : List (String × String))
    (rows : Rows) : Except Refusal Snapshot := do
  ensure (rows.files.length < 3000 && some rows.files.length == rows.pr.changedFiles)
    (.stage "GitHub diff listing is incomplete")
  ensure
    (rows.files.all (fun row =>
      ["added", "modified", "removed", "renamed"].contains row.status))
    (.stage "unsupported autonomous file change")
  ensure (digests.all (fun entry => sha256 (rows.content entry.1) == entry.2))
    (.stage "published artifact differs from host-owned evidence")
  return {
    pr := rows.pr
    paths := (rows.files.flatMap FileRow.paths).eraseDups
    checks := rows.checks
    reviews := rows.reviews }

/-- What `inspect` reports. -/
inductive MergeState
  | merged
  | pending (reason : String)
  | ready
deriving DecidableEq

/-- `set(a) == set(b)` -/
def sameSet (a b : List Path) : Bool :=
  a.all b.contains && b.all a.contains

@[simp] theorem sameSet_eq_true {a b : List Path} :
    sameSet a b = true ↔ ∀ path, path ∈ a ↔ path ∈ b := by
  simp only [sameSet, Bool.and_eq_true, List.all_eq_true, List.contains_iff_mem]
  constructor
  · rintro ⟨hab, hba⟩ path
    exact ⟨hab path, hba path⟩
  · intro h
    exact ⟨fun path => (h path).mp, fun path => (h path).mpr⟩

/-- The runs of a required check, by the app of the policy. -/
def CheckRun.isFor (policy : Policy) (name : String) (check : CheckRun) : Bool :=
  check.name == some name && check.appId == some policy.checksAppId

/-- The verdict on one required check; `none` where it succeeded. -/
def checkVerdict (policy : Policy) (checks : List CheckRun) (sha : String)
    (name : String) : Except Refusal (Option MergeState) :=
  match (checks.filter (CheckRun.isFor policy name)).argmax (fun c => c.id.getD 0) with
  | none => .ok (some (.pending ("missing check: " ++ name)))
  | some check =>
      if check.headSha ≠ some sha then
        .error (.refused 409 "test evidence belongs to another SHA")
      else if check.status ≠ some "completed" then
        .ok (some (.pending ("check running: " ++ name)))
      else if check.conclusion ≠ some "success" then
        .error (.refused 403 ("required check did not pass: " ++ name))
      else
        .ok none

/-- The loop over the required checks; the first verdict ends it. -/
def checksVerdict (policy : Policy) (checks : List CheckRun) (sha : String) :
    List String → Except Refusal (Option MergeState)
  | [] => .ok none
  | name :: rest => do
      match ← checkVerdict policy checks sha name with
      | some state => return some state
      | none => checksVerdict policy checks sha rest

/-- The last decisive review of each user, in the order of the review ids. -/
def decisiveReviews (reviews : List Review) : List (Option Nat × String) :=
  (reviews.insertionSort (fun a b => a.id.getD 0 ≤ b.id.getD 0)).foldl
    (fun decisive review =>
      if ["APPROVED", "CHANGES_REQUESTED", "DISMISSED"].contains review.state then
        decisive.filter (fun entry => entry.1 != review.userId) ++
          [(review.userId, review.state)]
      else
        decisive)
    []

/-- The highest run of the check succeeded on the commit. -/
def Succeeded (policy : Policy) (checks : List CheckRun) (sha name : String) : Prop :=
  ∃ check ∈ checks, check.isFor policy name = true ∧
    (∀ other ∈ checks, other.isFor policy name = true →
      other.id.getD 0 ≤ check.id.getD 0) ∧
    check.headSha = some sha ∧ check.status = some "completed" ∧
    check.conclusion = some "success"

theorem checkVerdict_eq_none {policy : Policy} {checks : List CheckRun}
    {sha name : String}
    (h : checkVerdict policy checks sha name = .ok none) :
    Succeeded policy checks sha name := by
  unfold checkVerdict at h
  split at h
  · cases h
  rename_i check hcheck
  split at h
  · cases h
  rename_i hsha
  split at h
  · cases h
  rename_i hstatus
  split at h
  · cases h
  rename_i hconclusion
  obtain ⟨hmem, hfor⟩ := List.mem_filter.mp (List.argmax_mem hcheck)
  refine ⟨check, hmem, hfor, fun other hother hisFor => ?_, not_not.mp hsha,
    not_not.mp hstatus, not_not.mp hconclusion⟩
  exact List.le_of_mem_argmax (List.mem_filter.mpr ⟨hother, hisFor⟩) hcheck

theorem checkVerdict_ne_ready {policy : Policy} {checks : List CheckRun}
    {sha name : String} {state : MergeState}
    (h : checkVerdict policy checks sha name = .ok (some state)) :
    state ≠ .ready := by
  unfold checkVerdict at h
  split at h
  · cases h
    exact nofun
  split at h
  · cases h
  split at h
  · cases h
    exact nofun
  split at h
  · cases h
  · cases h

/-- The checks alone never say that a pull request is ready. -/
theorem checksVerdict_ne_ready {policy : Policy} {checks : List CheckRun}
    {sha : String} {names : List String} {state : MergeState}
    (h : checksVerdict policy checks sha names = .ok (some state)) :
    state ≠ .ready := by
  induction names with
  | nil =>
      cases h
  | cons first rest ih =>
      obtain ⟨verdict, hfirst, h⟩ := bind_eq_ok h
      cases verdict with
      | some state' =>
          cases h
          exact checkVerdict_ne_ready hfirst
      | none =>
          exact ih h

theorem checksVerdict_eq_none {policy : Policy} {checks : List CheckRun}
    {sha : String} {names : List String}
    (h : checksVerdict policy checks sha names = .ok none) :
    ∀ name ∈ names, Succeeded policy checks sha name := by
  induction names with
  | nil =>
      simp
  | cons first rest ih =>
      obtain ⟨verdict, hfirst, h⟩ := bind_eq_ok h
      cases verdict with
      | some state =>
          cases h
      | none =>
          intro name hname
          rcases List.mem_cons.mp hname with rfl | hname
          · exact checkVerdict_eq_none hfirst
          · exact ih h name hname

end Autonomy
end SwFactory
