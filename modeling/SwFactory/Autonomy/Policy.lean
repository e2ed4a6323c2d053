import SwFactory.Gates.Answers
import SwFactory.Machine.Fallible
import SwFactory.Paths.Relative
import SwFactory.Scope.Changes
import Mathlib.Algebra.Order.Ring.Rat
import Mathlib.Data.List.MinMax

/-!
# The checked-in authority for unattended work

The policy decides which issue may be worked on, for how much money, and which
paths a change may touch.  Amounts are exact; one that is missing or no finite
number is `none`.

Source: `autonomy.py`.
-/

namespace SwFactory
namespace Autonomy

open Lexical
open Scope (rstripSlash)

/-- A path or a pattern, by its characters. -/
abbrev Path := List Char

/-- What a request ends with instead of an answer. -/
inductive Refusal
  | refused (status : Nat) (message : String)
  | stage (message : String)
  | value (message : String)
deriving DecidableEq, Repr

/-- `raise` unless the condition holds. -/
def ensure (condition : Bool) (refusal : Refusal) : Except Refusal Unit :=
  if condition then .ok () else .error refusal

@[simp] theorem ensure_eq_ok {condition : Bool} {refusal : Refusal} {u : Unit} :
    ensure condition refusal = .ok u ↔ condition = true := by
  cases condition <;> simp [ensure]

/-- `AutonomousPolicy`, as `load_policy` returns it. -/
structure Policy where
  enabled : Bool
  repository : String
  baseBranch : String
  requiredLabels : List String
  deniedLabels : List String
  allowedPaths : List Path
  protectedPaths : List Path
  budgetUsd : ℚ
  requiredChecks : List String
  checksAppId : Nat
  maxFiles : Nat
  revision : String
deriving DecidableEq

structure Issue where
  state : String
  labels : List String
  title : String
  body : String

/-- Why the policy does not admit an issue, if it does not. -/
def Policy.issueReason (policy : Policy) (issue : Issue) (repository : String) :
    Option String :=
  if !policy.enabled then
    some "policy_disabled"
  else if repository ≠ policy.repository then
    some "repository_outside_policy"
  else if issue.state ≠ "open" then
    some "issue_not_open"
  else if !policy.requiredLabels.all issue.labels.contains then
    some "required_labels_missing"
  else if policy.deniedLabels.any issue.labels.contains then
    some "denied_label"
  else if Text.isBlank issue.title || Text.isBlank issue.body then
    some "missing_intent"
  else
    none

/-! ## Paths -/

/-- The path lies below the directory. -/
def below (directory path : Path) : Bool :=
  (directory ++ ['/']).isPrefixOf path

/-- `_matches` -/
def pathMatches (path pattern : Path) : Bool :=
  path == rstripSlash pattern || below (rstripSlash pattern) path ||
    fnmatchcase path pattern

def protectedMessage (path : Path) : String :=
  "protected path: " ++ String.ofList path

def outsideMessage (path : Path) : String :=
  "path outside autonomous policy: " ++ String.ofList path

/-- One round of the loop in `check_paths`. -/
def Policy.checkPath (policy : Policy) (artifactPrefix : Option Path) (path : Path) :
    Except Refusal Unit :=
  match Paths.normalizeRelativePath false path with
  | .error _ => .error (.value "autonomous change path is no relative path")
  | .ok normalized =>
      if normalized ≠ path then
        .error (.stage "autonomous paths must be canonical")
      else if artifactPrefix.any (fun directory => below directory path) then
        .ok ()
      else if policy.protectedPaths.any (pathMatches path) then
        .error (.stage (protectedMessage path))
      else if !policy.allowedPaths.any (pathMatches path) then
        .error (.stage (outsideMessage path))
      else
        .ok ()

def Policy.checkEach (policy : Policy) (artifactPrefix : Option Path) :
    List Path → Except Refusal Unit
  | [] => .ok ()
  | path :: rest => do
      policy.checkPath artifactPrefix path
      policy.checkEach artifactPrefix rest

/-- `check_paths` -/
def Policy.checkPaths (policy : Policy) (paths : List Path)
    (artifactPrefix : Option Path) : Except Refusal Unit :=
  if paths = [] ∨ policy.maxFiles < paths.eraseDups.length then
    .error (.stage "empty or oversized autonomous change")
  else
    policy.checkEach artifactPrefix paths

/-- `check_budget` -/
def Policy.checkBudget (policy : Policy) (cost ceiling : Option ℚ) :
    Except Refusal Unit :=
  match cost, ceiling with
  | some cost, some ceiling =>
      ensure (decide (0 ≤ cost) && decide (cost ≤ policy.budgetUsd) &&
          decide (0 < ceiling) && decide (ceiling ≤ policy.budgetUsd))
        (.stage "autonomous budget exceeds checked-in authority")
  | _, _ => .error (.stage "autonomous budget exceeds checked-in authority")

/-- The policy lets an unattended change touch the path. -/
structure Policy.Allows (policy : Policy) (path : Path) : Prop where
  unprotected : ∀ pattern ∈ policy.protectedPaths, pathMatches path pattern = false
  allowed : ∃ pattern ∈ policy.allowedPaths, pathMatches path pattern = true

theorem Policy.checkPath_ok {policy : Policy} {artifactPrefix : Option Path}
    {path : Path} {u : Unit}
    (h : policy.checkPath artifactPrefix path = .ok u) :
    Paths.Canonical path ∧
      ((∃ directory, artifactPrefix = some directory ∧ below directory path = true) ∨
        policy.Allows path) := by
  unfold Policy.checkPath at h
  split at h
  · cases h
  rename_i normalized hnormalized
  split at h
  · cases h
  rename_i hcanonical
  obtain rfl : normalized = path := not_not.mp hcanonical
  refine ⟨Paths.canonical_of_normalize hnormalized, ?_⟩
  split at h
  · rename_i hbelow
    left
    cases artifactPrefix with
    | none =>
        cases hbelow
    | some directory =>
        exact ⟨directory, rfl, by simpa using hbelow⟩
  split at h
  · cases h
  rename_i hprotected
  split at h
  · cases h
  rename_i hallowed
  right
  constructor
  · simpa using hprotected
  · simpa using hallowed

/-- What is accepted touches allowed paths and the artifacts only. -/
theorem Policy.checkPaths_ok {policy : Policy} {paths : List Path}
    {artifactPrefix : Option Path} {u : Unit}
    (h : policy.checkPaths paths artifactPrefix = .ok u) :
    ∀ path ∈ paths, Paths.Canonical path ∧
      ((∃ directory, artifactPrefix = some directory ∧ below directory path = true) ∨
        policy.Allows path) := by
  unfold Policy.checkPaths at h
  split at h
  · cases h
  clear * - h
  induction paths with
  | nil =>
      simp
  | cons first rest ih =>
      obtain ⟨_, hfirst, hrest⟩ := Machine.bind_eq_ok h
      intro path hpath
      rcases List.mem_cons.mp hpath with rfl | hpath
      · exact Policy.checkPath_ok hfirst
      · exact ih hrest path hpath

end Autonomy
end SwFactory
