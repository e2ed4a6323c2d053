import SwFactory.Paths.Relative

/-!
# The branch and the Cell of a job

A line turns its targets and its issues into jobs.  The branch of a job and the
Cell of a job are two digests, each over its own projection of the job.  A
digest is a parameter; what the results need of it is that it keeps apart the
texts at hand.

The clauses of `validate_git_ref` that compare texts refuse what they say.  The
pattern for single characters does not: its class ends at the first bare `]`, so
that a character of the class is refused in front of a `]` only, and DEL is not in
the class at all.

Sources: `paths.py`, `blueprint.py` (`Target`, `fan_out`, `config`),
`runtime.py` (`job_config`), `cell_runtime.py`, `cells.py`,
`publication_identity.py` and `stages.py` (`Ctx.branch`).
-/

namespace SwFactory
namespace Publication

open Lexical
open Paths

abbrev Text := List Char

inductive Refusal
  | identifier
  | repo
  | reservedPart
  | gitRef
  | path (error : PathError)
  | separator
deriving DecidableEq, Repr

/-! ## The validators -/

/-- `[A-Za-z0-9]` -/
def isAlnum (c : Char) : Bool :=
  isLetter c || ('0' ≤ c && c ≤ '9')

/-- `[A-Za-z0-9._-]` -/
def isIdChar (c : Char) : Bool :=
  isAlnum c || c == '.' || c == '_' || c == '-'

/-- `_ID_RE` and `_REPO_PART_RE`: one `[A-Za-z0-9]`, then up to `most` further characters. -/
def matchesId (most : Nat) : Text → Bool
  | [] => false
  | c :: rest => isAlnum c && rest.all isIdChar && rest.length ≤ most

/-- `validate_identifier` -/
def validateIdentifier (value : Text) : Except Refusal Text :=
  if matchesId 127 value = false ∨ value = ['.'] ∨ value = ['.', '.'] then
    .error .identifier
  else
    .ok value

def lockSuffix : Text :=
  ".lock".toList

/-- `validate_repo` -/
def validateRepo (value : Text) : Except Refusal Text :=
  let parts := splitAll '/' value
  if parts.length ≠ 2 ∨ parts.any (fun part => !matchesId 99 part) then
    .error .repo
  else if parts.any (fun part =>
      part == ['.'] || part == ['.', '.'] || lockSuffix.isSuffixOf part) then
    .error .reservedPart
  else
    .ok value

/-- `sub in value` -/
def contains (sub value : Text) : Bool :=
  value.tails.any (fun rest => sub.isPrefixOf rest)

/-- The class in `_INVALID_REF_RE`. -/
def isRefBreak (c : Char) : Bool :=
  c.toNat ≤ 0x20 || ['~', '^', ':', '?', '*', '\\', '['].contains c

/-- `_INVALID_REF_RE`: the class ends at its first bare `]`, so the pattern asks for one of
these characters with a `]` behind it. -/
def invalidRef (value : Text) : Bool :=
  (value.zip value.tail).any (fun pair => isRefBreak pair.1 && pair.2 == ']')

/-- `validate_git_ref` -/
def validateGitRef (value : Text) : Except Refusal Text :=
  if value.isEmpty || value == ['@'] || invalidRef value || value.head? == some '-' ||
      value.head? == some '/' || value.getLast? == some '/' || value.getLast? == some '.' ||
      contains ['.', '.'] value || contains ['/', '/'] value || contains ['@', '\x7b'] value ||
      (splitAll '/' value).any (fun part =>
        part.isEmpty || part.head? == some '.' || lockSuffix.isSuffixOf part) then
    .error .gitRef
  else
    .ok value

/-- `_no_target_separator` -/
def noTargetSeparator (value : Text) : Except Refusal Text :=
  if '@' ∈ value then .error .separator else .ok value

/-- `normalize_relative_path(value, allow_empty=True)` -/
def normalizeDir (value : Text) : Except Refusal Text :=
  (normalizeRelativePath true value).mapError .path

/-- `normalize_target_dir` -/
def normalizeTargetDir (value : Text) : Except Refusal Text :=
  normalizeDir value >>= noTargetSeparator

/-- `validate_target_base_branch` -/
def validateTargetBaseBranch (value : Text) : Except Refusal Text :=
  validateGitRef value >>= noTargetSeparator

/-! ## Targets and jobs -/

/-- `Target`: the fields as its validators leave them. -/
structure Target where
  repo : Text
  dir : Text
  baseBranch : Text
  repoValid : validateRepo repo = .ok repo
  dirValid : ∃ value, normalizeTargetDir value = .ok dir
  branchValid : validateTargetBaseBranch baseBranch = .ok baseBranch

/-- A job of `fan_out`; `issue` is the id of the issue. -/
structure Job where
  issue : Text
  repo : Text
  dir : Text
  baseBranch : Text
deriving DecidableEq, Repr

def Target.job (target : Target) (issue : Text) : Job :=
  ⟨issue, target.repo, target.dir, target.baseBranch⟩

/-- What `Ctx.branch` reads of a context. -/
structure Ctx where
  repo : Text
  targetDir : Text
  issue : Text
deriving DecidableEq, Repr

/-- `job_config`, with the validators of `Config`, and the issue of the context. -/
def Job.context (job : Job) : Except Refusal Ctx :=
  validateRepo job.repo >>= fun _ =>
  normalizeDir job.dir >>= fun _ =>
  validateGitRef job.baseBranch >>= fun _ =>
  validateRepo job.repo >>= fun repo =>
  normalizeTargetDir job.dir >>= fun targetDir =>
  validateTargetBaseBranch job.baseBranch >>= fun _ =>
  validateIdentifier job.issue >>= fun issue =>
    .ok ⟨repo, targetDir, issue⟩

/-- The target branch as the identity binds it: `str(...).strip() or "main"`. -/
def boundBranch (baseBranch : Text) : Text :=
  let stripped := trim Text.isSpace baseBranch
  if stripped = [] then "main".toList else stripped

/-- `cell_target` -/
def Job.cellTarget (job : Job) : Except Refusal Text :=
  normalizeTargetDir (trim Text.isSpace job.dir) >>= fun dir =>
  validateTargetBaseBranch (boundBranch job.baseBranch) >>= fun baseBranch =>
    .ok ((if dir = [] then ['.'] else dir) ++ '@' :: baseBranch)

structure CellIdentity where
  repo : Text
  target : Text
  issue : Text
deriving DecidableEq, Repr

/-- `identity_for_job` -/
def Job.identity (job : Job) : Except Refusal CellIdentity :=
  job.cellTarget >>= fun target =>
    .ok ⟨trim Text.isSpace job.repo, target, trim Text.isSpace job.issue⟩

/-! ## The digests -/

/-- The three texts between NUL characters. -/
def joined (repo target issue : Text) : Text :=
  repo ++ '\x00' :: (target ++ '\x00' :: issue)

def Ctx.raw (ctx : Ctx) : Text :=
  joined ctx.repo ctx.targetDir ctx.issue

def CellIdentity.raw (identity : CellIdentity) : Text :=
  joined identity.repo identity.target identity.issue

section Digests

variable (sha256 : Text → Text)

/-- `publication_key` -/
def publicationKey (repo target issue : Text) : Text :=
  (sha256 (joined repo target issue)).take 12

/-- `Ctx.branch` -/
def Ctx.branch (ctx : Ctx) : Text :=
  "factory/".toList ++ ctx.issue ++ '-' :: publicationKey sha256 ctx.repo ctx.targetDir ctx.issue

/-- `CellIdentity.stable_id` -/
def CellIdentity.stableId (identity : CellIdentity) : Text :=
  "cell_".toList ++ (sha256 identity.raw).take 24

/-- The first digits of the digests keep the two texts apart. -/
def Separates (digits : Nat) (a b : Text) : Prop :=
  (sha256 a).take digits = (sha256 b).take digits → a = b

end Digests

/-! ## Which branch names are safe -/

/-- A control character, a space, or one of the characters that refs give a meaning. -/
def isRefDanger (c : Char) : Bool :=
  isControl c || c == ' ' || "~^:?*[\\".toList.contains c

/-- The dangerous cases of `git check-ref-format` are absent. -/
structure SafeRef (value : Text) : Prop where
  characters : ∀ c ∈ value, isRefDanger c = false
  texts : contains ['.', '.'] value = false ∧ contains ['/', '/'] value = false ∧
    contains ['@', '\x7b'] value = false
  components : ∀ part ∈ splitAll '/' value,
    part ≠ [] ∧ part.head? ≠ some '.' ∧ lockSuffix.isSuffixOf part = false
  notAt : value ≠ ['@']
  front : value.head? ≠ some '-' ∧ value.head? ≠ some '/'
  back : value.getLast? ≠ some '/' ∧ value.getLast? ≠ some '.'

/-- A clause of `validate_git_ref` other than its pattern refuses the value. -/
def textuallyRefused (value : Text) : Bool :=
  value.isEmpty || value == ['@'] || value.head? == some '-' ||
    value.head? == some '/' || value.getLast? == some '/' || value.getLast? == some '.' ||
    contains ['.', '.'] value || contains ['/', '/'] value || contains ['@', '\x7b'] value ||
    (splitAll '/' value).any (fun part =>
      part.isEmpty || part.head? == some '.' || lockSuffix.isSuffixOf part)

/-- A value is accepted if neither the pattern nor another clause refuses it. -/
theorem accepts_iff {value result : Text} :
    validateGitRef value = .ok result ↔
      result = value ∧ invalidRef value = false ∧ textuallyRefused value = false := by
  unfold validateGitRef textuallyRefused
  split
  · next hrefused =>
      constructor
      · rintro ⟨⟩
      · rintro ⟨-, hpattern, htext⟩
        simp only [Bool.or_eq_true, Bool.or_eq_false_iff] at hrefused htext hpattern
        simp [hpattern, htext] at hrefused
  · next haccepted =>
      simp only [Bool.not_eq_true, Bool.or_eq_false_iff] at haccepted
      constructor
      · rintro ⟨⟩
        simp [haccepted]
      · rintro ⟨rfl, -, -⟩
        rfl

/-- The other clauses refuse what their part of a safe ref forbids. -/
theorem safeRef_iff {value : Text} (htext : textuallyRefused value = false) :
    SafeRef value ↔ ∀ c ∈ value, isRefDanger c = false := by
  refine ⟨SafeRef.characters, fun hchars => ?_⟩
  simp only [textuallyRefused, Bool.or_eq_false_iff, List.any_eq_false, beq_eq_false_iff_ne,
    ne_eq, List.isEmpty_eq_false_iff] at htext
  obtain ⟨⟨⟨⟨⟨⟨⟨⟨⟨-, hat⟩, hdash⟩, hfront⟩, hback⟩, hdot⟩, hdots⟩, hslashes⟩, hbrace⟩, hparts⟩ :=
    htext
  refine ⟨hchars, ⟨hdots, hslashes, hbrace⟩, fun part hpart => ?_, hat, ⟨hdash, hfront⟩,
    ⟨hback, hdot⟩⟩
  have hclauses := hparts part hpart
  simp only [Bool.or_eq_true, not_or, List.isEmpty_iff, beq_iff_eq, Bool.not_eq_true] at hclauses
  exact ⟨hclauses.1.1, hclauses.1.2, hclauses.2⟩

end Publication
end SwFactory
