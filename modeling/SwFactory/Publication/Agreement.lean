import SwFactory.Publication.Identity
import SwFactory.Machine.Fallible

/-!
# One branch for one Cell

What the validators accept has no NUL character, no margin and no `@`, so each
digest can be read back into its projection.  The branch and the Cell of two
jobs agree unless the jobs differ in nothing but the base branch.
-/

namespace SwFactory
namespace Publication

open Lexical
open Machine
open Paths

/-! ## Accepted names -/

theorem toNat_of_isIdChar {c : Char} (h : isIdChar c = true) :
    45 ≤ c.toNat ∧ c.toNat ≤ 122 := by
  simp only [isIdChar, isAlnum, isLetter, Bool.or_eq_true, Bool.and_eq_true, decide_eq_true_eq,
    Char.le_def, UInt32.le_iff_toNat_le, Char.toNat_val, beq_iff_eq] at h
  rcases h with ((((⟨hl, hu⟩ | ⟨hl, hu⟩) | ⟨hl, hu⟩) | rfl) | rfl) | rfl
  · exact ⟨le_trans (by decide) hl, le_trans hu (by decide)⟩
  · exact ⟨le_trans (by decide) hl, le_trans hu (by decide)⟩
  · exact ⟨le_trans (by decide) hl, le_trans hu (by decide)⟩
  · decide
  · decide
  · decide

/-- A name of printed characters has no NUL character and no margin. -/
structure Plain (value : Text) : Prop where
  noNul : '\x00' ∉ value
  unmargined : trim Text.isSpace value = value

theorem plain_of_chars {value : Text}
    (h : ∀ c ∈ value, 45 ≤ c.toNat ∧ c.toNat ≤ 122) : Plain value := by
  have hspace : ∀ c ∈ value, Text.isSpace c = false := by
    intro c hc
    obtain ⟨hlow, hhigh⟩ := h c hc
    simp only [Text.isSpace, Bool.or_eq_false_iff, Bool.and_eq_false_iff, decide_eq_false_iff_not,
      List.contains_eq_mem, List.mem_cons, List.not_mem_nil, or_false, not_or]
    omega
  refine ⟨fun hnul => ?_, Trimmed.trim_eq ⟨fun c hc => ?_, fun c hc => ?_⟩⟩
  · exact absurd (h _ hnul).1 (by decide)
  · exact hspace c (List.mem_of_mem_head? hc)
  · exact hspace c (List.mem_of_mem_getLast? hc)

theorem isIdChar_of_matchesId {most : Nat} {value : Text} (h : matchesId most value = true) :
    ∀ c ∈ value, isIdChar c = true := by
  cases value with
  | nil => rintro c ⟨⟩
  | cons first rest =>
      simp only [matchesId, Bool.and_eq_true, List.all_eq_true, decide_eq_true_eq] at h
      obtain ⟨⟨hfirst, hrest⟩, -⟩ := h
      intro c hc
      rcases List.mem_cons.mp hc with rfl | hc
      · simp [isIdChar, hfirst]
      · exact hrest c hc

theorem validateIdentifier_eq_ok {value result : Text}
    (h : validateIdentifier value = .ok result) : result = value ∧ Plain value := by
  unfold validateIdentifier at h
  split at h
  · cases h
  · rename_i hvalid
    simp only [not_or, Bool.not_eq_false] at hvalid
    cases h
    exact ⟨rfl, plain_of_chars fun c hc =>
      toNat_of_isIdChar (isIdChar_of_matchesId hvalid.1 c hc)⟩

theorem mem_of_splitAll {sep c : Char} {text : Text} (hc : c ∈ text) (hne : c ≠ sep) :
    ∃ part ∈ splitAll sep text, c ∈ part := by
  induction text with
  | nil => cases hc
  | cons a rest ih =>
      unfold splitAll
      rcases List.mem_cons.mp hc with rfl | hc
      · rw [if_neg hne]
        cases splitAll sep rest with
        | nil => exact ⟨[c], List.mem_cons_self, List.mem_cons_self⟩
        | cons part parts => exact ⟨c :: part, List.mem_cons_self, List.mem_cons_self⟩
      · obtain ⟨part, hpart, hmem⟩ := ih hc
        split
        · exact ⟨part, List.mem_cons_of_mem _ hpart, hmem⟩
        · cases hsplit : splitAll sep rest with
          | nil =>
              rw [hsplit] at hpart
              cases hpart
          | cons first parts =>
              rw [hsplit] at hpart
              rcases List.mem_cons.mp hpart with rfl | hpart
              · exact ⟨a :: part, List.mem_cons_self, List.mem_cons_of_mem _ hmem⟩
              · exact ⟨part, List.mem_cons_of_mem _ hpart, hmem⟩

theorem validateRepo_eq_ok {value result : Text}
    (h : validateRepo value = .ok result) : result = value ∧ Plain value := by
  unfold validateRepo at h
  dsimp only at h
  split at h
  · cases h
  split at h
  · cases h
  rename_i hparts _
  cases h
  simp only [not_or, List.any_eq_true, Bool.not_eq_true', not_exists, not_and,
    Bool.not_eq_false] at hparts
  refine ⟨rfl, plain_of_chars fun c hc => ?_⟩
  by_cases hslash : c = '/'
  · subst hslash
    decide
  · obtain ⟨part, hpart, hmem⟩ := mem_of_splitAll hc hslash
    exact toNat_of_isIdChar (isIdChar_of_matchesId (hparts.2 part hpart) c hmem)

/-! ## Accepted directories -/

theorem normalizeDir_eq_ok {value dir : Text} :
    normalizeDir value = .ok dir ↔ normalizeRelativePath true value = .ok dir := by
  unfold normalizeDir
  cases normalizeRelativePath true value with
  | error e => simp [Except.mapError]
  | ok result => simp [Except.mapError]

theorem noTargetSeparator_eq_ok {value result : Text} :
    noTargetSeparator value = .ok result ↔ '@' ∉ value ∧ value = result := by
  unfold noTargetSeparator
  split
  · rename_i h
    simp [h]
  · rename_i h
    simp [h]

theorem normalizeTargetDir_eq_ok {value dir : Text}
    (h : normalizeTargetDir value = .ok dir) :
    normalizeRelativePath true value = .ok dir ∧ '@' ∉ dir := by
  obtain ⟨d, hd, hseparator⟩ := bind_eq_ok h
  obtain ⟨hat, rfl⟩ := noTargetSeparator_eq_ok.mp hseparator
  exact ⟨normalizeDir_eq_ok.mp hd, hat⟩

/-! ## What the digests are taken of -/

/-- What a context and an identity of one job have to do with its target. -/
structure Job.Bound (job : Job) (ctx : Ctx) (identity : CellIdentity) : Prop where
  context : ctx = ⟨job.repo, job.dir, job.issue⟩
  identity : identity =
    ⟨job.repo, (if job.dir = [] then ['.'] else job.dir) ++ '@' :: boundBranch job.baseBranch,
      job.issue⟩
  repo : '\x00' ∉ job.repo
  dir : '\x00' ∉ job.dir
  issue : '\x00' ∉ job.issue
  directory : '@' ∉ job.dir
  notDot : job.dir ≠ ['.']

theorem validateGitRef_eq_ok {value result : Text}
    (h : validateGitRef value = .ok result) : result = value := by
  unfold validateGitRef at h
  split at h
  · cases h
  · cases h
    rfl

theorem validateTargetBaseBranch_eq_ok {value result : Text}
    (h : validateTargetBaseBranch value = .ok result) : result = value := by
  obtain ⟨ref, href, hseparator⟩ := bind_eq_ok h
  rw [← (noTargetSeparator_eq_ok.mp hseparator).2, validateGitRef_eq_ok href]

theorem Target.bound {target : Target} {issue : Text} {ctx : Ctx} {identity : CellIdentity}
    (hctx : (target.job issue).context = .ok ctx)
    (hidentity : (target.job issue).identity = .ok identity) :
    (target.job issue).Bound ctx identity := by
  obtain ⟨repo, hrepo, hctx⟩ := bind_eq_ok hctx
  obtain ⟨dir, hdir, hctx⟩ := bind_eq_ok hctx
  obtain ⟨_, -, hctx⟩ := bind_eq_ok hctx
  obtain ⟨repo', hrepo', hctx⟩ := bind_eq_ok hctx
  obtain ⟨dir', hdir', hctx⟩ := bind_eq_ok hctx
  obtain ⟨_, -, hctx⟩ := bind_eq_ok hctx
  obtain ⟨issue', hissue, hctx⟩ := bind_eq_ok hctx
  obtain ⟨rfl, hrepoPlain⟩ := validateRepo_eq_ok hrepo'
  obtain ⟨rfl, hissuePlain⟩ := validateIdentifier_eq_ok hissue
  obtain ⟨value, hvalue⟩ := target.dirValid
  have hnormal : Normal target.dir := normal_of_normalize (normalizeTargetDir_eq_ok hvalue).1
  obtain ⟨rfl, hnul, htrim⟩ :=
    normalize_of_normal hnormal (normalizeTargetDir_eq_ok hdir').1
  obtain ⟨bound, hbound, hidentity⟩ := bind_eq_ok hidentity
  obtain ⟨boundDir, hboundDir, hbound⟩ := bind_eq_ok hbound
  obtain ⟨boundBase, hboundBase, hbound⟩ := bind_eq_ok hbound
  have hboundDir' : normalizeTargetDir target.dir = .ok boundDir := by
    have := hboundDir
    change normalizeTargetDir (trim Text.isSpace target.dir) = .ok boundDir at this
    rwa [htrim] at this
  obtain ⟨rfl, -, -⟩ :=
    normalize_of_normal hnormal (normalizeTargetDir_eq_ok hboundDir').1
  cases hctx
  cases hbound
  cases hidentity
  refine ⟨rfl, ?_, hrepoPlain.noNul, hnul, hissuePlain.noNul,
    (normalizeTargetDir_eq_ok hdir').2, hnormal.notDot⟩
  rw [hrepoPlain.unmargined, hissuePlain.unmargined,
    validateTargetBaseBranch_eq_ok hboundBase]
  rfl

section Digests

variable {sha256 : Text → Text}

/-- The branches of two jobs agree when repository, directory and issue do. -/
theorem branch_eq_iff
    (hlength : ∀ raw, (sha256 raw).length = 64)
    {job₁ job₂ : Job} {ctx₁ ctx₂ : Ctx} {identity₁ identity₂ : CellIdentity}
    (h₁ : job₁.Bound ctx₁ identity₁) (h₂ : job₂.Bound ctx₂ identity₂)
    (hseparates : Separates sha256 12 ctx₁.raw ctx₂.raw) :
    ctx₁.branch sha256 = ctx₂.branch sha256 ↔
      job₁.repo = job₂.repo ∧ job₁.dir = job₂.dir ∧ job₁.issue = job₂.issue := by
  constructor
  · intro h
    have hkeys : publicationKey sha256 ctx₁.repo ctx₁.targetDir ctx₁.issue =
        publicationKey sha256 ctx₂.repo ctx₂.targetDir ctx₂.issue := by
      refine (List.cons.inj (List.append_inj' h ?_).2).2
      simp [publicationKey, hlength]
    have hraw : ctx₁.raw = ctx₂.raw := hseparates hkeys
    rw [h₁.context, h₂.context] at hraw
    obtain ⟨hrepo, hrest⟩ := cut_inj h₁.repo h₂.repo hraw
    obtain ⟨hdir, hissue⟩ := cut_inj h₁.dir h₂.dir hrest
    exact ⟨hrepo, hdir, hissue⟩
  · rintro ⟨hrepo, hdir, hissue⟩
    rw [h₁.context, h₂.context, hrepo, hdir, hissue]

/-- The Cells of two jobs agree when the base branches do, too. -/
theorem stableId_eq_iff
    {job₁ job₂ : Job} {ctx₁ ctx₂ : Ctx} {identity₁ identity₂ : CellIdentity}
    (h₁ : job₁.Bound ctx₁ identity₁) (h₂ : job₂.Bound ctx₂ identity₂)
    (hseparates : Separates sha256 24 identity₁.raw identity₂.raw) :
    identity₁.stableId sha256 = identity₂.stableId sha256 ↔
      job₁.repo = job₂.repo ∧ job₁.dir = job₂.dir ∧ job₁.issue = job₂.issue ∧
        boundBranch job₁.baseBranch = boundBranch job₂.baseBranch := by
  have hdirectory : ∀ {job : Job} {ctx : Ctx} {identity : CellIdentity},
      job.Bound ctx identity → '@' ∉ (if job.dir = [] then ['.'] else job.dir) := by
    intro job ctx identity h
    split
    · decide
    · exact h.directory
  constructor
  · intro h
    have hraw := hseparates (List.append_cancel_left h)
    rw [h₁.identity, h₂.identity] at hraw
    obtain ⟨hrepo, hrest⟩ := cut_inj h₁.repo h₂.repo hraw
    obtain ⟨htarget, hissue⟩ := rcut_inj h₁.issue h₂.issue hrest
    obtain ⟨hdir, hbranch⟩ := cut_inj (hdirectory h₁) (hdirectory h₂) htarget
    refine ⟨hrepo, ?_, hissue, hbranch⟩
    split at hdir
    · rename_i hempty₁
      split at hdir
      · rename_i hempty₂
        rw [hempty₁, hempty₂]
      · exact absurd hdir.symm h₂.notDot
    · split at hdir
      · exact absurd hdir h₁.notDot
      · exact hdir
  · rintro ⟨hrepo, hdir, hissue, hbranch⟩
    rw [h₁.identity, h₂.identity, hrepo, hdir, hissue, hbranch]

end Digests

/-- Branch and Cell of two jobs agree unless only the base branches are different. -/
theorem one_branch_per_cell_iff
    (sha256 : Text → Text)
    (hlength : ∀ raw, (sha256 raw).length = 64)
    (target₁ target₂ : Target)
    (issue₁ issue₂ : Text)
    {ctx₁ ctx₂ : Ctx}
    {identity₁ identity₂ : CellIdentity}
    (hctx₁ : (target₁.job issue₁).context = .ok ctx₁)
    (hctx₂ : (target₂.job issue₂).context = .ok ctx₂)
    (hidentity₁ : (target₁.job issue₁).identity = .ok identity₁)
    (hidentity₂ : (target₂.job issue₂).identity = .ok identity₂)
    (hbranches : Separates sha256 12 ctx₁.raw ctx₂.raw)
    (hcells : Separates sha256 24 identity₁.raw identity₂.raw) :
    (ctx₁.branch sha256 = ctx₂.branch sha256 ↔
        identity₁.stableId sha256 = identity₂.stableId sha256) ↔
      ¬ (target₁.repo = target₂.repo ∧ target₁.dir = target₂.dir ∧ issue₁ = issue₂ ∧
        boundBranch target₁.baseBranch ≠ boundBranch target₂.baseBranch) := by
  have h₁ := Target.bound hctx₁ hidentity₁
  have h₂ := Target.bound hctx₂ hidentity₂
  rw [branch_eq_iff hlength h₁ h₂ hbranches, stableId_eq_iff h₁ h₂ hcells]
  change (target₁.repo = target₂.repo ∧ target₁.dir = target₂.dir ∧ issue₁ = issue₂ ↔
    target₁.repo = target₂.repo ∧ target₁.dir = target₂.dir ∧ issue₁ = issue₂ ∧
      boundBranch target₁.baseBranch = boundBranch target₂.baseBranch) ↔ _
  tauto

/-! ## Two targets on one directory -/

/-- The digests of the texts below; any other text gets that of the empty text. -/
def recordedSha256 (raw : Text) : Text :=
  if raw = joined "o/r".toList [] "7".toList then
    "6dbfeaca112b56fe58790100a4f16781d8a93d12d746e8bec754984b281b4fd7".toList
  else if raw = joined "o/r".toList ".@main".toList "7".toList then
    "f99cd44f450669a6dbb0927f37c8b256550f66fe73f5c20c7ab9955f3313e74c".toList
  else if raw = joined "o/r".toList ".@dev".toList "7".toList then
    "67c57eeecf14f14c21950349daf239facabec8ef8394465a002b785e85df3627".toList
  else
    "e3b0c44298fc1c149afbf4c8996fb92427ae41e4649b934ca495991b7852b855".toList

def mainTarget : Target :=
  ⟨"o/r".toList, [], "main".toList, by decide +kernel, ⟨[], by decide +kernel⟩, by decide +kernel⟩

def devTarget : Target :=
  ⟨"o/r".toList, [], "dev".toList, by decide +kernel, ⟨[], by decide +kernel⟩, by decide +kernel⟩

theorem one_branch_per_cell_main_dev :
    (Ctx.branch recordedSha256 ⟨"o/r".toList, [], "7".toList⟩ =
          Ctx.branch recordedSha256 ⟨"o/r".toList, [], "7".toList⟩ ↔
        CellIdentity.stableId recordedSha256 ⟨"o/r".toList, ".@main".toList, "7".toList⟩ =
          CellIdentity.stableId recordedSha256 ⟨"o/r".toList, ".@dev".toList, "7".toList⟩) ↔
      ¬ (mainTarget.repo = devTarget.repo ∧ mainTarget.dir = devTarget.dir ∧
        "7".toList = "7".toList ∧
        boundBranch mainTarget.baseBranch ≠ boundBranch devTarget.baseBranch) := by
  refine one_branch_per_cell_iff recordedSha256 (fun raw => ?_) mainTarget devTarget
    "7".toList "7".toList (by decide +kernel) (by decide +kernel) (by decide +kernel)
    (by decide +kernel) (fun _ => rfl) (fun h => absurd h (by decide +kernel))
  unfold recordedSha256
  split
  · decide
  split
  · decide
  split
  · decide
  · decide

/-- One issue on two branches of a repository: two Cells, one branch. -/
theorem two_cells_one_branch :
    ∃ ctx₁ ctx₂ identity₁ identity₂,
      (mainTarget.job "7".toList).context = .ok ctx₁ ∧
        (devTarget.job "7".toList).context = .ok ctx₂ ∧
        (mainTarget.job "7".toList).identity = .ok identity₁ ∧
        (devTarget.job "7".toList).identity = .ok identity₂ ∧
        ctx₁.branch recordedSha256 = ctx₂.branch recordedSha256 ∧
        identity₁.stableId recordedSha256 ≠ identity₂.stableId recordedSha256 :=
  ⟨⟨"o/r".toList, [], "7".toList⟩, ⟨"o/r".toList, [], "7".toList⟩,
    ⟨"o/r".toList, ".@main".toList, "7".toList⟩, ⟨"o/r".toList, ".@dev".toList, "7".toList⟩,
    by decide +kernel, by decide +kernel, by decide +kernel, by decide +kernel, rfl,
    by decide +kernel⟩

end Publication
end SwFactory
