import Mathlib.Data.List.Count
import SwFactory.Blueprints.SameLine
import SwFactory.Publication.Agreement

/-!
# The fan-out of a line

The jobs of a run are the selected issues times the selected targets.  Issues are
normalised and named once; targets are taken as the line lists them.  The Cell of a
job is a digest of a further projection of it, so that jobs of different issues or
targets have one Cell where the projection does not keep them apart.

Sources: `blueprint.py` (`Blueprint.jobs`), `cell_runtime.py` (`identity_for_job`).
-/

namespace SwFactory
namespace Blueprints

open Lexical
open Machine

/-! ## The conf of a run -/

/-- A value of the conf, as far as the fan-out looks at it. -/
inductive Given
  /-- `None`, or no value -/
  | nothing
  /-- no list: its text, and whether it is true -/
  | one (text : Text) (truthy : Bool)
  /-- the texts of a list or a tuple -/
  | many (items : List Text)
deriving DecidableEq

/-- The items of a value that is true. -/
def Given.items : Given → Option (List Text)
  | .nothing => none
  | .one text truthy => if truthy then some [text] else none
  | .many items => if items.isEmpty then none else some items

structure Conf where
  issues : Given := .nothing
  /-- the text of `issue`, if it is not `None` -/
  issue : Option Text := none
  targets : Given := .nothing
deriving DecidableEq

/-- The items to start from, and whether the backlog was asked for them. -/
def Blueprint.rawIssues (bp : Blueprint) (conf : Conf) (backlog : Option (List Text)) :
    Option (List Text × Bool) :=
  match conf.issues.items, conf.issue.filter (· ≠ []) with
  | some items, _ => some (items, false)
  | none, some issue => some ([issue], false)
  | none, none =>
      if bp.trigger.issues = [] ∧ bp.trigger.backlog.isSome then
        backlog.map (fun selected => (selected, true))
      else
        some (bp.trigger.issues, false)

/-- The issue that an item names; a blank item names none. -/
def issueOf (A : Alphabet) (item : Text) : Option (Option Text) :=
  let value := trim Text.isSpace item
  if value = [] then some none
  else if value.all A.isDigit then some (some value)
  else (relativePath value).map some

/-- The issues of the run, each once; `none` stands for the exception of the fan-out. -/
def Blueprint.selectedIssues (A : Alphabet) (bp : Blueprint) (conf : Conf)
    (backlog : Option (List Text)) : Option (List Text) := do
  let raw ← bp.rawIssues conf backlog
  let issues ← raw.1.mapM (issueOf A)
  let issues := distinct (issues.filterMap id)
  if issues = [] ∧ raw.2 = false then none else some issues

/-- The targets of the run. -/
def Blueprint.selectedTargets (bp : Blueprint) (conf : Conf) : Option (List Target) :=
  match conf.targets.items with
  | none => some bp.targets
  | some wanted =>
      let targets := bp.targets.filter (fun t => wanted.contains t.repo)
      if wanted.all (fun repo => (targets.map Target.repo).contains repo) then some targets
      else none

/-! ## Jobs -/

/-- A job, without its place in the fan-out. -/
def Target.job (t : Target) (issue : Text) : Publication.Job :=
  ⟨issue, t.repo, t.dir, t.baseBranch⟩

structure FanOutJob where
  job : Publication.Job
  jobIdx : Nat
deriving DecidableEq

/-- `for i in issues for t in targets` -/
def pairs (issues : List Text) (targets : List Target) : List Publication.Job :=
  issues.flatMap (fun issue => targets.map (fun t => t.job issue))

/-- `jobs`; an empty selection of the backlog is an empty fan-out. -/
def Blueprint.jobs (A : Alphabet) (bp : Blueprint) (conf : Conf) (backlog : Option (List Text)) :
    Option (List FanOutJob) := do
  let issues ← bp.selectedIssues A conf backlog
  if issues = [] then
    some []
  else do
    let targets ← bp.selectedTargets conf
    some ((pairs issues targets).zipIdx.map (fun entry => ⟨entry.1, entry.2⟩))

/-! ## Cells -/

/-- What `identity_for_job` makes of a target: its repository and the bound target. -/
def Target.cell (t : Target) : Except Publication.Refusal (Text × Text) :=
  (t.job []).cellTarget.map (fun target => (trim Text.isSpace t.repo, target))

theorem identity_job (t : Target) (issue : Text) :
    (t.job issue).identity =
      t.cell.map (fun cell => ⟨cell.1, cell.2, trim Text.isSpace issue⟩) := by
  have hsame : (t.job issue).cellTarget = (t.job []).cellTarget := rfl
  unfold Publication.Job.identity Target.cell
  rw [hsame]
  cases (t.job []).cellTarget <;> rfl

section Cells

variable (sha256 : Text → Text)

/-- Any two jobs have different Cells. -/
def CellsApart (jobs : List Publication.Job) : Prop :=
  jobs.Pairwise (fun a b => ∀ x y, a.identity = .ok x → b.identity = .ok y →
    x.stableId sha256 ≠ y.stableId sha256)

/-- The truncated digest keeps the identities of the jobs apart. -/
def DigestsApart (jobs : List Publication.Job) : Prop :=
  ∀ a ∈ jobs, ∀ b ∈ jobs, ∀ x y, a.identity = .ok x → b.identity = .ok y →
    Publication.Separates sha256 24 x.raw y.raw

end Cells

/-- Every issue and target have one job. -/
def OneEach (issues : List Text) (targets : List Target) (jobs : List Publication.Job) : Prop :=
  ∀ issue ∈ issues, ∀ t ∈ targets, jobs.count (t.job issue) = 1

/-- The target binds a Cell: its directory and its branch are valid without their margins. -/
def Target.Binds (t : Target) : Prop :=
  ∃ dir branch,
    Publication.normalizeTargetDir (trim Text.isSpace t.dir) = .ok dir ∧
      Publication.validateTargetBaseBranch (Publication.boundBranch t.baseBranch) = .ok branch

/-- One repository, directory and branch, without their margins. -/
structure Target.Same (s t : Target) : Prop where
  repo : trim Text.isSpace s.repo = trim Text.isSpace t.repo
  dir : Publication.normalizeTargetDir (trim Text.isSpace s.dir) =
    Publication.normalizeTargetDir (trim Text.isSpace t.dir)
  branch : Publication.boundBranch s.baseBranch = Publication.boundBranch t.baseBranch

/--
The targets are different and stay so without their margins, and so do the issues,
unless no target binds a Cell.
-/
structure KeptApart (issues : List Text) (targets : List Target) : Prop where
  distinct : targets.Nodup
  cells : targets.Pairwise (fun s t => s.Binds → ¬ s.Same t)
  stripped : issues.Pairwise (fun i j => trim Text.isSpace i ≠ trim Text.isSpace j) ∨
    ∀ t ∈ targets, ¬ t.Binds

variable {sha256 : Text → Text}
variable {issues : List Text}
variable {targets : List Target}

theorem mem_pairs {job : Publication.Job} :
    job ∈ pairs issues targets ↔ ∃ issue ∈ issues, ∃ t ∈ targets, t.job issue = job := by
  simp [pairs]

/-- No text of the identities has a NUL character. -/
def NulFree (issues : List Text) (targets : List Target) : Prop :=
  (∀ issue ∈ issues, '\x00' ∉ issue) ∧ ∀ t ∈ targets, '\x00' ∉ t.repo

/-- What is digested determines the identity. -/
theorem identity_inj (hnul : NulFree issues targets) {a b : Publication.Job}
    (ha : a ∈ pairs issues targets) (hb : b ∈ pairs issues targets)
    {x y : Publication.CellIdentity} (hx : a.identity = .ok x) (hy : b.identity = .ok y)
    (h : x.raw = y.raw) : x = y := by
  obtain ⟨i, hi, s, hs, rfl⟩ := mem_pairs.mp ha
  obtain ⟨j, hj, t, ht, rfl⟩ := mem_pairs.mp hb
  obtain ⟨target, -, hx⟩ := bind_eq_ok hx
  obtain ⟨target', -, hy⟩ := bind_eq_ok hy
  cases hx
  cases hy
  have hrepo : ∀ t ∈ targets, '\x00' ∉ trim Text.isSpace t.repo :=
    fun t ht hmem => hnul.2 t ht (mem_of_mem_trim hmem)
  have hissue : ∀ i ∈ issues, '\x00' ∉ trim Text.isSpace i :=
    fun i hi hmem => hnul.1 i hi (mem_of_mem_trim hmem)
  obtain ⟨hr, hrest⟩ := cut_inj (hrepo s hs) (hrepo t ht) h
  obtain ⟨ht, hi⟩ := rcut_inj (hissue i hi) (hissue j hj) hrest
  exact congr (congr (congrArg Publication.CellIdentity.mk hr) ht) hi

/-- Cells are apart where the identities are. -/
theorem cellsApart_iff (hnul : NulFree issues targets)
    (hsha : DigestsApart sha256 (pairs issues targets)) :
    CellsApart sha256 (pairs issues targets) ↔
      (pairs issues targets).Pairwise (fun a b => ∀ x, a.identity = .ok x → b.identity ≠ .ok x) := by
  unfold CellsApart
  refine List.Pairwise.iff_of_mem fun {a b} ha hb => ?_
  constructor
  · exact fun h x hx hy => h x x hx hy rfl
  · intro h x y hx hy hsame
    have hraw := hsha a ha b hb x y hx hy (List.append_cancel_left hsame)
    cases identity_inj hnul ha hb hx hy hraw
    exact h x hx hy

/-- The jobs of two targets have one identity where Cell and issue agree. -/
theorem identity_ne_iff (s t : Target) (i j : Text) :
    (∀ x, (s.job i).identity = .ok x → (t.job j).identity ≠ .ok x) ↔
      trim Text.isSpace i ≠ trim Text.isSpace j ∨ ∀ cell, s.cell = .ok cell → t.cell ≠ .ok cell := by
  rw [identity_job, identity_job]
  cases hs : s.cell with
  | error e => simp [Except.map]
  | ok c =>
      cases ht : t.cell with
      | error e => simp [Except.map]
      | ok d =>
          obtain ⟨repo, target⟩ := c
          obtain ⟨repo', target'⟩ := d
          simp only [Except.map, Except.ok.injEq, forall_eq', Publication.CellIdentity.mk.injEq,
            Prod.mk.injEq, ne_eq]
          tauto

theorem cell_eq_ok_iff {t : Target} {cell : Text × Text} :
    t.cell = .ok cell ↔
      ∃ dir branch,
        Publication.normalizeTargetDir (trim Text.isSpace t.dir) = .ok dir ∧
          Publication.validateTargetBaseBranch (Publication.boundBranch t.baseBranch) = .ok branch ∧
          cell = (trim Text.isSpace t.repo, (if dir = [] then ['.'] else dir) ++ '@' :: branch) := by
  constructor
  · intro h
    obtain ⟨target, htarget, rfl⟩ := map_eq_ok.mp h
    obtain ⟨dir, hdir, htarget⟩ := bind_eq_ok htarget
    obtain ⟨branch, hbranch, htarget⟩ := bind_eq_ok htarget
    cases htarget
    exact ⟨dir, branch, hdir, hbranch, rfl⟩
  · rintro ⟨dir, branch, hdir, hbranch, rfl⟩
    refine map_eq_ok.mpr ⟨_, ?_, rfl⟩
    change (Publication.normalizeTargetDir (trim Text.isSpace t.dir) >>= _) = _
    rw [hdir]
    change (Publication.validateTargetBaseBranch (Publication.boundBranch t.baseBranch) >>= _) = _
    rw [hbranch]
    rfl

theorem binds_iff {t : Target} : t.Binds ↔ ∃ cell, t.cell = .ok cell := by
  constructor
  · rintro ⟨dir, branch, hdir, hbranch⟩
    exact ⟨_, cell_eq_ok_iff.mpr ⟨dir, branch, hdir, hbranch, rfl⟩⟩
  · rintro ⟨cell, hcell⟩
    obtain ⟨dir, branch, hdir, hbranch, -⟩ := cell_eq_ok_iff.mp hcell
    exact ⟨dir, branch, hdir, hbranch⟩

/-- `dir@branch` is read back into the directory and the branch. -/
theorem boundTarget_inj {value value' dir dir' branch branch' : Text}
    (hdir : Publication.normalizeTargetDir value = .ok dir)
    (hdir' : Publication.normalizeTargetDir value' = .ok dir')
    (h : (if dir = [] then ['.'] else dir) ++ '@' :: branch =
      (if dir' = [] then ['.'] else dir') ++ '@' :: branch') :
    dir = dir' ∧ branch = branch' := by
  have hat : ∀ {value dir : Text}, Publication.normalizeTargetDir value = .ok dir →
      '@' ∉ (if dir = [] then ['.'] else dir) ∧ dir ≠ ['.'] := by
    intro value dir h
    obtain ⟨hnormal, hat⟩ := Publication.normalizeTargetDir_eq_ok h
    refine ⟨?_, (Paths.normal_of_normalize hnormal).notDot⟩
    split
    · decide
    · exact hat
  obtain ⟨hfront, hbranch⟩ := cut_inj (hat hdir).1 (hat hdir').1 h
  refine ⟨?_, hbranch⟩
  by_cases hempty : dir = []
  · by_cases hempty' : dir' = []
    · rw [hempty, hempty']
    · rw [if_pos hempty, if_neg hempty'] at hfront
      exact absurd hfront.symm (hat hdir').2
  · by_cases hempty' : dir' = []
    · rw [if_neg hempty, if_pos hempty'] at hfront
      exact absurd hfront (hat hdir).2
    · rwa [if_neg hempty, if_neg hempty'] at hfront

/-- Two targets have one Cell where they are the same without their margins. -/
theorem cell_ne_iff (s t : Target) :
    (∀ cell, s.cell = .ok cell → t.cell ≠ .ok cell) ↔ (s.Binds → ¬ s.Same t) := by
  constructor
  · intro h hbinds hsame
    obtain ⟨dir, branch, hdir, hbranch⟩ := hbinds
    have hcell := cell_eq_ok_iff.mpr ⟨dir, branch, hdir, hbranch, rfl⟩
    refine h _ hcell (cell_eq_ok_iff.mpr ⟨dir, branch, ?_, ?_, ?_⟩)
    · rw [← hsame.dir, hdir]
    · rw [← hsame.branch, hbranch]
    · rw [hsame.repo]
  · intro h cell hs ht
    refine h (binds_iff.mpr ⟨cell, hs⟩) ?_
    obtain ⟨dir, branch, hdir, hbranch, rfl⟩ := cell_eq_ok_iff.mp hs
    obtain ⟨dir', branch', hdir', hbranch', hcell⟩ := cell_eq_ok_iff.mp ht
    obtain ⟨hrepo, htarget⟩ := Prod.mk.inj hcell
    obtain ⟨rfl, rfl⟩ := boundTarget_inj hdir hdir' htarget
    refine ⟨hrepo, by rw [hdir, hdir'], ?_⟩
    rw [← Publication.validateTargetBaseBranch_eq_ok hbranch,
      ← Publication.validateTargetBaseBranch_eq_ok hbranch']

theorem pairwise_or_iff {α : Type} {P : α → α → Prop} {N : Prop} {xs : List α} :
    xs.Pairwise (fun a b => P a b ∨ N) ↔ xs.Pairwise P ∨ N := by
  by_cases hN : N
  · have hall : xs.Pairwise (fun a b => P a b ∨ N) :=
      List.pairwise_of_forall fun _ _ => Or.inr hN
    exact ⟨fun _ => Or.inr hN, fun _ => hall⟩
  · simp [hN]

/-- **The product of issues and targets.** -/
theorem pairwise_pairs_iff :
    (pairs issues targets).Pairwise (fun a b => ∀ x, a.identity = .ok x → b.identity ≠ .ok x) ↔
      issues = [] ∨
        (targets.Pairwise (fun s t => s.Binds → ¬ s.Same t) ∧
          (issues.Pairwise (fun i j => trim Text.isSpace i ≠ trim Text.isSpace j) ∨
            ∀ t ∈ targets, ¬ t.Binds)) := by
  have hrow : ∀ i, (targets.map (fun t => t.job i)).Pairwise
      (fun a b => ∀ x, a.identity = .ok x → b.identity ≠ .ok x) ↔
        targets.Pairwise (fun s t => s.Binds → ¬ s.Same t) := by
    intro i
    rw [List.pairwise_map]
    refine List.Pairwise.iff fun {s t} => ?_
    rw [identity_ne_iff, cell_ne_iff]
    simp
  have hacross : ∀ i j, (∀ a ∈ targets.map (fun t => t.job i), ∀ b ∈ targets.map (fun t => t.job j),
      ∀ x, a.identity = .ok x → b.identity ≠ .ok x) ↔
        trim Text.isSpace i ≠ trim Text.isSpace j ∨ ∀ t ∈ targets, ¬ t.Binds := by
    intro i j
    simp only [List.forall_mem_map, identity_ne_iff]
    constructor
    · intro h
      by_cases hsame : trim Text.isSpace i = trim Text.isSpace j
      · refine Or.inr fun t ht hbinds => ?_
        obtain ⟨cell, hcell⟩ := binds_iff.mp hbinds
        exact (h t ht t ht).resolve_left (not_not.mpr hsame) cell hcell hcell
      · exact Or.inl hsame
    · rintro (hne | hnone) s hs t ht
      · exact Or.inl hne
      · exact Or.inr fun cell hcell _ => hnone s hs (binds_iff.mpr ⟨cell, hcell⟩)
  rw [pairs, List.pairwise_flatMap]
  simp only [hrow, hacross, pairwise_or_iff]
  cases issues with
  | nil => simp only [List.not_mem_nil, false_implies, implies_true, List.Pairwise.nil, true_or,
      and_self]
  | cons first rest =>
      have hne : first :: rest ≠ [] := List.cons_ne_nil _ _
      simp only [hne, false_or]
      refine and_congr_left' ⟨fun h => h first List.mem_cons_self, fun h _ _ => h⟩

/-! ## One job each -/

theorem job_inj {s t : Target} {i j : Text} (h : s.job i = t.job j) : i = j ∧ s = t := by
  obtain ⟨hissue, hrepo, hdir, hbase⟩ := Publication.Job.mk.inj h
  cases s
  cases t
  exact ⟨hissue, by simp_all⟩

/-- Different targets and issues have one job each. -/
theorem oneEach_iff (hissues : issues.Nodup) :
    OneEach issues targets (pairs issues targets) ↔ issues = [] ∨ targets.Nodup := by
  cases issues with
  | nil => simp [OneEach]
  | cons first rest =>
      have hne : first :: rest ≠ [] := List.cons_ne_nil _ _
      simp only [hne, false_or]
      constructor
      · intro hone
        refine List.nodup_iff_count_le_one.mpr fun t => ?_
        by_cases ht : t ∈ targets
        · have hsub : (targets.map (fun t => t.job first)).Sublist (pairs (first :: rest) targets) := by
            rw [pairs, List.flatMap_cons]
            exact List.sublist_append_left _ _
          have hcount := hsub.count_le (t.job first)
          rw [hone first List.mem_cons_self t ht,
            List.count_map_of_injective _ _ (fun _ _ h => (job_inj h).2)] at hcount
          exact hcount
        · rw [List.count_eq_zero.mpr ht]
          exact Nat.zero_le 1
      · intro htargets issue hissue t ht
        refine List.count_eq_one_of_mem ?_ (mem_pairs.mpr ⟨issue, hissue, t, ht, rfl⟩)
        rw [pairs, List.nodup_flatMap]
        refine ⟨fun i _ => htargets.map fun _ _ h => (job_inj h).2, ?_⟩
        refine hissues.imp fun {i j} hij => ?_
        intro job hi hj
        obtain ⟨s, -, rfl⟩ := List.mem_map.mp hi
        obtain ⟨s', -, heq⟩ := List.mem_map.mp hj
        exact hij (job_inj heq).1.symm

/-! ## The fan-out of an accepted line -/

theorem nodup_distinct (texts : List Text) : (distinct texts).Nodup := by
  induction texts with
  | nil => exact List.nodup_nil
  | cons text rest ih => exact List.nodup_cons.mpr ⟨by simp, ih.filter _⟩

theorem mem_of_mem_distinct {text : Text} {texts : List Text} (h : text ∈ distinct texts) :
    text ∈ texts := by
  induction texts with
  | nil => exact h
  | cons first rest ih =>
      rcases List.mem_cons.mp h with rfl | h
      · exact List.mem_cons_self
      · exact List.mem_cons_of_mem _ (ih (List.mem_filter.mp h).1)

theorem noNul_of_validateRepo {value repo : Text} (h : validateRepo value = some repo) :
    '\x00' ∉ repo := by
  unfold validateRepo at h
  dsimp only at h
  split at h
  · next hvalid =>
      cases h
      intro hnul
      have hsep : '\x00' ≠ '/' := by decide
      obtain ⟨part, hpart, hmem⟩ := Publication.mem_of_splitAll hnul hsep
      have hname := List.all_eq_true.mp hvalid.2.1 part hpart
      cases part with
      | nil => cases hmem
      | cons c rest =>
          simp only [repoPart, isName, Bool.and_eq_true, List.all_eq_true] at hname
          rcases List.mem_cons.mp hmem with rfl | hmem
          · exact absurd hname.1.1 (by decide)
          · exact absurd (hname.2 _ hmem) (by decide)
  · cases h

theorem noNul_of_issueOf {A : Alphabet} (hdigit : A.isDigit '\x00' = false) {item issue : Text}
    (h : issueOf A item = some (some issue)) : '\x00' ∉ issue := by
  unfold issueOf at h
  dsimp only at h
  split at h
  · cases h
  split at h
  · next hdigits =>
      cases h
      intro hnul
      have hone := List.all_eq_true.mp hdigits _ hnul
      rw [hdigit] at hone
      cases hone
  · obtain ⟨path, hpath, h⟩ := Option.map_eq_some_iff.mp h
    cases h
    intro hnul
    unfold relativePath at hpath
    cases hnormal : Paths.normalizeRelativePath false (trim Text.isSpace item) with
    | error e =>
        rw [hnormal] at hpath
        cases hpath
    | ok value =>
        rw [hnormal] at hpath
        cases hpath
        exact absurd (Paths.noControl_of_normalize hnormal _ hnul) (by decide)

/-- Each value that was read was read from an item. -/
theorem exists_of_mem_mapM {ι α : Type} {read : ι → Option α} {items : List ι} {values : List α}
    (h : items.mapM read = some values) {value : α} (hvalue : value ∈ values) :
    ∃ item ∈ items, read item = some value := by
  induction items generalizing values with
  | nil =>
      cases h
      cases hvalue
  | cons item items ih =>
      rw [List.mapM_cons] at h
      obtain ⟨first, hfirst, h⟩ := Option.bind_eq_some_iff.mp h
      obtain ⟨rest, hrest, h⟩ := Option.bind_eq_some_iff.mp h
      cases h
      rcases List.mem_cons.mp hvalue with rfl | hvalue
      · exact ⟨item, List.mem_cons_self, hfirst⟩
      · obtain ⟨found, hfound, hread⟩ := ih hrest hvalue
        exact ⟨found, List.mem_cons_of_mem _ hfound, hread⟩

/-- No repository of an accepted line has a NUL character. -/
theorem noNul_of_loads {A : Alphabet} {C : Coercion} {data : Table} {bp : Blueprint}
    (h : loads A C data = some bp) {t : Target} (ht : t ∈ bp.targets) : '\x00' ∉ t.repo := by
  unfold loads at h
  obtain ⟨_, -, h⟩ := Option.bind_eq_some_iff.mp h
  obtain ⟨flat, -, h⟩ := Option.bind_eq_some_iff.mp h
  have hfields := (Option.filter_eq_some_iff.mp h).1
  unfold Blueprint.fields at hfields
  obtain ⟨_, -, hfields⟩ := Option.bind_eq_some_iff.mp hfields
  obtain ⟨_, -, hfields⟩ := Option.bind_eq_some_iff.mp hfields
  obtain ⟨_, -, hfields⟩ := Option.bind_eq_some_iff.mp hfields
  obtain ⟨_, -, hfields⟩ := Option.bind_eq_some_iff.mp hfields
  obtain ⟨_, -, hfields⟩ := Option.bind_eq_some_iff.mp hfields
  obtain ⟨targets, htargets, hfields⟩ := Option.bind_eq_some_iff.mp hfields
  obtain ⟨_, -, hfields⟩ := Option.bind_eq_some_iff.mp hfields
  obtain ⟨_, -, hfields⟩ := Option.bind_eq_some_iff.mp hfields
  obtain ⟨_, -, hfields⟩ := Option.bind_eq_some_iff.mp hfields
  obtain ⟨_, -, hfields⟩ := Option.bind_eq_some_iff.mp hfields
  obtain ⟨_, -, hfields⟩ := Option.bind_eq_some_iff.mp hfields
  obtain ⟨_, -, hfields⟩ := Option.bind_eq_some_iff.mp hfields
  obtain ⟨_, -, hfields⟩ := Option.bind_eq_some_iff.mp hfields
  obtain ⟨_, -, hfields⟩ := Option.bind_eq_some_iff.mp hfields
  obtain ⟨_, -, hfields⟩ := Option.bind_eq_some_iff.mp hfields
  cases hfields
  obtain ⟨v, -, hlist⟩ := Option.bind_eq_some_iff.mp htargets
  obtain ⟨items, -, hread⟩ :=
    Option.bind_eq_some_iff.mp (Option.filter_eq_some_iff.mp hlist).1
  obtain ⟨item, -, hitem⟩ := exists_of_mem_mapM hread ht
  unfold Target.read at hitem
  obtain ⟨_, -, hitem⟩ := Option.bind_eq_some_iff.mp hitem
  obtain ⟨_, -, hitem⟩ := Option.bind_eq_some_iff.mp hitem
  obtain ⟨repo, hrepo, hitem⟩ := Option.bind_eq_some_iff.mp hitem
  obtain ⟨_, -, hitem⟩ := Option.bind_eq_some_iff.mp hitem
  obtain ⟨_, -, hitem⟩ := Option.bind_eq_some_iff.mp hitem
  cases hitem
  obtain ⟨w, -, htext⟩ := Option.bind_eq_some_iff.mp hrepo
  obtain ⟨text, -, hvalid⟩ := Option.bind_eq_some_iff.mp htext
  exact noNul_of_validateRepo hvalid

theorem selectedIssues_spec {A : Alphabet} (hdigit : A.isDigit '\x00' = false) {bp : Blueprint}
    {conf : Conf} {backlog : Option (List Text)}
    (h : bp.selectedIssues A conf backlog = some issues) :
    issues.Nodup ∧ ∀ issue ∈ issues, '\x00' ∉ issue := by
  unfold Blueprint.selectedIssues at h
  obtain ⟨raw, -, h⟩ := Option.bind_eq_some_iff.mp h
  obtain ⟨read, hread, h⟩ := Option.bind_eq_some_iff.mp h
  dsimp only at h
  split at h
  · cases h
  · cases h
    refine ⟨nodup_distinct _, fun issue hissue => ?_⟩
    obtain ⟨found, hfound, rfl⟩ := List.mem_filterMap.mp (mem_of_mem_distinct hissue)
    obtain ⟨item, -, hitem⟩ := exists_of_mem_mapM hread hfound
    exact noNul_of_issueOf hdigit hitem

theorem selectedTargets_subset {bp : Blueprint} {conf : Conf}
    (h : bp.selectedTargets conf = some targets) : targets ⊆ bp.targets := by
  unfold Blueprint.selectedTargets at h
  split at h
  · cases h
    exact List.Subset.refl _
  · dsimp only at h
    split at h
    · cases h
      exact fun t ht => (List.mem_filter.mp ht).1
    · cases h

/-- The jobs are the pairs, numbered in their order. -/
theorem jobs_spec {A : Alphabet} {bp : Blueprint} {conf : Conf} {backlog : Option (List Text)}
    {js : List FanOutJob} (h : bp.jobs A conf backlog = some js) :
    ∃ issues, bp.selectedIssues A conf backlog = some issues ∧
      ((issues = [] ∧ js = []) ∨
        (issues ≠ [] ∧ ∃ targets, bp.selectedTargets conf = some targets ∧
          js.map FanOutJob.job = pairs issues targets ∧
          js.map FanOutJob.jobIdx = List.range js.length)) := by
  unfold Blueprint.jobs at h
  obtain ⟨issues, hissues, h⟩ := Option.bind_eq_some_iff.mp h
  refine ⟨issues, hissues, ?_⟩
  split at h
  · next hempty =>
      cases h
      exact Or.inl ⟨hempty, rfl⟩
  · next hsome =>
      obtain ⟨targets, htargets, h⟩ := Option.bind_eq_some_iff.mp h
      cases h
      refine Or.inr ⟨hsome, targets, htargets, ?_, ?_⟩
      · rw [List.map_map]
        exact List.zipIdx_map_fst 0 _
      · rw [List.map_map, List.length_map, List.length_zipIdx]
        refine (List.zipIdx_map_snd 0 _).trans ?_
        rw [List.range_eq_range']

/--
The jobs of an accepted line are numbered, and different jobs have different Cells,
exactly where issues and targets are kept apart.
-/
theorem distinct_cells_iff
    (sha256 : Text → Text)
    (A : Alphabet)
    (C : Coercion)
    (data : Table)
    (bp : Blueprint)
    (conf : Conf)
    (backlog : Option (List Text))
    (js : List FanOutJob)
    (hdigit : A.isDigit '\x00' = false)
    (hload : loads A C data = some bp)
    (hjobs : bp.jobs A conf backlog = some js)
    (hsha : DigestsApart sha256 (js.map FanOutJob.job)) :
    (js.map FanOutJob.jobIdx = List.range js.length ∧
        CellsApart sha256 (js.map FanOutJob.job) ∧
        OneEach ((bp.selectedIssues A conf backlog).getD []) ((bp.selectedTargets conf).getD [])
          (js.map FanOutJob.job)) ↔
      (bp.selectedIssues A conf backlog).getD [] = [] ∨
        KeptApart ((bp.selectedIssues A conf backlog).getD [])
          ((bp.selectedTargets conf).getD []) := by
  obtain ⟨issues, hissues, hcases⟩ := jobs_spec hjobs
  obtain ⟨hnodup, hissueNul⟩ := selectedIssues_spec hdigit hissues
  rw [hissues, Option.getD_some]
  rcases hcases with ⟨rfl, rfl⟩ | ⟨hsome, targets, htargets, hpairs, hindex⟩
  · refine iff_of_true ⟨rfl, List.Pairwise.nil, ?_⟩ (Or.inl rfl)
    intro issue hissue
    cases hissue
  · have hnul : NulFree issues targets :=
      ⟨hissueNul, fun t ht => noNul_of_loads hload (selectedTargets_subset htargets ht)⟩
    rw [hpairs] at hsha
    rw [htargets, Option.getD_some, hpairs, cellsApart_iff hnul hsha, pairwise_pairs_iff,
      oneEach_iff hnodup]
    simp only [hindex, true_and, hsome, false_or]
    exact ⟨fun h => ⟨h.2, h.1.1, h.1.2⟩, fun h => ⟨⟨h.cells, h.stripped⟩, h.distinct⟩⟩

/-! ## Two branches, and one target twice -/

def targetOn (branch : String) : Toml :=
  .table [("repo", .string "o/r".toList), ("base_branch", .string branch.toList)]

/-- A line of two targets of one repository. -/
def twoTargets (first second : String) : Table :=
  [("blueprint", .table [("name", .string "demo".toList), shortOrder]),
    ("targets", .array [targetOn first, targetOn second])]

/-- The line of that document. -/
def twoTargetLine (first second : String) : Blueprint :=
  { demoLine with
    targets := [⟨"o/r".toList, [], first.toList⟩, ⟨"o/r".toList, [], second.toList⟩] }

def seventhIssue : Conf :=
  { issue := some "7".toList }

/-- The jobs of the seventh issue. -/
def twoJobs (first second : String) : List FanOutJob :=
  [⟨⟨"7".toList, "o/r".toList, [], first.toList⟩, 0⟩,
    ⟨⟨"7".toList, "o/r".toList, [], second.toList⟩, 1⟩]

/-- Digests of jobs on `main` and on `dev`. -/
theorem digestsApart_twoJobs {first second : String}
    (hfirst : first = "main" ∨ first = "dev") (hsecond : second = "main" ∨ second = "dev") :
    DigestsApart Publication.recordedSha256 ((twoJobs first second).map FanOutJob.job) := by
  have hidentity : ∀ job ∈ (twoJobs first second).map FanOutJob.job, ∀ x, job.identity = .ok x →
      x = ⟨"o/r".toList, ".@main".toList, "7".toList⟩ ∨
        x = ⟨"o/r".toList, ".@dev".toList, "7".toList⟩ := by
    have hone : ∀ branch : String, branch = "main" ∨ branch = "dev" → ∀ x,
        Publication.Job.identity ⟨"7".toList, "o/r".toList, [], branch.toList⟩ = .ok x →
        x = ⟨"o/r".toList, ".@main".toList, "7".toList⟩ ∨
          x = ⟨"o/r".toList, ".@dev".toList, "7".toList⟩ := by
      rintro branch (rfl | rfl) x hx
      · exact Or.inl (Except.ok.inj (hx.symm.trans (by decide +kernel)))
      · exact Or.inr (Except.ok.inj (hx.symm.trans (by decide +kernel)))
    intro job hjob x hx
    simp only [twoJobs, List.map_cons, List.map_nil, List.mem_cons, List.not_mem_nil,
      or_false] at hjob
    rcases hjob with rfl | rfl
    · exact hone first hfirst x hx
    · exact hone second hsecond x hx
  intro a ha b hb x y hx hy
  rcases hidentity a ha x hx with rfl | rfl <;> rcases hidentity b hb y hy with rfl | rfl
  · exact fun _ => rfl
  · exact fun h => absurd h (by decide +kernel)
  · exact fun h => absurd h (by decide +kernel)
  · exact fun _ => rfl

theorem distinct_cells_two_branches :
    ((twoJobs "main" "dev").map FanOutJob.jobIdx = List.range (twoJobs "main" "dev").length ∧
        CellsApart Publication.recordedSha256 ((twoJobs "main" "dev").map FanOutJob.job) ∧
        OneEach (((twoTargetLine "main" "dev").selectedIssues ascii seventhIssue none).getD [])
          (((twoTargetLine "main" "dev").selectedTargets seventhIssue).getD [])
          ((twoJobs "main" "dev").map FanOutJob.job)) ↔
      ((twoTargetLine "main" "dev").selectedIssues ascii seventhIssue none).getD [] = [] ∨
        KeptApart (((twoTargetLine "main" "dev").selectedIssues ascii seventhIssue none).getD [])
          (((twoTargetLine "main" "dev").selectedTargets seventhIssue).getD []) :=
  distinct_cells_iff Publication.recordedSha256 ascii wholeNumbers (twoTargets "main" "dev")
    (twoTargetLine "main" "dev") seventhIssue none (twoJobs "main" "dev") (by decide) rfl
    (by decide +kernel) (digestsApart_twoJobs (Or.inl rfl) (Or.inr rfl))

/-- A target that is listed twice has two jobs and one Cell. -/
theorem one_cell_twice :
    ¬ ∀ (sha256 : Text → Text) (A : Alphabet) (C : Coercion) (data : Table) (bp : Blueprint)
        (conf : Conf) (backlog : Option (List Text)) (js : List FanOutJob),
      A.isDigit '\x00' = false → loads A C data = some bp → bp.jobs A conf backlog = some js →
      DigestsApart sha256 (js.map FanOutJob.job) →
        js.map FanOutJob.jobIdx = List.range js.length ∧
          CellsApart sha256 (js.map FanOutJob.job) ∧
          OneEach ((bp.selectedIssues A conf backlog).getD []) ((bp.selectedTargets conf).getD [])
            (js.map FanOutJob.job) := by
  intro h
  obtain ⟨-, hcells, -⟩ := h Publication.recordedSha256 ascii wholeNumbers
    (twoTargets "main" "main") (twoTargetLine "main" "main") seventhIssue none
    (twoJobs "main" "main") (by decide) rfl (by decide +kernel)
    (digestsApart_twoJobs (Or.inl rfl) (Or.inl rfl))
  obtain ⟨hfirst, -⟩ := List.pairwise_cons.mp hcells
  exact hfirst _ List.mem_cons_self ⟨"o/r".toList, ".@main".toList, "7".toList⟩
    ⟨"o/r".toList, ".@main".toList, "7".toList⟩ (by decide +kernel) (by decide +kernel) rfl

end Blueprints
end SwFactory
