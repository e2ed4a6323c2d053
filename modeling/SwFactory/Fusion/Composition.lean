import Mathlib.Data.List.Pairwise
import SwFactory.Fusion.Candidates
import SwFactory.Machine.Fallible

/-!
# The composition of contributors

A fusion proposal lays the changes of two to four candidates over their common base.
No change touches a protected path or overlaps another change, so that the index is
updated path by path and stays a tree.

Source: `campaign_fusion.py` (`_changes`, `_proposal`).
-/

namespace SwFactory
namespace Fusion

open Machine

/-! ## Trees and edits -/

/-- `path.startswith(dir + "/")` -/
def below (path dir : List Char) : Bool :=
  (dir ++ ['/']).isPrefixOf path

/-- The paths are one, or one of them is a directory of the other. -/
def overlaps (path other : List Char) : Bool :=
  path == other || below path other || below other path

/-- A finite map in which no path is a directory of another. -/
structure WellFormed (t : Tree) : Prop where
  nodup : t.keys.Nodup
  files : ∀ p ∈ t.keys, ∀ q ∈ t.keys, below p q = false

/-- A path with its new entry; none for a path that is removed. -/
abbrev Edit :=
  List Char × Option Entry

/-- One line of `update-index --index-info`: a new path replaces what stands in its way. -/
def updateEntry (index : Tree) (e : Edit) : Tree :=
  match e.2 with
  | none => index.filter (fun f => f.1 ≠ e.1)
  | some entry => index.filter (fun f => !overlaps f.1 e.1) ++ [(e.1, entry)]

def updateIndex (index : Tree) (edits : List Edit) : Tree :=
  edits.foldl updateEntry index

/-! ## Proposals -/

/-- What the campaign and its evidence say, where they are verified. -/
structure Campaign where
  cancelled : Bool
  base : Commit
  /-- the candidates with an evidence bundle -/
  evidence : List String
  /-- `verify_candidate_evidence_bundle`, with the output head of the bundle -/
  bundle : String → Except Failure Commit
  /-- `factory.toml` of the base -/
  contract : Except Failure Scope.TargetContract
  ledger : Except Failure Unit
  /-- the length of the patch between two trees -/
  patchBytes : Tree → Tree → Nat

structure Contributor where
  candidateId : String
  outputHead : Commit
  paths : List (List Char)
deriving DecidableEq

structure Proposal where
  contributors : List Contributor
  tree : Tree
deriving DecidableEq

abbrev fusionError (message : String) : Failure :=
  .other ("CampaignFusionError: " ++ message)

section Proposing

variable (casefold : List Char → List Char)
variable (c : Campaign)

/-- `protected`, as a set -/
def protectedPaths (contract : Scope.TargetContract) : List (List Char) :=
  fixedProtected ++ Scope.protectedFor contract "build"

/-- The changes of one contributor, after those before them. -/
def addEdits (rules : List (List Char)) (head : Tree) :
    List (List Char) → List Edit → Except Failure (List Edit)
  | [], edits => .ok edits
  | path :: rest, edits =>
      if Scope.isProtected casefold path rules then
        .error (fusionError ("protected candidate path: " ++ String.ofList path))
      else if edits.any (fun e => overlaps path e.1) then
        .error (fusionError ("overlapping candidate path: " ++ String.ofList path ++
          "; semantic synthesis is required"))
      else
        addEdits rules head rest (edits ++ [(path, head.get? path)])

/-- The contributors one after the other. -/
def gather (rules : List (List Char)) :
    List String → List Edit → Except Failure (List Contributor × List Edit)
  | [], edits => .ok ([], edits)
  | id :: rest, edits =>
      c.bundle id >>= fun head =>
      changes c.base head >>= fun paths =>
      addEdits casefold rules head.tree paths edits >>= fun edits =>
      gather rules rest edits >>= fun found =>
        .ok (⟨id, head, paths.insertionSort (· ≤ ·)⟩ :: found.1, found.2)

/-- `MAX_CONTRIBUTORS` -/
def maxContributors : Nat :=
  4

/-- `MAX_PATCH_BYTES` -/
def maxPatchBytes : Nat :=
  16 * 1024 * 1024

/-- `_proposal`, with the tree that its patch leads to. -/
def proposal (candidateIds : List String) : Except Failure Proposal :=
  if c.cancelled then
    .error (fusionError "cancelled campaigns cannot produce fusion proposals")
  else
    let ids := candidateIds.insertionSort (· ≤ ·)
    if ¬ (2 ≤ ids.length ∧ ids.length ≤ maxContributors ∧ ids.Nodup) then
      .error (fusionError "select two to four distinct contributors")
    else if ids.any (fun id => id ∉ c.evidence) then
      .error (fusionError "every contributor must be an answered, retained campaign candidate")
    else
      c.contract >>= fun contract =>
      c.ledger >>= fun _ =>
      gather casefold c (protectedPaths contract) ids [] >>= fun found =>
        let tree := updateIndex c.base.tree (found.2.insertionSort (fun e f => e.1 ≤ f.1))
        let bytes := c.patchBytes c.base.tree tree
        if bytes = 0 ∨ maxPatchBytes < bytes then
          .error (fusionError "fusion patch must be nonempty and at most 16 MiB")
        else
          .ok ⟨found.1, tree⟩

end Proposing

/-! ## The index -/

theorem overlaps_comm (path other : List Char) : overlaps path other = overlaps other path := by
  unfold overlaps
  rw [Bool.or_assoc, Bool.or_assoc, Bool.or_comm (below path other), Bool.beq_comm]

theorem overlaps_self (path : List Char) : overlaps path path = true := by
  simp [overlaps]

/-- Nothing but the path itself stands in the way of its edit. -/
def Clear (index : Tree) (e : Edit) : Prop :=
  e.2 ≠ none → ∀ q ∈ index.keys, overlaps q e.1 = true → q = e.1

/-- No two edits overlap. -/
def Apart (edits : List Edit) : Prop :=
  edits.Pairwise (fun e f => overlaps e.1 f.1 = false)

section Index

variable {index : Tree}
variable {e : Edit}

theorem mem_keys_updateEntry {q : List Char} (h : q ∈ (updateEntry index e).keys) :
    q ∈ index.keys ∨ q = e.1 := by
  unfold updateEntry Dict.keys at h
  cases hentry : e.2 with
  | none =>
      rw [hentry] at h
      exact Or.inl ((List.filter_sublist.map _).subset h)
  | some entry =>
      rw [hentry, List.map_append, List.mem_append] at h
      rcases h with h | h
      · exact Or.inl ((List.filter_sublist.map _).subset h)
      · exact Or.inr (List.mem_singleton.mp h)

theorem nodup_updateEntry (h : index.keys.Nodup) : (updateEntry index e).keys.Nodup := by
  unfold updateEntry Dict.keys
  cases e.2 with
  | none => exact h.sublist (List.filter_sublist.map _)
  | some entry =>
      rw [List.map_append]
      refine List.nodup_append.mpr ⟨h.sublist (List.filter_sublist.map _), List.nodup_singleton _, ?_⟩
      rintro q hq r hr rfl
      obtain ⟨f, hf, rfl⟩ := List.mem_map.mp hq
      have hkept := (List.mem_filter.mp hf).2
      rw [List.mem_singleton.mp hr, overlaps_self] at hkept
      cases hkept

/-- A clear edit changes its own path only. -/
theorem get?_updateEntry (hclear : Clear index e) (q : List Char) :
    (updateEntry index e).get? q = if q = e.1 then e.2 else index.get? q := by
  unfold updateEntry
  cases hentry : e.2 with
  | none =>
      rw [Dict.get?_filter index (fun k => decide (k ≠ e.1)) q]
      by_cases hq : q = e.1 <;> simp [hq]
  | some entry =>
      dsimp only
      rw [Dict.get?_append_singleton, Dict.get?_filter index (fun k => !overlaps k e.1) q]
      by_cases hq : q = e.1
      · simp [hq, overlaps_self]
      · cases hover : overlaps q e.1 with
        | false => simp [hq]
        | true =>
            have hnone : index.get? q = none := Dict.get?_eq_none_iff.mpr fun hmem =>
              hq (hclear (hentry ▸ Option.some_ne_none _) q hmem hover)
            simp [hq, hnone]

theorem nodup_updateIndex {edits : List Edit} (h : index.keys.Nodup) :
    (updateIndex index edits).keys.Nodup := by
  induction edits generalizing index with
  | nil => exact h
  | cons e rest ih => exact ih (nodup_updateEntry h)

/-- Clear edits that do not overlap change their own paths only. -/
theorem get?_updateIndex {edits : List Edit} (hapart : Apart edits)
    (hclear : ∀ e ∈ edits, Clear index e) :
    (∀ e ∈ edits, (updateIndex index edits).get? e.1 = e.2) ∧
      ∀ q, (∀ e ∈ edits, e.1 ≠ q) → (updateIndex index edits).get? q = index.get? q := by
  induction edits generalizing index with
  | nil => exact ⟨by simp, fun _ _ => rfl⟩
  | cons e rest ih =>
      obtain ⟨hfirst, hrest⟩ := List.pairwise_cons.mp hapart
      have hne : ∀ f ∈ rest, f.1 ≠ e.1 := by
        intro f hf heq
        have hover := hfirst f hf
        rw [heq, overlaps_self] at hover
        cases hover
      have hclear' : ∀ f ∈ rest, Clear (updateEntry index e) f := by
        intro f hf hadded q hq hover
        rcases mem_keys_updateEntry hq with hq | rfl
        · exact hclear f (List.mem_cons_of_mem _ hf) hadded q hq hover
        · rw [hfirst f hf] at hover
          cases hover
      obtain ⟨hedited, hkept⟩ := ih hrest hclear'
      have hstep := get?_updateEntry (hclear e List.mem_cons_self)
      refine ⟨List.forall_mem_cons.mpr ⟨?_, hedited⟩, fun q hq => ?_⟩
      · exact (hkept e.1 hne).trans ((hstep e.1).trans (if_pos rfl))
      · obtain ⟨hhead, htail⟩ := List.forall_mem_cons.mp hq
        exact (hkept q htail).trans ((hstep q).trans (if_neg (Ne.symm hhead)))

end Index

/-! ## What is gathered -/

/-- The edits of a contributor. -/
def Contributor.edits (base : Tree) (r : Contributor) : List Edit :=
  (differing base r.outputHead.tree).map (fun p => (p, r.outputHead.tree.get? p))

section Gathering

variable {casefold : List Char → List Char}
variable {c : Campaign}
variable {rules : List (List Char)}

/-- The checks leave the edits apart and off the protected paths. -/
theorem addEdits_spec {head : Tree} {paths : List (List Char)} {edits found : List Edit}
    (h : addEdits casefold rules head paths edits = .ok found) (hapart : Apart edits) :
    found = edits ++ paths.map (fun p => (p, head.get? p)) ∧ Apart found ∧
      ∀ p ∈ paths, Scope.isProtected casefold p rules = false := by
  induction paths generalizing edits with
  | nil =>
      cases h
      exact ⟨(List.append_nil _).symm, hapart, by simp⟩
  | cons path rest ih =>
      unfold addEdits at h
      split at h
      · cases h
      split at h
      · cases h
      rename_i hfree hover
      have hnew : Apart (edits ++ [(path, head.get? path)]) := by
        refine List.pairwise_append.mpr ⟨hapart, List.pairwise_singleton _ _, ?_⟩
        intro e he f hf
        rw [List.mem_singleton.mp hf, overlaps_comm]
        exact Bool.eq_false_iff.mpr fun h => hover (List.any_eq_true.mpr ⟨e, he, h⟩)
      obtain ⟨hfound, hall, hrules⟩ := ih h hnew
      refine ⟨?_, hall, List.forall_mem_cons.mpr ⟨Bool.eq_false_iff.mpr hfree, hrules⟩⟩
      rw [hfound, List.append_assoc]
      rfl

theorem changes_eq_ok {base head : Commit} {paths : List (List Char)}
    (h : changes base head = .ok paths) : paths = differing base.tree head.tree := by
  obtain ⟨_, -, h⟩ := bind_eq_ok h
  split at h
  · cases h
  · cases h
    rfl

/-- What is known of the contributors that were gathered. -/
structure Gathered (c : Campaign) (casefold : List Char → List Char) (rules : List (List Char))
    (ids : List String) (found : List Contributor) : Prop where
  names : found.map Contributor.candidateId = ids
  bundles : ∀ r ∈ found, c.bundle r.candidateId = .ok r.outputHead
  unprotected : ∀ r ∈ found, ∀ p ∈ differing c.base.tree r.outputHead.tree,
    Scope.isProtected casefold p rules = false

theorem gather_spec {ids : List String} {edits : List Edit}
    {found : List Contributor × List Edit}
    (h : gather casefold c rules ids edits = .ok found) (hapart : Apart edits) :
    Gathered c casefold rules ids found.1 ∧ Apart found.2 ∧
      found.2 = edits ++ found.1.flatMap (Contributor.edits c.base.tree) := by
  induction ids generalizing edits found with
  | nil =>
      cases h
      exact ⟨⟨rfl, by simp, by simp⟩, hapart, by simp⟩
  | cons id rest ih =>
      obtain ⟨head, hhead, h⟩ := bind_eq_ok h
      obtain ⟨paths, hpaths, h⟩ := bind_eq_ok h
      obtain ⟨edits', hedits, h⟩ := bind_eq_ok h
      obtain ⟨found', hfound, h⟩ := bind_eq_ok h
      cases h
      cases changes_eq_ok hpaths
      obtain ⟨hadded, hapart', hrules⟩ := addEdits_spec hedits hapart
      obtain ⟨hrest, hall, htail⟩ := ih hfound hapart'
      refine ⟨⟨congrArg (id :: ·) hrest.names, ?_, ?_⟩, hall, ?_⟩
      · exact List.forall_mem_cons.mpr ⟨hhead, hrest.bundles⟩
      · exact List.forall_mem_cons.mpr ⟨hrules, hrest.unprotected⟩
      · rw [htail, hadded, List.append_assoc]
        rfl

end Gathering

/-! ## The composed tree -/

/-- The composed tree is the base with the changes of each contributor, and nothing else. -/
structure Composes (casefold : List Char → List Char) (c : Campaign)
    (rules : List (List Char)) (candidateIds : List String) (p : Proposal) : Prop where
  chosen : (p.contributors.map Contributor.candidateId).Perm candidateIds
  heads : ∀ r ∈ p.contributors, c.bundle r.candidateId = .ok r.outputHead
  changed : ∀ r ∈ p.contributors, ∀ path ∈ differing c.base.tree r.outputHead.tree,
    p.tree.get? path = r.outputHead.tree.get? path
  kept : ∀ path, (∀ r ∈ p.contributors, path ∉ differing c.base.tree r.outputHead.tree) →
    p.tree.get? path = c.base.tree.get? path
  once : p.contributors.Pairwise (fun r s => ∀ path ∈ differing c.base.tree r.outputHead.tree,
    path ∉ differing c.base.tree s.outputHead.tree)
  unprotected : ∀ path ∈ differing c.base.tree p.tree,
    Scope.isProtected casefold path rules = false
  tree : WellFormed p.tree

theorem below_self (p : List Char) : below p p = false := by
  refine Bool.eq_false_iff.mpr fun h => ?_
  have hlength := (List.isPrefixOf_iff_prefix.mp h).length_le
  rw [List.length_append, List.length_singleton] at hlength
  omega

theorem overlaps_of_below {p q : List Char} (h : below p q = true) : overlaps p q = true := by
  rw [overlaps, h, Bool.or_true, Bool.true_or]

theorem Apart.of_mem {edits : List Edit} (h : Apart edits) {e f : Edit} (he : e ∈ edits)
    (hf : f ∈ edits) (hne : e.1 ≠ f.1) : overlaps e.1 f.1 = false := by
  have : Std.Symm (fun e f : Edit => overlaps e.1 f.1 = false) :=
    ⟨fun e f h => (overlaps_comm f.1 e.1).trans h⟩
  exact List.Pairwise.forall h he hf fun heq => hne (congrArg Prod.fst heq)

theorem Apart.perm {edits edits' : List Edit} (h : Apart edits) (hperm : edits'.Perm edits) :
    Apart edits' :=
  (hperm.pairwise_iff fun {e f} h => (overlaps_comm f.1 e.1).trans h).mpr h

section Composed

variable {base : Tree}
variable {found : List Contributor}

theorem mem_flatMap_edits {e : Edit} :
    e ∈ found.flatMap (Contributor.edits base) ↔
      ∃ r ∈ found, e.1 ∈ differing base r.outputHead.tree ∧ e.2 = r.outputHead.tree.get? e.1 := by
  simp only [List.mem_flatMap, Contributor.edits, List.mem_map]
  constructor
  · rintro ⟨r, hr, p, hp, rfl⟩
    exact ⟨r, hr, hp, rfl⟩
  · rintro ⟨r, hr, hp, hentry⟩
    exact ⟨r, hr, e.1, hp, Prod.ext rfl hentry.symm⟩

/-- No path of the base stands in the way of an edit: its contributor would have removed it. -/
theorem clear_of_apart (hheads : ∀ r ∈ found, WellFormed r.outputHead.tree)
    (hapart : Apart (found.flatMap (Contributor.edits base))) :
    ∀ e ∈ found.flatMap (Contributor.edits base), Clear base e := by
  intro e he hadded q hq hover
  by_contra hne
  obtain ⟨r, hr, hp, hentry⟩ := mem_flatMap_edits.mp he
  by_cases hchanged : q ∈ differing base r.outputHead.tree
  · have hremoved : (q, r.outputHead.tree.get? q) ∈ found.flatMap (Contributor.edits base) :=
      mem_flatMap_edits.mpr ⟨r, hr, hchanged, rfl⟩
    rw [hapart.of_mem hremoved he hne] at hover
    cases hover
  · have hsame : base.get? q = r.outputHead.tree.get? q :=
      not_not.mp (mt mem_differing.mpr hchanged)
    have hmem : q ∈ r.outputHead.tree.keys :=
      Dict.mem_keys_iff.mpr (hsame ▸ Dict.mem_keys_iff.mp hq)
    have hnew : e.1 ∈ r.outputHead.tree.keys := Dict.mem_keys_iff.mpr (hentry ▸ hadded)
    simp only [overlaps, (hheads r hr).files q hmem e.1 hnew, (hheads r hr).files e.1 hnew q hmem,
      Bool.or_false, beq_iff_eq] at hover
    exact hne hover

/-- Clear edits that do not overlap leave a tree. -/
theorem wellFormed_updateIndex {edits : List Edit} (hbase : WellFormed base)
    (hapart : Apart edits) (hclear : ∀ e ∈ edits, Clear base e) :
    WellFormed (updateIndex base edits) := by
  obtain ⟨hedited, hkept⟩ := get?_updateIndex hapart hclear
  have horigin : ∀ p ∈ (updateIndex base edits).keys,
      (∃ e ∈ edits, e.1 = p ∧ e.2 ≠ none) ∨ ((∀ e ∈ edits, e.1 ≠ p) ∧ p ∈ base.keys) := by
    intro p hp
    have hget := Dict.mem_keys_iff.mp hp
    by_cases hmem : ∃ e ∈ edits, e.1 = p
    · obtain ⟨e, he, rfl⟩ := hmem
      exact Or.inl ⟨e, he, rfl, hedited e he ▸ hget⟩
    · have hnone : ∀ e ∈ edits, e.1 ≠ p := fun e he heq => hmem ⟨e, he, heq⟩
      exact Or.inr ⟨hnone, Dict.mem_keys_iff.mpr (hkept p hnone ▸ hget)⟩
  refine ⟨nodup_updateIndex hbase.nodup, fun p hp q hq => Bool.eq_false_iff.mpr fun hbelow => ?_⟩
  have hover := overlaps_of_below hbelow
  rcases horigin p hp with ⟨e, he, rfl, hadded⟩ | ⟨hnew, hpbase⟩
  · rcases horigin q hq with ⟨f, hf, rfl, -⟩ | ⟨hnew, hqbase⟩
    · by_cases hsame : e.1 = f.1
      · rw [hsame, below_self] at hbelow
        cases hbelow
      · rw [hapart.of_mem he hf hsame] at hover
        cases hover
    · rw [overlaps_comm] at hover
      exact hnew e he (hclear e he hadded q hqbase hover).symm
  · rcases horigin q hq with ⟨f, hf, rfl, hadded⟩ | ⟨-, hqbase⟩
    · exact hnew f hf (hclear f hf hadded p hpbase hover).symm
    · rw [hbase.files p hpbase q hqbase] at hbelow
      cases hbelow

end Composed

theorem insertionSort_eq_of_perm {ids ids' : List String} (h : ids.Perm ids') :
    ids.insertionSort (· ≤ ·) = ids'.insertionSort (· ≤ ·) :=
  List.Perm.eq_of_pairwise' (r := (· ≤ ·)) (List.pairwise_insertionSort _ _)
    (List.pairwise_insertionSort _ _)
    (((List.perm_insertionSort _ ids).trans h).trans (List.perm_insertionSort _ ids').symm)

/-- A proposal depends on the set of the contributors only. -/
theorem proposal_perm (casefold : List Char → List Char) (c : Campaign) {ids ids' : List String}
    (h : ids.Perm ids') : proposal casefold c ids = proposal casefold c ids' := by
  unfold proposal
  rw [insertionSort_eq_of_perm h]

/-- A proposal that is made composes its contributors exactly, in any order. -/
theorem composition_exact
    (casefold : List Char → List Char)
    (c : Campaign)
    (candidateIds : List String)
    (p : Proposal)
    (hbase : WellFormed c.base.tree)
    (hheads : ∀ id head, c.bundle id = .ok head → WellFormed head.tree)
    (h : proposal casefold c candidateIds = .ok p) :
    (∃ contract, c.contract = .ok contract ∧
        Composes casefold c (protectedPaths contract) candidateIds p) ∧
      ∀ ids, ids.Perm candidateIds → proposal casefold c ids = .ok p := by
  refine ⟨?_, fun ids hperm => (proposal_perm casefold c hperm).trans h⟩
  unfold proposal at h
  split at h
  · cases h
  dsimp only at h
  split at h
  · cases h
  split at h
  · cases h
  obtain ⟨contract, hcontract, h⟩ := bind_eq_ok h
  obtain ⟨_, -, h⟩ := bind_eq_ok h
  obtain ⟨found, hfound, h⟩ := bind_eq_ok h
  split at h
  · cases h
  cases h
  refine ⟨contract, hcontract, ?_⟩
  obtain ⟨hgathered, hapart, hedits⟩ := gather_spec hfound List.Pairwise.nil
  rw [List.nil_append] at hedits
  have hperm : (found.2.insertionSort (fun e f => e.1 ≤ f.1)).Perm
      (found.1.flatMap (Contributor.edits c.base.tree)) :=
    hedits ▸ List.perm_insertionSort _ _
  have hclear : ∀ e ∈ found.2.insertionSort (fun e f => e.1 ≤ f.1), Clear c.base.tree e :=
    fun e he => clear_of_apart (fun r hr => hheads _ _ (hgathered.bundles r hr)) (hedits ▸ hapart) e
      (hperm.mem_iff.mp he)
  have hsorted := hapart.perm (List.perm_insertionSort (fun e f : Edit => e.1 ≤ f.1) found.2)
  obtain ⟨hedited, hkept⟩ := get?_updateIndex hsorted hclear
  have hkept' : ∀ path, (∀ r ∈ found.1, path ∉ differing c.base.tree r.outputHead.tree) →
      (updateIndex c.base.tree (found.2.insertionSort (fun e f => e.1 ≤ f.1))).get? path =
        c.base.tree.get? path := by
    intro path hpath
    refine hkept path fun e he heq => ?_
    obtain ⟨r, hr, hp, -⟩ := mem_flatMap_edits.mp (hperm.mem_iff.mp he)
    exact hpath r hr (heq ▸ hp)
  constructor
  · rw [hgathered.names]
    exact List.perm_insertionSort _ _
  · exact hgathered.bundles
  · intro r hr path hpath
    exact hedited (path, r.outputHead.tree.get? path)
      (hperm.mem_iff.mpr (mem_flatMap_edits.mpr ⟨r, hr, hpath, rfl⟩))
  · exact hkept'
  · rw [hedits, Apart, List.pairwise_flatMap] at hapart
    refine hapart.2.imp fun {r s} hrs path hr hs => ?_
    have hover := hrs (path, r.outputHead.tree.get? path) (List.mem_map_of_mem hr)
      (path, s.outputHead.tree.get? path) (List.mem_map_of_mem hs)
    rw [overlaps_self] at hover
    cases hover
  · intro path hpath
    by_contra hprotected
    refine mem_differing.mp hpath (hkept' path fun r hr hmem => ?_).symm
    exact hprotected (hgathered.unprotected r hr path hmem)
  · exact wellFormed_updateIndex hbase hsorted hclear

/-! ## A deletion and an edit -/

def sourceFile (name object : String) : List Char × Entry :=
  (name.toList, ⟨.regular, object⟩)

/-- One candidate deletes a file, another one edits the other file. -/
def twoCandidates : Campaign where
  cancelled := false
  base := ⟨"base", [sourceFile "a.py" "1", sourceFile "b.py" "2"]⟩
  evidence := ["left", "right"]
  bundle id :=
    if id = "left" then .ok ⟨"left", [sourceFile "b.py" "2"]⟩
    else .ok ⟨"right", [sourceFile "a.py" "1", sourceFile "b.py" "3"]⟩
  contract := .ok ⟨["factory.toml".toList], []⟩
  ledger := .ok ()
  patchBytes _ _ := 1

def composed : Proposal where
  contributors :=
    [⟨"left", ⟨"left", [sourceFile "b.py" "2"]⟩, ["a.py".toList]⟩,
      ⟨"right", ⟨"right", [sourceFile "a.py" "1", sourceFile "b.py" "3"]⟩, ["b.py".toList]⟩]
  tree := [sourceFile "b.py" "3"]

theorem composition_of_two :
    (∃ contract, twoCandidates.contract = .ok contract ∧
        Composes (List.map Char.toLower) twoCandidates (protectedPaths contract) ["right", "left"]
          composed) ∧
      ∀ ids, ids.Perm ["right", "left"] →
        proposal (List.map Char.toLower) twoCandidates ids = .ok composed := by
  refine composition_exact (List.map Char.toLower) twoCandidates ["right", "left"] composed
    ⟨by decide, by decide⟩ ?_ (by decide +kernel)
  intro id head h
  unfold twoCandidates at h
  dsimp only at h
  split at h
  · cases h
    exact ⟨by decide, by decide⟩
  · cases h
    exact ⟨by decide, by decide⟩

end Fusion
end SwFactory
