import SwFactory.Replay.Reread
import SwFactory.Replay.Run

/-!
# Evidence after the working tree is gone

The call verifies its evidence while the working tree is still there, and deletes
the tree when it returns.  What it has retained is read back as the bound recipe
and the receipt.  The evidence verifies again exactly if nothing that the call
deletes stands on the way to the destination, to the recorded executable or to the
archive; an executable of the snapshot itself stands in the working tree.

Source: `snapshot_replay.py` (`run_snapshot_recipe`, `verify_snapshot_run`).
-/

namespace SwFactory
namespace Replay

open Files
open Lexical.Json
open Machine

section Steps

variable {F : Type}
variable {L : Language F}
variable {H : Host F}

theorem require_eq_ok {ok : Bool} {error : ReplayError} {u : Unit} :
    require ok error = .ok u ↔ ok = true := by
  cases ok
  · exact ⟨nofun, nofun⟩
  · exact ⟨fun _ => rfl, fun _ => rfl⟩

theorem orElse_eq_ok {ε α : Type} {error : ε} {o : Option α} {a : α} :
    orElse error o = .ok a ↔ o = some a := by
  cases o with
  | none => exact ⟨nofun, nofun⟩
  | some b => simp [orElse]

/-! ## Documents on the disk -/

theorem encode_ascii {text : List Nat} (h : ∀ c ∈ text, c < 0x80) :
    Lexical.Utf8.encode text = text := by
  induction text with
  | nil => rfl
  | cons c text ih =>
      rw [Lexical.Utf8.encode, List.flatMap_cons, Lexical.Utf8.encodePoint_ascii (h c List.mem_cons_self)]
      exact congrArg (c :: ·) (ih fun d hd => h d (List.mem_cons_of_mem _ hd))

/-- **A document on the disk is read back.** -/
theorem readText_documentBytes {document : Members} (h : plain noHigh (.object document) = true) :
    readText (documentBytes document) = some (.object document) := by
  have hascii : ∀ c ∈ documentBytes document, c < 0x80 := by
    intro c hc
    rcases List.mem_append.mp hc with hc | hc
    · exact layOut_ascii _ _ _ c hc
    · rw [List.mem_singleton.mp hc]
      decide
  have hscalar : ∀ c ∈ documentBytes document, Lexical.Utf8.isScalar c = true := by
    intro c hc
    have := hascii c hc
    simp only [Lexical.Utf8.isScalar, Bool.or_eq_true, decide_eq_true_eq]
    omega
  have hdecode := Lexical.Utf8.decode_encode hscalar
  rw [encode_ascii hascii] at hdecode
  rw [readText, hdecode, Option.filter_some, if_pos (List.all_eq_true.mpr hscalar)]
  exact loads_layOut h 0 (by decide)

section Directories

variable {t t' : Disk}
variable {dir dir' : Path Name}
variable {home : Loc Name}
variable {name : Name}

theorem loadJson_congr (h : (t.stat maxLinks H.cwd dir).found = some (home, .dir))
    (h' : (t'.stat maxLinks H.cwd dir').found = some (home, .dir))
    (hentry : t'.entry (home ++ [name]) = t.entry (home ++ [name])) :
    loadJson H t' dir' name = loadJson H t dir name := by
  unfold loadJson
  rw [regular_child h, regular_child h', hentry]

/-- A document that stands in the directory is the one that is loaded. -/
theorem loadJson_document {document : Members} (hplain : plain noHigh (.object document) = true)
    (h : (t.stat maxLinks H.cwd dir).found = some (home, .dir))
    (hentry : t.entry (home ++ [name]) = some (.file (documentBytes document))) :
    loadJson H t dir name = .ok document := by
  unfold loadJson
  rw [regular_child h, hentry, Option.bind_some, Entry.content?, orElse, ok_bind,
    readText_documentBytes hplain]
  rfl

theorem parts_name (n : Name) : (PurePath.ofText n.1).parts = [n.1] := by
  obtain ⟨⟨hnil, hdot, -⟩, hchars⟩ := isName_iff.mp n.2
  unfold PurePath.ofText
  rw [Lexical.splitAll_of_not_mem fun hmem => (hchars _ hmem).1 rfl]
  simp [hnil, hdot]

/-- A stream under one name is a regular file with its digest and size. -/
theorem checkStream_eq_ok {stream : RetainedStream} (hpath : stream.path = name.1) {u : Unit} :
    checkStream H t dir stream = .ok u ↔
      ∃ content, t.regular maxLinks H.cwd (dir.child name) = some content ∧
        ((H.sha256 content).1 = stream.sha256 ∧ content.length = stream.sizeBytes) := by
  have hsteps : [name.1].mapM step = some [.into name] := by
    rw [List.mapM_cons, step_name]
    rfl
  have hany : ([Part.into name].inits.tail.any fun front =>
      t.isSymlink maxLinks H.cwd { dir with steps := dir.steps ++ front }) =
      t.isSymlink maxLinks H.cwd (dir.child name) := by
    simp [Path.child]
  have hchild : { dir with steps := dir.steps ++ [Part.into name] } = dir.child name := rfl
  unfold checkStream
  rw [hpath, parts_name, hsteps, orElse, ok_bind]
  dsimp only
  rw [hany, hchild, Tree.regular]
  cases t.isSymlink maxLinks H.cwd (dir.child name) with
  | true =>
      simp [require, Bind.bind, Except.bind]
  | false =>
      cases t.contents maxLinks H.cwd (dir.child name) with
      | none => simp [require, orElse, Bind.bind, Except.bind]
      | some content => simp [require, orElse, Bind.bind, Except.bind]

theorem checkStream_congr {stream : RetainedStream} (hpath : stream.path = name.1)
    (h : (t.stat maxLinks H.cwd dir).found = some (home, .dir))
    (h' : (t'.stat maxLinks H.cwd dir').found = some (home, .dir))
    (hentry : t'.entry (home ++ [name]) = t.entry (home ++ [name])) {u : Unit} :
    checkStream H t' dir' stream = .ok u ↔ checkStream H t dir stream = .ok u := by
  rw [checkStream_eq_ok hpath, checkStream_eq_ok hpath, regular_child h, regular_child h', hentry]

end Directories

/-! ## The steps of a verification -/

/-- What a verification without a repository asks. -/
structure Verified (L : Language F) (H : Host F) (t : Disk) (destination : Path Name)
    (snapshot : Option SourceSnapshot) (evidence : BoundExecutionRecipe × SnapshotRunReceipt F) :
    Prop where
  notLink : t.isSymlink maxLinks H.cwd destination = false
  isDir : t.isDir maxLinks H.cwd destination = true
  documents : ∃ recipeDocument receiptDocument,
    loadJson H t destination recipeName = .ok recipeDocument ∧
      loadJson H t destination receiptName = .ok receiptDocument ∧
        readManifest L H.sha256 recipeDocument receiptDocument = .ok evidence
  stdout : checkStream H t destination evidence.2.stdout = .ok ()
  stderr : checkStream H t destination evidence.2.stderr = .ok ()
  executable : checkExecutable H t evidence.2 = .ok ()
  snapshot : checkSnapshot H t evidence.2 snapshot = .ok ()

theorem verify_eq_ok {t : Disk} {destination : Path Name} {snapshot : Option SourceSnapshot}
    {evidence : BoundExecutionRecipe × SnapshotRunReceipt F} :
    verifySnapshotRun L H t destination snapshot none = .ok evidence ↔
      Verified L H t destination snapshot evidence := by
  constructor
  · intro h
    obtain ⟨_, hdir, h⟩ := bind_eq_ok h
    obtain ⟨recipeDocument, hrecipe, h⟩ := bind_eq_ok h
    obtain ⟨receiptDocument, hreceipt, h⟩ := bind_eq_ok h
    obtain ⟨evidence', hmanifest, h⟩ := bind_eq_ok h
    obtain ⟨_, hstdout, h⟩ := bind_eq_ok h
    obtain ⟨_, hstderr, h⟩ := bind_eq_ok h
    obtain ⟨_, hexecutable, h⟩ := bind_eq_ok h
    obtain ⟨_, hsnapshot, h⟩ := bind_eq_ok h
    cases h
    rw [require_eq_ok, Bool.and_eq_true, Bool.not_eq_true'] at hdir
    exact ⟨hdir.1, hdir.2, ⟨_, _, hrecipe, hreceipt, hmanifest⟩, hstdout, hstderr, hexecutable,
      hsnapshot⟩
  · rintro ⟨hlink, hdir, ⟨recipeDocument, receiptDocument, hrecipe, hreceipt, hmanifest⟩, hstdout,
      hstderr, hexecutable, hsnapshot⟩
    unfold verifySnapshotRun
    rw [hlink, hdir, hrecipe, hreceipt]
    simp only [require, ok_bind, hmanifest, hstdout, hstderr, hexecutable, hsnapshot,
      checkCommitted, Bool.not_false, Bool.and_self, if_true]

/-! ## The steps of a run -/

theorem executable_legible {t : Disk} {argv0 : Str} {cwd executable : Loc Name}
    (h : resolveExecutable H t argv0 cwd = .ok executable) : Legible argv0 := by
  obtain ⟨path, hpath, -⟩ := bind_eq_ok h
  unfold executableCandidate at hpath
  split at hpath
  · exact legible_of_encodable (encodable_of_path? (orElse_eq_ok.mp hpath))
  split at hpath
  · obtain ⟨path, hpath, -⟩ := bind_eq_ok hpath
    exact legible_of_encodable (encodable_of_path? (orElse_eq_ok.mp hpath))
  · obtain ⟨dir, -, hdir⟩ := List.exists_of_findSome?_eq_some (orElse_eq_ok.mp hpath)
    have hjoin := encodable_of_path? (Option.filter_eq_some_iff.mp hdir).1
    refine legible_of_encodable fun c hc => hjoin c ?_
    split
    · exact hc
    · exact List.mem_append_right _ (List.mem_cons_of_mem _ hc)

theorem cwd_legible {t : Disk} {root target : Loc Name} {cwd : Str}
    (h : resolveCwd H t root cwd = .ok target) : Legible cwd := by
  obtain ⟨_, -, h⟩ := bind_eq_ok h
  obtain ⟨path, hpath, -⟩ := bind_eq_ok h
  exact legible_of_encodable (encodable_of_path? (orElse_eq_ok.mp hpath))

/-- What a launch has found. -/
structure Started (H : Host F) (t : Disk) (snapshot : SourceSnapshot)
    (bound : BoundExecutionRecipe) (destination : Path Name) (l : Launched) : Prop where
  commitSha : snapshot.commitSha = bound.commitSha
  snapshotSha256 : Legible snapshot.sha256
  home : t.resolve H.cwd destination = some l.home
  cwd : Legible bound.recipe.cwd
  argv0 : ∀ argv0 ∈ bound.recipe.argv.head?, Legible argv0

theorem launch_eq_ok {t : Disk} {snapshot : SourceSnapshot} {bound : BoundExecutionRecipe}
    {destination : Path Name} {l : Launched} (h : launch H t snapshot bound destination = .ok l) :
    Started H t snapshot bound destination l := by
  obtain ⟨_, hsource, h⟩ := bind_eq_ok h
  obtain ⟨_, hcommit, h⟩ := bind_eq_ok h
  obtain ⟨_, -, h⟩ := bind_eq_ok h
  obtain ⟨prepared, hprepared, h⟩ := bind_eq_ok h
  obtain ⟨extracted, -, h⟩ := bind_eq_ok h
  obtain ⟨cwd, hcwd, h⟩ := bind_eq_ok h
  obtain ⟨argv0, hargv0, h⟩ := bind_eq_ok h
  obtain ⟨executable, hexecutable, h⟩ := bind_eq_ok h
  obtain ⟨content, -, h⟩ := bind_eq_ok h
  cases h
  obtain ⟨_, -, hprepared⟩ := bind_eq_ok hprepared
  obtain ⟨home, hhome, hprepared⟩ := bind_eq_ok hprepared
  obtain ⟨_, -, hprepared⟩ := bind_eq_ok hprepared
  obtain ⟨_, -, hprepared⟩ := bind_eq_ok hprepared
  obtain ⟨made, -, hprepared⟩ := bind_eq_ok hprepared
  cases hprepared
  obtain ⟨archive, -, hsource⟩ := bind_eq_ok hsource
  rw [require_eq_ok, Bool.and_eq_true, decide_eq_true_eq] at hsource
  refine
    { commitSha := of_decide_eq_true (require_eq_ok.mp hcommit)
      snapshotSha256 := hsource.1 ▸ legible_of_isSha (H.sha256 archive).2
      home := orElse_eq_ok.mp hhome
      cwd := cwd_legible hcwd
      argv0 := fun a ha => ?_ }
  rw [orElse_eq_ok.mp hargv0] at ha
  cases ha
  exact executable_legible hexecutable

/-- What has been recorded. -/
structure Recorded (L : Language F) (H : Host F) (l : Launched) (snapshot : SourceSnapshot)
    (bound : BoundExecutionRecipe) (e : Evidence F) : Prop where
  encodable : (l.command bound.recipe).encodable = true
  valid : e.receipt.validate L = .ok ()
  commitSha : e.receipt.commitSha = snapshot.commitSha
  snapshotSha256 : e.receipt.snapshotSha256 = snapshot.sha256
  recipeSha256 : ∃ digest,
    bound.recipe.digest H.sha256 = some digest ∧ e.receipt.executionRecipeSha256 = digest.1
  recipeCommitSha : e.receipt.executionRecipeCommitSha = bound.commitSha
  recipePath : e.receipt.executionRecipePath = bound.path
  enforcement : e.receipt.resourceEnforcement = enforcement
  executablePath : e.receipt.executablePath = locText l.executable
  executableSha256 : Legible e.receipt.executableSha256
  stdout : e.receipt.stdout.path = stdoutName.1 ∧ Legible e.receipt.stdout.sha256
  stderr : e.receipt.stderr.path = stderrName.1 ∧ Legible e.receipt.stderr.sha256
  documents : ∃ ended written recipeDocument receiptDocument digest,
    boundRecipeDocument H.sha256 bound = some recipeDocument ∧
      e.receipt.digest L H.sha256 = .ok digest ∧
        e.receipt.document L (some digest) = some receiptDocument ∧
          atomicJson H ended l.home recipeName recipeDocument = .ok written ∧
            atomicJson H written l.home receiptName receiptDocument = .ok e.disk

theorem retainedStream_eq_ok {t : Disk} {home : Loc Name} {name : Name} {s : RetainedStream}
    (h : retainedStream H t home name = .ok s) : s.path = name.1 ∧ Legible s.sha256 := by
  obtain ⟨content, -, h⟩ := bind_eq_ok h
  cases h
  exact ⟨rfl, legible_of_isSha (H.sha256 content).2⟩

theorem record_eq_ok {l : Launched} {snapshot : SourceSnapshot} {bound : BoundExecutionRecipe}
    {e : Evidence F} (h : record L H l snapshot bound = .ok e) :
    Recorded L H l snapshot bound e := by
  obtain ⟨_, hencodable, h⟩ := bind_eq_ok h
  obtain ⟨ended, -, h⟩ := bind_eq_ok h
  obtain ⟨recipeDigest, hrecipeDigest, h⟩ := bind_eq_ok h
  obtain ⟨stdout, hstdout, h⟩ := bind_eq_ok h
  obtain ⟨stderr, hstderr, h⟩ := bind_eq_ok h
  obtain ⟨recipeDocument, hrecipe, h⟩ := bind_eq_ok h
  obtain ⟨written, hwritten, h⟩ := bind_eq_ok h
  obtain ⟨digest, hdigest, h⟩ := bind_eq_ok h
  obtain ⟨receiptDocument, hreceipt, h⟩ := bind_eq_ok h
  obtain ⟨disk, hdisk, h⟩ := bind_eq_ok h
  cases h
  obtain ⟨canonical, hcanonical, -⟩ := map_eq_ok.mp hdigest
  obtain ⟨_, hvalid, -⟩ := bind_eq_ok hcanonical
  exact
    { encodable := require_eq_ok.mp hencodable
      valid := hvalid
      commitSha := rfl
      snapshotSha256 := rfl
      recipeSha256 := ⟨recipeDigest, orElse_eq_ok.mp hrecipeDigest, rfl⟩
      recipeCommitSha := rfl
      recipePath := rfl
      enforcement := rfl
      executablePath := rfl
      executableSha256 := legible_of_isSha l.executableSha256.2
      stdout := retainedStream_eq_ok hstdout
      stderr := retainedStream_eq_ok hstderr
      documents := ⟨ended.1, written, recipeDocument, receiptDocument, digest,
        orElse_eq_ok.mp hrecipe, hdigest, orElse_eq_ok.mp hreceipt, hwritten, hdisk⟩ }

theorem commitSha_of_validate {r : SnapshotRunReceipt F} (h : r.validate L = .ok ()) :
    Legible r.commitSha := by
  obtain ⟨_, -, h⟩ := bind_eq_ok h
  obtain ⟨_, hcommit, -⟩ := bind_eq_ok h
  exact legible_of_isSha (require_eq_ok.mp hcommit)

/-! ## What the call has written -/

theorem loaded_eq_ok {git : Git} {revision path : Str} {bound : BoundExecutionRecipe}
    (h : loadExecutionRecipe L git revision path false = .ok bound) :
    Admitted L bound.recipe ∧ Legible bound.path := by
  obtain ⟨_, -, h⟩ := bind_eq_ok h
  obtain ⟨normalized, -, h⟩ := bind_eq_ok h
  obtain ⟨commit, -, h⟩ := bind_eq_ok h
  obtain ⟨object, hobject, h⟩ := bind_eq_ok h
  obtain ⟨raw, -, h⟩ := bind_eq_ok h
  have hobject := orElse_eq_ok.mp hobject
  split at hobject
  · rename_i hencodable
    split at h
    · cases h
    obtain ⟨document, -, h⟩ := bind_eq_ok h
    obtain ⟨recipe, hrecipe, h⟩ := bind_eq_ok h
    cases h
    refine ⟨admitted_of_parse hrecipe, legible_of_encodable fun c hc => ?_⟩
    exact (List.all_eq_true.mp hencodable) c
      (List.mem_append_right _ (List.mem_cons_of_mem _ hc))
  · cases hobject

/-- The texts of a recipe that was run can be read back. -/
theorem legible_bound {t : Disk} {snapshot : SourceSnapshot} {bound : BoundExecutionRecipe}
    {destination : Path Name} {l : Launched} {e : Evidence F}
    (hstarted : Started H t snapshot bound destination l)
    (hrecorded : Recorded L H l snapshot bound e) (hpath : Legible bound.path) :
    bound.Legible ∧ e.receipt.Legible := by
  have hcommit := commitSha_of_validate hrecorded.valid
  have hargument : ∀ text ∈ (l.command bound.recipe).argv ++
      (l.command bound.recipe).env.map Prod.fst ++ (l.command bound.recipe).env.map Prod.snd,
      Legible text := by
    intro text htext
    have hall := (List.all_eq_true.mp hrecorded.encodable) text htext
    exact legible_of_encodable fun c hc => (List.all_eq_true.mp hall) c hc
  have hbound : Legible bound.commitSha := by
    rw [← hstarted.commitSha, ← hrecorded.commitSha]
    exact hcommit
  constructor
  · refine
      { commitSha := hbound
        path := hpath
        argv := fun text htext => ?_
        cwd := hstarted.cwd
        environment := fun e he => ⟨hargument _ ?_, hargument _ ?_⟩ }
    · cases hargv : bound.recipe.argv with
      | nil =>
          rw [hargv] at htext
          cases htext
      | cons argv0 rest =>
          rw [hargv] at htext
          rcases List.mem_cons.mp htext with rfl | htext
          · exact hstarted.argv0 text (by rw [hargv]; rfl)
          · refine hargument text (List.mem_append_left _ (List.mem_append_left _ ?_))
            rw [Launched.command, hargv]
            exact List.mem_cons_of_mem _ htext
    · exact List.mem_append_left _ (List.mem_append_right _ (List.mem_map_of_mem he))
    · exact List.mem_append_right _ (List.mem_map_of_mem he)
  · exact
      { commitSha := hcommit
        snapshotSha256 := hrecorded.snapshotSha256 ▸ hstarted.snapshotSha256
        executionRecipeSha256 := by
          obtain ⟨digest, -, heq⟩ := hrecorded.recipeSha256
          exact heq ▸ legible_of_isSha digest.2
        executionRecipeCommitSha := hrecorded.recipeCommitSha ▸ hbound
        executionRecipePath := hrecorded.recipePath ▸ hpath
        resourceEnforcement := by
          rw [hrecorded.enforcement]
          unfold Legible
          decide
        executablePath := by
          rw [hrecorded.executablePath]
          exact hargument _ (List.mem_append_left _ (List.mem_append_left _ List.mem_cons_self))
        executableSha256 := hrecorded.executableSha256
        stdout := ⟨hrecorded.stdout.1 ▸ by unfold Legible; decide, hrecorded.stdout.2⟩
        stderr := ⟨hrecorded.stderr.1 ▸ by unfold Legible; decide, hrecorded.stderr.2⟩ }

theorem atomicJson_eq_ok {t t' : Disk} {home : Loc Name} {name : Name} {document : Members}
    (h : atomicJson H t home name document = .ok t') :
    ∃ dir, (t.stat maxLinks H.cwd (Path.to home)).found = some (dir, .dir) ∧
      t' = t.put (dir ++ [name]) (.file (documentBytes document)) :=
  replaceIn_eq_some (orElse_eq_ok.mp h)

/-- **The evidence stands in the directory where it is verified.** -/
theorem written_documents {l : Launched} {snapshot : SourceSnapshot}
    {bound : BoundExecutionRecipe} {e : Evidence F}
    (hrecorded : Recorded L H l snapshot bound e) {dir : Loc Name}
    (hdir : (e.disk.stat maxLinks H.cwd (Path.to l.home)).found = some (dir, .dir)) :
    ∃ recipeDocument receiptDocument digest,
      boundRecipeDocument H.sha256 bound = some recipeDocument ∧
        e.receipt.digest L H.sha256 = .ok digest ∧
          e.receipt.document L (some digest) = some receiptDocument ∧
            e.disk.entry (dir ++ [recipeName]) = some (.file (documentBytes recipeDocument)) ∧
              e.disk.entry (dir ++ [receiptName]) =
                some (.file (documentBytes receiptDocument)) := by
  obtain ⟨ended, written, recipeDocument, receiptDocument, digest, hrecipe, hdigest, hreceipt,
    hwritten, hdisk⟩ := hrecorded.documents
  obtain ⟨dir₁, hdir₁, hput₁⟩ := atomicJson_eq_ok hwritten
  obtain ⟨dir₂, hdir₂, hput₂⟩ := atomicJson_eq_ok hdisk
  have hnil : ∀ (loc : Loc Name) (name : Name), loc ++ [name] ≠ [] := by
    simp
  have hsame₂ := hdir
  rw [hput₂] at hsame₂
  have hsame₂ := found_of_put (hnil _ _) hsame₂
  have hsame₁ := hsame₂
  rw [hput₁] at hsame₁
  have hsame₁ := found_of_put (hnil _ _) hsame₁
  rw [Tree.stat, hsame₂] at hdir₂
  rw [Tree.stat, hsame₁] at hdir₁
  cases hdir₁
  cases hdir₂
  have hne : dir ++ [recipeName] ≠ dir ++ [receiptName] := by
    rw [ne_eq, List.append_cancel_left_eq]
    decide
  refine ⟨recipeDocument, receiptDocument, digest, hrecipe, hdigest, hreceipt, ?_, ?_⟩
  · rw [hput₂, Tree.entry_put (hnil _ _), if_neg hne, hput₁, Tree.entry_put (hnil _ _), if_pos rfl]
  · rw [hput₂, Tree.entry_put (hnil _ _), if_pos rfl]

section Reading

variable {t : Disk}
variable {git : Git}
variable {revision path : Str}
variable {snapshot : SourceSnapshot}
variable {bound : BoundExecutionRecipe}
variable {destination : Path Name}
variable {l : Launched}
variable {e : Evidence F}

/-- **The documents that a call has written are read back** as what it has recorded, unless
the name of a variable looks secret by the rule for retained documents. -/
theorem load_written (hbound : loadExecutionRecipe L git revision path false = .ok bound)
    (hstarted : Started H t snapshot bound destination l)
    (hrecorded : Recorded L H l snapshot bound e) {dir : Loc Name}
    (hdir : (e.disk.stat maxLinks H.cwd (Path.to l.home)).found = some (dir, .dir)) :
    ∃ recipeDocument receiptDocument,
      loadJson H e.disk (Path.to l.home) recipeName = .ok recipeDocument ∧
        loadJson H e.disk (Path.to l.home) receiptName = .ok receiptDocument ∧
          ∀ evidence, readManifest L H.sha256 recipeDocument receiptDocument = .ok evidence ↔
            evidence = (bound, e.receipt) ∧
              ∀ entry ∈ bound.recipe.environment, legacyLooksSecret L entry.1 = false := by
  obtain ⟨hadmitted, hpath⟩ := loaded_eq_ok hbound
  obtain ⟨hlegible, hlegible'⟩ := legible_bound hstarted hrecorded hpath
  obtain ⟨recipeDocument, receiptDocument, digest, hrecipe, hdigest, hreceipt, hentry, hentry'⟩ :=
    written_documents hrecorded hdir
  obtain ⟨recipeDigest, hrecipeDigest, hsame⟩ := hrecorded.recipeSha256
  refine ⟨recipeDocument, receiptDocument, ?_, ?_, fun evidence => ?_⟩
  · exact loadJson_document (plain_boundDocument hadmitted hlegible hrecipe) hdir hentry
  · exact loadJson_document (plain_receiptDocument hlegible' hreceipt) hdir hentry'
  · exact readManifest_document_iff hadmitted hrecipe hreceipt hrecipeDigest hdigest hsame
      hrecorded.recipeCommitSha hrecorded.recipePath

/-- **What is verified in the call is the bound recipe and the receipt.** -/
theorem evidence_eq {evidence : BoundExecutionRecipe × SnapshotRunReceipt F}
    (hbound : loadExecutionRecipe L git revision path false = .ok bound)
    (hstarted : Started H t snapshot bound destination l)
    (hrecorded : Recorded L H l snapshot bound e)
    (hverified : Verified L H e.disk (Path.to l.home) (some snapshot) evidence) :
    evidence = (bound, e.receipt) := by
  obtain ⟨dir, hdir⟩ := isDir_iff.mp hverified.isDir
  obtain ⟨recipeDocument, receiptDocument, hload, hload', hread⟩ :=
    load_written hbound hstarted hrecorded hdir
  obtain ⟨_, _, hrecipe, hreceipt, hmanifest⟩ := hverified.documents
  rw [hload] at hrecipe
  rw [hload'] at hreceipt
  cases hrecipe
  cases hreceipt
  exact ((hread evidence).mp hmanifest).1

/-- What a verification asks, apart from the two documents. -/
structure Standing (H : Host F) (t : Disk) (home : Path Name) (snapshot : SourceSnapshot)
    (receipt : SnapshotRunReceipt F) : Prop where
  notLink : t.isSymlink maxLinks H.cwd home = false
  isDir : t.isDir maxLinks H.cwd home = true
  stdout : checkStream H t home receipt.stdout = .ok ()
  stderr : checkStream H t home receipt.stderr = .ok ()
  executable : checkExecutable H t receipt = .ok ()
  snapshot : checkSnapshot H t receipt (some snapshot) = .ok ()

instance {t : Disk} {home : Path Name} {snapshot : SourceSnapshot}
    {receipt : SnapshotRunReceipt F} : Decidable (Standing H t home snapshot receipt) :=
  decidable_of_iff
    (t.isSymlink maxLinks H.cwd home = false ∧ t.isDir maxLinks H.cwd home = true ∧
      checkStream H t home receipt.stdout = .ok () ∧ checkStream H t home receipt.stderr = .ok () ∧
        checkExecutable H t receipt = .ok () ∧ checkSnapshot H t receipt (some snapshot) = .ok ())
    ⟨fun ⟨hlink, hdir, hstdout, hstderr, hexecutable, hsnapshot⟩ =>
      ⟨hlink, hdir, hstdout, hstderr, hexecutable, hsnapshot⟩,
      fun ⟨hlink, hdir, hstdout, hstderr, hexecutable, hsnapshot⟩ =>
        ⟨hlink, hdir, hstdout, hstderr, hexecutable, hsnapshot⟩⟩

/-- **The call verifies what it has recorded**, exactly if the files stand and no name of a
variable looks secret by the rule for retained documents. -/
theorem verified_iff_standing (hbound : loadExecutionRecipe L git revision path false = .ok bound)
    (hstarted : Started H t snapshot bound destination l)
    (hrecorded : Recorded L H l snapshot bound e) :
    Verified L H e.disk (Path.to l.home) (some snapshot) (bound, e.receipt) ↔
      Standing H e.disk (Path.to l.home) snapshot e.receipt ∧
        ∀ entry ∈ bound.recipe.environment, legacyLooksSecret L entry.1 = false := by
  constructor
  · intro h
    obtain ⟨dir, hdir⟩ := isDir_iff.mp h.isDir
    obtain ⟨recipeDocument, receiptDocument, hload, hload', hread⟩ :=
      load_written hbound hstarted hrecorded hdir
    obtain ⟨_, _, hrecipe, hreceipt, hmanifest⟩ := h.documents
    rw [hload] at hrecipe
    rw [hload'] at hreceipt
    cases hrecipe
    cases hreceipt
    exact ⟨⟨h.notLink, h.isDir, h.stdout, h.stderr, h.executable, h.snapshot⟩,
      ((hread _).mp hmanifest).2⟩
  · rintro ⟨h, hsecret⟩
    obtain ⟨dir, hdir⟩ := isDir_iff.mp h.isDir
    obtain ⟨recipeDocument, receiptDocument, hload, hload', hread⟩ :=
      load_written hbound hstarted hrecorded hdir
    exact ⟨h.notLink, h.isDir, ⟨_, _, hload, hload', (hread _).mpr ⟨rfl, hsecret⟩⟩, h.stdout,
      h.stderr, h.executable, h.snapshot⟩

end Reading

/-! ## What the deletion spares -/

/-- The locations that are looked at on the way to a file. -/
def Host.way (H : Host F) (t : Disk) (path : Str) : List (Loc Name) :=
  match path? path with
  | some p => (t.lstat maxLinks H.cwd p).way
  | none => []

variable (L H) in
/--
When the evidence stands, nothing that the deletion of `.work` takes away is on the way to
the destination, to the executable that was found for `argv[0]`, or to the archive.
-/
def outlasts (t : Disk) (snapshot : SourceSnapshot) (bound : BoundExecutionRecipe)
    (destination : Path Name) : Bool :=
  match launch H t snapshot bound destination with
  | .error _ => true
  | .ok l =>
      match record L H l snapshot bound with
      | .error _ => true
      | .ok e =>
          ((e.disk.stat maxLinks H.cwd (Path.to l.home)).way ++
            H.way e.disk (locText l.executable) ++ H.way e.disk snapshot.archivePath).all
              (e.disk.spared maxLinks H.cwd (workPath l.home) (H.deletes e.disk))

/-- The destination, as it was given, is no link and leads where its real path leads. -/
structure Unmoved (H : Host F) (t t' : Disk) (destination : Path Name) : Prop where
  notLink : t'.isSymlink maxLinks H.cwd destination = false
  same : ∀ home ∈ t.resolve H.cwd destination,
    (t'.stat maxLinks H.cwd destination).found = (t'.stat maxLinks H.cwd (Path.to home)).found

section Keeping

variable {t : Disk}
variable {kept : Loc Name → Bool}

theorem regular_keep_text (hroot : kept [] = true) (path : Str) :
    H.regular (t.keep kept) path =
      if (H.way t path).all kept then H.regular t path else none := by
  unfold Host.regular Host.way
  cases path? path with
  | none => simp
  | some p =>
      rw [Option.bind_some, Option.bind_some, regular_keep hroot]

theorem way_of_regular (hroot : kept [] = true) {path : Str} {content : Bytes}
    (h : H.regular (t.keep kept) path = some content) : (H.way t path).all kept = true := by
  rw [regular_keep_text hroot] at h
  split at h
  · assumption
  · cases h

theorem way_of_stat (hroot : kept [] = true) {p : Path Name} {dir : Loc Name}
    (h : ((t.keep kept).stat maxLinks H.cwd p).found = some (dir, .dir)) :
    (t.stat maxLinks H.cwd p).way.all kept = true := by
  rw [stat_keep hroot] at h
  split at h
  · assumption
  · cases h

/-- What a verification has found on its ways. -/
theorem ways_of_verified (hroot : kept [] = true) {destination : Path Name}
    {snapshot : SourceSnapshot} {evidence : BoundExecutionRecipe × SnapshotRunReceipt F}
    (h : Verified L H (t.keep kept) destination (some snapshot) evidence) :
    (H.way t evidence.2.executablePath).all kept = true ∧
      (H.way t snapshot.archivePath).all kept = true := by
  obtain ⟨content, hcontent, -⟩ := bind_eq_ok h.executable
  obtain ⟨_, hsource, -⟩ := bind_eq_ok h.snapshot
  obtain ⟨archive, harchive, -⟩ := bind_eq_ok hsource
  exact ⟨way_of_regular hroot (orElse_eq_ok.mp hcontent),
    way_of_regular hroot (orElse_eq_ok.mp harchive)⟩

/-- Where the directory is spared, what stands in it is verified again. -/
theorem verify_keep (hroot : kept [] = true) {destination destination' : Path Name}
    {snapshot : Option SourceSnapshot} {evidence : BoundExecutionRecipe × SnapshotRunReceipt F}
    {dir : Loc Name}
    (hstdout : evidence.2.stdout.path = stdoutName.1)
    (hstderr : evidence.2.stderr.path = stderrName.1)
    (h : Verified L H t destination snapshot evidence)
    (hdir : (t.stat maxLinks H.cwd destination).found = some (dir, .dir))
    (hlink' : (t.keep kept).isSymlink maxLinks H.cwd destination' = false)
    (hdir' : ((t.keep kept).stat maxLinks H.cwd destination').found = some (dir, .dir))
    (hnames : ∀ name ∈ [recipeName, receiptName, stdoutName, stderrName],
      kept (dir ++ [name]) = true) :
    verifySnapshotRun L H (t.keep kept) destination' snapshot none = (do
      checkExecutable H (t.keep kept) evidence.2
      checkSnapshot H (t.keep kept) evidence.2 snapshot
      .ok evidence) := by
  have hentry : ∀ name ∈ [recipeName, receiptName, stdoutName, stderrName],
      (t.keep kept).entry (dir ++ [name]) = t.entry (dir ++ [name]) := by
    intro name hname
    rw [Tree.entry_keep hroot, if_pos (hnames name hname)]
  simp only [List.forall_mem_cons] at hentry
  obtain ⟨recipeDocument, receiptDocument, hrecipe, hreceipt, hmanifest⟩ := h.documents
  have hstdout' := (checkStream_congr hstdout hdir hdir' hentry.2.2.1).mpr h.stdout
  have hstderr' := (checkStream_congr hstderr hdir hdir' hentry.2.2.2.1).mpr h.stderr
  unfold verifySnapshotRun
  rw [hlink', isDir_iff.mpr ⟨dir, hdir'⟩, loadJson_congr hdir hdir' hentry.1, hrecipe,
    loadJson_congr hdir hdir' hentry.2.1, hreceipt]
  simp only [require, ok_bind, hmanifest, hstdout', hstderr', checkCommitted, Bool.not_false,
    Bool.and_self, if_true]

/-- Where the ways are spared, what was verified verifies again. -/
theorem verified_keep (hroot : kept [] = true) {destination destination' : Path Name}
    {snapshot : SourceSnapshot} {evidence : BoundExecutionRecipe × SnapshotRunReceipt F}
    {dir : Loc Name}
    (hstdout : evidence.2.stdout.path = stdoutName.1)
    (hstderr : evidence.2.stderr.path = stderrName.1)
    (h : Verified L H t destination (some snapshot) evidence)
    (hdir : (t.stat maxLinks H.cwd destination).found = some (dir, .dir))
    (hlink' : (t.keep kept).isSymlink maxLinks H.cwd destination' = false)
    (hdir' : ((t.keep kept).stat maxLinks H.cwd destination').found = some (dir, .dir))
    (hnames : ∀ name ∈ [recipeName, receiptName, stdoutName, stderrName],
      kept (dir ++ [name]) = true)
    (hexecutable : (H.way t evidence.2.executablePath).all kept = true)
    (harchive : (H.way t snapshot.archivePath).all kept = true) :
    Verified L H (t.keep kept) destination' (some snapshot) evidence := by
  have hregular : H.regular (t.keep kept) evidence.2.executablePath =
      H.regular t evidence.2.executablePath := by
    rw [regular_keep_text hroot, if_pos hexecutable]
  have hregular' : H.regular (t.keep kept) snapshot.archivePath =
      H.regular t snapshot.archivePath := by
    rw [regular_keep_text hroot, if_pos harchive]
  have hexecutable' : checkExecutable H (t.keep kept) evidence.2 = .ok () := by
    rw [checkExecutable, hregular]
    exact h.executable
  have hsnapshot' : checkSnapshot H (t.keep kept) evidence.2 (some snapshot) = .ok () := by
    rw [checkSnapshot, verifySourceSnapshot, hregular']
    exact h.snapshot
  apply verify_eq_ok.mp
  rw [verify_keep hroot hstdout hstderr h hdir hlink' hdir' hnames, hexecutable', ok_bind,
    hsnapshot', ok_bind]

end Keeping

/-- **The evidence that a call returns verifies later exactly if it outlasts the deletion.** -/
theorem verifies_iff_outlasts {t : Disk} {git : Git} {revision path : Str}
    {snapshot : SourceSnapshot} {bound : BoundExecutionRecipe} {destination : Path Name}
    {replay : Replayed F}
    (hbound : loadExecutionRecipe L git revision path false = .ok bound)
    (hrun : runSnapshotRecipe L H t snapshot bound destination = .ok replay)
    (hdestination : Unmoved H t replay.disk destination) :
    verifySnapshotRun L H replay.disk destination (some snapshot) none =
        .ok (bound, replay.receipt) ↔
      outlasts L H t snapshot bound destination = true := by
  obtain ⟨l, hlaunch, hrun⟩ := bind_eq_ok hrun
  obtain ⟨e, hrecord, hrun⟩ := bind_eq_ok hrun
  obtain ⟨evidence, hverify, hrun⟩ := bind_eq_ok hrun
  cases hrun
  have hstarted := launch_eq_ok hlaunch
  have hrecorded := record_eq_ok hrecord
  have hverified := verify_eq_ok.mp hverify
  have heq := evidence_eq hbound hstarted hrecorded hverified
  subst heq
  obtain ⟨dir, hdir⟩ := isDir_iff.mp hverified.isDir
  have hroot : e.disk.spared maxLinks H.cwd (workPath l.home) (H.deletes e.disk) [] = true :=
    spared_nil _ _
  have hsame := hdestination.same l.home hstarted.home
  unfold outlasts
  rw [hlaunch]
  dsimp only
  rw [hrecord]
  dsimp only
  rw [List.all_append, List.all_append, Bool.and_eq_true, Bool.and_eq_true, verify_eq_ok,
    ← hrecorded.executablePath]
  constructor
  · intro hlater
    obtain ⟨dir', hdir'⟩ := isDir_iff.mp hlater.isDir
    obtain ⟨hexecutable, harchive⟩ := ways_of_verified hroot hlater
    rw [hsame] at hdir'
    exact ⟨⟨way_of_stat hroot hdir', hexecutable⟩, harchive⟩
  · rintro ⟨⟨hhome, hexecutable⟩, harchive⟩
    rw [Tree.rmtree, stat_keep hroot (Path.to l.home), if_pos hhome, hdir] at hsame
    have hnames : ∀ name ∈ [recipeName, receiptName, stdoutName, stderrName], workName ≠ name := by
      decide
    exact verified_keep hroot hrecorded.stdout.1 hrecorded.stderr.1 hverified hdir
      hdestination.notLink hsame
      (fun name hname => spared_sibling hdir (hnames name hname) _) hexecutable harchive

end Steps

/-! ## A replay -/

section Sample

/-- The characters of ASCII, and floats by their literals. -/
def sampleLanguage : Language Literal where
  isAlpha := fun c => (cp 'a' ≤ c && c ≤ cp 'z') || (cp 'A' ≤ c && c ≤ cp 'Z')
  isAlnum := fun c =>
    isDigit c || (cp 'a' ≤ c && c ≤ cp 'z') || (cp 'A' ≤ c && c ≤ cp 'Z')
  upper := List.map (fun c => if cp 'a' ≤ c ∧ c ≤ cp 'z' then c - 32 else c)
  alike := fun a b => a == b
  float := id
  repr := id
  float_repr := fun _ => rfl
  isOne := fun _ => false
  isNegative := fun literal => literal.1.head? = some (cp '-')
  strOf := fun _ => []
  intOf := fun _ => none
  floatOf := fun _ => none
  truth := fun _ => false

/-- The hexadecimal digits of a number. -/
def hexText (length n : Nat) : Str :=
  (List.range length).map (fun i => hexDigit (n / 16 ^ (length - 1 - i) % 16))

theorem isSha_hexText (length n : Nat) : isSha length (hexText length n) = true := by
  have hdigit : ∀ d < 16, isHex (hexDigit d) = true := by
    decide
  rw [isSha, Bool.and_eq_true, beq_iff_eq, hexText, List.length_map, List.length_range,
    List.all_map, List.all_eq_true]
  exact ⟨rfl, fun i _ => hdigit _ (Nat.mod_lt _ (by decide))⟩

def digestOf (n : Nat) : Digest :=
  ⟨hexText 64 n, isSha_hexText 64 n⟩

def sampleCommit : Str :=
  hexText 40 0x9b1f0c3e5a7d2486b0e4f1c8d6a35927e8b4c0d1

def samplePath : Str :=
  word ".swfactory/candidate-run.json"

/-- A recipe that runs one file of the snapshot or of the host. -/
def sampleRecipe (argv0 : String) : ExecutionRecipe where
  argv := [word argv0]
  cwd := [dot]
  timeoutS := 60
  cpus := 1
  memoryMb := 256
  environment := []
  secretEnv := []
  schemaVersion := 1

/-- The repository has this recipe, and nothing else. -/
def sampleGit (argv0 : String) : Git where
  revParse := fun revision =>
    if revision = word "HEAD^{commit}" then some sampleCommit else none
  blob := fun object =>
    if object = sampleCommit ++ cp ':' :: samplePath then
      (sampleRecipe argv0).document.map documentBytes
    else
      none
  decode := Lexical.Utf8.decode

def scriptBytes : Bytes :=
  word "#!/bin/sh\necho ok\n"

def trueBytes : Bytes :=
  word "#!/bin/sh\nexit 0\n"

/-- Bytes, filled up with zeros. -/
def padded (length : Nat) (content : Bytes) : Bytes :=
  content ++ List.replicate (length - content.length) 0

/-- A tar archive with the script as `check.sh`. -/
def archiveBytes : Bytes :=
  padded 100 (word "check.sh") ++ padded 8 (word "0000755") ++ padded 8 (word "0000000") ++
    padded 8 (word "0000000") ++ padded 12 (word "00000000022") ++
    padded 12 (word "00000000000") ++ word "011163" ++ [0, 0x20] ++ word "0" ++
    padded 100 [] ++ padded 6 (word "ustar") ++ word "00" ++ padded 32 (word "root") ++
    padded 32 (word "root") ++ padded 183 [] ++ padded 512 scriptBytes ++ padded 1024 []

def emptySha256 : Nat :=
  0xe3b0c44298fc1c149afbf4c8996fb92427ae41e4649b934ca495991b7852b855

def archiveSha256 : Nat :=
  0xed5cb4f914be54f639debde90eda615dfa4d5337d4675f8f06615e59f5e74d31

def scriptSha256 : Nat :=
  0xb4d644d4279594903f1a9911956432d9473041f2984fc6014c14d7402c7d126c

def trueSha256 : Nat :=
  0x306c6ca7407560340797866e077e053627ad409277d1b9da58106fce4cf717cb

/-- Of what the script prints. -/
def outputSha256 : Nat :=
  0xdc51b8c96c2d745df3bd5590d990230a482fd247123599548e0632fdbf97fc22

def scriptRecipeSha256 : Nat :=
  0xd4888be76a73406be1161a7f65b4d9a013adbfb319e0d61d8cb369381e2347bd

def trueRecipeSha256 : Nat :=
  0xc50397144fc966dea210699808a0ef5ee5b2e57cbed7b6f204955804246b538d

def sampleSnapshot : SourceSnapshot where
  commitSha := sampleCommit
  sha256 := hexText 64 archiveSha256
  sizeBytes := 2048
  archivePath := word "/store/snap.tar"

def sampleReceipt (recipeSha256 : Nat) (path : String) (sha256 stdoutSha256 : Nat) (size : Int) :
    SnapshotRunReceipt Literal where
  commitSha := sampleCommit
  snapshotSha256 := sampleSnapshot.sha256
  snapshotSizeBytes := sampleSnapshot.sizeBytes
  executionRecipeSha256 := hexText 64 recipeSha256
  executionRecipeCommitSha := sampleCommit
  executionRecipePath := samplePath
  requestedCpus := 1
  requestedMemoryMb := 256
  resourceEnforcement := enforcement
  executablePath := word path
  executableSha256 := hexText 64 sha256
  exitCode := some 0
  timedOut := false
  durationS := ⟨word "0.003", by decide⟩
  stdout := ⟨stdoutName.1, hexText 64 stdoutSha256, size⟩
  stderr := ⟨stderrName.1, hexText 64 emptySha256, 0⟩
  schemaVersion := 1

def scriptReceipt : SnapshotRunReceipt Literal :=
  sampleReceipt scriptRecipeSha256 "/replays/run/.work/snapshot-k3v9x2qa/check.sh" scriptSha256
    outputSha256 3

def trueReceipt : SnapshotRunReceipt Literal :=
  sampleReceipt trueRecipeSha256 "/bin/true" trueSha256 emptySha256 0

/-- The digests of the files and documents of the two replays. -/
def sampleDigests : List (Option Bytes × Nat) :=
  [(some [], emptySha256),
    (some archiveBytes, archiveSha256),
    (some scriptBytes, scriptSha256),
    (some trueBytes, trueSha256),
    (some (word "ok\n"), outputSha256),
    ((sampleRecipe "./check.sh").asdict.map payload, scriptRecipeSha256),
    ((sampleRecipe "/bin/true").asdict.map payload, trueRecipeSha256),
    ((scriptReceipt.document sampleLanguage none).map payload,
      0x67609cf346f167398352a568f08a96f5ae5130d8a7addda842386ad7bc017505),
    ((trueReceipt.document sampleLanguage none).map payload,
      0xb4c95258ab2de5829e589376a79da93d04f38fa0fb696fd4f12f3441f6a7ed81)]

def place (names : List String) : Loc Name :=
  names.filterMap (fun name => if h : isName (word name) = true then some ⟨word name, h⟩ else none)

def sampleHost : Host Literal where
  sha256 := fun content =>
    digestOf ((sampleDigests.lookup (some content)).getD 0)
  cwd := []
  searchPath := [word "/bin"]
  executable := fun _ _ => true
  getmembers := fun content =>
    if content = archiveBytes then some [⟨word "check.sh", .file scriptBytes⟩] else none
  temporary := ⟨word "snapshot-k3v9x2qa", by decide⟩
  run := fun command t =>
    if command.argv = [word "/bin/true"] then
      some (t, some 0)
    else
      some (t.put (place ["replays", "run", "stdout.bin"]) (.file (word "ok\n")), some 0)
  duration := ⟨word "0.003", by decide⟩
  deletes := fun _ _ => true

def sampleDisk : Disk :=
  [(place ["store"], .dir), (place ["store", "snap.tar"], .file archiveBytes),
    (place ["bin"], .dir), (place ["bin", "true"], .file trueBytes), (place ["replays"], .dir)]

def sampleDestination : Path Name :=
  Path.to (place ["replays", "run"])

def sampleBound (argv0 : String) : BoundExecutionRecipe :=
  ⟨sampleCommit, samplePath, sampleRecipe argv0, 1⟩

theorem load_sampleBound :
    loadExecutionRecipe sampleLanguage (sampleGit "./check.sh") (word "HEAD") samplePath false =
        .ok (sampleBound "./check.sh") ∧
      loadExecutionRecipe sampleLanguage (sampleGit "/bin/true") (word "HEAD") samplePath false =
        .ok (sampleBound "/bin/true") := by
  decide +kernel

theorem unmoved_sample {t : Disk}
    (h : t.isSymlink maxLinks sampleHost.cwd sampleDestination = false) :
    Unmoved sampleHost sampleDisk t sampleDestination := by
  have hresolve : sampleDisk.resolve sampleHost.cwd sampleDestination =
      some (place ["replays", "run"]) := by
    decide +kernel
  refine ⟨h, fun home hhome => ?_⟩
  rw [hresolve] at hhome
  cases hhome
  rfl

/-- What a call has launched and recorded, up to its verification. -/
def sampleRecorded (argv0 : String) : Except ReplayError (Launched × Evidence Literal) := do
  let l ← launch sampleHost sampleDisk sampleSnapshot (sampleBound argv0) sampleDestination
  let e ← record sampleLanguage sampleHost l sampleSnapshot (sampleBound argv0)
  .ok (l, e)

/-- What the call leaves. -/
def sampleLeft (home : Loc Name) (t : Disk) : Disk :=
  t.rmtree maxLinks sampleHost.cwd (workPath home) (sampleHost.deletes t)

/-- The call returns if its evidence stands: no document has to be read. -/
theorem replayed_sample {argv0 : String} (check : Launched → Evidence Literal → Bool)
    (hbound : loadExecutionRecipe sampleLanguage (sampleGit argv0) (word "HEAD") samplePath false =
      .ok (sampleBound argv0))
    (h : (sampleRecorded argv0).toOption.any (fun made =>
      decide (Standing sampleHost made.2.disk (Path.to made.1.home) sampleSnapshot
        made.2.receipt) && check made.1 made.2) = true) :
    ∃ l e,
      Verified sampleLanguage sampleHost e.disk (Path.to l.home) (some sampleSnapshot)
          (sampleBound argv0, e.receipt) ∧
        Recorded sampleLanguage sampleHost l sampleSnapshot (sampleBound argv0) e ∧
          runSnapshotRecipe sampleLanguage sampleHost sampleDisk sampleSnapshot
              (sampleBound argv0) sampleDestination =
            .ok ⟨e.receipt, sampleLeft l.home e.disk⟩ ∧ check l e = true := by
  cases hmade : sampleRecorded argv0 with
  | error error =>
      rw [hmade] at h
      cases h
  | ok made =>
      rw [hmade] at h
      obtain ⟨hstanding, hcheck⟩ := (Bool.and_eq_true _ _).mp h
      obtain ⟨l, hlaunch, hmade⟩ := bind_eq_ok hmade
      obtain ⟨e, hrecord, hmade⟩ := bind_eq_ok hmade
      cases hmade
      have hrecorded := record_eq_ok hrecord
      have hverified := (verified_iff_standing hbound (launch_eq_ok hlaunch) hrecorded).mpr
        ⟨of_decide_eq_true hstanding, nofun⟩
      refine ⟨l, e, hverified, hrecorded, ?_, hcheck⟩
      rw [runSnapshotRecipe, hlaunch, ok_bind, hrecord, ok_bind, verify_eq_ok.mpr hverified]
      rfl

/-- A program of the host is still there. -/
theorem true_verified_later :
    ∃ replay,
      runSnapshotRecipe sampleLanguage sampleHost sampleDisk sampleSnapshot
          (sampleBound "/bin/true") sampleDestination = .ok replay ∧
        verifySnapshotRun sampleLanguage sampleHost replay.disk sampleDestination
          (some sampleSnapshot) none = .ok (sampleBound "/bin/true", replay.receipt) := by
  obtain ⟨l, e, -, -, hrun, hlink⟩ := replayed_sample (fun l e =>
    !(sampleLeft l.home e.disk).isSymlink maxLinks sampleHost.cwd sampleDestination)
      load_sampleBound.2 (by decide +kernel)
  rw [Bool.not_eq_true'] at hlink
  refine ⟨_, hrun, ?_⟩
  exact (verifies_iff_outlasts load_sampleBound.2 hrun (unmoved_sample hlink)).mpr
    (by decide +kernel)

/-- **A script of the snapshot is deleted with the working tree.** -/
theorem script_absent_later :
    ∃ bound replay,
      loadExecutionRecipe sampleLanguage (sampleGit "./check.sh") (word "HEAD") samplePath false =
          .ok bound ∧
        runSnapshotRecipe sampleLanguage sampleHost sampleDisk sampleSnapshot bound
            sampleDestination = .ok replay ∧
          Unmoved sampleHost sampleDisk replay.disk sampleDestination ∧
            verifySnapshotRun sampleLanguage sampleHost replay.disk sampleDestination
              (some sampleSnapshot) none = .error .executableAbsent := by
  obtain ⟨l, e, hverified, hrecorded, hrun, hcheck⟩ := replayed_sample (fun l e =>
    !(sampleLeft l.home e.disk).isSymlink maxLinks sampleHost.cwd sampleDestination &&
      decide (((sampleLeft l.home e.disk).stat maxLinks sampleHost.cwd sampleDestination).found =
        some (place ["replays", "run"], .dir)) &&
      decide ((e.disk.stat maxLinks sampleHost.cwd (Path.to l.home)).found =
        some (place ["replays", "run"], .dir)) &&
      decide (checkExecutable sampleHost (sampleLeft l.home e.disk) e.receipt =
        .error .executableAbsent)) load_sampleBound.1 (by decide +kernel)
  simp only [Bool.and_eq_true, Bool.not_eq_true', decide_eq_true_eq] at hcheck
  obtain ⟨⟨⟨hlink, hleft⟩, hdir⟩, hexecutable⟩ := hcheck
  refine ⟨sampleBound "./check.sh", _, load_sampleBound.1, hrun, unmoved_sample hlink, ?_⟩
  have hroot : e.disk.spared maxLinks sampleHost.cwd (workPath l.home)
      (sampleHost.deletes e.disk) [] = true :=
    spared_nil _ _
  have hnames : ∀ name ∈ [recipeName, receiptName, stdoutName, stderrName], workName ≠ name := by
    decide
  have hagain := verify_keep hroot hrecorded.stdout.1 hrecorded.stderr.1 hverified hdir hlink hleft
    (fun name hname => spared_sibling hdir (hnames name hname) _)
  rw [← Tree.rmtree, ← sampleLeft, hexecutable] at hagain
  exact hagain

end Sample

end Replay
end SwFactory
