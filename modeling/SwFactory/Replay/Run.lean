import SwFactory.Replay.Receipt

/-!
# Replaying a snapshot

The host is what the process finds: its directory, the search path, and what the
system makes of an archive, a command and a deletion.  A replay has three parts.
`launch` brings the files to where the command starts; `record` runs the command and
writes the evidence; then the evidence is verified and the working tree deleted.

`verifySnapshotRun` is the same function in the call and after it.

Sources: `snapshot_replay.py`, `source_snapshot.py` (`verify_source_snapshot`) and
`canonical.py` (`file_digest`, `atomic_json`).
-/

namespace SwFactory
namespace Replay

open Files
open Lexical (Utf8.decode Utf8.isScalar)
open Lexical.Json (Str Value Members Items Literal word cp)
open Machine

abbrev Disk :=
  Tree Name Bytes

/-- The links that the system follows on a path. -/
def maxLinks : Nat :=
  40

/-- `SourceSnapshot`, as far as a replay reads it. -/
structure SourceSnapshot where
  commitSha : Str
  sha256 : Str
  sizeBytes : Int
  archivePath : Str
deriving DecidableEq

/-- The kind of an archive member: `isdir`, `isfile` or neither. -/
inductive MemberKind
  | dir
  | file (content : Bytes)
  | other

structure TarMember where
  name : Str
  kind : MemberKind

/-- What `subprocess.run` is called with. -/
structure Command where
  argv : List Str
  cwd : Loc Name
  env : List (Str × Str)
  timeout : Int

structure Host (F : Type) where
  sha256 : Bytes → Digest
  cwd : Loc Name
  /-- The directories of `PATH`. -/
  searchPath : List Str
  /-- `os.access(path, os.X_OK)` -/
  executable : Disk → Loc Name → Bool
  /-- `archive.getmembers()`; none where it raises. -/
  getmembers : Bytes → Option (List TarMember)
  /-- The name that `mkdtemp` makes up. -/
  temporary : Name
  /-- The files after the command, and its exit code unless it timed out; none where it
  cannot be started. -/
  run : Command → Disk → Option (Disk × Option Int)
  /-- The elapsed seconds, rounded. -/
  duration : F
  /-- Whether the system deletes an entry when it is asked to. -/
  deletes : Disk → Loc Name → Bool

/-! ## Names in the destination -/

def stdoutName : Name :=
  ⟨word "stdout.bin", by decide⟩

def stderrName : Name :=
  ⟨word "stderr.bin", by decide⟩

def recipeName : Name :=
  ⟨word "recipe.json", by decide⟩

def receiptName : Name :=
  ⟨word "receipt.json", by decide⟩

def workName : Name :=
  ⟨word ".work", by decide⟩

section Operations

variable {F : Type}
variable (L : Language F)
variable (H : Host F)

/-! ## Verification -/

/-- The bytes of a regular file, by the text of its path. -/
def Host.regular (t : Disk) (path : Str) : Option Bytes :=
  (path? path).bind (t.regular maxLinks H.cwd)

/-- `verify_source_snapshot` -/
def verifySourceSnapshot (t : Disk) (snapshot : SourceSnapshot) : Except ReplayError Unit := do
  let content ← orElse .snapshotAbsent (H.regular t snapshot.archivePath)
  require ((H.sha256 content).1 = snapshot.sha256 && content.length = snapshot.sizeBytes)
    .snapshotIntegrity

/-- `read_text(encoding="utf-8")` of the bytes, and `json.loads`. -/
def readText (content : Bytes) : Option Value :=
  ((Utf8.decode content).filter (fun text => text.all Utf8.isScalar)).bind Lexical.Json.loads

/-- `_load_json` -/
def loadJson (t : Disk) (destination : Path Name) (name : Name) : Except ReplayError Members := do
  let content ← orElse (.manifestAbsent name.1)
    (t.regular maxLinks H.cwd (destination.child name))
  let v ← orElse (.manifestUnreadable name.1) (readText content)
  match v with
  | .object document => .ok document
  | _ => .error (.manifestNotObject name.1)

/-- A retained stream is reached without links, and is unchanged. -/
def checkStream (t : Disk) (destination : Path Name) (stream : RetainedStream) :
    Except ReplayError Unit := do
  let steps ← orElse (.streamAbsent stream.path) ((PurePath.ofText stream.path).parts.mapM step)
  let path := fun front => { destination with steps := destination.steps ++ front }
  require (!steps.inits.tail.any (fun front => t.isSymlink maxLinks H.cwd (path front)))
    (.streamRedirected stream.path)
  let content ← orElse (.streamAbsent stream.path) (t.contents maxLinks H.cwd (path steps))
  require ((H.sha256 content).1 = stream.sha256 && content.length = stream.sizeBytes)
    (.streamChanged stream.path)

/-- The recorded executable is a regular file, and is unchanged. -/
def checkExecutable (t : Disk) (receipt : SnapshotRunReceipt F) : Except ReplayError Unit := do
  let content ← orElse .executableAbsent (H.regular t receipt.executablePath)
  require ((H.sha256 content).1 = receipt.executableSha256) .executableChanged

/-- The receipt is about the snapshot, if one is given. -/
def checkSnapshot (t : Disk) (receipt : SnapshotRunReceipt F) :
    Option SourceSnapshot → Except ReplayError Unit
  | none => .ok ()
  | some snapshot => do
      verifySourceSnapshot H t snapshot
      require (receipt.commitSha = snapshot.commitSha &&
        receipt.snapshotSha256 = snapshot.sha256 &&
        receipt.snapshotSizeBytes = snapshot.sizeBytes) .otherSnapshot

/-- The recipe is the one of its commit, if a repository is given. -/
def checkCommitted (bound : BoundExecutionRecipe) : Option Git → Except ReplayError Unit
  | none => .ok ()
  | some git => do
      let observed ← (loadExecutionRecipe L git bound.commitSha bound.path true).mapError
        (fun _ => .cannotReload)
      require (observed.recipe.digest H.sha256 = bound.recipe.digest H.sha256)
        .otherCommittedRecipe

/-- `verify_snapshot_run` -/
def verifySnapshotRun (t : Disk) (destination : Path Name) (snapshot : Option SourceSnapshot)
    (repo : Option Git) : Except ReplayError (BoundExecutionRecipe × SnapshotRunReceipt F) := do
  require (!t.isSymlink maxLinks H.cwd destination && t.isDir maxLinks H.cwd destination)
    .destinationAbsent
  let recipeDocument ← loadJson H t destination recipeName
  let receiptDocument ← loadJson H t destination receiptName
  let evidence ← readManifest L H.sha256 recipeDocument receiptDocument
  checkStream H t destination evidence.2.stdout
  checkStream H t destination evidence.2.stderr
  checkExecutable H t evidence.2
  checkSnapshot H t evidence.2 snapshot
  checkCommitted L H evidence.1 repo
  .ok evidence

/-! ## Launching -/

/-- `_prepare_destination` -/
def prepareDestination (t : Disk) (destination : Path Name) :
    Except ReplayError (Disk × Loc Name) := do
  require (!t.isSymlink maxLinks H.cwd destination) .destinationIsLink
  let home ← orElse .osError (t.resolve H.cwd destination)
  let there := t.stat maxLinks H.cwd (Path.to home)
  require (there.found.isNone || t.isDir maxLinks H.cwd (Path.to home)) .destinationNotDirectory
  require (there.found.isNone || !t.hasChildren home) .destinationNotEmpty
  let t ← orElse .osError (t.mkdirs home)
  .ok (t, home)

/-- One member of an archive, below the directory. -/
def extractMember (root : Loc Name) (t : Disk) (m : TarMember) : Except ReplayError Disk := do
  let names ← orElse .cannotExtract ((PurePath.ofText m.name).parts.mapM
    (fun part => if h : isName part = true then some (⟨part, h⟩ : Name) else none))
  match m.kind with
  | .dir => orElse .cannotExtract (t.mkdirs (root ++ names))
  | .file content => do
      let t ← orElse .cannotExtract (t.mkdirs (root ++ names.dropLast))
      match t.entry (root ++ names) with
      | some .dir => .error .cannotExtract
      | _ => .ok (t.put (root ++ names) (.file content))
  | .other => .error .cannotExtract

/-- `_extract_snapshot` -/
def extractSnapshot (t : Disk) (archivePath : Str) (root : Loc Name) :
    Except ReplayError Disk := do
  let content ← orElse .cannotExtract
    ((path? archivePath).bind (t.contents maxLinks H.cwd))
  let members ← orElse .cannotExtract (H.getmembers content)
  members.forM (fun m => do
    require (!(PurePath.ofText m.name).rooted && !(PurePath.ofText m.name).climbs && m.name ≠ [])
      (.memberPath m.name)
    match m.kind with
    | .other => .error (.memberKind m.name)
    | _ => .ok ())
  members.foldlM (extractMember root) t

/-- `_resolve_cwd` -/
def resolveCwd (t : Disk) (root : Loc Name) (cwd : Str) : Except ReplayError (Loc Name) := do
  let relative := PurePath.ofText cwd
  require (!relative.rooted && !relative.climbs) .cwdEscapes
  let path ← orElse .valueError (path? cwd)
  let target ← orElse .osError
    (t.resolve H.cwd ⟨true, root.map .into ++ path.steps⟩)
  let realRoot ← orElse .osError (t.resolve H.cwd (Path.to root))
  require (realRoot.isPrefixOf target) .cwdOutside
  require (t.isDir maxLinks H.cwd (Path.to target)) (.cwdMissing cwd)
  .ok target

/-- `shutil.which`: a file of this name that can be executed, in a directory of `PATH`. -/
def which (t : Disk) (name : Str) : Option (Path Name) :=
  H.searchPath.findSome? (fun dir =>
    (path? (if dir = [] then name else dir ++ slash :: name)).filter (fun p =>
      match (t.stat maxLinks H.cwd p).found with
      | some (_, .dir) => false
      | some (loc, _) => H.executable t loc
      | none => false))

/-- The path whose real path is the executable. -/
def executableCandidate (t : Disk) (argv0 : Str) (cwd : Loc Name) :
    Except ReplayError (Path Name) :=
  if (PurePath.ofText argv0).rooted then
    orElse .valueError (path? argv0)
  else if slash ∈ argv0 ∨ cp '\\' ∈ argv0 then do
    let path ← orElse .valueError (path? argv0)
    .ok ⟨true, cwd.map .into ++ path.steps⟩
  else
    orElse (.executableUnavailable argv0) (which H t argv0)

/-- `_resolve_executable` -/
def resolveExecutable (t : Disk) (argv0 : Str) (cwd : Loc Name) :
    Except ReplayError (Loc Name) := do
  let candidate ← executableCandidate H t argv0 cwd
  let resolved ← orElse .osError (t.resolve H.cwd candidate)
  require (t.contents maxLinks H.cwd (Path.to resolved)).isSome .executableNotFile
  .ok resolved

/-- Where a command starts. -/
structure Launched where
  home : Loc Name
  cwd : Loc Name
  executable : Loc Name
  executableSha256 : Digest
  disk : Disk

/-- `run_snapshot_recipe`, up to the command. -/
def launch (t : Disk) (snapshot : SourceSnapshot) (bound : BoundExecutionRecipe)
    (destination : Path Name) : Except ReplayError Launched := do
  verifySourceSnapshot H t snapshot
  require (snapshot.commitSha = bound.commitSha) .snapshotCommit
  require (bound.recipe.secretEnv = []) .secretEnv
  let prepared ← prepareDestination H t destination
  let home := prepared.2
  let extracted := home ++ [workName, H.temporary]
  let t := (prepared.1.put (home ++ [workName]) .dir).put extracted .dir
  let t ← extractSnapshot H t snapshot.archivePath extracted
  let cwd ← resolveCwd H t extracted bound.recipe.cwd
  let argv0 ← orElse .valueError bound.recipe.argv.head?
  let executable ← resolveExecutable H t argv0 cwd
  let content ← orElse .osError (t.contents maxLinks H.cwd (Path.to executable))
  .ok
    { home := home
      cwd := cwd
      executable := executable
      executableSha256 := H.sha256 content
      disk := (t.put (home ++ [stdoutName]) (.file [])).put (home ++ [stderrName]) (.file []) }

/-! ## Running and recording -/

/-- `_retained_stream` -/
def retainedStream (t : Disk) (home : Loc Name) (name : Name) :
    Except ReplayError RetainedStream := do
  let content ← orElse .osError (t.contents maxLinks H.cwd ((Path.to home).child name))
  .ok ⟨name.1, (H.sha256 content).1, content.length⟩

/-- The command of a recipe. -/
def Launched.command (l : Launched) (r : ExecutionRecipe) : Command where
  argv := locText l.executable :: r.argv.tail
  cwd := l.cwd
  env := r.environment
  timeout := r.timeoutS

/-- The texts that are passed to the system can be encoded. -/
def Command.encodable (c : Command) : Bool :=
  (c.argv ++ c.env.map Prod.fst ++ c.env.map Prod.snd).all (fun text => text.all Files.encodable)

/-- `json.dumps(document, indent=2, sort_keys=True) + "\n"`, encoded. -/
def documentBytes (document : Members) : Bytes :=
  Lexical.Json.layOut (Lexical.Json.indented 2) 0 (.object document) ++ [0x0a]

/-- `atomic_json` -/
def atomicJson (t : Disk) (home : Loc Name) (name : Name) (document : Members) :
    Except ReplayError Disk :=
  orElse .osError (t.replaceIn maxLinks H.cwd (Path.to home) name (documentBytes document))

/-- A receipt and the files with the evidence. -/
structure Evidence (F : Type) where
  receipt : SnapshotRunReceipt F
  disk : Disk

/-- `run_snapshot_recipe`, from the command to the evidence. -/
def record (l : Launched) (snapshot : SourceSnapshot) (bound : BoundExecutionRecipe) :
    Except ReplayError (Evidence F) := do
  require (l.command bound.recipe).encodable .valueError
  let ended ← orElse .osError (H.run (l.command bound.recipe) l.disk)
  let recipeDigest ← orElse .valueError (bound.recipe.digest H.sha256)
  let stdout ← retainedStream H ended.1 l.home stdoutName
  let stderr ← retainedStream H ended.1 l.home stderrName
  let receipt : SnapshotRunReceipt F :=
    { commitSha := snapshot.commitSha
      snapshotSha256 := snapshot.sha256
      snapshotSizeBytes := snapshot.sizeBytes
      executionRecipeSha256 := recipeDigest.1
      executionRecipeCommitSha := bound.commitSha
      executionRecipePath := bound.path
      requestedCpus := bound.recipe.cpus
      requestedMemoryMb := bound.recipe.memoryMb
      resourceEnforcement := enforcement
      executablePath := locText l.executable
      executableSha256 := l.executableSha256.1
      exitCode := ended.2
      timedOut := ended.2.isNone
      durationS := H.duration
      stdout := stdout
      stderr := stderr
      schemaVersion := 1 }
  let recipeDocument ← orElse .valueError (boundRecipeDocument H.sha256 bound)
  let t ← atomicJson H ended.1 l.home recipeName recipeDocument
  let receiptDigest ← receipt.digest L H.sha256
  let receiptDocument ← orElse .valueError (receipt.document L (some receiptDigest))
  let t ← atomicJson H t l.home receiptName receiptDocument
  .ok ⟨receipt, t⟩

/-- `destination / ".work"` -/
def workPath (home : Loc Name) : Path Name :=
  (Path.to home).child workName

/-- What a call returns, and the files that it leaves. -/
structure Replayed (F : Type) where
  receipt : SnapshotRunReceipt F
  disk : Disk

/-- `run_snapshot_recipe` -/
def runSnapshotRecipe (t : Disk) (snapshot : SourceSnapshot) (bound : BoundExecutionRecipe)
    (destination : Path Name) : Except ReplayError (Replayed F) := do
  let l ← launch H t snapshot bound destination
  let evidence ← record L H l snapshot bound
  let _ ← verifySnapshotRun L H evidence.disk (Path.to l.home) (some snapshot) none
  .ok
    { receipt := evidence.receipt
      disk := evidence.disk.rmtree maxLinks H.cwd (workPath l.home) (H.deletes evidence.disk) }

end Operations

end Replay
end SwFactory
