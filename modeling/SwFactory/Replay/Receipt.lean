import SwFactory.Replay.Recipe

/-!
# The receipt of a replay

A receipt is validated before it is written and before its digest is compared.  The
two documents of a replay are read without the files: `readManifest` takes the
recipe and the receipt out of them, and compares their digests.

Source: `snapshot_replay.py` (`RetainedStream`, `SnapshotRunReceipt` and the first
part of `verify_snapshot_run`).
-/

namespace SwFactory
namespace Replay

open Files
open Lexical.Json (Str Value Members Items Literal word cp intLiteral)
open Machine

structure RetainedStream where
  path : Str
  sha256 : Str
  sizeBytes : Int
deriving DecidableEq

structure SnapshotRunReceipt (F : Type) where
  commitSha : Str
  snapshotSha256 : Str
  snapshotSizeBytes : Int
  executionRecipeSha256 : Str
  executionRecipeCommitSha : Str
  executionRecipePath : Str
  requestedCpus : Int
  requestedMemoryMb : Int
  resourceEnforcement : Str
  executablePath : Str
  executableSha256 : Str
  exitCode : Option Int
  timedOut : Bool
  durationS : F
  stdout : RetainedStream
  stderr : RetainedStream
  schemaVersion : Int
deriving DecidableEq

/-- Why a replay or its evidence is refused. -/
inductive ReplayError
  -- `validate`
  | streamPath (path : Str)
  | streamDigest
  | streamSize
  | receiptSchema (version : Int)
  | gitSha (label : String)
  | digest (label : String)
  | commitsDiffer
  | snapshotSize
  | resourceRequest
  | enforcement
  | emptyRecipePath
  | exitCodeAfterTimeout
  | noExitCode
  | negativeDuration
  -- `run_snapshot_recipe`
  | snapshotCommit
  | secretEnv
  | destinationIsLink
  | destinationNotDirectory
  | destinationNotEmpty
  | memberPath (name : Str)
  | memberKind (name : Str)
  | cannotExtract
  | cwdEscapes
  | cwdOutside
  | cwdMissing (cwd : Str)
  | executableUnavailable (argv0 : Str)
  | executableNotFile
  -- `verify_source_snapshot`
  | snapshotAbsent
  | snapshotIntegrity
  -- `verify_snapshot_run`
  | destinationAbsent
  | manifestAbsent (name : Str)
  | manifestUnreadable (name : Str)
  | manifestNotObject (name : Str)
  | invalidManifest
  | recipeDigest
  | receiptDigest
  | otherRecipe
  | recipeCommit
  | recipePath
  | streamRedirected (path : Str)
  | streamAbsent (path : Str)
  | streamChanged (path : Str)
  | executableAbsent
  | executableChanged
  | otherSnapshot
  | cannotReload
  | otherCommittedRecipe
  -- Exceptions of the system and of the language.
  | osError
  | valueError
deriving DecidableEq

/-- `if not ok: raise error` -/
def require (ok : Bool) (error : ReplayError) : Except ReplayError Unit :=
  if ok then .ok () else .error error

/-! ## Validation -/

def RetainedStream.validate (s : RetainedStream) : Except ReplayError Unit := do
  require (!(PurePath.ofText s.path).rooted && !(PurePath.ofText s.path).climbs)
    (.streamPath s.path)
  require (isSha 64 s.sha256) .streamDigest
  require (0 ≤ s.sizeBytes) .streamSize

/-- `resource_enforcement` of a local replay. -/
def enforcement : Str :=
  word "declared-not-enforced-local"

section Receipts

variable {F : Type}
variable (L : Language F)
variable (sha256 : Bytes → Digest)

def SnapshotRunReceipt.validate (r : SnapshotRunReceipt F) : Except ReplayError Unit := do
  require (r.schemaVersion = 1) (.receiptSchema r.schemaVersion)
  require (isSha 40 r.commitSha) (.gitSha "commit")
  require (isSha 40 r.executionRecipeCommitSha) (.gitSha "recipe commit")
  require (isSha 64 r.snapshotSha256) (.digest "snapshot")
  require (isSha 64 r.executionRecipeSha256) (.digest "execution recipe")
  require (isSha 64 r.executableSha256) (.digest "executable")
  require (r.commitSha = r.executionRecipeCommitSha) .commitsDiffer
  require (0 < r.snapshotSizeBytes) .snapshotSize
  require (0 < r.requestedCpus && 0 < r.requestedMemoryMb) .resourceRequest
  require (r.resourceEnforcement = enforcement) .enforcement
  require (r.executionRecipePath ≠ []) .emptyRecipePath
  require (!r.timedOut || r.exitCode.isNone) .exitCodeAfterTimeout
  require (r.timedOut || r.exitCode.isSome) .noExitCode
  require (!L.isNegative r.durationS) .negativeDuration
  r.stdout.validate
  r.stderr.validate

/-! ## Documents -/

/-- `asdict` of a stream, in the order of its keys. -/
def RetainedStream.document (s : RetainedStream) : Option Members := do
  let size ← intLiteral s.sizeBytes
  some <| Members.ofList
    [(word "path", .string s.path),
      (word "sha256", .string s.sha256),
      (word "size_bytes", .number size)]

def exitValue : Option Int → Option Value
  | none => some .null
  | some n => (intLiteral n).map .number

/-- The fields in the order of their keys, with the digest of the receipt if there is one. -/
def SnapshotRunReceipt.document (r : SnapshotRunReceipt F) (digest : Option Digest) :
    Option Members := do
  let exitCode ← exitValue r.exitCode
  let cpus ← intLiteral r.requestedCpus
  let memoryMb ← intLiteral r.requestedMemoryMb
  let schemaVersion ← intLiteral r.schemaVersion
  let size ← intLiteral r.snapshotSizeBytes
  let stderr ← r.stderr.document
  let stdout ← r.stdout.document
  some <| Members.ofList <|
    [(word "commit_sha", .string r.commitSha),
      (word "duration_s", .number (L.repr r.durationS)),
      (word "executable_path", .string r.executablePath),
      (word "executable_sha256", .string r.executableSha256),
      (word "execution_recipe_commit_sha", .string r.executionRecipeCommitSha),
      (word "execution_recipe_path", .string r.executionRecipePath),
      (word "execution_recipe_sha256", .string r.executionRecipeSha256),
      (word "exit_code", exitCode)] ++
    digest.toList.map (fun d => (word "receipt_digest", .string d.1)) ++
    [(word "requested_cpus", .number cpus),
      (word "requested_memory_mb", .number memoryMb),
      (word "resource_enforcement", .string r.resourceEnforcement),
      (word "schema_version", .number schemaVersion),
      (word "snapshot_sha256", .string r.snapshotSha256),
      (word "snapshot_size_bytes", .number size),
      (word "stderr", .object stderr),
      (word "stdout", .object stdout),
      (word "timed_out", .bool r.timedOut)]

/-- `canonical_dict` -/
def SnapshotRunReceipt.canonicalDict (r : SnapshotRunReceipt F) : Except ReplayError Members := do
  r.validate L
  orElse .valueError (r.document L none)

/-- `digest` -/
def SnapshotRunReceipt.digest (r : SnapshotRunReceipt F) : Except ReplayError Digest :=
  (r.canonicalDict L).map (fun document => sha256 (payload document))

/-! ## Reading -/

def required (document : Members) (key : String) : Except ReplayError Value :=
  orElse .invalidManifest (document.get? (word key))

/-- `str(value)` -/
def asStr : Value → Str
  | .string text => text
  | v => L.strOf v

/-- `int(value)` -/
def asInt : Value → Except ReplayError Int
  | .number literal =>
      match literal.toInt? with
      | some n => .ok n
      | none => orElse .invalidManifest (L.intOf (.number literal))
  | v => orElse .invalidManifest (L.intOf v)

/-- `float(value)` -/
def asFloat : Value → Except ReplayError F
  | .number literal => .ok (L.float literal)
  | v => orElse .invalidManifest (L.floatOf v)

/-- `bool(value)` -/
def asBool : Value → Bool
  | .bool b => b
  | v => L.truth v

/-- `int(document.get("schema_version", 1))` -/
def readVersion (document : Members) : Except ReplayError Int :=
  match document.get? (word "schema_version") with
  | none => .ok 1
  | some v => asInt L v

/-- `RetainedStream(**value)` -/
def readStream : Value → Except ReplayError RetainedStream
  | .object stream =>
      match stream.get? (word "path"), stream.get? (word "sha256"),
        stream.get? (word "size_bytes") with
      | some (.string path), some (.string sha256), some (.number size) =>
          match size.toInt? with
          | some n =>
              if stream.entries.length = 3 then .ok ⟨path, sha256, n⟩ else .error .invalidManifest
          | none => .error .invalidManifest
      | _, _, _ => .error .invalidManifest
  | _ => .error .invalidManifest

/-- `None if value is None else int(value)` -/
def readExitCode : Option Value → Except ReplayError (Option Int)
  | none => .ok none
  | some .null => .ok none
  | some v => (asInt L v).map some

def readBound (document : Members) : Except ReplayError BoundExecutionRecipe := do
  let recipe ← required document "recipe"
  match recipe with
  | .object fields => do
      let fields := Members.ofList (fields.entries.filter (fun e => e.1 ≠ word "digest"))
      let recipe ← (parseExecutionRecipe L true (.object fields)).mapError (fun _ => .invalidManifest)
      let commitSha ← required document "commit_sha"
      let path ← required document "path"
      let schemaVersion ← readVersion L document
      .ok ⟨asStr L commitSha, asStr L path, recipe, schemaVersion⟩
  | _ => .error .invalidManifest

def readReceipt (document : Members) : Except ReplayError (SnapshotRunReceipt F) := do
  let commitSha ← required document "commit_sha"
  let snapshotSha256 ← required document "snapshot_sha256"
  let snapshotSizeBytes ← required document "snapshot_size_bytes" >>= asInt L
  let executionRecipeSha256 ← required document "execution_recipe_sha256"
  let executionRecipeCommitSha ← required document "execution_recipe_commit_sha"
  let executionRecipePath ← required document "execution_recipe_path"
  let requestedCpus ← required document "requested_cpus" >>= asInt L
  let requestedMemoryMb ← required document "requested_memory_mb" >>= asInt L
  let resourceEnforcement ← required document "resource_enforcement"
  let executablePath ← required document "executable_path"
  let executableSha256 ← required document "executable_sha256"
  let exitCode ← readExitCode L (document.get? (word "exit_code"))
  let timedOut ← required document "timed_out"
  let durationS ← required document "duration_s" >>= asFloat L
  let stdout ← required document "stdout" >>= readStream
  let stderr ← required document "stderr" >>= readStream
  let schemaVersion ← readVersion L document
  .ok
    { commitSha := asStr L commitSha
      snapshotSha256 := asStr L snapshotSha256
      snapshotSizeBytes := snapshotSizeBytes
      executionRecipeSha256 := asStr L executionRecipeSha256
      executionRecipeCommitSha := asStr L executionRecipeCommitSha
      executionRecipePath := asStr L executionRecipePath
      requestedCpus := requestedCpus
      requestedMemoryMb := requestedMemoryMb
      resourceEnforcement := asStr L resourceEnforcement
      executablePath := asStr L executablePath
      executableSha256 := asStr L executableSha256
      exitCode := exitCode
      timedOut := asBool L timedOut
      durationS := durationS
      stdout := stdout
      stderr := stderr
      schemaVersion := schemaVersion }

/-- The value is this text. -/
def isText (text : Str) : Option Value → Bool
  | some (.string t) => t == text
  | _ => false

/-- The part of `verify_snapshot_run` that reads and compares the two documents. -/
def readManifest (recipeDocument receiptDocument : Members) :
    Except ReplayError (BoundExecutionRecipe × SnapshotRunReceipt F) := do
  let bound ← readBound L recipeDocument
  let receipt ← readReceipt L receiptDocument
  let recipeDigest ← orElse .valueError (bound.recipe.digest sha256)
  require (isText recipeDigest.1 (recipeDocument.get? (word "digest"))) .recipeDigest
  let receiptDigest ← receipt.digest L sha256
  require (isText receiptDigest.1 (receiptDocument.get? (word "receipt_digest"))) .receiptDigest
  require (receipt.executionRecipeSha256 = recipeDigest.1) .otherRecipe
  require (receipt.executionRecipeCommitSha = bound.commitSha) .recipeCommit
  require (receipt.executionRecipePath = bound.path) .recipePath
  .ok (bound, receipt)

end Receipts

end Replay
end SwFactory
