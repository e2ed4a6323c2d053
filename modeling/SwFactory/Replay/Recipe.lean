import Mathlib.Data.List.Sort
import Mathlib.Data.List.Lex
import SwFactory.Files.Paths
import SwFactory.Lexical.JsonLayout
import SwFactory.Machine.Fallible

/-!
# Execution recipes

A recipe document is validated field by field.  The reader is used twice: on the
document that was committed, and on the one that a replay has retained.  What it
makes of the retained document of a recipe that it has admitted is that recipe.

Sources: `execution_recipe.py` and `security_contract.py` (`looks_secret_key`).
-/

namespace SwFactory
namespace Replay

open Files
open Lexical.Json (Str Value Members Items Literal word cp)
open Machine

abbrev Bytes :=
  List Nat

/-! ## What the language knows -/

/-- Characters, floats, and the built-in conversions of values of another type. -/
structure Language (F : Type) where
  isAlpha : Nat → Bool
  isAlnum : Nat → Bool
  upper : Str → Str
  /-- Equality of characters under `re.IGNORECASE`. -/
  alike : Nat → Nat → Bool
  float : Literal → F
  repr : F → Literal
  float_repr : ∀ x, float (repr x) = x
  /-- `x == 1` -/
  isOne : F → Bool
  /-- `x < 0` -/
  isNegative : F → Bool
  strOf : Value → Str
  intOf : Value → Option Int
  floatOf : Value → Option F
  truth : Value → Bool

/-- The digests of `hashlib.sha256`: 64 lowercase hexadecimal digits. -/
def isHex (c : Nat) : Bool :=
  (cp '0' ≤ c && c ≤ cp '9') || (cp 'a' ≤ c && c ≤ cp 'f')

def isSha (length : Nat) (text : Str) : Bool :=
  text.length == length && text.all isHex

abbrev Digest :=
  { text : Str // isSha 64 text = true }

/-! ## Secret names -/

/-- `word in text`, for characters that are compared by `same`. -/
def contains (same : Nat → Nat → Bool) (word text : Str) : Bool :=
  text.tails.any (fun rest =>
    word.length ≤ rest.length && (word.zip rest).all (fun pair => same pair.1 pair.2))

/-- `_SECRET_KEY` -/
def secretWords : List Str :=
  ["token", "secret", "password", "passwd", "apikey", "api_key", "api-key", "accesskey",
    "access_key", "access-key", "privatekey", "private_key", "private-key", "credential",
    "authorization", "cookie"].map word

section Secrets

variable {F : Type}
variable (L : Language F)

/-- `looks_secret_key` -/
def looksSecretKey (key : Str) : Bool :=
  secretWords.any (fun w => contains L.alike w key) ||
    ["_TOKEN", "_SECRET", "_PASSWORD"].any (fun w => (word w).isSuffixOf (L.upper key))

/-- `_legacy_looks_secret` -/
def legacyLooksSecret (name : Str) : Bool :=
  ["TOKEN", "SECRET", "PASSWORD", "PASSWD", "CREDENTIAL", "API_KEY"].any
    (fun w => contains (· == ·) (word w) (L.upper name))

end Secrets

/-! ## The recipe -/

structure ExecutionRecipe where
  argv : List Str
  cwd : Str
  timeoutS : Int
  cpus : Int
  memoryMb : Int
  environment : List (Str × Str)
  secretEnv : List Str
  schemaVersion : Int
deriving DecidableEq

structure BoundExecutionRecipe where
  commitSha : Str
  path : Str
  recipe : ExecutionRecipe
  schemaVersion : Int
deriving DecidableEq

/-- Why a recipe is refused. -/
inductive RecipeError
  | revision
  | git
  | tooLong
  | notJson
  | notObject
  | unknownFields (names : List Str)
  | schemaVersion
  | argv
  | argument
  | cwd
  | path
  | pathEscapes (path : Str)
  | timeout
  | resources
  | cpus
  | memory
  | environment
  | emptyName
  | invalidName (name : Str)
  | environmentValue (name : Str)
  | secretName (name : Str)
  | secretEnv
  | secretEnvRetired
deriving DecidableEq

/-- A character that ends a text or a line. -/
def isBreak (c : Nat) : Bool :=
  c == 0 || c == 0x0a || c == 0x0d

/-- `path.replace("\\", "/")` -/
def unixed (path : Str) : Str :=
  path.map (fun c => if c = cp '\\' then slash else c)

/-- `_validate_repo_path` -/
def validateRepoPath (path : Str) : Except RecipeError Str :=
  if path = [] ∨ path.any isBreak then
    .error .path
  else
    let candidate := PurePath.ofText (unixed path)
    if candidate.rooted || candidate.climbs then
      .error (.pathEscapes path)
    else
      let normalized :=
        if [dot, slash].isPrefixOf candidate.text then candidate.text.drop 2 else candidate.text
      .ok (if normalized = [] then [dot] else normalized)

/-- `a <= b` for two pairs of texts. -/
def Before (a b : Str × Str) : Prop :=
  a.1 < b.1 ∨ (a.1 = b.1 ∧ a.2 ≤ b.2)

instance : DecidableRel Before :=
  fun _ _ => inferInstanceAs (Decidable (_ ∨ _))

/-- `tuple(sorted(environment))` -/
def sortedEnvironment (environment : List (Str × Str)) : List (Str × Str) :=
  environment.insertionSort Before

/-- `document.get("schema_version") == 1` -/
def isOne {F : Type} (L : Language F) : Option Value → Bool
  | some (.number literal) =>
      match literal.toInt? with
      | some n => n = 1
      | none => L.isOne (L.float literal)
  | some (.bool b) => b
  | _ => false

section Reader

variable {F : Type}
variable (L : Language F)
variable (retained : Bool)

def readArgv : Option Value → Except RecipeError (List Str)
  | some (.array (.cons v tail)) =>
      (v :: tail.toList).mapM
        (fun item =>
          match item with
          | .string text => if text = [] ∨ text.any isBreak then .error .argument else .ok text
          | _ => .error .argument)
  | _ => .error .argv

def readCwd : Option Value → Except RecipeError Str
  | none => validateRepoPath [dot]
  | some (.string cwd) => validateRepoPath cwd
  | some _ => .error .cwd

/-- An integer between two bounds; a Boolean is none. -/
def readInt (least most : Int) (error : RecipeError) : Option Value → Except RecipeError Int
  | some (.number literal) =>
      match literal.toInt? with
      | some n => if least ≤ n ∧ n ≤ most then .ok n else .error error
      | none => .error error
  | _ => .error error

def readTimeout : Option Value → Except RecipeError Int :=
  readInt 1 86400 .timeout

def readResources : Option Value → Except RecipeError (Int × Int)
  | some (.object resources) =>
      if resources.entries.all (fun e => e.1 = word "cpus" ∨ e.1 = word "memory_mb") ∧
          (resources.get? (word "cpus")).isSome ∧ (resources.get? (word "memory_mb")).isSome then do
        let cpus ← readInt 1 128 .cpus (resources.get? (word "cpus"))
        let memoryMb ← readInt 128 1048576 .memory (resources.get? (word "memory_mb"))
        .ok (cpus, memoryMb)
      else
        .error .resources
  | _ => .error .resources

/-- `_validate_env_name` -/
def validateEnvName : Str → Except RecipeError Unit
  | [] => .error .emptyName
  | c :: rest =>
      if (L.isAlpha c || c == cp '_') && (c :: rest).all (fun c => L.isAlnum c || c == cp '_') then
        .ok ()
      else
        .error (.invalidName (c :: rest))

/-- The rule for secret names that is in force. -/
def looksSecret (name : Str) : Bool :=
  if retained then legacyLooksSecret L name else looksSecretKey L name

def readVariable (item : Str × Value) : Except RecipeError (Str × Str) := do
  validateEnvName L item.1
  match item.2 with
  | .string text =>
      if text.contains 0 then
        .error (.environmentValue item.1)
      else if looksSecret L retained item.1 then
        .error (.secretName item.1)
      else
        .ok (item.1, text)
  | _ => .error (.environmentValue item.1)

/-- The items of a dictionary: its members, inserted in order. -/
def itemsOf (ms : Members) : List (Str × Value) :=
  (Members.nil.into ms).entries

def readEnvironment : Option Value → Except RecipeError (List (Str × Str))
  | none => .ok []
  | some (.object environment) =>
      (itemsOf environment).mapM (readVariable L retained) >>= fun pairs =>
        .ok (sortedEnvironment pairs)
  | some _ => .error .environment

def readSecretEnv : Option Value → Except RecipeError (List Str)
  | none => .ok []
  | some (.array .nil) => .ok []
  | some (.array (.cons _ _)) => .error .secretEnvRetired
  | some _ => .error .secretEnv

/-- The fields of a recipe document. -/
def allowed : List Str :=
  ["schema_version", "argv", "cwd", "timeout_s", "resources", "environment", "secret_env"].map word

/-- `parse_execution_recipe` -/
def parseExecutionRecipe : Value → Except RecipeError ExecutionRecipe
  | .object document =>
      let unknown := (document.entries.map Prod.fst).filter (fun key => key ∉ allowed)
      if unknown ≠ [] then
        .error (.unknownFields (unknown.insertionSort (· ≤ ·)))
      else if !isOne L (document.get? (word "schema_version")) then
        .error .schemaVersion
      else do
        let argv ← readArgv (document.get? (word "argv"))
        let cwd ← readCwd (document.get? (word "cwd"))
        let timeoutS ← readTimeout (document.get? (word "timeout_s"))
        let resources ← readResources (document.get? (word "resources"))
        let environment ← readEnvironment L retained (document.get? (word "environment"))
        let secretEnv ← readSecretEnv (document.get? (word "secret_env"))
        .ok
          { argv := argv
            cwd := cwd
            timeoutS := timeoutS
            cpus := resources.1
            memoryMb := resources.2
            environment := environment
            secretEnv := secretEnv
            schemaVersion := 1 }
  | _ => .error .notObject

end Reader

/-! ## Loading -/

/-- What `git` and the decoder of `json.loads` answer in a repository. -/
structure Git where
  revParse : Str → Option Str
  blob : Str → Option Bytes
  decode : Bytes → Option Str

/-- A missing answer is an error. -/
def orElse {ε α : Type} (error : ε) : Option α → Except ε α
  | some a => .ok a
  | none => .error error

/-- `_validate_revision` -/
def validateRevision (revision : Str) : Except RecipeError Unit :=
  if revision = [] ∨ revision.head? = some (cp '-') ∨ revision.any isBreak then
    .error .revision
  else
    .ok ()

/-- `load_execution_recipe` -/
def loadExecutionRecipe {F : Type} (L : Language F) (git : Git) (revision path : Str)
    (retained : Bool) : Except RecipeError BoundExecutionRecipe := do
  validateRevision revision
  let normalized ← validateRepoPath path
  let commit ← orElse .git (git.revParse (revision ++ word "^{commit}"))
  -- An argument that cannot be encoded is not passed to `git`.
  let object ← orElse .git
    (if (commit ++ cp ':' :: normalized).all encodable then some (commit ++ cp ':' :: normalized)
      else none)
  let raw ← orElse .git (git.blob object)
  if 64 * 1024 < raw.length then
    .error .tooLong
  else do
    let document ← orElse .notJson ((git.decode raw).bind Lexical.Json.loads)
    let recipe ← parseExecutionRecipe L retained document
    .ok ⟨commit, normalized, recipe, 1⟩

/-! ## Documents -/

/-- `json.dumps(document, sort_keys=True, separators=(",", ":"))`, of a document in order. -/
def payload (document : Members) : Bytes :=
  Lexical.Json.layOut Lexical.Json.compact 0 (.object document)

def texts (ts : List Str) : Value :=
  .array (Items.ofList (ts.map .string))

/-- `dict(environment)`, in the order of its keys. -/
def environmentMembers (environment : List (Str × Str)) : Members :=
  Members.ofList
    ((itemsOf (Members.ofList (environment.map (fun e => (e.1, .string e.2))))).insertionSort
      (fun a b => a.1 ≤ b.1))

/-- `asdict`, in the order of its keys. -/
def ExecutionRecipe.asdict (r : ExecutionRecipe) : Option Members := do
  let cpus ← Lexical.Json.intLiteral r.cpus
  let memoryMb ← Lexical.Json.intLiteral r.memoryMb
  let schemaVersion ← Lexical.Json.intLiteral r.schemaVersion
  let timeoutS ← Lexical.Json.intLiteral r.timeoutS
  some <| Members.ofList
    [(word "argv", texts r.argv),
      (word "cpus", .number cpus),
      (word "cwd", .string r.cwd),
      (word "environment",
        .array (Items.ofList (r.environment.map (fun e => texts [e.1, e.2])))),
      (word "memory_mb", .number memoryMb),
      (word "schema_version", .number schemaVersion),
      (word "secret_env", texts r.secretEnv),
      (word "timeout_s", .number timeoutS)]

/-- `ExecutionRecipe.digest` -/
def ExecutionRecipe.digest (sha256 : Bytes → Digest) (r : ExecutionRecipe) : Option Digest :=
  r.asdict.map (fun document => sha256 (payload document))

/-- The recipe in the document of a bound recipe, in the order of its keys. -/
def ExecutionRecipe.document (r : ExecutionRecipe) : Option Members := do
  let cpus ← Lexical.Json.intLiteral r.cpus
  let memoryMb ← Lexical.Json.intLiteral r.memoryMb
  let schemaVersion ← Lexical.Json.intLiteral r.schemaVersion
  let timeoutS ← Lexical.Json.intLiteral r.timeoutS
  some <| Members.ofList
    [(word "argv", texts r.argv),
      (word "cwd", .string r.cwd),
      (word "environment", .object (environmentMembers r.environment)),
      (word "resources",
        .object (Members.ofList
          [(word "cpus", .number cpus), (word "memory_mb", .number memoryMb)])),
      (word "schema_version", .number schemaVersion),
      (word "secret_env", texts r.secretEnv),
      (word "timeout_s", .number timeoutS)]

/-- `_bound_recipe_document`, in the order of its keys. -/
def boundRecipeDocument (sha256 : Bytes → Digest) (b : BoundExecutionRecipe) :
    Option Members := do
  let recipe ← b.recipe.document
  let schemaVersion ← Lexical.Json.intLiteral b.schemaVersion
  let digest ← b.recipe.digest sha256
  some <| Members.ofList
    [(word "commit_sha", .string b.commitSha),
      (word "digest", .string digest.1),
      (word "path", .string b.path),
      (word "recipe", .object recipe),
      (word "schema_version", .number schemaVersion)]

end Replay
end SwFactory
