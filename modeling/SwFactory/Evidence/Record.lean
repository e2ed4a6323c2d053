import Mathlib.Data.Finmap
import SwFactory.Text

/-!
# Lifecycle evidence: envelopes and records

A record of evidence is a JSON object: the fields of an envelope, the digest
of the record in front of it, and its own digest.  A Python `dict` compares
without regard to the order of its keys, so a record is a finite map.

Source: `lifecycle_evidence.py` (`TraceContext`, `EvidenceEnvelope`,
`EvidenceWriter.append`) and `security_contract.py` (`redact`).
-/

namespace SwFactory
namespace Evidence

open Text

/-- A JSON value.  A float is given by its bits, an object in key order. -/
inductive Json
  | null
  | bool (value : Bool)
  | int (value : Int)
  | float (bits : BitVec 64)
  | text (value : String)
  | array (items : List Json)
  | object (entries : List (String × Json))

/--
What a payload can hold.  A key of a mapping is given by its `str`, which is
all that `redact` reads of it; `other` is a value JSON has no form for.
-/
inductive Value
  | none
  | bool (value : Bool)
  | int (value : Int)
  | float (bits : BitVec 64)
  | text (value : String)
  | list (items : List Value)
  | tuple (items : List Value)
  | mapping (entries : List (String × Value))
  | other

/-- A `dict` with text keys. -/
abbrev Record :=
  Finmap (fun _ : String => Json)

/--
What the evidence code calls: SHA-256 as a hex digest, JSON in its canonical
form (sorted keys, no blanks, no NaN), and the two patterns of the redaction.
-/
structure Codec where
  sha256 : String → String
  dumps : Record → String
  loads : String → Option Record
  redactText : String → String
  looksSecretKey : String → Bool

/-- `REDACTED`. -/
def REDACTED : String := "[REDACTED]"

mutual

/-- `redact`. -/
def redact (C : Codec) (key : Option String) (value : Value) : Value :=
  if key.any C.looksSecretKey then
    .text REDACTED
  else
    match value with
    | .mapping entries => .mapping (redactEntries C entries)
    | .list items => .list (redactItems C items)
    | .tuple items => .tuple (redactItems C items)
    | .text text => .text (C.redactText text)
    | .none => .none
    | .bool b => .bool b
    | .int n => .int n
    | .float x => .float x
    | .other => .other

/-- `redact(item) for item in value`. -/
def redactItems (C : Codec) : List Value → List Value
  | [] => []
  | item :: items => redact C none item :: redactItems C items

/-- `{str(k): redact(v, key=str(k)) for k, v in value.items()}`. -/
def redactEntries (C : Codec) : List (String × Value) → List (String × Value)
  | [] => []
  | (k, v) :: entries => (k, redact C (some k) v) :: redactEntries C entries

end

/-- Assign a key of an object that stands in key order. -/
def assign (key : String) (value : Json) :
    List (String × Json) → List (String × Json)
  | [] => [(key, value)]
  | (k, v) :: entries =>
      if key < k then
        (key, value) :: (k, v) :: entries
      else if key = k then
        (key, value) :: entries
      else
        (k, v) :: assign key value entries

/-- The exponent of a NaN or of an infinity, which `allow_nan=False` refuses. -/
def isFinite (bits : BitVec 64) : Bool :=
  bits.extractLsb 62 52 != BitVec.allOnes 11

mutual

/-- The JSON form of a value: a tuple is an array, an object has sorted keys. -/
def asJson : Value → Option Json
  | .none => some .null
  | .bool b => some (.bool b)
  | .int n => some (.int n)
  | .float x => if isFinite x then some (.float x) else none
  | .text s => some (.text s)
  | .list items => (asJsonItems items).map .array
  | .tuple items => (asJsonItems items).map .array
  | .mapping entries => (asJsonEntries entries []).map .object
  | .other => none

def asJsonItems : List Value → Option (List Json)
  | [] => some []
  | item :: items => do
      let first ← asJson item
      let rest ← asJsonItems items
      return first :: rest

def asJsonEntries :
    List (String × Value) → List (String × Json) →
      Option (List (String × Json))
  | [], done => some done
  | (k, v) :: entries, done => do
      let value ← asJson v
      asJsonEntries entries (assign k value done)

end

/-- `TraceContext`. -/
structure TraceContext where
  traceId : String
  spanId : String

/-- `TraceContext.for_cell` with its default identity. -/
def TraceContext.forCell (C : Codec) (cellId : String) (epoch : Int)
    (kind : String) : TraceContext :=
  let trace := truncate 32
    (C.sha256 ("trace\x00" ++ cellId ++ "\x00" ++ toString epoch))
  let span := truncate 16
    (C.sha256 ("span\x00" ++ trace ++ "\x00" ++ kind ++ "\x00" ++ ""))
  ⟨trace, span⟩

/-- The arguments of one `append`, and the clock it reads. -/
structure Append where
  cellId : String
  epoch : Int
  kind : String
  payload : List (String × Value)
  policyDigest : Option String := none
  trace : Option TraceContext := none
  now : BitVec 64

/-- The exceptions of `append`. -/
inductive EvidenceError
  /-- `ValueError("evidence epoch must be positive")`. -/
  | epochNotPositive
  /-- `json.dumps` refuses the body. -/
  | notSerializable
  /-- `json.loads` refuses the last line of the file. -/
  | decodeError
deriving DecidableEq, Repr

/-- `value or None` of a text, as a JSON value. -/
def orNull (value : String) : Json :=
  if value = "" then .null else .text value

/-- `asdict(envelope)`, with the payload in its JSON form. -/
def fields (call : Append) (trace : TraceContext) (payload : Json) : Record :=
  List.toFinmap [
    ⟨"schema_version", .int 1⟩,
    ⟨"cell_id", .text call.cellId⟩,
    ⟨"epoch", .int call.epoch⟩,
    ⟨"policy_digest", call.policyDigest.elim .null .text⟩,
    ⟨"trace_id", .text trace.traceId⟩,
    ⟨"span_id", .text trace.spanId⟩,
    ⟨"kind", .text call.kind⟩,
    ⟨"payload", payload⟩,
    ⟨"at", .float call.now⟩]

/-- The checks of `append` and its envelope, as the body of the record. -/
def envelope (C : Codec) (call : Append) : Except EvidenceError Record :=
  if call.epoch < 1 then
    .error .epochNotPositive
  else
    let trace := call.trace.getD
      (TraceContext.forCell C call.cellId call.epoch call.kind)
    match asJson (redact C none (.mapping call.payload)) with
    | none => .error .notSerializable
    | some payload => .ok (fields call trace payload)

/-- `record.get(key)`. -/
def Record.get (record : Record) (key : String) : Json :=
  (record.lookup key).getD .null

/-- All fields other than `previous_digest` and `digest`. -/
def Record.body (record : Record) : Record :=
  (record.erase "previous_digest").erase "digest"

/-- `hashlib.sha256((previous + "\0" + canonical).encode()).hexdigest()`. -/
def digestOf (C : Codec) (previous : String) (body : Record) : String :=
  C.sha256 (previous ++ "\x00" ++ C.dumps body)

/-- `{**body, "previous_digest": previous or None, "digest": digest}`. -/
def sealed (C : Codec) (previous : String) (body : Record) : Record :=
  (body.insert "previous_digest" (orNull previous)).insert "digest"
    (.text (digestOf C previous body))

/-- A body has no field of the chain. -/
def IsBody (body : Record) : Prop :=
  body.lookup "previous_digest" = none ∧ body.lookup "digest" = none

theorem isBody_fields (call : Append) (trace : TraceContext) (payload : Json) :
    IsBody (fields call trace payload) := by
  constructor <;> rfl

theorem envelope_isBody {C : Codec} {call : Append} {body : Record}
    (h : envelope C call = .ok body) : IsBody body := by
  unfold envelope at h
  split at h
  · cases h
  · dsimp only at h
    split at h
    · cases h
    · cases h
      exact isBody_fields _ _ _

variable {C : Codec} {previous : String} {body : Record}

@[simp] theorem sealed_digest :
    (sealed C previous body).get "digest" =
      .text (digestOf C previous body) := by
  simp [Record.get, sealed]

@[simp] theorem sealed_previous :
    (sealed C previous body).get "previous_digest" = orNull previous := by
  simp [Record.get, sealed, Finmap.lookup_insert_of_ne]

/-- The body of a sealed body is the body. -/
theorem body_sealed (h : IsBody body) :
    (sealed C previous body).body = body := by
  apply Finmap.ext_lookup
  intro key
  unfold Record.body sealed
  by_cases hdigest : key = "digest"
  · subst hdigest
    rw [Finmap.lookup_erase, h.2]
  · rw [Finmap.lookup_erase_ne hdigest]
    by_cases hprevious : key = "previous_digest"
    · subst hprevious
      rw [Finmap.lookup_erase, h.1]
    · rw [Finmap.lookup_erase_ne hprevious,
        Finmap.lookup_insert_of_ne _ hdigest,
        Finmap.lookup_insert_of_ne _ hprevious]

end Evidence
end SwFactory
