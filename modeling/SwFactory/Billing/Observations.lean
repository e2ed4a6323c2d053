import Mathlib.Algebra.Order.Field.Rat
import SwFactory.Lexical.Utf8
import SwFactory.Machine.Dicts
import SwFactory.Text

/-!
# Billing observations

What a person attests about the bill of one call, the descriptor that the factory
wrote before it launched the call, and the rows of the call ledger as the import
reads them.  A finite float is the rational that it is.  The codecs of the
language are parameters: the reader of a JSON object, the float that is nearest to
an integer, and the instant of an ISO timestamp.

Sources: `call_observations.py`, `call_accounting.py` (`CallLedger.records`),
`sandbox_governance.py` (`SandboxIdentity.from_labels`).
-/

namespace SwFactory
namespace Billing

open Machine

/-- The bytes of a file. -/
abbrev Bytes := List Nat

inductive Failure
  /-- `ValueError`, and what else validation raises -/
  | invalid (message : String)
  /-- `ReconciliationRefused` -/
  | refused (message : String)
  /-- `RunBusyError` -/
  | busy
  /-- `OSError` of the operator's file -/
  | unreadable
deriving DecidableEq, Repr

/-! ## JSON values -/

/-- A member of a JSON object, as far as a validator looks at it. -/
inductive Scalar
  | null
  | bool (value : Bool)
  | int (value : Int)
  | float (value : Rat)
  | text (value : String)
  /-- an array or an object -/
  | other
deriving DecidableEq

abbrev Document := Dict String Scalar

/-- What the language reads and rounds for the import. -/
structure Codec where
  /-- `_json_object` of UTF-8 text; `none` stands for its `ValueError` -/
  object : Bytes → Option Document
  /-- `float(n)`; `none` stands for an overflow -/
  nearest : Int → Option Rat
  /-- `datetime.fromisoformat`: invalid, naive, or the timestamp of an instant -/
  instant : String → Option (Option Rat)
  /-- `int(text)` -/
  integer : String → Option Int

/-- A finite number that is not negative, of type `int` or `float`. -/
def Codec.amount (codec : Codec) : Scalar → Option Rat
  | .int n => (codec.nearest n).filter (fun q => decide (0 ≤ q))
  | .float q => if 0 ≤ q then some q else none
  | _ => none

/-- An amount that may be missing. -/
def Codec.optional (codec : Codec) : Scalar → Option (Option Rat)
  | .null => some none
  | value => (codec.amount value).map some

def isHex (digits : Nat) (text : List Char) : Bool :=
  text.length == digits && text.all Text.isLowerHex

/-- `_SHA` -/
def isSha (text : String) : Bool :=
  isHex 64 text.toList

/-- `inputs:[a-f0-9]{64}` -/
def isInputs (text : String) : Bool :=
  "inputs:".toList.isPrefixOf text.toList && isHex 64 (text.toList.drop 7)

/-! ## Observations -/

inductive Status
  | committed
  | definitelyAbsent
  | ambiguous
deriving DecidableEq, Repr

def Status.name : Status → String
  | .committed => "committed"
  | .definitelyAbsent => "definitely_absent"
  | .ambiguous => "ambiguous"

/-- `_Observation` -/
structure Observation where
  runId : String
  callId : String
  acceptedInputsDigest : String
  profileBindingSha256 : String
  provider : String
  accountId : String
  requestId : String
  evidenceReference : String
  observedAt : String
  status : Status
  final : Bool
  costUsd : Option Rat
deriving DecidableEq

/-- `extra="forbid"` -/
def observationFields : List String :=
  ["schema_version", "run_id", "call_id", "accepted_inputs_digest", "profile_binding_sha256",
    "provider", "account_id", "request_id", "evidence_reference", "observed_at", "status",
    "final", "cost_usd"]

def textField (doc : Document) (field : String) : Option String :=
  match doc.get? field with
  | some (.text value) => some value
  | _ => none

/-- A text that the validator of its field accepts. -/
def textWhere (accepts : String → Bool) (doc : Document) (field : String) : Option String :=
  (textField doc field).filter accepts

/-- `_label`, behind the bounds of the field. -/
def isLabel (most : Nat) (value : String) : Bool :=
  1 ≤ value.length && value.length ≤ most && !Text.isBlank value &&
    value.toList.all (fun c => 32 ≤ c.toNat)

def statusField (doc : Document) : Option Status :=
  match doc.get? "status" with
  | some (.text "committed") => some .committed
  | some (.text "definitely_absent") => some .definitelyAbsent
  | some (.text "ambiguous") => some .ambiguous
  | _ => none

def finalField (doc : Document) : Option Bool :=
  match doc.get? "final" with
  | some (.bool value) => some value
  | _ => none

/-- `cost_usd`, which may be absent. -/
def costField (codec : Codec) (doc : Document) : Option (Option Rat) :=
  match doc.get? "cost_usd" with
  | none => some none
  | some value => codec.optional value

/-- `_outcome` -/
def outcomeFits (status : Status) (final : Bool) (costUsd : Option Rat) : Bool :=
  match status with
  | .committed => final && costUsd.isSome
  | .definitelyAbsent => final && costUsd.isNone
  | .ambiguous => !final && costUsd.isNone

/-- The validation of `_Observation`. -/
def validateObservation (codec : Codec) (doc : Document) : Option Observation := do
  guard (doc.keys.all observationFields.contains)
  guard (doc.get? "schema_version" == some (.int 1))
  let runId ← textField doc "run_id"
  let callId ← textField doc "call_id"
  let acceptedInputsDigest ← textWhere isInputs doc "accepted_inputs_digest"
  let profileBindingSha256 ← textWhere isSha doc "profile_binding_sha256"
  let provider ← textWhere (isLabel 128) doc "provider"
  let accountId ← textWhere (isLabel 256) doc "account_id"
  let requestId ← textWhere (isLabel 256) doc "request_id"
  let evidenceReference ← textWhere (isLabel 1024) doc "evidence_reference"
  let observedAt ← textWhere (fun value => (codec.instant value).any Option.isSome) doc "observed_at"
  let status ← statusField doc
  let final ← finalField doc
  let costUsd ← costField codec doc
  guard (outcomeFits status final costUsd)
  return ⟨runId, callId, acceptedInputsDigest, profileBindingSha256, provider, accountId,
    requestId, evidenceReference, observedAt, status, final, costUsd⟩

/-- `_MAX_BYTES` -/
def maxBytes : Nat :=
  64 * 1024

/-- `_parse(raw, _Observation)` -/
def parseObservation (codec : Codec) (raw : Bytes) : Except Failure Observation :=
  if maxBytes < raw.length then
    .error (.invalid "billing evidence exceeds 64 KiB")
  else
    match (codec.object raw).bind (validateObservation codec) with
    | some observed => .ok observed
    | none => .error (.invalid "invalid billing evidence")

/-- `datetime.fromisoformat(observed.observed_at).timestamp()` -/
def Observation.instant (codec : Codec) (observed : Observation) : Option Rat :=
  (codec.instant observed.observedAt).join

theorem nonneg_of_amount {codec : Codec} {value : Scalar} {q : Rat}
    (h : codec.amount value = some q) : 0 ≤ q := by
  unfold Codec.amount at h
  split at h
  · exact of_decide_eq_true (Option.filter_eq_some_iff.mp h).2
  · split at h
    · next hle =>
        cases h
        exact hle
    · cases h
  · cases h

theorem nonneg_of_cost {codec : Codec} {doc : Document} {q : Rat}
    (h : costField codec doc = some (some q)) : 0 ≤ q := by
  unfold costField at h
  split at h
  · cases h
  · unfold Codec.optional at h
    split at h
    · cases h
    · obtain ⟨_, hamount, heq⟩ := Option.map_eq_some_iff.mp h
      cases heq
      exact nonneg_of_amount hamount

/-- An observation without an outcome is never final, and any other one is. -/
theorem final_of_validate {codec : Codec} {doc : Document} {observed : Observation}
    (h : validateObservation codec doc = some observed) :
    outcomeFits observed.status observed.final observed.costUsd = true ∧
      (observed.instant codec).isSome = true ∧
        ∀ q, observed.costUsd = some q → 0 ≤ q := by
  unfold validateObservation at h
  obtain ⟨-, -, h⟩ := Option.bind_eq_some_iff.mp h
  obtain ⟨-, -, h⟩ := Option.bind_eq_some_iff.mp h
  obtain ⟨_, -, h⟩ := Option.bind_eq_some_iff.mp h
  obtain ⟨_, -, h⟩ := Option.bind_eq_some_iff.mp h
  obtain ⟨_, -, h⟩ := Option.bind_eq_some_iff.mp h
  obtain ⟨_, -, h⟩ := Option.bind_eq_some_iff.mp h
  obtain ⟨_, -, h⟩ := Option.bind_eq_some_iff.mp h
  obtain ⟨_, -, h⟩ := Option.bind_eq_some_iff.mp h
  obtain ⟨_, -, h⟩ := Option.bind_eq_some_iff.mp h
  obtain ⟨_, -, h⟩ := Option.bind_eq_some_iff.mp h
  obtain ⟨observedAt, hat, h⟩ := Option.bind_eq_some_iff.mp h
  obtain ⟨_, -, h⟩ := Option.bind_eq_some_iff.mp h
  obtain ⟨_, -, h⟩ := Option.bind_eq_some_iff.mp h
  obtain ⟨costUsd, hcost, h⟩ := Option.bind_eq_some_iff.mp h
  obtain ⟨_, hfits, h⟩ := Option.bind_eq_some_iff.mp h
  cases h
  refine ⟨by simpa [guard, failure] using hfits, ?_, ?_⟩
  swap
  · rintro q ⟨⟩
    exact nonneg_of_cost hcost
  have haware := (Option.filter_eq_some_iff.mp hat).2
  unfold Observation.instant
  cases hinstant : codec.instant observedAt with
  | none =>
      rw [hinstant] at haware
      cases haware
  | some at? =>
      rw [hinstant] at haware
      simpa using haware

theorem parse_eq_ok {codec : Codec} {raw : Bytes} {observed : Observation}
    (h : parseObservation codec raw = .ok observed) :
    ∃ doc, validateObservation codec doc = some observed := by
  unfold parseObservation at h
  split at h
  · cases h
  · split at h
    · next hdoc =>
        cases h
        obtain ⟨doc, -, hvalid⟩ := Option.bind_eq_some_iff.mp hdoc
        exact ⟨doc, hvalid⟩
    · cases h

end Billing
end SwFactory
