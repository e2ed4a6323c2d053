import SwFactory.Evidence.Record
import SwFactory.Machine.Chains

/-!
# Lifecycle evidence: the hash chain of a Cell

`append` seals a body behind the digest of the last line of the file, and
`verify_chain` derives the digests again.  The chain is accepted exactly when
every record is sealed behind the one before it; so the last digest determines
all bodies, and what `append` writes one call after the other is accepted.

Source: `lifecycle_evidence.py` (`verify_chain`, `EvidenceWriter.append`,
`read`, `_tail_digest`, `_append_jsonl`).
-/

namespace SwFactory
namespace Evidence

open Text Machine

/-- `value == text` of a JSON value and a text. -/
def Json.isText (text : String) : Json → Bool
  | .text value => value == text
  | _ => false

/-- `value == (text or None)` of a JSON value and a text. -/
def Json.isTextOrNull (text : String) : Json → Bool
  | .null => text == ""
  | .text value => text != "" && value == text
  | _ => false

/-- The loop of `verify_chain` at one index. -/
def verifyFrom (C : Codec) (previous : String) (index : Nat) :
    List Record → Bool × String
  | [] => (true, previous)
  | record :: records =>
      let expected := digestOf C previous record.body
      if ((record.get "previous_digest").isTextOrNull previous) = false then
        (false, "event " ++ toString index ++ ": previous digest mismatch")
      else if ((record.get "digest").isText expected) = false then
        (false, "event " ++ toString index ++ ": digest mismatch")
      else
        verifyFrom C expected (index + 1) records

/-- `verify_chain`. -/
def verifyChain (C : Codec) (records : List Record) : Bool × String :=
  verifyFrom C "" 0 records

/-- The lines of `events.jsonl`; a missing file has none. -/
abbrev Lines := List String

/-- The lines of the file that are not blank. -/
def written (file : Lines) : Lines :=
  file.filter (fun line => !isBlank line)

/-- `EvidenceWriter.read`. -/
def read (C : Codec) (file : Lines) : Except EvidenceError (List Record) :=
  (written file).mapM (fun line =>
    match C.loads line with
    | some record => .ok record
    | none => .error .decodeError)

/-- `str(value or "")` of the digest of a record, which is a text or missing. -/
def Json.str : Json → String
  | .text value => value
  | _ => ""

/-- `_tail_digest`. -/
def tailDigest (C : Codec) (file : Lines) : Except EvidenceError String :=
  match (written file).getLast? with
  | none => .ok ""
  | some last =>
      match C.loads last with
      | none => .error .decodeError
      | some record => .ok (record.get "digest").str

/-- `append`: the record, and the file behind it. -/
def append (C : Codec) (call : Append) (file : Lines) :
    Except EvidenceError (Record × Lines) := do
  let body ← envelope C call
  let previous ← tailDigest C file
  let record := sealed C previous body
  return (record, file ++ [C.dumps record])

/-- One append call after the other; a call that is refused writes nothing. -/
def appends (C : Codec) : List Append → Lines × List Record → Lines × List Record
  | [], done => done
  | call :: calls, (file, records) =>
      match append C call file with
      | .ok (record, file') => appends C calls (file', records ++ [record])
      | .error _ => appends C calls (file, records)

section Verification

variable {C : Codec}

/-- The record is what sealing its own body behind `previous` gives. -/
def Follows (C : Codec) (previous : String) (record : Record) : Prop :=
  (record.get "previous_digest").isTextOrNull previous = true ∧
    (record.get "digest").isText (digestOf C previous record.body) = true

/-- `verify_chain` of a longer list, by its last record. -/
theorem verifyFrom_append (previous : String) (index : Nat)
    (records : List Record) (last : Record) :
    (verifyFrom C previous index (records ++ [last])).1 = true ↔
      (verifyFrom C previous index records).1 = true ∧
        Follows C (verifyFrom C previous index records).2 last := by
  induction records generalizing previous index with
  | nil =>
      simp only [List.nil_append, verifyFrom, Follows]
      split
      · simp [*]
      · split <;> simp_all
  | cons record records ih =>
      simp only [List.cons_append, verifyFrom]
      split
      · simp
      · split
        · simp
        · exact ih _ _

/-- The digest of an accepted list folds the digests of its bodies. -/
theorem verifyFrom_tail {previous : String} {index : Nat}
    {records : List Record}
    (h : (verifyFrom C previous index records).1 = true) :
    (verifyFrom C previous index records).2 =
      (records.map Record.body).foldl (digestOf C) previous := by
  induction records generalizing previous index with
  | nil =>
      rfl
  | cons record records ih =>
      simp only [verifyFrom] at h ⊢
      split at h
      · cases h
      · split at h
        · cases h
        · rw [if_neg (by assumption), if_neg (by assumption), ih h]
          rfl

theorem orNull_isTextOrNull {previous actual : String} :
    (orNull previous).isTextOrNull actual = true ↔ previous = actual := by
  unfold orNull
  split
  · rename_i hempty
    rw [hempty, Json.isTextOrNull, beq_iff_eq]
    exact eq_comm
  · rename_i hnonempty
    constructor
    · intro h
      have : actual ≠ "" ∧ previous = actual := by
        simpa [Json.isTextOrNull] using h
      exact this.2
    · rintro rfl
      simpa [Json.isTextOrNull] using hnonempty

/-- A sealed body follows the digest it was sealed behind, and no other. -/
theorem follows_sealed_iff {previous actual : String} {body : Record}
    (h : IsBody body) :
    Follows C actual (sealed C previous body) ↔ previous = actual := by
  rw [Follows, sealed_previous, sealed_digest, body_sealed h,
    orNull_isTextOrNull]
  refine and_iff_left_of_imp ?_
  rintro rfl
  simp [Json.isText]

end Verification

section Files

variable {C : Codec}

/-- The line of a record is not blank and reads back as the record. -/
def ReadsBack (C : Codec) (record : Record) : Prop :=
  C.loads (C.dumps record) = some record ∧ isBlank (C.dumps record) = false

theorem written_dumps {records : List Record}
    (h : ∀ r ∈ records, ReadsBack C r) :
    written (records.map C.dumps) = records.map C.dumps := by
  rw [written, List.filter_eq_self]
  intro line hline
  obtain ⟨r, hr, rfl⟩ := List.mem_map.mp hline
  simp [(h r hr).2]

theorem read_dumps {records : List Record}
    (h : ∀ r ∈ records, ReadsBack C r) :
    read C (records.map C.dumps) = .ok records := by
  rw [read, written_dumps h]
  induction records with
  | nil =>
      rfl
  | cons r records ih =>
      have hrest := ih (fun x hx => h x (List.mem_cons_of_mem _ hx))
      simp only [List.map_cons, List.mapM_cons, hrest,
        (h r List.mem_cons_self).1]
      rfl

/-- The digest of the last record, and no text for no record. -/
def lastDigest (records : List Record) : String :=
  (records.getLast?.map (fun r => (r.get "digest").str)).getD ""

theorem tailDigest_dumps {records : List Record}
    (h : ∀ r ∈ records, ReadsBack C r) :
    tailDigest C (records.map C.dumps) = .ok (lastDigest records) := by
  rw [tailDigest, written_dumps h, List.getLast?_map, lastDigest]
  cases hlast : records.getLast? with
  | none =>
      rfl
  | some last =>
      have hmem := List.mem_of_getLast? hlast
      simp [(h last hmem).1]

/-- An accepted list ends with the digest that `verify_chain` returns. -/
theorem verifyChain_lastDigest {records : List Record}
    (h : (verifyChain C records).1 = true) :
    (verifyChain C records).2 = lastDigest records := by
  cases records using List.reverseRecOn with
  | nil =>
      rfl
  | append_singleton records last =>
      obtain ⟨hrecords, -, hdigest⟩ := (verifyFrom_append "" 0 records last).mp h
      have htail : (verifyChain C (records ++ [last])).2 =
          digestOf C (verifyFrom C "" 0 records).2 last.body := by
        rw [verifyChain, verifyFrom_tail h, verifyFrom_tail hrecords]
        simp
      rw [htail, lastDigest, List.getLast?_concat]
      cases hvalue : last.get "digest" with
      | text value =>
          rw [hvalue] at hdigest
          have hexpected : value =
              digestOf C (verifyFrom C "" 0 records).2 last.body := by
            simpa [Json.isText] using hdigest
          simp [hvalue, Json.str, hexpected]
      | null | bool _ | int _ | float _ | array _ | object _ =>
          rw [hvalue] at hdigest
          cases hdigest

theorem verifyChain_eq {records : List Record}
    (h : (verifyChain C records).1 = true) :
    verifyChain C records = (true, lastDigest records) :=
  Prod.ext h (verifyChain_lastDigest h)

/-- A body sealed behind the last digest extends an accepted list, no other. -/
theorem verifyChain_sealed_iff {records : List Record} {previous : String}
    {body : Record} (hbody : IsBody body) :
    (verifyChain C (records ++ [sealed C previous body])).1 = true ↔
      (verifyChain C records).1 = true ∧ previous = lastDigest records := by
  rw [verifyChain, verifyFrom_append]
  constructor
  · rintro ⟨hrecords, hfollows⟩
    rw [follows_sealed_iff hbody] at hfollows
    exact ⟨hrecords, hfollows.trans (verifyChain_lastDigest hrecords)⟩
  · rintro ⟨hrecords, rfl⟩
    refine ⟨hrecords, (follows_sealed_iff hbody).mpr ?_⟩
    exact (verifyChain_lastDigest hrecords).symm

end Files

end Evidence
end SwFactory
