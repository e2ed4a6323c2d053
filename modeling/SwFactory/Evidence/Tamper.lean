import SwFactory.Evidence.Chain
import SwFactory.Machine.Tables

/-!
# Lifecycle evidence is tamper-evident

Two accepted lists with the same last digest have the same bodies: a digest is
hexadecimal, so the message `previous + "\0" + canonical` splits at its first
NUL, and an empty `previous` belongs to the first record alone.
-/

namespace SwFactory
namespace Evidence

open Text Machine

/-- 64 lowercase hex characters. -/
def IsHexDigest (digest : String) : Prop :=
  digest.toList.length = 64 ∧ digest.toList.all isLowerHex = true

instance (digest : String) : Decidable (IsHexDigest digest) :=
  inferInstanceAs (Decidable (_ ∧ _))

theorem IsHexDigest.ne_empty {digest : String} (h : IsHexDigest digest) :
    digest ≠ "" := by
  rintro rfl
  cases h.1

theorem IsHexDigest.nul_not_mem {digest : String} (h : IsHexDigest digest) :
    '\x00' ∉ digest.toList := by
  intro hmem
  have := List.all_eq_true.mp h.2 _ hmem
  cases this

/-- What `verify_chain` hashes. -/
def message (C : Codec) (link : String × Record) : String :=
  link.1 ++ "\x00" ++ C.dumps link.2

/-- The text in front of the first NUL, and the text behind it. -/
theorem append_nul_inj {a b : List Char} {x y : List Char}
    (ha : '\x00' ∉ a) (hb : '\x00' ∉ b)
    (h : a ++ '\x00' :: x = b ++ '\x00' :: y) : a = b ∧ x = y := by
  induction a generalizing b with
  | nil =>
      cases b with
      | nil =>
          simpa using h
      | cons c b =>
          simp only [List.nil_append, List.cons_append, List.cons.injEq] at h
          exact absurd (h.1 ▸ List.mem_cons_self) hb
  | cons c a ih =>
      cases b with
      | nil =>
          simp only [List.nil_append, List.cons_append, List.cons.injEq] at h
          exact absurd (h.1 ▸ List.mem_cons_self) ha
      | cons d b =>
          simp only [List.cons_append, List.cons.injEq] at h
          obtain ⟨rfl, hx⟩ := ih (List.not_mem_of_not_mem_cons ha)
            (List.not_mem_of_not_mem_cons hb) h.2
          exact ⟨by rw [h.1], hx⟩

section Chains

variable {C : Codec}

/-- The digests in front of the bodies of a chain have no NUL. -/
theorem nul_not_mem_of_links (hdigest : ∀ m, IsHexDigest (C.sha256 m))
    {bodies : List Record} {previous : String}
    (hprevious : '\x00' ∉ previous.toList) :
    ∀ link ∈ links (digestOf C) previous bodies, '\x00' ∉ link.1.toList := by
  induction bodies generalizing previous with
  | nil =>
      simp [links]
  | cons body bodies ih =>
      intro link hlink
      rcases List.mem_cons.mp hlink with rfl | hlink
      · exact hprevious
      · exact ih (hdigest _).nul_not_mem link hlink

/-- The links that `verify_chain` follows through a list of records. -/
def linksOf (C : Codec) (records : List Record) : List (String × Record) :=
  links (digestOf C) "" (records.map Record.body)

/-- SHA-256 has no collision among the messages of these links. -/
def HashInjective (C : Codec) (pairs : List (String × Record)) : Prop :=
  ∀ a ∈ pairs, ∀ b ∈ pairs,
    C.sha256 (message C a) = C.sha256 (message C b) → message C a = message C b

/-- The canonical JSON of the bodies of these links is injective. -/
def DumpsInjective (C : Codec) (pairs : List (String × Record)) : Prop :=
  ∀ a ∈ pairs, ∀ b ∈ pairs, C.dumps a.2 = C.dumps b.2 → a.2 = b.2

theorem collisionFree (hdigest : ∀ m, IsHexDigest (C.sha256 m))
    {records₁ records₂ : List Record}
    (hhash : HashInjective C (linksOf C records₁ ++ linksOf C records₂))
    (hdumps : DumpsInjective C (linksOf C records₁ ++ linksOf C records₂)) :
    CollisionFree (digestOf C) (linksOf C records₁ ++ linksOf C records₂) := by
  have hnul : ∀ link ∈ linksOf C records₁ ++ linksOf C records₂,
      '\x00' ∉ link.1.toList := by
    intro link hlink
    rcases List.mem_append.mp hlink with hlink | hlink
    · exact nul_not_mem_of_links hdigest (by simp) link hlink
    · exact nul_not_mem_of_links hdigest (by simp) link hlink
  intro a ha b hb heq
  have hmessage := congrArg String.toList (hhash a ha b hb heq)
  simp only [message, String.toList_append, List.append_assoc] at hmessage
  obtain ⟨hprevious, hcanonical⟩ :=
    append_nul_inj (hnul a ha) (hnul b hb) hmessage
  exact Prod.ext (String.toList_injective hprevious)
    (hdumps a ha b hb (String.toList_injective hcanonical))

/-- **The last digest determines the bodies.** -/
theorem bodies_eq (hdigest : ∀ m, IsHexDigest (C.sha256 m))
    {records₁ records₂ : List Record} {tail : String}
    (h₁ : verifyChain C records₁ = (true, tail))
    (h₂ : verifyChain C records₂ = (true, tail))
    (hhash : HashInjective C (linksOf C records₁ ++ linksOf C records₂))
    (hdumps : DumpsInjective C (linksOf C records₁ ++ linksOf C records₂)) :
    records₁.map Record.body = records₂.map Record.body := by
  have htail : ∀ records, verifyChain C records = (true, tail) →
      (records.map Record.body).foldl (digestOf C) "" = tail := by
    intro records h
    have hok : (verifyFrom C "" 0 records).1 = true := congrArg Prod.fst h
    rw [← verifyFrom_tail hok]
    exact congrArg Prod.snd h
  have hstart : ∀ previous body, digestOf C previous body ≠ "" :=
    fun _ _ => (hdigest _).ne_empty
  apply eq_of_foldl_eq hstart (collisionFree hdigest hhash hdumps)
  rw [htail records₁ h₁, htail records₂ h₂]

end Chains

section Appends

variable {C : Codec}

/-- What is written stays written. -/
theorem appends_mem (calls : List Append) {file : Lines}
    {records : List Record} {r : Record} (h : r ∈ records) :
    r ∈ (appends C calls (file, records)).2 := by
  induction calls generalizing file records with
  | nil =>
      exact h
  | cons call calls ih =>
      unfold appends
      split
      · exact ih (List.mem_append_left _ h)
      · exact ih h

/-- A call after the other seals each body behind the record before it. -/
theorem appends_accepted (calls : List Append) {file : Lines}
    {records : List Record}
    (hfile : file = records.map C.dumps)
    (hok : (verifyChain C records).1 = true)
    (hread : ∀ r ∈ (appends C calls (file, records)).2, ReadsBack C r) :
    (appends C calls (file, records)).1 =
        (appends C calls (file, records)).2.map C.dumps ∧
      (verifyChain C (appends C calls (file, records)).2).1 = true := by
  induction calls generalizing file records with
  | nil =>
      exact ⟨hfile, hok⟩
  | cons call calls ih =>
      have hback : ∀ r ∈ records, ReadsBack C r :=
        fun r hr => hread r (appends_mem (call :: calls) hr)
      unfold appends at hread ⊢
      cases hbody : envelope C call with
      | error e =>
          have hrefused : append C call file = .error e := by
            rw [append, hbody]
            rfl
          simp only [hrefused] at hread ⊢
          exact ih hfile hok hread
      | ok body =>
          have hwrites : append C call file =
              .ok (sealed C (lastDigest records) body,
                file ++ [C.dumps (sealed C (lastDigest records) body)]) := by
            rw [append, hbody, hfile, tailDigest_dumps hback]
            rfl
          simp only [hwrites] at hread ⊢
          refine ih ?_ ?_ hread
          · simp [hfile]
          · exact (verifyChain_sealed_iff (envelope_isBody hbody)).mpr
              ⟨hok, rfl⟩

end Appends

section Sample

/-- A call without a payload, at a fixed time. -/
def sampleCall (kind : String) : Append where
  cellId := "cell_0123456789abcdef01234567"
  epoch := 1
  kind := kind
  payload := []
  trace := some ⟨"t", "s"⟩
  now := 0x41d954fc40000000

/-- The body of such a call. -/
def sampleBody (kind : String) : Record :=
  fields (sampleCall kind) ⟨"t", "s"⟩ (.object [])

/-- `json.dumps` of the body, and of its record without a previous digest. -/
def sampleLine (kind digest previous : String) : String :=
  "\x7b" ++ ("\"at\":1700000000.0," ++
    "\"cell_id\":\"cell_0123456789abcdef01234567\"," ++
    digest ++ "\"epoch\":1,\"kind\":\"" ++ kind ++
    "\",\"payload\":\x7b\x7d,\"policy_digest\":null," ++ previous ++
    "\"schema_version\":1,\"span_id\":\"s\",\"trace_id\":\"t\"\x7d")

def sampleDumps (record : Record) : String :=
  let kind := (record.get "kind").str
  match record.lookup "digest" with
  | none => sampleLine kind "" ""
  | some digest =>
      sampleLine kind ("\"digest\":\"" ++ digest.str ++ "\",")
        "\"previous_digest\":null,"

theorem sampleLine_not_blank (kind digest previous : String) :
    isBlank (sampleLine kind digest previous) = false := by
  rw [isBlank, sampleLine, String.toList_append, List.all_append]
  rfl

def dispatchDigest : String :=
  "3324b77e398e04538661aa05635e940701bc8d97dd1e5d1aaa7c521189fa466d"

def resumedDigest : String :=
  "baf2ed7d0e262f468898ee730bfd0111a24531f741a08f5e9013d974c13b8d09"

theorem dispatchDigest_isHexDigest : IsHexDigest dispatchDigest := by
  decide +kernel

theorem resumedDigest_isHexDigest : IsHexDigest resumedDigest := by
  decide +kernel

/-- SHA-256 of the messages of two first calls. -/
def sampleSha256 (message : String) : String :=
  if message = "\x00" ++ sampleLine "dispatch" "" "" then
    dispatchDigest
  else
    resumedDigest

/-- The record of a first call. -/
def sampleRecord (kind digest : String) : Record :=
  ((sampleBody kind).insert "previous_digest" .null).insert "digest"
    (.text digest)

/-- `json.loads` of the lines of two first calls. -/
def sampleLoads (line : String) : Option Record :=
  if line = sampleDumps (sampleRecord "dispatch" dispatchDigest) then
    some (sampleRecord "dispatch" dispatchDigest)
  else if line = sampleDumps (sampleRecord "resumed" resumedDigest) then
    some (sampleRecord "resumed" resumedDigest)
  else
    none

def sampleCodec : Codec where
  sha256 := sampleSha256
  dumps := sampleDumps
  loads := sampleLoads
  redactText := id
  looksSecretKey := fun _ => false

theorem sampleSha256_isHexDigest (message : String) :
    IsHexDigest (sampleSha256 message) := by
  unfold sampleSha256
  split
  · exact dispatchDigest_isHexDigest
  · exact resumedDigest_isHexDigest

/-- The two lines differ in length, by the kind. -/
theorem sampleDumps_ne :
    sampleDumps (sampleRecord "resumed" resumedDigest) ≠
      sampleDumps (sampleRecord "dispatch" dispatchDigest) := by
  have hlines : ∀ kind digest,
      (sampleDumps (sampleRecord kind digest)) =
        sampleLine kind ("\"digest\":\"" ++ digest ++ "\",")
          "\"previous_digest\":null," := fun _ _ => rfl
  have hlength : resumedDigest.length = dispatchDigest.length := by
    rw [← String.length_toList, ← String.length_toList,
      resumedDigest_isHexDigest.1, dispatchDigest_isHexDigest.1]
  have hkinds : "resumed".length ≠ "dispatch".length := by decide
  intro heq
  have := congrArg String.length heq
  simp only [hlines, sampleLine, String.length_append] at this
  omega

theorem dispatch_readsBack :
    ReadsBack sampleCodec (sampleRecord "dispatch" dispatchDigest) := by
  refine ⟨?_, sampleLine_not_blank _ _ _⟩
  simp only [sampleCodec, sampleLoads, if_true]

theorem resumed_readsBack :
    ReadsBack sampleCodec (sampleRecord "resumed" resumedDigest) := by
  refine ⟨?_, sampleLine_not_blank _ _ _⟩
  simp only [sampleCodec, sampleLoads, if_true]
  rw [if_neg sampleDumps_ne]

theorem dispatch_digest :
    digestOf sampleCodec "" (sampleBody "dispatch") = dispatchDigest := by
  have hdumps : sampleDumps (sampleBody "dispatch") =
      sampleLine "dispatch" "" "" := rfl
  simp only [digestOf, sampleCodec, sampleSha256]
  rw [hdumps, String.empty_append, if_pos rfl]

theorem resumed_digest :
    digestOf sampleCodec "" (sampleBody "resumed") = resumedDigest := by
  have hdumps : sampleDumps (sampleBody "resumed") =
      sampleLine "resumed" "" "" := rfl
  have hkinds : "resumed".length ≠ "dispatch".length := by decide
  simp only [digestOf, sampleCodec, sampleSha256]
  rw [hdumps, String.empty_append, if_neg]
  intro heq
  have := congrArg String.length heq
  simp only [sampleLine, String.length_append] at this
  omega

theorem dispatch_sealed :
    sealed sampleCodec "" (sampleBody "dispatch") =
      sampleRecord "dispatch" dispatchDigest := by
  rw [sealed, dispatch_digest]
  rfl

theorem resumed_sealed :
    sealed sampleCodec "" (sampleBody "resumed") =
      sampleRecord "resumed" resumedDigest := by
  rw [sealed, resumed_digest]
  rfl

/-- The record of a first call without its null field. -/
def sampleEdited : Record :=
  (sampleBody "dispatch").insert "digest" (.text dispatchDigest)

theorem sampleEdited_body : sampleEdited.body = sampleBody "dispatch" := by
  have hbody : IsBody (sampleBody "dispatch") := isBody_fields _ _ _
  apply Finmap.ext_lookup
  intro key
  unfold Record.body sampleEdited
  by_cases hdigest : key = "digest"
  · subst hdigest
    rw [Finmap.lookup_erase, hbody.2]
  · rw [Finmap.lookup_erase_ne hdigest]
    by_cases hprevious : key = "previous_digest"
    · subst hprevious
      rw [Finmap.lookup_erase, hbody.1]
    · rw [Finmap.lookup_erase_ne hprevious,
        Finmap.lookup_insert_of_ne _ hdigest]

end Sample

end Evidence
end SwFactory
