import SwFactory.Evidence.Tamper
import SwFactory.Machine.Interaction

/-!
# Lifecycle evidence: concurrent writers

`append` reads the last line of the file and writes its own line in two steps.
The requests of the backend run on threads, so between the two steps another
`append` of the same Cell may write.  The chain of the file stays intact for
exactly as long as every line is written behind the digest it was sealed with.

Source: `lifecycle_evidence.py` (`EvidenceWriter.append`, `_tail_digest`,
`_append_jsonl`).
-/

namespace SwFactory
namespace Evidence

open Text Machine

/-- The two accesses of `append` to the file. -/
inductive FileStmt
  | tail
  | write (record : Record)

/-- What they answer. -/
abbrev FileStmt.Ans : FileStmt → Type
  | tail => Except EvidenceError String
  | write _ => Unit

/-- The file, and the records that were written to it. -/
structure Log where
  file : Lines := []
  appended : List Record := []

/-- A call of `append` as a program of its file accesses. -/
abbrev Writer := Prog FileStmt FileStmt.Ans EvidenceError

/-- `append`. -/
def appendProg (C : Codec) (call : Append) : Writer Record := do
  let body ← Prog.ofExcept (envelope C call)
  let tail ← Prog.perform .tail
  let previous ← Prog.ofExcept tail
  let record := sealed C previous body
  let _ ← Prog.perform (.write record)
  return record

/-- The accesses on the file: `_tail_digest`, and `_append_jsonl`. -/
def writers (C : Codec) : System FileStmt FileStmt.Ans Log Unit where
  exec _ stmt _ log :=
    match stmt with
    | .tail => (tailDigest C log.file, log)
    | .write record =>
        ((), { file := log.file ++ [C.dumps record],
               appended := log.appended ++ [record] })
  crash _ log := log

abbrev Writers := Config FileStmt FileStmt.Ans EvidenceError Record Log

/-- No file yet; thread `p` is about to append `calls p`. -/
def openWriters (C : Codec) (calls : Nat → Append) : Writers where
  shared := {}
  procs p := .running (appendProg C (calls p))

/-- One access of one thread, or its end. -/
abbrev writeStep (C : Codec) : Writers → Move Unit → Writers :=
  (writers C).step

/--
A line is written behind the digest that its `append` read: what the record
names as its previous digest is still the tail digest of the file.
-/
def Current (C : Codec) (_ : Nat) (stmt : FileStmt) (log : Log) : Prop :=
  match stmt with
  | .tail => True
  | .write record => ∃ tail, tailDigest C log.file = .ok tail ∧
      (record.get "previous_digest").isTextOrNull tail = true

/--
Every record that was appended is in the file, and `verify_chain` accepts the
file with the digest of its last record.
-/
def Intact (C : Codec) (c : Writers) : Prop :=
  ∃ records, read C c.shared.file = .ok records ∧
    (∀ r ∈ c.shared.appended, r ∈ records) ∧
    (∀ p r, c.procs p = .running (.ret r) → r ∈ records) ∧
    verifyChain C records = (true, lastDigest records)

section Protocol

variable (C : Codec)

/-- A thread writes sealed bodies only, and remembers what it has written. -/
def writerProtocol : Protocol FileStmt FileStmt.Ans (List Record) where
  allow _ stmt :=
    match stmt with
    | .tail => True
    | .write record =>
        ∃ previous body, IsBody body ∧ record = sealed C previous body
  answers _ _ _ := True
  next written stmt _ :=
    match stmt with
    | .tail => written
    | .write record => written ++ [record]

/-- A thread that returns has written the record it returns. -/
def HasWritten (written : List Record) :
    Except EvidenceError Record → Prop
  | .ok record => record ∈ written
  | .error _ => True

theorem appendProg_obeys (call : Append) :
    Obeys (writerProtocol C) HasWritten (appendProg C call) [] := by
  unfold appendProg
  cases hbody : envelope C call with
  | error e =>
      trivial
  | ok body =>
      refine ⟨trivial, fun tail _ => ?_⟩
      cases tail with
      | error e =>
          trivial
      | ok previous =>
          refine ⟨⟨previous, body, envelope_isBody hbody, rfl⟩, fun _ _ => ?_⟩
          exact List.mem_append_right _ (List.mem_singleton_self _)

/-- The lines of the file are the records that were appended. -/
def LogInv (written : Nat → List Record) (log : Log) : Prop :=
  log.file = log.appended.map C.dumps ∧
    ∀ p, ∀ r ∈ written p, r ∈ log.appended

variable {C}

theorem exec_logInv {written : Nat → List Record} {log : Log} (p : Nat)
    (stmt : FileStmt) (h : LogInv C written log) :
    LogInv C
      (Function.update written p ((writerProtocol C).next (written p) stmt
        ((writers C).exec p stmt () log).1))
      ((writers C).exec p stmt () log).2 := by
  cases stmt with
  | tail =>
      refine ⟨h.1, fun q => ?_⟩
      by_cases hq : q = p
      · subst hq
        simpa [writerProtocol, writers] using h.2 q
      · simpa [hq, writers] using h.2 q
  | write record =>
      refine ⟨by simp [writers, h.1], fun q r hr => ?_⟩
      by_cases hq : q = p
      · subst hq
        rw [Function.update_self] at hr
        rcases List.mem_append.mp hr with hr | hr
        · exact List.mem_append_left _ (h.2 q r hr)
        · exact List.mem_append_right _ hr
      · rw [Function.update_of_ne hq] at hr
        exact List.mem_append_left _ (h.2 q r hr)

/-- The threads keep to the protocol, and the file holds what they wrote. -/
abbrev Sealing (C : Codec) (c : Writers) : Prop :=
  Composed (writerProtocol C) HasWritten (LogInv C) c

theorem openWriters_sealing (calls : Nat → Append) :
    Sealing C (openWriters C calls) :=
  ⟨fun _ => [], ⟨rfl, by simp⟩, fun p => appendProg_obeys C (calls p)⟩

theorem step_sealing (c : Writers) (m : Move Unit) (hc : Sealing C c) :
    Sealing C (writeStep C c m) := by
  have hany : Performs (fun _ _ _ => True) c m :=
    fun _ _ _ _ _ _ => trivial
  refine (writers C).step_composed ?_ ?_ c m hc hany
  · intro written log p stmt i h _ _
    exact ⟨trivial, exec_logInv p stmt h⟩
  · intro written log p h
    exact h

end Protocol

section Runs

variable {C : Codec}

/-- `verify_chain` accepts the records in the order they were written. -/
def Verified (C : Codec) (c : Writers) : Prop :=
  (verifyChain C c.shared.appended).1 = true

theorem step_appended (c : Writers) (m : Move Unit) :
    ∀ r ∈ c.shared.appended, r ∈ (writeStep C c m).shared.appended := by
  intro r hr
  rcases (writers C).step_cases c m with
    ⟨-, heq⟩ | ⟨p, i, stmt, k, rfl, hp, heq⟩ | ⟨p, stmt, k, rfl, hp, heq⟩
  · rw [writeStep, heq]
    exact hr
  · rw [writeStep, heq]
    cases stmt with
    | tail => exact hr
    | write record => exact List.mem_append_left _ hr
  · rw [writeStep, heq]
    exact hr

theorem run_appended (c : Writers) (ms : List (Move Unit)) :
    ∀ r ∈ c.shared.appended,
      r ∈ (runFrom (writeStep C) c ms).shared.appended := by
  induction ms generalizing c with
  | nil =>
      exact fun r hr => hr
  | cons m ms ih =>
      exact fun r hr => ih _ r (step_appended c m r hr)

/-- One access keeps the chain exactly if its line is written where it belongs. -/
theorem step_verified_iff {c : Writers} (m : Move Unit) (hc : Sealing C c)
    (hread : ∀ r ∈ c.shared.appended, ReadsBack C r) :
    Verified C (writeStep C c m) ↔
      Verified C c ∧ Performs (Current C) c m := by
  rcases (writers C).step_cases c m with
    ⟨hidle, heq⟩ | ⟨p, i, stmt, k, rfl, hp, heq⟩ | ⟨p, stmt, k, rfl, hp, heq⟩
  · rw [writeStep, heq]
    refine (and_iff_left ?_).symm
    rintro p i s k rfl hp
    exact absurd hp (hidle s k)
  · obtain ⟨written, ⟨hfile, -⟩, hobeys⟩ := hc
    have hallow := hobeys p
    rw [hp] at hallow
    have hperforms : Performs (Current C) c (.run p i) ↔
        Current C p stmt c.shared := by
      constructor
      · exact fun h => h p i stmt k rfl hp
      · rintro h _ _ s' k' ⟨⟩ hs
        cases hp.symm.trans hs
        exact h
    rw [writeStep, heq, hperforms]
    cases stmt with
    | tail =>
        exact (and_iff_left trivial).symm
    | write record =>
        obtain ⟨previous, body, hbody, rfl⟩ := hallow.1
        have htail : tailDigest C c.shared.file =
            .ok (lastDigest c.shared.appended) := by
          rw [hfile]
          exact tailDigest_dumps hread
        refine (verifyChain_sealed_iff hbody).trans (and_congr_right ?_)
        intro _
        constructor
        · rintro rfl
          exact ⟨_, htail, ((follows_sealed_iff hbody).mpr rfl).1⟩
        · rintro ⟨tail, hread', hprevious⟩
          cases htail.symm.trans hread'
          rw [sealed_previous] at hprevious
          exact orNull_isTextOrNull.mp hprevious
  · rw [writeStep, heq]
    refine (and_iff_left ?_).symm
    rintro _ _ _ _ ⟨⟩

/-- A run keeps the chain exactly if each of its lines is written in place. -/
theorem run_verified_iff {c : Writers} (ms : List (Move Unit))
    (hc : Sealing C c)
    (hread : ∀ r ∈ (runFrom (writeStep C) c ms).shared.appended,
      ReadsBack C r) :
    Verified C (runFrom (writeStep C) c ms) ↔
      Verified C c ∧ AlongRun (writeStep C) (Performs (Current C)) c ms := by
  induction ms generalizing c with
  | nil =>
      exact (and_iff_left trivial).symm
  | cons m ms ih =>
      have hnow : ∀ r ∈ c.shared.appended, ReadsBack C r :=
        fun r hr => hread r (run_appended c (m :: ms) r hr)
      have hrest := ih (step_sealing c m hc) hread
      rw [step_verified_iff m hc hnow, and_assoc] at hrest
      exact hrest

theorem run_sealing {c : Writers} (ms : List (Move Unit)) (hc : Sealing C c) :
    Sealing C (runFrom (writeStep C) c ms) := by
  induction ms generalizing c with
  | nil =>
      exact hc
  | cons m ms ih =>
      exact ih (step_sealing c m hc)

/-- The file is intact exactly if its records are accepted. -/
theorem intact_iff {c : Writers} (hc : Sealing C c)
    (hread : ∀ r ∈ c.shared.appended, ReadsBack C r) :
    Intact C c ↔ Verified C c := by
  obtain ⟨written, ⟨hfile, hwritten⟩, hobeys⟩ := hc
  have hrecords : read C c.shared.file = .ok c.shared.appended := by
    rw [hfile]
    exact read_dumps hread
  constructor
  · rintro ⟨records, hok, -, -, hverify⟩
    cases hrecords.symm.trans hok
    exact congrArg Prod.fst hverify
  · intro hverified
    refine ⟨_, hrecords, fun r hr => hr, ?_, verifyChain_eq hverified⟩
    intro p r hp
    have hreturned := hobeys p
    rw [hp] at hreturned
    exact hwritten p r hreturned

/--
**Concurrent writers.**  For every interleaving of the file accesses of any
number of `append` calls, with JSON that reads back what was written: every
appended record is in the file and the chain is accepted if and only if every
line was written behind the digest that its call had read.
-/
theorem chain_intact_iff
    (C : Codec)
    (calls : Nat → Append)
    (ms : List (Move Unit))
    (hread : ∀ r ∈ (runFrom (writeStep C) (openWriters C calls) ms).shared.appended,
      ReadsBack C r) :
    Intact C (runFrom (writeStep C) (openWriters C calls) ms) ↔
      AlongRun (writeStep C) (Performs (Current C)) (openWriters C calls) ms := by
  have hstart : Sealing C (openWriters C calls) := openWriters_sealing calls
  rw [intact_iff (run_sealing ms hstart) hread, run_verified_iff ms hstart hread]
  exact and_iff_right rfl

/-- Thread 0 appends `dispatch`, thread 1 appends `resumed`. -/
def sampleCalls (p : Nat) : Append :=
  sampleCall (if p = 0 then "dispatch" else "resumed")

/-- Thread 0 reads the tail and writes its line; thread 1 reads the tail. -/
def inSequence : List (Move Unit) :=
  [.run 0 (), .run 0 (), .run 1 ()]

/-- Both calls read the tail before either writes its line. -/
def sideBySide : List (Move Unit) :=
  [.run 0 (), .run 1 (), .run 0 (), .run 1 ()]

theorem inSequence_appended :
    (runFrom (writeStep sampleCodec) (openWriters sampleCodec sampleCalls)
      inSequence).shared.appended =
        [sealed sampleCodec "" (sampleBody "dispatch")] :=
  rfl

theorem sideBySide_appended :
    (runFrom (writeStep sampleCodec) (openWriters sampleCodec sampleCalls)
      sideBySide).shared.appended =
        [sealed sampleCodec "" (sampleBody "dispatch")] ++
          [sealed sampleCodec "" (sampleBody "resumed")] :=
  rfl

theorem chain_intact_inSequence :
    Intact sampleCodec
      (runFrom (writeStep sampleCodec) (openWriters sampleCodec sampleCalls)
        inSequence) := by
  apply (chain_intact_iff sampleCodec sampleCalls inSequence ?_).mpr
  · refine ⟨?_, ?_, ?_, trivial⟩
    · rintro _ _ stmt k ⟨⟩ hp
      cases hp
      trivial
    · rintro _ _ stmt k ⟨⟩ hp
      cases hp
      exact ⟨"", rfl, rfl⟩
    · rintro _ _ stmt k ⟨⟩ hp
      cases hp
      trivial
  · rw [inSequence_appended, dispatch_sealed]
    intro r hr
    rw [List.mem_singleton.mp hr]
    exact dispatch_readsBack

/-- Two overlapping calls break the chain, whatever JSON and SHA-256 promise. -/
theorem chain_broken_sideBySide :
    (∀ m, IsHexDigest (sampleCodec.sha256 m)) ∧
      (∀ r ∈ (runFrom (writeStep sampleCodec)
        (openWriters sampleCodec sampleCalls) sideBySide).shared.appended,
          ReadsBack sampleCodec r) ∧
      ¬ Intact sampleCodec
        (runFrom (writeStep sampleCodec)
          (openWriters sampleCodec sampleCalls) sideBySide) := by
  have hread : ∀ r ∈ (runFrom (writeStep sampleCodec)
      (openWriters sampleCodec sampleCalls) sideBySide).shared.appended,
        ReadsBack sampleCodec r := by
    rw [sideBySide_appended, dispatch_sealed, resumed_sealed]
    intro r hr
    rcases List.mem_append.mp hr with hr | hr
    · rw [List.mem_singleton.mp hr]
      exact dispatch_readsBack
    · rw [List.mem_singleton.mp hr]
      exact resumed_readsBack
  refine ⟨sampleSha256_isHexDigest, hread, fun hintact => ?_⟩
  have hsealing : Sealing sampleCodec
      (runFrom (writeStep sampleCodec) (openWriters sampleCodec sampleCalls)
        sideBySide) := run_sealing sideBySide (openWriters_sealing sampleCalls)
  have hverified := (intact_iff hsealing hread).mp hintact
  have hbody : IsBody (sampleBody "resumed") := isBody_fields _ _ _
  rw [Verified, sideBySide_appended, verifyChain_sealed_iff hbody] at hverified
  -- the second line names no previous digest, behind a line that has one
  have hdigest : lastDigest [sampleRecord "dispatch" dispatchDigest] =
      dispatchDigest := by
    simp [lastDigest, sampleRecord, Record.get, Json.str]
  rw [dispatch_sealed, hdigest] at hverified
  exact dispatchDigest_isHexDigest.ne_empty hverified.2.symm

end Runs

end Evidence
end SwFactory
