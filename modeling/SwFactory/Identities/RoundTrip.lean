import SwFactory.Identities.Ids

/-!
# Reading an identity back

A printed index is found again behind the last `#` whatever the run id holds.
An unmapped job prints no index, so it is read back exactly when its run id
does not end in something that reads as one.  A gate is read back when its job
is, and every delivery that can be read is printed so that it reads the same.
-/

namespace SwFactory
namespace Identities

open Lexical

/-! ## Numbers -/

theorem readDigits_toDigits (n : Nat) :
    readDigits (Nat.toDigits 10 n) = some n := by
  have hdigits : (Nat.toDigits 10 n).all Char.isDigit = true := by
    simp only [List.all_eq_true]
    intro c hc
    exact Nat.isDigit_of_mem_toDigits (by decide) le_rfl hc
  simp [readDigits, hdigits, Nat.toDigits_ne_nil,
    Nat.ofDigitChars_toDigits (by decide : 1 < 10) le_rfl]

theorem readDigits_eq_some {text : Str} {n : Nat} (h : readDigits text = some n) :
    text ≠ [] ∧ ∀ c ∈ text, c.isDigit = true := by
  simp only [readDigits] at h
  split at h
  · rename_i hcond
    exact ⟨hcond.1, by simpa using hcond.2⟩
  · cases h

theorem I32.ofInt_val (i : I32) : I32.ofInt i.1 = some i :=
  dif_pos i.2

/-- What reads as an index holds nothing but digits and a sign. -/
theorem I32.parse_chars {text : Str} {i : I32} (h : I32.parse text = some i) :
    ∀ c ∈ text, c.isDigit = true ∨ c = '-' ∨ c = '+' := by
  intro c hc
  unfold I32.parse at h
  split at h
  · obtain ⟨n, hn, -⟩ := Option.bind_eq_some_iff.mp h
    rcases List.mem_cons.mp hc with rfl | hc
    · exact Or.inr (Or.inl rfl)
    · exact Or.inl ((readDigits_eq_some hn).2 c hc)
  · obtain ⟨n, hn, -⟩ := Option.bind_eq_some_iff.mp h
    rcases List.mem_cons.mp hc with rfl | hc
    · exact Or.inr (Or.inr rfl)
    · exact Or.inl ((readDigits_eq_some hn).2 c hc)
  · obtain ⟨n, hn, -⟩ := Option.bind_eq_some_iff.mp h
    exact Or.inl ((readDigits_eq_some hn).2 c hc)

/-- Digits without a sign are read as they are. -/
theorem I32.parse_digits {text : Str}
    (h : ∀ c ∈ text, c.isDigit = true) :
    I32.parse text = (readDigits text).bind (fun n => I32.ofInt n) := by
  unfold I32.parse
  split
  · exact absurd (h '-' List.mem_cons_self) (by decide)
  · exact absurd (h '+' List.mem_cons_self) (by decide)
  · rfl

theorem I32.parse_display (i : I32) : I32.parse i.display = some i := by
  by_cases hneg : i.1 < 0
  · have habs : (-(i.1.natAbs : Int)) = i.1 := by omega
    rw [I32.display, if_pos hneg]
    change (readDigits (Nat.toDigits 10 i.1.natAbs)).bind
      (fun n => I32.ofInt (-(n : Int))) = some i
    rw [readDigits_toDigits, Option.bind_some, habs, I32.ofInt_val]
  · have habs : (i.1.natAbs : Int) = i.1 := by omega
    rw [I32.display, if_neg hneg, I32.parse_digits, readDigits_toDigits,
      Option.bind_some, habs, I32.ofInt_val]
    intro c hc
    exact Nat.isDigit_of_mem_toDigits (by decide) le_rfl hc

theorem not_isWhitespace_of_isDigit {c : Char} (h : c.isDigit = true) :
    isWhitespace c = false := by
  simp only [Char.isDigit, Bool.and_eq_true, decide_eq_true_eq, ge_iff_le,
    UInt32.le_iff_toNat_le] at h
  change 48 ≤ c.toNat ∧ c.toNat ≤ 57 at h
  simp [isWhitespace]
  omega

theorem I32.trimmed_display (i : I32) :
    Trimmed isWhitespace i.display ∧ i.display ≠ [] := by
  have hchar : ∀ c ∈ i.display, isWhitespace c = false := by
    intro c hc
    rcases I32.parse_chars i.parse_display c hc with hdigit | rfl | rfl
    · exact not_isWhitespace_of_isDigit hdigit
    · decide
    · decide
  refine ⟨⟨fun c hc => hchar c (List.mem_of_mem_head? hc),
    fun c hc => hchar c (List.mem_of_mem_getLast? hc)⟩, ?_⟩
  intro hnil
  have hparse := i.parse_display
  rw [hnil] at hparse
  cases hparse

/-! ## Runs -/

/-- The components of a run that the readers expect. -/
structure RunRef.Named (run : RunRef) : Prop where
  dagId : run.dagId ≠ [] ∧ Trimmed isWhitespace run.dagId
  noSlash : '/' ∉ run.dagId
  runId : run.runId ≠ [] ∧ Trimmed isWhitespace run.runId

namespace RunRef

variable {run : RunRef}

theorem display_ne_nil (run : RunRef) : run.display ≠ [] := by
  simp [RunRef.display]

theorem Named.trimmed (h : run.Named) : Trimmed isWhitespace run.display := by
  have := Trimmed.append ['/'] h.dagId.2 h.dagId.1 h.runId.2 h.runId.1
  simpa [RunRef.display] using this

/-- A named run is read back. -/
theorem parse_display (h : run.Named) : RunRef.parse run.display = .ok run := by
  have hsplit : splitOnce '/' run.display = some (run.dagId, run.runId) :=
    splitOnce_eq_some.mpr ⟨rfl, h.noSlash⟩
  simp [RunRef.parse, trimText, h.trimmed.trim_eq, display_ne_nil, hsplit,
    h.dagId.1, h.runId.1]

/-- What is read prints as the text without its margins. -/
theorem display_of_parse {text : Str} (h : RunRef.parse text = .ok run) :
    run.display = trimText text := by
  simp only [RunRef.parse] at h
  split at h
  · cases h
  split at h
  · cases h
  rename_i dagId runId hsplit
  split at h
  · cases h
  split at h
  · cases h
  cases h
  exact (splitOnce_eq_some.mp hsplit).1.symm

end RunRef

theorem length_trimText_le (text : Str) :
    (trimText text).length ≤ text.length :=
  ((List.rdropWhile_prefix _ _).length_le).trans
    (List.dropWhile_suffix _).length_le

/-! ## Jobs -/

/-- The run id ends in a `#` and something that reads as an index. -/
def endsInIndex (runId : Str) : Bool :=
  match rsplitOnce '#' runId with
  | some (_, tail) => (I32.parse tail).isSome
  | none => false

/-- The text of the job shows whether it has an index. -/
def JobId.Legible (job : JobId) : Prop :=
  job.mapIndex = unmapped → endsInIndex job.runId = false

instance (job : JobId) : Decidable job.Legible :=
  inferInstanceAs (Decidable (_ → _))

namespace JobId

variable {job : JobId}

theorem trimmed_display (h : job.run.Named) :
    Trimmed isWhitespace job.display := by
  by_cases hindex : job.mapIndex = unmapped
  · simpa [JobId.display, hindex] using h.trimmed
  · obtain ⟨htrim, hne⟩ := job.mapIndex.trimmed_display
    have := Trimmed.append ['#'] h.trimmed (RunRef.display_ne_nil _)
      htrim hne
    simpa [JobId.display, hindex] using this

theorem display_ne_nil (job : JobId) : job.display ≠ [] := by
  simp [JobId.display, RunRef.display_ne_nil]

/-- Reading a printed job is reading the run in front of the cut. -/
theorem parse_eq (h : job.run.Named) :
    JobId.parse job.display =
      (RunRef.parse (JobId.cut job.display).1).map
        (fun run => ⟨run.dagId, run.runId, (JobId.cut job.display).2⟩) := by
  simp only [JobId.parse, trimText, (trimmed_display h).trim_eq, display_ne_nil,
    if_false]
  cases RunRef.parse (JobId.cut job.display).1 <;> rfl

/-- The printed index is behind the last `#`. -/
theorem cut_of_mapped (hindex : job.mapIndex ≠ unmapped) :
    JobId.cut job.display = (job.run.display, job.mapIndex) := by
  have hchars := I32.parse_chars job.mapIndex.parse_display
  have hnot : '#' ∉ job.mapIndex.display := by
    intro hmem
    rcases hchars '#' hmem with hdigit | heq | heq
    · exact absurd hdigit (by decide)
    · exact absurd heq (by decide)
    · exact absurd heq (by decide)
  have hsplit : rsplitOnce '#' job.display =
      some (job.run.display, job.mapIndex.display) :=
    rsplitOnce_eq_some.mpr ⟨by simp [JobId.display, hindex], hnot⟩
  simp [JobId.cut, hsplit, RunRef.display_ne_nil, I32.parse_display]

/-- Where the run id does not end in an index, nothing is cut off. -/
theorem cut_of_legible (hindex : job.mapIndex = unmapped)
    (hlegible : endsInIndex job.runId = false) :
    JobId.cut job.display = (job.run.display, unmapped) := by
  have hdisplay : job.display = job.run.display := by
    simp [JobId.display, hindex]
  rw [hdisplay, JobId.cut]
  split
  · rename_i head tail hsplit
    have htail : I32.parse tail = none := by
      by_cases hhash : '#' ∈ job.runId
      · obtain ⟨front, back, hback⟩ :
            ∃ front back, rsplitOnce '#' job.runId = some (front, back) := by
          cases hrun : rsplitOnce '#' job.runId with
          | none => exact absurd hhash (rsplitOnce_eq_none.mp hrun)
          | some cut => exact ⟨cut.1, cut.2, rfl⟩
        obtain ⟨hrun, hnot⟩ := rsplitOnce_eq_some.mp hback
        have hsplit' : rsplitOnce '#' job.run.display =
            some (job.dagId ++ '/' :: front, back) :=
          rsplitOnce_eq_some.mpr ⟨by simp [RunRef.display, JobId.run, hrun], hnot⟩
        rw [hsplit] at hsplit'
        cases hsplit'
        simpa [endsInIndex, hback] using hlegible
      · -- the cut is inside the DAG id, so the slash is in the tail
        obtain ⟨htext, hnot⟩ := rsplitOnce_eq_some.mp hsplit
        have hslash : '/' ∈ tail := by
          have hrun : job.dagId ++ '/' :: job.runId = head ++ '#' :: tail := htext
          rcases List.append_eq_append_iff.mp hrun with
            ⟨mid, hhead, hrest⟩ | ⟨mid, hdag, hrest⟩
          · cases mid with
            | nil =>
                simp at hrest
            | cons c mid =>
                simp only [List.cons_append, List.cons.injEq] at hrest
                exact absurd (hrest.2 ▸ by simp) hhash
          · cases mid with
            | nil =>
                simp at hrest
            | cons c mid =>
                simp only [List.cons_append, List.cons.injEq] at hrest
                rw [hrest.2]
                simp
        cases hparse : I32.parse tail with
        | none => rfl
        | some i =>
            rcases I32.parse_chars hparse '/' hslash with hdigit | heq | heq
            · exact absurd hdigit (by decide)
            · exact absurd heq (by decide)
            · exact absurd heq (by decide)
    simp [htail]
  · rfl

/-- Where it does, the cut takes a part of the run id away. -/
theorem cut_of_not_legible (hindex : job.mapIndex = unmapped)
    (hends : endsInIndex job.runId = true) :
    (JobId.cut job.display).1.length < job.run.display.length := by
  have hdisplay : job.display = job.run.display := by
    simp [JobId.display, hindex]
  rw [hdisplay]
  cases hsplit : rsplitOnce '#' job.runId with
  | none =>
      simp [endsInIndex, hsplit] at hends
  | some cut =>
      obtain ⟨front, tail⟩ := cut
      obtain ⟨hrun, hnot⟩ := rsplitOnce_eq_some.mp hsplit
      have hsplit' : rsplitOnce '#' job.run.display =
          some (job.dagId ++ '/' :: front, tail) :=
        rsplitOnce_eq_some.mpr ⟨by simp [RunRef.display, JobId.run, hrun], hnot⟩
      obtain ⟨index, hparse⟩ : ∃ index, I32.parse tail = some index := by
        simpa [endsInIndex, hsplit, Option.isSome_iff_exists] using hends
      have hcut : (JobId.cut job.run.display).1 = job.dagId ++ '/' :: front := by
        simp [JobId.cut, hsplit', hparse]
      rw [hcut]
      simp [RunRef.display, JobId.run, hrun]

/-- A job is read back exactly when its text shows whether it has an index. -/
theorem parse_display_iff (h : job.run.Named) :
    JobId.parse job.display = .ok job ↔ job.Legible := by
  rw [parse_eq h]
  constructor
  · intro hparse hindex
    by_contra hends
    have hshort := cut_of_not_legible hindex (by simpa using hends)
    cases hrun : RunRef.parse (JobId.cut job.display).1 with
    | error e =>
        rw [hrun] at hparse
        cases hparse
    | ok run =>
        rw [hrun] at hparse
        have hsame : run = job.run := by
          have hjob := Except.ok.inj hparse
          rw [← hjob]
          rfl
        have hdisplay := RunRef.display_of_parse hrun
        have hle := length_trimText_le (JobId.cut job.display).1
        rw [← hdisplay, hsame] at hle
        omega
  · intro hlegible
    have hcut : JobId.cut job.display = (job.run.display, job.mapIndex) := by
      by_cases hindex : job.mapIndex = unmapped
      · rw [cut_of_legible hindex (hlegible hindex), hindex]
      · exact cut_of_mapped hindex
    rw [hcut, RunRef.parse_display h]
    rfl

end JobId

/-! ## Gates -/

/-- The task ids that stand for themselves. -/
structure TaskName (taskId : Str) : Prop where
  full : '.' ∈ taskId
  noColon : ':' ∉ taskId
  trimmed : Trimmed isWhitespace taskId

/-- A gate is read back exactly when its job is and its task id has a letter. -/
theorem GateId.parse_display_iff {gate : GateId}
    (h : gate.job.run.Named) (htask : TaskName gate.taskId) :
    GateId.parse gate.display = .ok gate ↔
      gate.job.Legible ∧ gate.taskId.any Char.isAlpha = true := by
  have hne : gate.taskId ≠ [] := List.ne_nil_of_mem htask.full
  have htrim : Trimmed isWhitespace gate.display := by
    have := Trimmed.append [':'] (JobId.trimmed_display h)
      (JobId.display_ne_nil _) htask.trimmed hne
    simpa [GateId.display] using this
  have hsplit : rsplitOnce ':' gate.display =
      some (gate.job.display, gate.taskId) :=
    rsplitOnce_eq_some.mpr ⟨rfl, htask.noColon⟩
  have hexpand : expandGateTask gate.taskId = gate.taskId := by
    simp [expandGateTask, trimText, htask.trimmed.trim_eq, htask.full]
  have hdisplay : gate.display ≠ [] := by
    simp [GateId.display]
  rw [← JobId.parse_display_iff h]
  by_cases hletter : gate.taskId.any Char.isAlpha = true
  · cases hjob : JobId.parse gate.job.display with
    | error e =>
        simp [GateId.parse, trimText, htrim.trim_eq, hdisplay, hsplit,
          JobId.display_ne_nil, hletter, hjob]
    | ok job =>
        obtain ⟨job', taskId⟩ := gate
        simp_all [GateId.parse, trimText, htrim.trim_eq, JobId.display_ne_nil]
  · simp [GateId.parse, trimText, htrim.trim_eq, hdisplay, hsplit, hletter]

/-! ## Deliveries -/

theorem trimText_trimText (text : Str) : trimText (trimText text) = trimText text :=
  (trimmed_trim text).trim_eq

namespace DeliveryId

theorem parse_trimText (text : Str) :
    DeliveryId.parse (trimText text) = DeliveryId.parse text := by
  simp only [DeliveryId.parse, trimText_trimText]

theorem stripFront_eq_some {front text tail : Str}
    (h : stripFront front text = some tail) : front ++ tail = text := by
  simp only [stripFront] at h
  split at h
  · rename_i hfront
    cases h
    exact List.prefix_iff_eq_append.mp (List.isPrefixOf_iff_prefix.mp hfront)
  · cases h

/-- Every reading but a number prints as the text without its margins. -/
theorem display_of_parse {text : Str} {d : DeliveryId}
    (h : DeliveryId.parse text = .ok d) :
    (∃ number, d = .pr number) ∨ d.display = trimText text := by
  simp only [DeliveryId.parse] at h
  split at h
  · cases h
  split at h
  · split at h
    · rename_i number _
      cases h
      exact Or.inl ⟨number, rfl⟩
    · cases h
  split at h
  · cases h
    exact Or.inr rfl
  split at h
  · rename_i tail hstrip
    simp only [DeliveryId.parseBranch] at h
    split at h
    · cases h
    rename_i issueId runId hsplit
    split at h
    · cases h
    split at h
    · cases h
    cases h
    right
    obtain ⟨rfl, -⟩ := rsplitOnce_eq_some.mp hsplit
    rw [← stripFront_eq_some hstrip]
    simp [DeliveryId.display]
  · cases h
    exact Or.inr rfl

theorem parse_display_pr (number : U64) :
    DeliveryId.parse (DeliveryId.display (.pr number)) = .ok (.pr number) := by
  have hdigit : ∀ c ∈ number.display, c.isDigit = true := fun c hc =>
    Nat.isDigit_of_mem_toDigits (by decide) le_rfl hc
  have hne : number.display ≠ [] := Nat.toDigits_ne_nil
  have htrim : Trimmed isWhitespace ('#' :: number.display) := by
    constructor
    · rintro _ ⟨⟩
      decide
    · intro c hc
      rw [List.getLast?_cons_of_ne_nil hne] at hc
      exact not_isWhitespace_of_isDigit (hdigit c (List.mem_of_mem_getLast? hc))
  have hparse : U64.parse number.display = some number := by
    rw [U64.parse, U64.display, readDigits_toDigits]
    exact dif_pos number.2
  have hstrip : stripFront ['#'] ('#' :: number.display) = some number.display := by
    simp [stripFront]
  have hall : number.display.all Char.isDigit = true := by
    simpa using hdigit
  simp [DeliveryId.parse, DeliveryId.display, trimText, htrim.trim_eq, hstrip,
    hne, hparse, hall]

/-- What could be read is read again from what it prints. -/
theorem parse_display_of_parse {text : Str} {d : DeliveryId}
    (h : DeliveryId.parse text = .ok d) :
    DeliveryId.parse d.display = .ok d := by
  rcases display_of_parse h with ⟨number, rfl⟩ | hdisplay
  · exact parse_display_pr number
  · rw [hdisplay, parse_trimText, h]

end DeliveryId

/-! ## The identities together -/

/--
Printed jobs and gates are read back, and no two of them print the same text,
exactly where the text shows whether there is an index; deliveries always are.
-/
theorem identities_round_trip_iff
    (job job' : JobId)
    (gate gate' : GateId)
    (text : Str)
    (d : DeliveryId) :
    (job.run.Named → (JobId.parse job.display = .ok job ↔ job.Legible)) ∧
    (gate.job.run.Named → TaskName gate.taskId →
      (GateId.parse gate.display = .ok gate ↔
        gate.job.Legible ∧ gate.taskId.any Char.isAlpha = true)) ∧
    (job.run.Named → job'.run.Named → job.Legible → job'.Legible →
      job.display = job'.display → job = job') ∧
    (gate.job.run.Named → gate'.job.run.Named →
      TaskName gate.taskId → TaskName gate'.taskId →
      gate.taskId.any Char.isAlpha = true → gate'.taskId.any Char.isAlpha = true →
      gate.job.Legible → gate'.job.Legible →
      gate.display = gate'.display → gate = gate') ∧
    (DeliveryId.parse text = .ok d → DeliveryId.parse d.display = .ok d) := by
  refine ⟨JobId.parse_display_iff, GateId.parse_display_iff, ?_, ?_,
    DeliveryId.parse_display_of_parse⟩
  · intro h h' hlegible hlegible' heq
    have hparse := (JobId.parse_display_iff h).mpr hlegible
    have hparse' := (JobId.parse_display_iff h').mpr hlegible'
    rw [heq, hparse'] at hparse
    exact (Except.ok.inj hparse).symm
  · intro h h' htask htask' hletter hletter' hlegible hlegible' heq
    have hparse := (GateId.parse_display_iff h htask).mpr ⟨hlegible, hletter⟩
    have hparse' := (GateId.parse_display_iff h' htask').mpr ⟨hlegible', hletter'⟩
    rw [heq, hparse'] at hparse
    exact (Except.ok.inj hparse).symm

/-- An unmapped job whose run id ends in `#3` prints as the third job. -/
def hashedJob : JobId :=
  ⟨"factory".toList, "nightly#3".toList, unmapped⟩

def thirdJob : JobId :=
  ⟨"factory".toList, "nightly".toList, ⟨3, by decide⟩⟩

theorem hashedJob_not_read_back :
    hashedJob.run.Named ∧ thirdJob.run.Named ∧ hashedJob ≠ thirdJob ∧
      hashedJob.display = thirdJob.display ∧
      JobId.parse hashedJob.display = .ok thirdJob ∧
      GateId.parse (GateId.display ⟨hashedJob, "job.approve_plan".toList⟩) =
        .ok ⟨thirdJob, "job.approve_plan".toList⟩ := by
  refine ⟨⟨by decide, by decide, by decide⟩, ⟨by decide, by decide, by decide⟩,
    by decide, by decide, by decide, by decide⟩

end Identities
end SwFactory
