import SwFactory.Scope.Changes

/-!
# The scope of a stage

`_assert_stage_scope` judges the lines that git prints.  A printed name is the
name itself when it is plain: no byte of it is quoted, and it has no space at
either end.  Every other name is judged in another spelling.
-/

namespace SwFactory
namespace Scope

open Lexical

/-! ## The check -/

/-- The cell, its fence, and the attempt in flight of the build. -/
structure Workspace where
  head : Commit
  workspaceHead : Commit
  attempt : Option String
deriving DecidableEq

/-- `restore_head`: reset, clean, and move the run's fence. -/
def restoreHead (head : Commit) (ws : Workspace) : Workspace :=
  { ws with head := head, workspaceHead := head }

/-- What is done about a violation. -/
inductive OnViolation
  | restore
  /-- `_abandon`: the attempt is struck from the progress as well -/
  | abandon
deriving DecidableEq

def OnViolation.run (before : Commit) (ws : Workspace) : OnViolation → Workspace
  | .restore => restoreHead before ws
  | .abandon => { restoreHead before ws with attempt := none }

/-- `StageError("policy", ...)`: the stage and the first paths it names. -/
structure ScopeError where
  stage : String
  escaped : List (List Char)
deriving DecidableEq

section Assertion

variable (casefold : List Char → List Char)

def escaped (contract : TargetContract) (stage : String) (before after : Commit) :
    List (List Char) :=
  (changedPaths before after).filter
    (fun path => isProtected casefold path (protectedFor contract stage))

/-- `_assert_stage_scope`. -/
def assertStageScope
    (contract : TargetContract)
    (stage : String)
    (before after : Commit)
    (onViolation : OnViolation)
    (ws : Workspace) :
    Except ScopeError Unit × Workspace :=
  if before = after then
    (.ok (), ws)
  else if (escaped casefold contract stage before after).isEmpty then
    (.ok (), ws)
  else
    (.error ⟨stage, (escaped casefold contract stage before after).take 20⟩,
      onViolation.run before ws)

end Assertion

/-! ## Printed names -/

theorem not_isLineBreak_of_quotedByte {b : UInt8} {c : Char} (h : c ∈ quotedByte b) :
    isLineBreak c = false := by
  have hall : ∀ n : Fin 256,
      (quotedByte (UInt8.ofNat n)).all (fun c => !isLineBreak c) = true := by
    decide +kernel
  have := hall ⟨b.toNat, b.toNat_lt⟩
  rw [UInt8.ofNat_toNat] at this
  simpa using List.all_eq_true.mp this c h

theorem not_isLineBreak_of_asciiChar {b : UInt8} (h : special b = false) :
    isLineBreak (asciiChar b) = false := by
  have hall : ∀ n < 256, special (UInt8.ofNat n) = false →
      isLineBreak (asciiChar (UInt8.ofNat n)) = false := by
    decide +kernel
  have := hall b.toNat b.toNat_lt
  rw [UInt8.ofNat_toNat] at this
  exact this h

/-- A printed name is one line. -/
theorem not_isLineBreak_of_printed {p : GitPath} {c : Char} (h : c ∈ printed p) :
    isLineBreak c = false := by
  unfold printed at h
  split at h
  · simp only [List.cons_append, List.mem_cons, List.mem_append, List.mem_flatMap,
      List.not_mem_nil, or_false] at h
    rcases h with rfl | ⟨b, -, hc⟩ | rfl
    · decide
    · exact not_isLineBreak_of_quotedByte hc
    · decide
  · rename_i hplain
    obtain ⟨b, hb, rfl⟩ := List.mem_map.mp h
    refine not_isLineBreak_of_asciiChar ?_
    by_contra hspecial
    exact hplain (List.any_eq_true.mpr ⟨b, hb, by simpa using hspecial⟩)

/-! ## Lines -/

/-- The lines of the output are the printed names. -/
theorem splitlines_nameOnly (before after : Commit) :
    splitlines (nameOnly before after) = (changed before after).map printed := by
  unfold nameOnly
  induction changed before after with
  | nil =>
      rfl
  | cons p rest ih =>
      rw [List.flatMap_cons, List.append_assoc, List.singleton_append, splitlines,
        splitlinesFrom_line (fun c hc => not_isLineBreak_of_printed hc), ih]
      rfl

/-- The spelling in which a changed path is judged. -/
def judged (p : GitPath) : List Char :=
  strip (printed p)

theorem mem_changedPaths {before after : Commit} {line : List Char} :
    line ∈ changedPaths before after ↔
      ∃ p ∈ changed before after, judged p = line ∧ line ≠ [] := by
  simp only [changedPaths, List.mem_mergeSort, List.mem_dedup, List.mem_filter,
    splitlines_nameOnly, List.map_map, List.mem_map, Function.comp_apply, judged]
  constructor
  · rintro ⟨⟨p, hp, rfl⟩, hne⟩
    exact ⟨p, hp, rfl, by simpa using hne⟩
  · rintro ⟨p, hp, rfl, hne⟩
    exact ⟨⟨p, hp, rfl⟩, by simpa using hne⟩

/-! ## Plain names -/

def space : UInt8 :=
  0x20

/-- No byte that git quotes, and no space at either end. -/
def Plain (p : GitPath) : Prop :=
  (∀ b ∈ p.bytes, special b = false) ∧
    p.bytes.head? ≠ some space ∧ p.bytes.getLast? ≠ some space

instance (p : GitPath) : Decidable (Plain p) :=
  inferInstanceAs (Decidable (_ ∧ _))

theorem isSpace_asciiChar {b : UInt8} (h : special b = false) :
    Text.isSpace (asciiChar b) = (b == space) := by
  have hall : ∀ n < 256, special (UInt8.ofNat n) = false →
      Text.isSpace (asciiChar (UInt8.ofNat n)) = (UInt8.ofNat n == space) := by
    decide +kernel
  have := hall b.toNat b.toNat_lt
  rw [UInt8.ofNat_toNat] at this
  exact this h

theorem lt_of_not_special {b : UInt8} (h : special b = false) : b < 0x80 := by
  have hall : ∀ n < 256, special (UInt8.ofNat n) = false → UInt8.ofNat n < 0x80 := by
    decide +kernel
  have := hall b.toNat b.toNat_lt
  rw [UInt8.ofNat_toNat] at this
  exact this h

theorem printed_of_plain {p : GitPath} (h : Plain p) :
    printed p = p.bytes.map asciiChar := by
  unfold printed
  rw [if_neg]
  intro hany
  obtain ⟨b, hb, hspecial⟩ := List.any_eq_true.mp hany
  rw [h.1 b hb] at hspecial
  cases hspecial

/-- A plain name is judged as it is printed. -/
theorem judged_of_plain {p : GitPath} (h : Plain p) :
    judged p = p.bytes.map asciiChar := by
  unfold judged
  rw [printed_of_plain h]
  have edge : ∀ {c : Char} {b : UInt8}, b ∈ p.bytes → b ≠ space → asciiChar b = c →
      Text.isSpace c = false := by
    rintro c b hb hne rfl
    rw [isSpace_asciiChar (h.1 b hb)]
    simpa using hne
  refine Trimmed.trim_eq ⟨fun c hc => ?_, fun c hc => ?_⟩
  · rw [List.head?_map, Option.mem_def, Option.map_eq_some_iff] at hc
    obtain ⟨b, hb, hbc⟩ := hc
    exact edge (List.mem_of_mem_head? hb) (fun heq => h.2.1 (heq ▸ hb)) hbc
  · rw [List.getLast?_map, Option.mem_def, Option.map_eq_some_iff] at hc
    obtain ⟨b, hb, hbc⟩ := hc
    exact edge (List.mem_of_mem_getLast? hb) (fun heq => h.2.2 (heq ▸ hb)) hbc

/-! ## What the check sees -/

section Law

variable (casefold : List Char → List Char)
variable (decode : List UInt8 → List Char)
variable (contract : TargetContract)
variable (stage : String)
variable (before after : Commit)

/-- A changed path that the contract protects, as the file name reads. -/
def ProtectedChange : Prop :=
  ∃ p ∈ changed before after,
    isProtected casefold (decode p.bytes) (protectedFor contract stage) = true

/-- The earlier head is restored, and the stage is refused. -/
def Refused (onViolation : OnViolation) (ws : Workspace) : Prop :=
  (∃ e, (assertStageScope casefold contract stage before after onViolation ws).1 =
      .error e) ∧
    (assertStageScope casefold contract stage before after onViolation ws).2.head = before

/-- A plain path is protected, or another one is in the spelling it is judged in. -/
def Recognised : Prop :=
  (∃ p ∈ changed before after, Plain p ∧
      isProtected casefold (decode p.bytes) (protectedFor contract stage) = true) ∨
    ∃ p ∈ changed before after, ¬ Plain p ∧ judged p ≠ [] ∧
      isProtected casefold (judged p) (protectedFor contract stage) = true

variable {casefold decode contract stage before after}

theorem escaped_eq_nil_iff :
    escaped casefold contract stage before after = [] ↔
      ¬ ∃ p ∈ changed before after, judged p ≠ [] ∧
        isProtected casefold (judged p) (protectedFor contract stage) = true := by
  unfold escaped
  rw [List.filter_eq_nil_iff]
  constructor
  · rintro h ⟨p, hp, hne, hprotected⟩
    exact h _ (mem_changedPaths.mpr ⟨p, hp, rfl, hne⟩) hprotected
  · rintro h line hline hprotected
    obtain ⟨p, hp, rfl, hne⟩ := mem_changedPaths.mp hline
    exact h ⟨p, hp, hne, hprotected⟩

/-- The check refuses exactly on a path that is protected as it is judged. -/
theorem refused_iff {onViolation : OnViolation} {ws : Workspace} :
    Refused casefold contract stage before after onViolation ws ↔
      ∃ p ∈ changed before after, judged p ≠ [] ∧
        isProtected casefold (judged p) (protectedFor contract stage) = true := by
  unfold Refused assertStageScope
  by_cases heq : before = after
  · subst heq
    simp [changed_self]
  rw [if_neg heq]
  by_cases hescaped : escaped casefold contract stage before after = []
  · have hnone := escaped_eq_nil_iff.mp hescaped
    simp [hescaped, hnone]
  · have hsome := mt escaped_eq_nil_iff.mpr hescaped
    rw [not_not] at hsome
    rw [if_neg (by simpa using hescaped)]
    refine ⟨fun _ => hsome, fun _ => ⟨⟨_, rfl⟩, ?_⟩⟩
    cases onViolation <;> rfl

end Law

/-- **The scope check refuses exactly the changes it can recognise.** -/
theorem scope_check_iff
    (casefold : List Char → List Char)
    (decode : List UInt8 → List Char)
    (hascii : ∀ bytes, (∀ b ∈ bytes, b < 0x80) → decode bytes = bytes.map asciiChar)
    (contract : TargetContract)
    (stage : String)
    (before after : Commit)
    (onViolation : OnViolation)
    (ws : Workspace) :
    (ProtectedChange casefold decode contract stage before after →
        Refused casefold contract stage before after onViolation ws) ↔
      (ProtectedChange casefold decode contract stage before after →
        Recognised casefold decode contract stage before after) := by
  have hplain : ∀ p, Plain p → decode p.bytes = judged p := by
    intro p hp
    rw [judged_of_plain hp]
    exact hascii _ (fun b hb => lt_of_not_special (hp.1 b hb))
  have hiff : Refused casefold contract stage before after onViolation ws ↔
      Recognised casefold decode contract stage before after := by
    rw [refused_iff]
    constructor
    · rintro ⟨p, hp, hne, hprotected⟩
      by_cases h : Plain p
      · exact Or.inl ⟨p, hp, h, by rw [hplain p h]; exact hprotected⟩
      · exact Or.inr ⟨p, hp, h, hne, hprotected⟩
    · rintro (⟨p, hp, h, hprotected⟩ | ⟨p, hp, -, hne, hprotected⟩)
      · rw [hplain p h] at hprotected
        refine ⟨p, hp, ?_, hprotected⟩
        rw [judged_of_plain h]
        simpa using p.named
      · exact ⟨p, hp, hne, hprotected⟩
  rw [hiff]

/-! ## A name in quotes -/

namespace Quoted

def asciiBytes (name : String) : List UInt8 :=
  name.toList.map (fun c => UInt8.ofNat c.toNat)

def casefold (text : List Char) : List Char :=
  text.map Char.toLower

def decode (bytes : List UInt8) : List Char :=
  bytes.map asciiChar

/-- The tests of the target are protected from a fix. -/
def contract : TargetContract :=
  ⟨[], "tests".toList⟩

/-- A test whose name has a double quote in it. -/
def quotedTest : GitPath :=
  ⟨asciiBytes "tests/test_\"a\".py", by decide, by decide⟩

def plainTest : GitPath :=
  ⟨asciiBytes "tests/test_a.py", by decide, by decide⟩

/-- The commit that holds one file. -/
def holding (p : GitPath) (content : String) : Commit :=
  ⟨[(p, asciiBytes content)]⟩

/-- The cell at the commit of the fix. -/
def cell (p : GitPath) : Workspace :=
  ⟨holding p "pass", holding p "pass", none⟩

end Quoted

/-- A fix edits a protected test, and the check lets it through. -/
theorem quoted_test_not_refused :
    ProtectedChange Quoted.casefold Quoted.decode Quoted.contract "fix"
        (Quoted.holding Quoted.quotedTest "assert f() == 1")
        (Quoted.holding Quoted.quotedTest "pass") ∧
      ¬ Refused Quoted.casefold Quoted.contract "fix"
        (Quoted.holding Quoted.quotedTest "assert f() == 1")
        (Quoted.holding Quoted.quotedTest "pass") .restore
        (Quoted.cell Quoted.quotedTest) := by
  constructor
  · unfold ProtectedChange
    decide +kernel
  · rw [refused_iff]
    decide +kernel

/-- The equivalence for a fix that edits a test with a plain name. -/
theorem scope_check_iff_plain :
    (ProtectedChange Quoted.casefold Quoted.decode Quoted.contract "fix"
          (Quoted.holding Quoted.plainTest "assert f() == 1")
          (Quoted.holding Quoted.plainTest "pass") →
        Refused Quoted.casefold Quoted.contract "fix"
          (Quoted.holding Quoted.plainTest "assert f() == 1")
          (Quoted.holding Quoted.plainTest "pass") .restore
          (Quoted.cell Quoted.plainTest)) ↔
      (ProtectedChange Quoted.casefold Quoted.decode Quoted.contract "fix"
          (Quoted.holding Quoted.plainTest "assert f() == 1")
          (Quoted.holding Quoted.plainTest "pass") →
        Recognised Quoted.casefold Quoted.decode Quoted.contract "fix"
          (Quoted.holding Quoted.plainTest "assert f() == 1")
          (Quoted.holding Quoted.plainTest "pass")) :=
  scope_check_iff Quoted.casefold Quoted.decode (fun _ _ => rfl) Quoted.contract "fix"
    (Quoted.holding Quoted.plainTest "assert f() == 1")
    (Quoted.holding Quoted.plainTest "pass") .restore (Quoted.cell Quoted.plainTest)

end Scope
end SwFactory
