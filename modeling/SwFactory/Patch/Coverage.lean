import SwFactory.Patch.GitApply

/-!
# What the patch policy sees

Over a git section the flag of the scanner stays on up to the first hunk, as
long as none of its header lines is split in two, and the scanner collects what
it reads there.  A traditional section does not turn the flag on.
-/

namespace SwFactory
namespace Patch

open Lexical
open Git (Line Role Mode)

/-! ## Lines that are read alike -/

/-- The flag of the scanner behind a line, by the text alone. -/
def flagAfter (flag : Bool) (line : Line) : Bool :=
  (splitlines (decodeReplace line)).foldl
    (fun flag piece =>
      if startsWith piece diffHeader then true
      else if startsWith piece "@@".toList then false
      else flag)
    flag

/-- The scanner does not split the line, and reads the names that git reads. -/
def ReadAlike (line : Line) (names : List (List Char)) : Prop :=
  splitlines (decodeReplace line) = [decodeReplace line] ∧
    ∀ p ∈ names, p ∈ linePaths (decodeReplace line)

instance (line : Line) (names : List (List Char)) : Decidable (ReadAlike line names) :=
  inferInstanceAs (Decidable (_ ∧ _))

/-- The header lines of a git section are read alike; a traditional section
stands where the flag is on. -/
def RoleSeen (flag : Bool) (line : Line) : Role → Prop
  | .git names => ReadAlike line names
  | .traditional names => flag = true ∧ ReadAlike line names
  | .other => True

instance (flag : Bool) (line : Line) : (role : Role) → Decidable (RoleSeen flag line role)
  | .git names => inferInstanceAs (Decidable (ReadAlike line names))
  | .traditional names => inferInstanceAs (Decidable (flag = true ∧ ReadAlike line names))
  | .other => isTrue trivial

def Seen : Bool → List (Line × Role) → Prop
  | _, [] => True
  | flag, (line, role) :: rest => RoleSeen flag line role ∧ Seen (flagAfter flag line) rest

instance decidableSeen : (flag : Bool) → (ls : List (Line × Role)) → Decidable (Seen flag ls)
  | _, [] => isTrue trivial
  | flag, (line, role) :: rest =>
      have := decidableSeen (flagAfter flag line) rest
      inferInstanceAs (Decidable (RoleSeen flag line role ∧ Seen (flagAfter flag line) rest))

/-! ## The scanner on one line -/

/-- The scanner on a line of the stream. -/
def Scan.bytes (s : Scan) (line : Line) : Scan :=
  s.text (decodeReplace line)

theorem Scan.line_inHeader (s : Scan) (piece : List Char) :
    (s.line piece).inHeader =
      (if startsWith piece diffHeader then true
      else if startsWith piece "@@".toList then false
      else s.inHeader) := by
  unfold Scan.line
  split
  · rfl
  split
  · rename_i hoff
    split
    · simpa using hoff
    · rfl
  split
  · rfl
  · rfl

/-- The flag is decided by the text. -/
theorem Scan.bytes_inHeader (s : Scan) (line : Line) :
    (s.bytes line).inHeader = flagAfter s.inHeader line := by
  unfold Scan.bytes Scan.text flagAfter
  induction splitlines (decodeReplace line) generalizing s with
  | nil =>
      rfl
  | cons piece pieces ih =>
      rw [List.foldl_cons, List.foldl_cons, ih, s.line_inHeader piece]

theorem Scan.seen_bytes {s : Scan} {line : Line} {p : List Char} (h : p ∈ s.seen) :
    p ∈ (s.bytes line).seen :=
  Scan.seen_foldl h

theorem Scan.seen_foldl_bytes {s : Scan} {ls : List Line} {p : List Char}
    (h : p ∈ s.seen) :
    p ∈ (ls.foldl Scan.bytes s).seen := by
  induction ls generalizing s with
  | nil =>
      exact h
  | cons line ls ih =>
      exact ih (Scan.seen_bytes h)

theorem Scan.bytes_of_readAlike {s : Scan} {line : Line} {names : List (List Char)}
    (h : ReadAlike line names) :
    s.bytes line = s.line (decodeReplace line) := by
  unfold Scan.bytes Scan.text
  rw [h.1]
  rfl

theorem decode_ascii {front : String} (hascii : ∀ c ∈ front.toList, c.toNat < 0x80)
    (rest : List UInt8) :
    decodeReplace (Git.ascii front ++ rest) = front.toList ++ decodeReplace rest := by
  have hbytes : ∀ b ∈ Git.ascii front, b < 0x80 := by
    intro b hb
    obtain ⟨c, hc, rfl⟩ := List.mem_map.mp hb
    have := hascii c hc
    rw [UInt8.lt_iff_toNat_lt, UInt8.toNat_ofNat']
    exact Nat.lt_of_le_of_lt (Nat.mod_le _ _) this
  have hchars : (Git.ascii front).map Replacement.asciiChar = front.toList := by
    rw [Git.ascii, List.map_map]
    refine (List.map_congr_left fun c hc => ?_).trans (List.map_id _)
    have := hascii c hc
    simp only [Function.comp_apply, Replacement.asciiChar, id_eq]
    rw [UInt8.toNat_ofNat', Nat.mod_eq_of_lt (by omega), Char.ofNat_toNat]
  rw [Replacement.decodeReplace_ascii_append hbytes, hchars]

theorem startsWith_decode {line : Line} {front : String}
    (hascii : front.toList.all (fun c => c.toNat < 0x80) = true)
    (h : Git.starts line front = true) :
    startsWith (decodeReplace line) front.toList = true := by
  obtain ⟨rest, rfl⟩ := List.isPrefixOf_iff_prefix.mp h
  rw [decode_ascii (by simpa using hascii)]
  exact List.isPrefixOf_iff_prefix.mpr ⟨_, rfl⟩

/-- Two texts that start alike do not start with different characters. -/
theorem not_startsWith_of_head {text front other : List Char} {a b : Char}
    (hfront : front.head? = some a) (hother : other.head? = some b) (hne : a ≠ b)
    (h : startsWith text front = true) :
    startsWith text other = false := by
  cases front with
  | nil =>
      cases hfront
  | cons c front =>
      cases other with
      | nil =>
          cases hother
      | cons d other =>
          cases hfront
          cases hother
          obtain ⟨rest, rfl⟩ := List.isPrefixOf_iff_prefix.mp h
          rw [startsWith, List.cons_append, List.isPrefixOf_cons_cons]
          simp [Ne.symm hne]

theorem flagAfter_of_readAlike {flag : Bool} {line : Line} {names : List (List Char)}
    (h : ReadAlike line names) :
    flagAfter flag line =
      (if startsWith (decodeReplace line) diffHeader then true
      else if startsWith (decodeReplace line) "@@".toList then false
      else flag) := by
  unfold flagAfter
  rw [h.1]
  rfl

/-! ## What it does not see -/

/-- The scanner reads the names of this line: its flag is on, or the line turns
it on, and the line is read alike. -/
def LineSeen (flag : Bool) (line : Line) (role : Role) : Prop :=
  (flag = true ∨ startsWith (decodeReplace line) diffHeader = true) ∧
    ReadAlike line role.names

instance (flag : Bool) (line : Line) (role : Role) : Decidable (LineSeen flag line role) :=
  inferInstanceAs (Decidable (_ ∧ _))

/-- The paths that sections name on lines the scanner does not see. -/
def unseen : Bool → List (Line × Role) → List (List Char)
  | _, [] => []
  | flag, (line, role) :: rest =>
      (if LineSeen flag line role then [] else role.names) ++
        unseen (flagAfter flag line) rest

def unseenPaths (patch : List UInt8) : List (List Char) :=
  unseen false (Git.reading .between (Git.lines patch))

theorem Scan.seen_of_lineSeen {s : Scan} {line : Line} {role : Role}
    (h : LineSeen s.inHeader line role) :
    ∀ p ∈ role.names, p ∈ (s.bytes line).seen := by
  intro p hp
  obtain ⟨hflag, halike⟩ := h
  have hmem := halike.2 p hp
  rw [Scan.bytes_of_readAlike halike]
  unfold Scan.line
  split
  · exact Scan.mem_add.mpr (Or.inr hmem)
  rename_i hdiff
  have hon : s.inHeader = true := hflag.resolve_right hdiff
  rw [hon, Bool.not_true, if_neg Bool.false_ne_true]
  split
  · -- an `@@` line names nothing
    rename_i hat
    unfold linePaths at hmem
    rw [if_neg hdiff, if_pos hat] at hmem
    cases hmem
  · exact Scan.mem_add.mpr (Or.inr hmem)

/-- Every path of a reading is collected, or named on a line that is not seen. -/
theorem collected_or_unseen (ls : List (Line × Role)) (s : Scan) :
    ∀ l ∈ ls, ∀ p ∈ l.2.names,
      p ∈ ((ls.map Prod.fst).foldl Scan.bytes s).seen ∨ p ∈ unseen s.inHeader ls := by
  induction ls generalizing s with
  | nil =>
      simp
  | cons first rest ih =>
      obtain ⟨line, role⟩ := first
      intro l hl p hp
      rw [List.map_cons, List.foldl_cons, unseen]
      rcases List.mem_cons.mp hl with rfl | hl
      · by_cases hline : LineSeen s.inHeader line role
        · exact Or.inl (Scan.seen_foldl_bytes (Scan.seen_of_lineSeen hline p hp))
        · rw [if_neg hline]
          exact Or.inr (List.mem_append_left _ hp)
      · rw [← Scan.bytes_inHeader]
        rcases ih (s.bytes line) l hl p hp with h | h
        · exact Or.inl h
        · exact Or.inr (List.mem_append_right _ h)

theorem map_fst_reading (mode : Mode) (ls : List Line) :
    (Git.reading mode ls).map Prod.fst = ls := by
  induction ls generalizing mode with
  | nil =>
      rfl
  | cons line rest ih =>
      unfold Git.reading
      split
      · rw [List.map_cons, ih]
      · rw [List.map_cons, ih]

theorem mem_unseen {flag : Bool} {ls : List (Line × Role)} {p : List Char}
    (h : p ∈ unseen flag ls) :
    ∃ l ∈ ls, p ∈ l.2.names := by
  induction ls generalizing flag with
  | nil =>
      cases h
  | cons first rest ih =>
      obtain ⟨line, role⟩ := first
      rw [unseen] at h
      rcases List.mem_append.mp h with h | h
      · split at h
        · cases h
        · exact ⟨_, List.mem_cons_self, h⟩
      · obtain ⟨l, hl, hp⟩ := ih h
        exact ⟨l, List.mem_cons_of_mem _ hl, hp⟩

/-! ## The stream, line by line -/

/-- Scanning the stream is scanning its lines. -/
theorem text_decode (patch : List UInt8) (s : Scan) :
    s.text (decodeReplace patch) = (Git.lines patch).foldl Scan.bytes s := by
  unfold Git.lines
  cases hcut : splitOnce 0x0a patch with
  | none =>
      rw [splitAll_of_not_mem (splitOnce_eq_none.mp hcut)]
      rfl
  | some cut =>
      obtain ⟨hpatch, hnot⟩ := splitOnce_eq_some.mp hcut
      have hlength : cut.2.length < patch.length := by
        rw [hpatch]
        simp
        omega
      have hfeed : Replacement.asciiChar 0x0a = '\n' := by decide
      rw [hpatch, splitAll_append hnot, List.foldl_cons,
        Replacement.decodeReplace_append (by decide), hfeed, Scan.text_append]
      exact text_decode cut.2 _
termination_by patch.length

/-- Every path that git reads is collected, or named where the scanner does not see it. -/
theorem collected_or_unseen_paths {patch : List UInt8} {path : List Char}
    (h : path ∈ Git.paths patch) :
    path ∈ patchPaths patch ∨ path ∈ unseenPaths patch := by
  obtain ⟨l, hl, hp⟩ := List.mem_flatMap.mp h
  rcases collected_or_unseen _ ⟨false, []⟩ l hl path hp with hseen | hunseen
  · rw [map_fst_reading, ← text_decode] at hseen
    exact Or.inl hseen
  · exact Or.inr hunseen

/-- An extended header line is no `@@` line. -/
theorem not_at_of_extendedHeader {line : Line} {e : String × Git.HeaderKind}
    (h : Git.extendedHeaders.find? (fun e => Git.starts line e.1) = some e) :
    startsWith (decodeReplace line) "@@".toList = false := by
  have hmem := List.mem_of_find?_eq_some h
  have hstarts : Git.starts line e.1 = true := by simpa using List.find?_some h
  have hall : Git.extendedHeaders.all (fun e =>
      e.1.toList.all (fun c => c.toNat < 0x80) && e.1.toList.head?.any (· ≠ '@')) = true := by
    decide +kernel
  obtain ⟨hascii, hhead⟩ := Bool.and_eq_true_iff.mp (List.all_eq_true.mp hall e hmem)
  obtain ⟨a, ha, hne⟩ : ∃ a, e.1.toList.head? = some a ∧ a ≠ '@' := by
    simpa [Option.any_eq_true] using hhead
  exact not_startsWith_of_head ha rfl hne (startsWith_decode hascii hstarts)

/-- What the text of a line that git reads as `role` does to the flag. -/
def Covers (flag : Bool) (line : Line) (role : Role) (mode : Mode) : Prop :=
  (mode = .header → flagAfter flag line = true) ∧
    (LineSeen flag line role ∨ role.names = [])

theorem covers_other {flag : Bool} {line : Line} {mode : Mode} (h : mode ≠ .header) :
    Covers flag line .other mode :=
  ⟨fun hmode => absurd hmode h, Or.inr rfl⟩

theorem covers_hunk {flag : Bool} {line : Line} {role : Role} {mode : Mode}
    (h : Git.hunk line = some (role, mode)) :
    Covers flag line role mode := by
  obtain ⟨counts, -, heq⟩ := Option.map_eq_some_iff.mp h
  cases heq
  exact covers_other (by simp)

/-- A line that goes on with a section. -/
theorem covers_of_continues {flag : Bool} {line : Line} {mode mode' : Mode} {role : Role}
    (hon : mode = .header → flag = true)
    (h : Git.continues mode line = some (role, mode'))
    (hseen : RoleSeen flag line role) :
    Covers flag line role mode' := by
  cases mode with
  | between =>
      cases h
  | header =>
      simp only [Git.continues] at h
      split at h
      · rename_i e he
        cases h
        refine ⟨fun _ => ?_, Or.inl ⟨Or.inl (hon rfl), hseen⟩⟩
        rw [flagAfter_of_readAlike hseen, not_at_of_extendedHeader he, hon rfl]
        simp
      · exact covers_hunk h
  | plus =>
      simp only [Git.continues] at h
      split at h
      · cases h
        exact ⟨by simp, Or.inl ⟨Or.inl hseen.1, hseen.2⟩⟩
      · cases h
  | fragment =>
      exact covers_hunk h
  | body old new =>
      unfold Git.continues at h
      split at h
      · cases ‹Mode.body old new = _›
      · cases ‹Mode.body old new = _›
      · cases ‹Mode.body old new = _›
      · cases ‹Mode.body old new = _›
      · split at h
        · cases h
          exact covers_other (by simp)
        · exact covers_hunk h
      · split at h
        · cases h
          exact covers_other (by simp)
        · repeat
            split at h
            · cases h
              exact covers_other (by simp)
          cases h

/-- A line that begins a section. -/
theorem covers_of_begins {flag : Bool} {line : Line} {rest : List Line} {mode' : Mode}
    {role : Role}
    (h : Git.begins line rest = some (role, mode'))
    (hseen : RoleSeen flag line role) :
    Covers flag line role mode' := by
  unfold Git.begins at h
  split at h
  · rename_i hdiff
    cases h
    have hstarts : startsWith (decodeReplace line) diffHeader = true :=
      startsWith_decode (by decide) hdiff
    refine ⟨fun _ => ?_, Or.inl ⟨Or.inr hstarts, hseen⟩⟩
    rw [flagAfter_of_readAlike hseen, if_pos hstarts]
  · split at h
    · split at h
      · cases h
        exact ⟨by simp, Or.inl ⟨Or.inl hseen.1, hseen.2⟩⟩
      · cases h
    · cases h

/-- **Where every line is read alike, the flag is on throughout the headers.** -/
theorem unseen_eq_nil {mode : Mode} {ls : List Line} {flag : Bool}
    (hon : mode = .header → flag = true)
    (hseen : Seen flag (Git.reading mode ls)) :
    unseen flag (Git.reading mode ls) = [] := by
  induction ls generalizing mode flag with
  | nil =>
      rfl
  | cons line rest ih =>
      unfold Git.reading at hseen ⊢
      split at hseen
      · rename_i role mode' hstep
        obtain ⟨hrole, hrest⟩ := hseen
        have hcovers : Covers flag line role mode' := by
          rcases Option.or_eq_some_iff.mp hstep with h | ⟨-, h⟩
          · exact covers_of_continues hon h hrole
          · exact covers_of_begins h hrole
        rw [unseen, ih hcovers.1 hrest, List.append_nil]
        split
        · rfl
        · rename_i hline
          exact hcovers.2.resolve_left hline
      · rw [unseen, ih (by simp) hseen.2, List.append_nil]
        split <;> rfl

/-- A stream in which every line is read alike is covered. -/
theorem patch_policy_covers
    {patch : List UInt8}
    {allowedPrefixes : Option (List (List Char))}
    (haccepted : validatePatch patch allowedPrefixes = .ok ())
    (hseen : Seen false (Git.reading .between (Git.lines patch))) :
    ∀ path ∈ Git.paths patch, Safe allowedPrefixes path := by
  intro path hpath
  rcases collected_or_unseen_paths hpath with h | h
  · exact safe_of_validatePatch haccepted path h
  · rw [unseenPaths, unseen_eq_nil (by simp) hseen] at h
    cases h

/-- A patch as git writes it. -/
def plainPatch : List UInt8 :=
  Git.ascii
    "diff --git a/src/x b/src/x\n--- a/src/x\n+++ b/src/x\n@@ -1 +1 @@\n-a\n+b\n"

example : ∀ path ∈ Git.paths plainPatch, Safe (some ["src".toList]) path :=
  patch_policy_covers (by decide +kernel) (by decide +kernel)

/-! ## A section that is not seen -/

/-- A message with a patch in it, before any `diff --git` line. -/
def messagePatch : List UInt8 :=
  Git.ascii "Subject: note\n\n--- a/../evil\n+++ b/../evil\n@@ -0,0 +1 @@\n+x\n"

end Patch
end SwFactory
