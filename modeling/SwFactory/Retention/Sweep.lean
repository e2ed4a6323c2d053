import Mathlib.Algebra.Order.Ring.Int
import Mathlib.Data.Char
import Mathlib.Data.List.Dedup
import Mathlib.Data.List.Lex
import SwFactory.Machine.Dicts
import SwFactory.Machine.Durable

/-!
# Retained candidate evidence

A bundle of evidence is imported under its digest and covered by a lease; a sweep
removes what has expired and is not pinned.  A command performs its statements on the
disk one after the other and may be killed after any of them.  Commands follow each
other; the store has no lock.

A time is a number of microseconds.  What a bundle holds, and the verification of it,
are parameters.

Source: `candidate_retention.py`.
-/

namespace SwFactory
namespace Retention

open Machine

abbrev Text := List Char

/-! ## The store -/

/-- `_validate_digest_token` -/
def validToken (text : Text) : Bool :=
  text.length = 64 && text.all (fun c => c ∈ "0123456789abcdef".toList)

/-- A name that a retained object may have. -/
abbrev Token := { text : Text // validToken text = true }

structure RetentionLease where
  digest : Token
  candidateId : Text
  outputHead : Text
  retainedAt : Int
  expiresAt : Int
  pinned : Bool
deriving DecidableEq

/-- What is at the path of a lease; a content that `_parse_lease` refuses is `none`. -/
inductive LeaseEntry
  | file (content : Option RetentionLease)
  | link (target : Option (Option RetentionLease))
  | dir
deriving DecidableEq

/-- What is at the path of an object; a link may lead to a directory, to something else,
or nowhere. -/
inductive Object (C : Type)
  | dir (content : C)
  | file
  | link (leadsToDir : Option Bool)
deriving DecidableEq

namespace Object

variable {C : Type}

/-- `is_dir()` -/
def isDir : Option (Object C) → Bool
  | some (dir _) | some (link (some true)) => true
  | _ => false

/-- `is_symlink()` -/
def isLink : Option (Object C) → Bool
  | some (link _) => true
  | _ => false

end Object

/-- The directories `objects` and `leases`; a lease is under the stem of its name. -/
structure Store (C : Type) where
  objects : Dict Text (Object C)
  leases : Dict Text LeaseEntry

/-- `sorted(leases.glob("*.json"))` -/
def Store.stems {C : Type} (st : Store C) : List Text :=
  st.leases.keys.dedup.mergeSort
    (fun a b => decide (a ++ ".json".toList ≤ b ++ ".json".toList))

/-! ## Statements -/

/-- What a command does to the disk, one at a time. -/
inductive Stmt (C : Type)
  | object (stem : Text)
  | place (token : Text) (content : C)
  | lease (stem : Text)
  | write (token : Text) (lease : RetentionLease)
  | stems
  | tear (token : Text)
  | erase (token : Text)
  | unlink (token : Text)

/-- What a statement answers; `place` and `write` tell whether the rename succeeded. -/
@[reducible] def Ans (C : Type) : Stmt C → Type
  | .object _ => Option (Object C)
  | .place .. | .write .. => Bool
  | .lease _ => Option LeaseEntry
  | .stems => List Text
  | .tear _ | .erase _ | .unlink _ => Unit

/-- What is left of a directory that is being removed is up to the file system. -/
def exec {C : Type} : Effect (Stmt C) (Ans C) (Store C) C
  | .object stem, _, st => (st.objects.get? stem, st)
  | .place token content, _, st =>
      match st.objects.get? token with
      | none => (true, { st with objects := st.objects.assign token (.dir content) })
      | some _ => (false, st)
  | .lease stem, _, st => (st.leases.get? stem, st)
  | .write token lease, _, st =>
      if st.leases.get? token = some .dir then (false, st)
      else (true, { st with leases := st.leases.assign token (.file (some lease)) })
  | .stems, _, st => (st.stems, st)
  | .tear token, remains, st =>
      ((), { st with objects := st.objects.assign token (.dir remains) })
  | .erase token, _, st =>
      ((), { st with objects := st.objects.filter (fun e => e.1 ≠ token) })
  | .unlink token, _, st =>
      ((), { st with leases := st.leases.filter (fun e => e.1 ≠ token) })

section Statements

variable {C : Type}
variable {st : Store C}

theorem exec_object (stem : Text) (i : C) :
    exec (.object stem) i st = (st.objects.get? stem, st) :=
  rfl

theorem exec_place_none {token : Text} (h : st.objects.get? token = none) (content i : C) :
    exec (.place token content) i st =
      (true, { st with objects := st.objects.assign token (.dir content) }) := by
  simp only [exec, h]

theorem exec_place_some {token : Text} {object : Object C}
    (h : st.objects.get? token = some object) (content i : C) :
    exec (.place token content) i st = (false, st) := by
  simp only [exec, h]

theorem exec_write_dir {token : Text} (h : st.leases.get? token = some .dir)
    (lease : RetentionLease) (i : C) :
    exec (.write token lease) i st = (false, st) :=
  if_pos h

theorem exec_write_of_ne {token : Text} (h : st.leases.get? token ≠ some .dir)
    (lease : RetentionLease) (i : C) :
    exec (.write token lease) i st =
      (true, { st with leases := st.leases.assign token (.file (some lease)) }) :=
  if_neg h

end Statements

inductive RetentionError
  | ttl
  | evidence (error : Text)
  | notABundle
  | unsupportedDigest (digest : Text)
  | invalidDigest (text : Text)
  | symlink
  | identityMismatch (digest : Text)
  | leaseAbsent (stem : Text)
  | leaseUnreadable (stem : Text)
  | objectAbsent (token : Text)
  | digestDisagrees
  | redirected (token : Text)
  | os
deriving DecidableEq

/-- A command of the store. -/
abbrev Call (C α : Type) :=
  Prog (Stmt C) (Ans C) RetentionError α

/-! ## Commands -/

/-- `CandidateEvidenceBundle`, as far as the store reads it; `digest` is what `digest()`
returns. -/
structure CandidateEvidenceBundle where
  candidateId : Text
  outputHead : Text
  digest : Text
deriving DecidableEq

/-- A bundle to import, and whether it contains a symlink. -/
structure Source (C : Type) where
  content : C
  symlink : Bool

structure SweepReport where
  removed : List Text
  retained : List Text
  malformed : List Text
deriving DecidableEq

section Commands

variable {C : Type}
variable (verify : C → Except Text CandidateEvidenceBundle)

/-- `_validate_digest_token` -/
def validateDigestToken (text : Text) : Except RetentionError Token :=
  if h : validToken text = true then .ok ⟨text, h⟩ else .error (.invalidDigest text)

/-- `_digest_token` -/
def digestToken (bundle : CandidateEvidenceBundle) : Except RetentionError Token :=
  let prefixed := "sha256:".toList
  if prefixed.isPrefixOf bundle.digest then
    validateDigestToken (bundle.digest.drop prefixed.length)
  else .error (.unsupportedDigest bundle.digest)

/-- `_parse_lease` -/
def parseLease (stem : Text) : Option RetentionLease → Call C RetentionLease
  | some lease => .ret lease
  | none => .raise (.leaseUnreadable stem)

/-- `_load_lease` -/
def loadLease (stem : Text) : Call C (Option RetentionLease) :=
  .step (.lease stem) (fun (entry : Option LeaseEntry) =>
    match entry with
    | some (.file content) | some (.link (some content)) => do
        let lease ← parseLease stem content
        pure (some lease)
    | none | some (.link none) | some .dir => pure none)

/-- `_require_lease` -/
def requireLease (stem : Text) : Call C RetentionLease :=
  .step (.lease stem) (fun (entry : Option LeaseEntry) =>
    match entry with
    | some (.file content) => parseLease stem content
    | _ => .raise (.leaseAbsent stem))

/-- `atomic_json`, of a lease. -/
def writeLease (token : Text) (lease : RetentionLease) : Call C RetentionLease :=
  .step (.write token lease) (fun (renamed : Bool) =>
    if renamed then .ret lease else .raise .os)

/-- `verify_candidate_evidence_bundle`, of what is at the path of an object. -/
def verifyObject : Object C → Except RetentionError CandidateEvidenceBundle
  | .dir content => (verify content).mapError .evidence
  | .file | .link _ => .error .notABundle

/-- The object is verified where there is one, and copied otherwise. -/
def importBundle (source : Source C) (token : Token) : Call C Unit :=
  .step (.object token.1) (fun (object : Option (Object C)) =>
    match object with
    | none | some (.link none) =>
        -- `_copy_bundle`
        if source.symlink then .raise .symlink
        else
          .step (.place token.1 source.content) (fun (renamed : Bool) =>
            if renamed then .ret () else .raise .os)
    | some found => do
        let _ ← .ofExcept (verifyObject verify found)
        pure ())

/-- `retain_candidate_evidence` -/
def retain (source : Source C) (ttl now : Int) : Call C RetentionLease :=
  if ttl ≤ 0 then .raise .ttl
  else
    match verify source.content with
    | .error error => .raise (.evidence error)
    | .ok bundle => do
        let token ← .ofExcept (digestToken bundle)
        importBundle verify source token
        let current ← loadLease token.1
        match current with
        | some lease =>
            if lease.digest ≠ token ∨ lease.candidateId ≠ bundle.candidateId then
              .raise (.identityMismatch token.1)
            else
              writeLease token.1
                { digest := token
                  candidateId := bundle.candidateId
                  outputHead := bundle.outputHead
                  retainedAt := lease.retainedAt
                  expiresAt := max lease.expiresAt (now + ttl)
                  pinned := lease.pinned }
        | none =>
            writeLease token.1
              { digest := token
                candidateId := bundle.candidateId
                outputHead := bundle.outputHead
                retainedAt := now
                expiresAt := now + ttl
                pinned := false }

/-- The body of `pin_candidate_evidence` and of `unpin_candidate_evidence`. -/
def setPinned (pinned : Bool) (digest : Text) : Call C RetentionLease := do
  let token ← .ofExcept (validateDigestToken digest)
  let lease ← requireLease token.1
  .step (.object token.1) (fun (object : Option (Object C)) =>
    if Object.isDir object then writeLease token.1 { lease with pinned := pinned }
    else .raise (.objectAbsent token.1))

/-- `pin_candidate_evidence` -/
def pin (digest : Text) : Call C RetentionLease :=
  setPinned true digest

/-- `unpin_candidate_evidence` -/
def unpin (digest : Text) : Call C RetentionLease :=
  setPinned false digest

inductive Fate
  | removed
  | retained
  | malformed
deriving DecidableEq

/-- `_safe_remove_object`, and the lease after it. -/
def removeObject (stem : Text) : Call C Fate :=
  .step (.object stem) (fun (object : Option (Object C)) =>
    if Object.isLink object then .ret .malformed
    else
      .step (.tear stem) (fun _ =>
        .step (.erase stem) (fun _ =>
          .step (.unlink stem) (fun _ => .ret .removed))))

/-- The checks of a sweep: is the lease one that has expired? -/
def judge (now : Int) (stem : Text) : Call C Bool := do
  let token ← .ofExcept (validateDigestToken stem)
  let lease ← requireLease stem
  if lease.digest ≠ token then .raise .digestDisagrees
  else
    .step (.object stem) (fun (object : Option (Object C)) =>
      if Object.isDir object then .ret (!lease.pinned && decide (lease.expiresAt ≤ now))
      else .raise (.objectAbsent stem))

/-- One turn of the loop of `sweep_candidate_evidence`. -/
def sweepOne (now : Int) (dryRun : Bool) (stem : Text) : Call C Fate :=
  (judge now stem).finish (fun
    | .error _ => .ret .malformed
    | .ok false => .ret .retained
    | .ok true => if dryRun then .ret .removed else removeObject stem)

/-- The report with one more stem. -/
def SweepReport.add (report : SweepReport) (stem : Text) : Fate → SweepReport
  | .removed => { report with removed := report.removed ++ [stem] }
  | .retained => { report with retained := report.retained ++ [stem] }
  | .malformed => { report with malformed := report.malformed ++ [stem] }

def sweepAll (now : Int) (dryRun : Bool) : List Text → SweepReport → Call C SweepReport
  | [], report => .ret report
  | stem :: stems, report => do
      let fate ← sweepOne now dryRun stem
      sweepAll now dryRun stems (report.add stem fate)

/-- `sweep_candidate_evidence` -/
def sweep (now : Int) (dryRun : Bool) : Call C SweepReport :=
  .step .stems (fun (stems : List Text) => sweepAll now dryRun stems ⟨[], [], []⟩)

/-- A command line. -/
inductive Command (C : Type)
  | retain (source : Source C) (ttl now : Int)
  | pin (digest : Text)
  | unpin (digest : Text)
  | sweep (now : Int) (dryRun : Bool)

/-- What a command prints. -/
inductive Printed
  | lease (lease : RetentionLease)
  | report (report : SweepReport)

def Command.program : Command C → Call C Printed
  | .retain source ttl now => do
      let lease ← Retention.retain verify source ttl now
      pure (.lease lease)
  | .pin digest => do
      let lease ← Retention.pin digest
      pure (.lease lease)
  | .unpin digest => do
      let lease ← Retention.unpin digest
      pure (.lease lease)
  | .sweep now dryRun => do
      let report ← Retention.sweep now dryRun
      pure (.report report)

/-- The commands one after the other, each as far as its inputs reach. -/
def commands (st : Store C) (given : List (Command C × List C)) : Store C :=
  runFrom (fun st command => live exec (command.1.program verify) command.2 st) st given

end Commands

/-! ## A store with one bundle -/

def sampleToken : Token :=
  ⟨List.replicate 64 'a', by decide⟩

/-- Every content is a bundle with one digest. -/
def sampleVerify (_ : Nat) : Except Text CandidateEvidenceBundle :=
  .ok ⟨['c'], ['h'], "sha256:".toList ++ sampleToken.1⟩

/-- What an import at the time 0 for ten microseconds returns. -/
def sampleLease : RetentionLease where
  digest := sampleToken
  candidateId := ['c']
  outputHead := ['h']
  retainedAt := 0
  expiresAt := 10
  pinned := false

def sampleStore : Store Nat :=
  ⟨[(sampleToken.1, .dir 7)], [(sampleToken.1, .file (some sampleLease))]⟩

/-! ## What a statement leaves alone -/

section Guards

variable {C : Type}
variable (token : Text)
variable (content : C)
variable (G : RetentionLease → Prop)

/-- The object is there as it was, under a lease of its own that `G` accepts. -/
structure Guarded (st : Store C) : Prop where
  object : st.objects.get? token = some (.dir content)
  lease : ∃ l, st.leases.get? token = some (.file (some l)) ∧ l.digest.1 = token ∧ G l

/-- The statement removes nothing of `token`, and writes only leases of it that `G`
accepts. -/
def Mild : Stmt C → Prop
  | .object _ | .place .. | .lease _ | .stems => True
  | .write t l => t = token → l.digest.1 = token ∧ G l
  | .tear t | .erase t | .unlink t => t ≠ token

variable {token content G}
variable {st : Store C}

theorem Guarded.exec {s : Stmt C} (h : Guarded token content G st) (hs : Mild token G s)
    (i : C) : Guarded token content G (Retention.exec s i st).2 := by
  cases s with
  | object | lease | stems => exact h
  | place t c =>
      unfold Retention.exec
      dsimp only
      split
      · rename_i hnone
        refine ⟨?_, h.lease⟩
        rw [Dict.get?_assign, if_neg (fun heq => ?_)]
        · exact h.object
        · rw [← heq, h.object] at hnone
          cases hnone
      · exact h
  | write t l =>
      unfold Retention.exec
      dsimp only
      split
      · exact h
      · refine ⟨h.object, ?_⟩
        rw [Dict.get?_assign]
        split
        · rename_i heq
          exact ⟨l, rfl, hs heq.symm⟩
        · exact h.lease
  | tear t =>
      refine ⟨?_, h.lease⟩
      exact (Dict.get?_assign _ _ _ _).trans ((if_neg (Ne.symm hs)).trans h.object)
  | erase t =>
      refine ⟨?_, h.lease⟩
      have hkeep := Dict.get?_filter st.objects (fun k => decide (k ≠ t)) token
      exact hkeep.trans ((if_pos (decide_eq_true (Ne.symm hs))).trans h.object)
  | unlink t =>
      refine ⟨h.object, ?_⟩
      have hkeep := Dict.get?_filter st.leases (fun k => decide (k ≠ t)) token
      rw [if_pos (decide_eq_true (Ne.symm hs))] at hkeep
      obtain ⟨l, hl, hrest⟩ := h.lease
      exact ⟨l, hkeep.trans hl, hrest⟩

end Guards

/-! ## What a sweep sees -/

section Judging

variable {C : Type}

/-- What a sweep makes of a lease: `none` is malformed, `some true` may be removed. -/
def Store.judged (st : Store C) (now : Int) (stem : Text) : Option Bool :=
  match st.leases.get? stem with
  | some (.file (some lease)) =>
      if lease.digest.1 = stem ∧ Object.isDir (st.objects.get? stem) then
        some (!lease.pinned && decide (lease.expiresAt ≤ now))
      else none
  | _ => none

/-- What becomes of a stem. -/
def Store.fate (st : Store C) (now : Int) (dryRun : Bool) (stem : Text) : Fate :=
  match st.judged now stem with
  | none => .malformed
  | some false => .retained
  | some true =>
      if dryRun then .removed
      else if Object.isLink (st.objects.get? stem) then .malformed
      else .removed

variable {I : Store C → Prop}
variable {st : Store C}

/-- A stem that is no digest is that of no readable lease of its own. -/
theorem judged_of_invalid {now : Int} {stem : Text} (h : validToken stem ≠ true) :
    st.judged now stem = none := by
  unfold Store.judged
  split
  · rename_i lease _
    exact if_neg (fun hlease : lease.digest.1 = stem ∧ _ => h (hlease.1 ▸ lease.digest.2))
  · rfl

/-- A lease that points to nothing is malformed. -/
theorem judged_of_absent {now : Int} {stem : Text} (h : st.objects.get? stem = none) :
    st.judged now stem = none := by
  unfold Store.judged
  split
  · exact if_neg (fun hown => by simp [h, Object.isDir] at hown)
  · rfl

/-- The checks of a sweep read only. -/
theorem judge_survives (hst : I st) (now : Int) (stem : Text) :
    Survives exec I
      (fun (r : Except RetentionError Bool) st' =>
        st' = st ∧ r.toOption = st.judged now stem)
      (judge now stem) st := by
  unfold judge validateDigestToken
  by_cases hvalid : validToken stem = true
  · rw [dif_pos hvalid]
    simp only [Prog.ofExcept, Prog.ret_bind, requireLease, Prog.step_bind]
    refine fun i => ⟨hst, ?_⟩
    unfold Store.judged
    simp only [exec]
    rcases hentry : st.leases.get? stem with _ | (_ | lease) | _ | _
    · exact ⟨rfl, rfl⟩
    · exact ⟨rfl, rfl⟩
    · by_cases hdigest : lease.digest.1 = stem
      · have hsame : lease.digest = ⟨stem, hvalid⟩ := Subtype.ext hdigest
        simp only [parseLease, Prog.ret_bind, hsame, ne_eq, not_true_eq_false, if_false, true_and]
        refine fun i => ⟨hst, ?_⟩
        by_cases hdir : Object.isDir (st.objects.get? stem) = true
        · rw [if_pos hdir]
          change Survives exec I _ (if Object.isDir (st.objects.get? stem) then _ else _) st
          rw [if_pos hdir]
          exact ⟨rfl, rfl⟩
        · rw [if_neg hdir]
          change Survives exec I _ (if Object.isDir (st.objects.get? stem) then _ else _) st
          rw [if_neg hdir]
          exact ⟨rfl, rfl⟩
      · have hother : lease.digest ≠ ⟨stem, hvalid⟩ := fun heq =>
          hdigest (congrArg Subtype.val heq)
        simp only [parseLease, Prog.ret_bind, ne_eq, hother, not_false_eq_true, if_true, hdigest,
          false_and, if_false]
        exact ⟨rfl, rfl⟩
    · exact ⟨rfl, rfl⟩
    · exact ⟨rfl, rfl⟩
  · rw [dif_neg hvalid, judged_of_invalid hvalid]
    exact ⟨rfl, rfl⟩

end Judging

/-! ## What a command spares -/

section Sparing

variable {C : Type}
variable {verify : C → Except Text CandidateEvidenceBundle}
variable {I : Store C → Prop}
variable {st : Store C}

theorem requireLease_survives (hst : I st) (stem : Text) :
    Survives exec I
      (fun r st' => st' = st ∧
        ∀ l, r = .ok l → st.leases.get? stem = some (.file (some l)))
      (requireLease stem) st := by
  refine fun i => ⟨hst, ?_⟩
  change Survives exec I _ (match st.leases.get? stem with
    | some (.file content) => parseLease stem content
    | _ => .raise (.leaseAbsent stem)) st
  rcases hentry : st.leases.get? stem with _ | (_ | lease) | _ | _
  case some.file.some =>
    refine ⟨rfl, fun l hl => ?_⟩
    rw [Except.ok.inj hl]
  all_goals exact ⟨rfl, fun l hl => nomatch hl⟩

theorem loadLease_survives (hst : I st) (stem : Text) :
    Survives exec I
      (fun r st' => st' = st ∧
        ∀ l, st.leases.get? stem = some (.file (some l)) → r = .ok (some l))
      (loadLease stem) st := by
  refine fun i => ⟨hst, ?_⟩
  change Survives exec I _ (match st.leases.get? stem with
    | some (.file content) | some (.link (some content)) => do
        let lease ← parseLease stem content
        pure (some lease)
    | none | some (.link none) | some .dir => pure none) st
  rcases hentry : st.leases.get? stem with _ | (_ | lease) | (_ | (_ | lease)) | _
  case some.file.some =>
    refine ⟨rfl, fun l hl => ?_⟩
    rw [LeaseEntry.file.inj (Option.some.inj hl)]
  all_goals exact ⟨rfl, fun l hl => nomatch hl⟩

variable {token : Text}
variable {content : C}
variable {G : RetentionLease → Prop}

theorem writeLease_survives
    (h : Guarded token content G st)
    (t : Text) (lease : RetentionLease)
    (hlease : t = token → lease.digest.1 = token ∧ G lease) :
    Survives exec (Guarded token content G) (fun _ => Guarded token content G)
      (writeLease t lease) st := by
  intro i
  have hafter := h.exec (s := .write t lease) hlease i
  refine ⟨hafter, ?_⟩
  dsimp only
  split <;> exact hafter

theorem importBundle_survives
    (h : Guarded token content G st)
    (source : Source C) (t : Token) :
    Survives exec (Guarded token content G) (fun _ => Guarded token content G)
      (importBundle verify source t) st := by
  refine fun i => ⟨h, ?_⟩
  have hcopy : Survives exec (Guarded token content G)
      (fun (_ : Except RetentionError Unit) => Guarded token content G)
      (if source.symlink then .raise .symlink
        else
          .step (.place t.1 source.content) (fun (renamed : Bool) =>
            if renamed then .ret () else .raise .os)) st := by
    split
    · exact h
    · intro i
      have hafter := h.exec (s := .place t.1 source.content) trivial i
      refine ⟨hafter, ?_⟩
      dsimp only
      split <;> exact hafter
  dsimp only
  split
  · exact hcopy
  · exact hcopy
  · rename_i found _ _
    cases verifyObject verify found <;> exact h

/-- What keeps an object from being removed by the command, or its lease from being
changed to one that `G` does not accept. -/
def Command.Spares (token : Text) (G : RetentionLease → Prop) : Command C → Prop
  | .retain _ ttl now => ∀ l : RetentionLease, G l → ∀ head,
      G { l with outputHead := head, expiresAt := max l.expiresAt (now + ttl) }
  | .pin digest => digest = token → ∀ l : RetentionLease, G l → G { l with pinned := true }
  | .unpin digest => digest = token → ∀ l : RetentionLease, G l → G { l with pinned := false }
  | .sweep now dryRun => dryRun = false →
      ∀ l : RetentionLease, G l → l.pinned = true ∨ now < l.expiresAt

/-- What an import writes, it writes over the lease that it has read. -/
theorem retain_survives
    (h : Guarded token content G st)
    (source : Source C) (ttl now : Int)
    (hspares : (Command.retain source ttl now).Spares token G) :
    Survives exec (Guarded token content G) (fun _ => Guarded token content G)
      (retain verify source ttl now) st := by
  unfold retain
  split
  · exact h
  split
  · exact h
  rename_i bundle _
  cases digestToken bundle with
  | error => exact h
  | ok t =>
      simp only [Prog.ofExcept, Prog.ret_bind]
      refine (importBundle_survives h source t).bind (fun _ st₁ h₁ => ?_) (fun _ _ h₁ => h₁)
      refine (loadLease_survives h₁ t.1).bind (fun current st₂ hread => ?_)
        (fun _ _ hread => hread.1 ▸ h₁)
      obtain ⟨rfl, hread⟩ := hread
      obtain ⟨own, hown, hdigest, hG⟩ := h₁.lease
      have hcurrent : t.1 = token → current = some own := fun heq =>
        Except.ok.inj (hread own (heq ▸ hown))
      split
      · rename_i lease
        split
        · exact h₁
        · rename_i hsame
          obtain ⟨hdig, hcand⟩ := not_or.mp hsame
          refine writeLease_survives h₁ _ _ (fun heq => ⟨heq, ?_⟩)
          obtain rfl := Option.some.inj (hcurrent heq)
          have hnext := hspares _ hG bundle.outputHead
          rwa [not_not.mp hdig, not_not.mp hcand] at hnext
      · exact writeLease_survives h₁ _ _ (fun heq => nomatch hcurrent heq)

theorem setPinned_survives
    (h : Guarded token content G st)
    (pinned : Bool) (digest : Text)
    (hspares : digest = token → ∀ l : RetentionLease, G l → G { l with pinned := pinned }) :
    Survives exec (Guarded token content G) (fun _ => Guarded token content G)
      (setPinned pinned digest) st := by
  unfold setPinned validateDigestToken
  split
  · simp only [Prog.ofExcept, Prog.ret_bind]
    refine (requireLease_survives h digest).bind (fun lease st₁ hread => ?_)
      (fun _ _ hread => hread.1 ▸ h)
    obtain ⟨rfl, hread⟩ := hread
    refine fun i => ⟨h, ?_⟩
    dsimp only
    split
    · refine writeLease_survives h _ _ (fun heq => ?_)
      obtain ⟨own, hown, hdigest, hG⟩ := h.lease
      have hentry := (hread lease rfl).symm.trans (heq ▸ hown)
      obtain rfl := Option.some.inj (LeaseEntry.file.inj (Option.some.inj hentry))
      exact ⟨hdigest, hspares heq _ hG⟩
    · exact h
  · exact h

/-- Another object is removed. -/
theorem removeObject_survives
    (h : Guarded token content G st)
    (stem : Text) (hother : stem ≠ token) :
    Survives exec (Guarded token content G) (fun _ => Guarded token content G)
      (removeObject stem) st := by
  refine fun i => ⟨h, ?_⟩
  dsimp only
  split
  · exact h
  · intro i₁
    have h₁ := h.exec (s := .tear stem) hother i₁
    refine ⟨h₁, fun i₂ => ?_⟩
    have h₂ := h₁.exec (s := .erase stem) hother i₂
    refine ⟨h₂, fun i₃ => ?_⟩
    have h₃ := h₂.exec (s := .unlink stem) hother i₃
    exact ⟨h₃, h₃⟩

theorem sweepOne_survives
    (h : Guarded token content G st)
    (now : Int) (dryRun : Bool) (stem : Text)
    (hspares : (Command.sweep (C := C) now dryRun).Spares token G) :
    Survives exec (Guarded token content G) (fun _ => Guarded token content G)
      (sweepOne now dryRun stem) st := by
  refine (judge_survives h now stem).finish (fun r st₁ hjudged => ?_)
  obtain ⟨rfl, hjudged⟩ := hjudged
  match r with
  | .error _ => exact h
  | .ok false => exact h
  | .ok true =>
      dsimp only
      split
      · exact h
      · rename_i hwet
        refine removeObject_survives h stem (fun heq => ?_)
        subst heq
        obtain ⟨own, hown, hdigest, hG⟩ := h.lease
        have hexpired : own.pinned = false ∧ own.expiresAt ≤ now := by
          unfold Store.judged at hjudged
          simpa [hown, hdigest, h.object, Object.isDir, Except.toOption] using hjudged.symm
        rcases hspares (Bool.not_eq_true _ ▸ hwet) own hG with hpinned | hlater
        · simp [hexpired.1] at hpinned
        · omega

theorem sweepAll_survives
    (h : Guarded token content G st)
    (now : Int) (dryRun : Bool)
    (hspares : (Command.sweep (C := C) now dryRun).Spares token G)
    (stems : List Text) (report : SweepReport) :
    Survives exec (Guarded token content G) (fun _ => Guarded token content G)
      (sweepAll now dryRun stems report) st := by
  induction stems generalizing st report with
  | nil =>
      exact h
  | cons stem stems ih =>
      refine (sweepOne_survives h now dryRun stem hspares).bind ?_ (fun _ _ h₁ => h₁)
      exact fun fate st₁ h₁ => ih h₁ (report.add stem fate)

/-- **The guard is kept** by every command that spares it, wherever it is killed. -/
theorem program_survives
    (h : Guarded token content G st)
    (command : Command C)
    (hspares : command.Spares token G) :
    Survives exec (Guarded token content G) (fun _ => Guarded token content G)
      (command.program verify) st := by
  have hprinted : ∀ {α : Type} {p : Call C α} {f : α → Printed},
      Survives exec (Guarded token content G) (fun _ => Guarded token content G) p st →
      Survives exec (Guarded token content G) (fun _ => Guarded token content G)
        (p >>= fun a => pure (f a)) st :=
    fun hp => hp.bind (fun _ _ h₁ => h₁) (fun _ _ h₁ => h₁)
  cases command with
  | retain source ttl now => exact hprinted (retain_survives h source ttl now hspares)
  | pin digest => exact hprinted (setPinned_survives h true digest hspares)
  | unpin digest => exact hprinted (setPinned_survives h false digest hspares)
  | sweep now dryRun =>
      refine hprinted (p := sweep now dryRun) (fun i => ⟨h, ?_⟩)
      exact sweepAll_survives h now dryRun hspares _ _

theorem guarded_commands
    (h : Guarded token content G st)
    (given : List (Command C × List C))
    (hspares : ∀ command ∈ given, command.1.Spares token G) :
    Guarded token content G (commands verify st given) := by
  induction given generalizing st with
  | nil =>
      exact h
  | cons command given ih =>
      obtain ⟨hfirst, hrest⟩ := List.forall_mem_cons.mp hspares
      exact ih ((program_survives h command.1 hfirst).live h command.2) hrest

end Sparing

/-! ## The promotion window -/

section Window

variable {C : Type}
variable {verify : C → Except Text CandidateEvidenceBundle}
variable {st : Store C}

/-- An import that goes on has a verified object of its own under the digest. -/
theorem importBundle_verified
    (source : Source C) (t : Token) {bundle : CandidateEvidenceBundle}
    (hsource : verify source.content = .ok bundle) :
    Survives exec (fun _ => True)
      (fun r st' => r = .ok () → ∃ content found,
        verify content = .ok found ∧ st'.objects.get? t.1 = some (.dir content))
      (importBundle verify source t) st := by
  have hcopy : Survives exec (fun _ => True)
      (fun r st' => r = .ok () → ∃ content found,
        verify content = .ok found ∧ st'.objects.get? t.1 = some (.dir content))
      (if source.symlink then .raise RetentionError.symlink
        else
          .step (.place t.1 source.content) (fun (renamed : Bool) =>
            if renamed then .ret () else .raise .os)) st := by
    split
    · rintro ⟨⟩
    · refine fun i => ⟨trivial, ?_⟩
      rcases hobject : st.objects.get? t.1 with _ | object
      · rw [exec_place_none hobject]
        refine fun _ => ⟨source.content, bundle, hsource, ?_⟩
        exact (Dict.get?_assign _ _ _ _).trans (if_pos rfl)
      · rw [exec_place_some hobject]
        rintro ⟨⟩
  refine fun i => ⟨trivial, ?_⟩
  rw [exec_object]
  rcases hobject : st.objects.get? t.1 with _ | content | _ | _ | _
  · exact hcopy
  · dsimp only
    cases hverify : verify content with
    | error error =>
        rw [verifyObject, hverify]
        rintro ⟨⟩
    | ok found =>
        rw [verifyObject, hverify]
        exact fun _ => ⟨content, found, hverify, hobject⟩
  · rintro ⟨⟩
  · exact hcopy
  · rintro ⟨⟩

/-- What is written is there, if anything is. -/
theorem writeLease_written
    (t : Text) (lease : RetentionLease) :
    Survives exec (fun _ => True)
      (fun r st' => ∀ l, r = .ok l → l = lease ∧ st'.objects = st.objects ∧
        st'.leases.get? t = some (.file (some lease)))
      (writeLease t lease) st := by
  refine fun i => ⟨trivial, ?_⟩
  by_cases hdir : st.leases.get? t = some .dir
  · rw [exec_write_dir hdir]
    exact fun l hl => nomatch hl
  · rw [exec_write_of_ne hdir]
    intro l hl
    refine ⟨(Except.ok.inj hl).symm, rfl, ?_⟩
    exact (Dict.get?_assign _ _ _ _).trans (if_pos rfl)

/-- A lease that was issued covers a verified object for the whole window. -/
theorem retain_issues (st : Store C) (source : Source C) (ttl now : Int) :
    Survives exec (fun _ => True)
      (fun r st' => ∀ lease, r = .ok lease →
        0 < ttl ∧ now + ttl ≤ lease.expiresAt ∧
          ∃ content found, verify content = .ok found ∧
            Guarded lease.digest.1 content (fun l => l = lease) st')
      (retain verify source ttl now) st := by
  unfold retain
  split
  · exact fun l hl => nomatch hl
  rename_i httl
  split
  · exact fun l hl => nomatch hl
  rename_i bundle hsource
  cases digestToken bundle with
  | error => exact fun l hl => nomatch hl
  | ok t =>
      simp only [Prog.ofExcept, Prog.ret_bind]
      refine (importBundle_verified source t hsource).bind (fun _ st₁ h₁ => ?_)
        (fun _ _ _ l hl => nomatch hl)
      obtain ⟨content, found, hverify, hobject⟩ := h₁ rfl
      -- the lease that is written is of the object that was found
      have hwrite : ∀ lease : RetentionLease, lease.digest = t → now + ttl ≤ lease.expiresAt →
          Survives exec (fun _ => True)
            (fun r st' => ∀ l, r = .ok l → 0 < ttl ∧ now + ttl ≤ l.expiresAt ∧
              ∃ content found, verify content = .ok found ∧
                Guarded l.digest.1 content (fun l' => l' = l) st')
            (writeLease t.1 lease) st₁ := by
        intro lease hdigest hlater
        refine (writeLease_written t.1 lease).mono (fun r st₂ hwritten l hl => ?_)
        obtain ⟨rfl, hobjects, hlease⟩ := hwritten l hl
        subst hdigest
        exact ⟨not_le.mp httl, hlater, content, found, hverify,
          ⟨hobjects ▸ hobject, l, hlease, rfl, rfl⟩⟩
      refine (loadLease_survives (I := fun _ => True) trivial t.1).bind
        (fun current st₂ hread => ?_) (fun _ _ _ l hl => nomatch hl)
      obtain ⟨rfl, -⟩ := hread
      split
      · split
        · exact fun l hl => nomatch hl
        · exact hwrite _ rfl (le_max_right _ _)
      · exact hwrite _ rfl le_rfl

/--
**The promotion window.**  Once an import has returned a lease, the object stays as it was
verified, under a lease that expires no earlier, through every sequence of later commands,
each killed after any of its statements, as long as no sweep removes at a time from the
expiry on.  A later import may extend the lease, and nothing shortens it.
-/
theorem retained_until_expiry
    (st st' : Store C) (source : Source C) (ttl now : Int) (inputs : List C)
    (lease : RetentionLease)
    (hretain : ending exec (retain verify source ttl now) inputs st = some (.ok lease, st'))
    (later : List (Command C × List C))
    (hsweeps : ∀ command ∈ later, ∀ at', command.1 = .sweep at' false → at' < lease.expiresAt) :
    now + ttl ≤ lease.expiresAt ∧
      ∃ content found, verify content = .ok found ∧
        (commands verify st' later).objects.get? lease.digest.1 = some (.dir content) ∧
          ∃ l, (commands verify st' later).leases.get? lease.digest.1 = some (.file (some l)) ∧
            l.digest = lease.digest ∧ l.candidateId = lease.candidateId ∧
              l.retainedAt = lease.retainedAt ∧ lease.expiresAt ≤ l.expiresAt := by
  obtain ⟨-, hlater, content, found, hverify, hguarded⟩ :=
    (retain_issues st source ttl now).ending hretain lease rfl
  refine ⟨hlater, content, found, hverify, ?_⟩
  have hextended : Guarded lease.digest.1 content
      (fun l => l.candidateId = lease.candidateId ∧ l.retainedAt = lease.retainedAt ∧
        lease.expiresAt ≤ l.expiresAt) (commands verify st' later) := by
    refine guarded_commands ?_ later (fun command hcommand => ?_)
    · obtain ⟨l, hl, hdigest, rfl⟩ := hguarded.lease
      exact ⟨hguarded.object, l, hl, hdigest, rfl, rfl, le_rfl⟩
    · obtain ⟨command, given⟩ := command
      cases command with
      | retain source ttl now =>
          rintro l ⟨hcandidate, hretained, hexpires⟩ head
          exact ⟨hcandidate, hretained, hexpires.trans (le_max_left _ _)⟩
      | pin digest => exact fun _ l hl => hl
      | unpin digest => exact fun _ l hl => hl
      | sweep at' dryRun =>
          rintro rfl l ⟨-, -, hexpires⟩
          exact .inr ((hsweeps _ hcommand at' rfl).trans_le hexpires)
  obtain ⟨l, hl, hdigest, hcandidate, hretained, hexpires⟩ := hextended.lease
  exact ⟨hextended.object, l, hl, Subtype.ext hdigest, hcandidate, hretained, hexpires⟩

/-- The object outlasts a sweep, an import that is killed and another sweep. -/
theorem retained_until_expiry_sample :
    (0 : Int) + 10 ≤ sampleLease.expiresAt ∧
      ∃ content found, sampleVerify content = .ok found ∧
        (commands sampleVerify sampleStore
          [(.sweep 4 false, [0, 0, 0]), (.retain ⟨8, false⟩ 3 5, [0, 0]),
            (.sweep 9 false, [0, 0, 0])]).objects.get? sampleLease.digest.1 =
          some (.dir content) ∧
          ∃ l, (commands sampleVerify sampleStore
            [(.sweep 4 false, [0, 0, 0]), (.retain ⟨8, false⟩ 3 5, [0, 0]),
              (.sweep 9 false, [0, 0, 0])]).leases.get? sampleLease.digest.1 =
              some (.file (some l)) ∧
            l.digest = sampleLease.digest ∧ l.candidateId = sampleLease.candidateId ∧
              l.retainedAt = sampleLease.retainedAt ∧ sampleLease.expiresAt ≤ l.expiresAt :=
  retained_until_expiry ⟨[], []⟩ sampleStore ⟨7, false⟩ 10 0 [0, 0, 0, 0] sampleLease rfl
    [(.sweep 4 false, [0, 0, 0]), (.retain ⟨8, false⟩ 3 5, [0, 0]), (.sweep 9 false, [0, 0, 0])]
    (by simp [sampleLease])

/--
A pinned object stays, whatever the time, through every sequence of later commands, each
killed after any of its statements, that does not unpin it.
-/
theorem pinned_until_unpinned
    (st st' : Store C) (digest : Text) (inputs : List C) (lease : RetentionLease) (content : C)
    (hpin : ending exec (pin digest) inputs st = some (.ok lease, st'))
    (hdigest : lease.digest.1 = digest)
    (hobject : st.objects.get? digest = some (.dir content))
    (later : List (Command C × List C))
    (hlater : ∀ command ∈ later, command.1 ≠ .unpin digest) :
    (commands verify st' later).objects.get? digest = some (.dir content) ∧
      ∃ l, (commands verify st' later).leases.get? digest = some (.file (some l)) ∧
        l.digest = lease.digest ∧ l.pinned = true := by
  have hguarded : Guarded digest content (fun l => l.pinned = true) st' := by
    have hsurvives : Survives exec (fun _ => True)
        (fun r st' => ∀ l, r = .ok l → l.digest.1 = digest →
          Guarded digest content (fun l => l.pinned = true) st') (pin digest) st := by
      unfold pin setPinned validateDigestToken
      split
      · simp only [Prog.ofExcept, Prog.ret_bind]
        refine (requireLease_survives (I := fun _ => True) trivial digest).bind
          (fun own st₁ hread => ?_) (fun _ _ _ l hl => nomatch hl)
        obtain ⟨rfl, -⟩ := hread
        refine fun i => ⟨trivial, ?_⟩
        dsimp only
        split
        · refine (writeLease_written digest _).mono (fun r st₂ hwritten l hl hown => ?_)
          obtain ⟨rfl, hobjects, hlease⟩ := hwritten l hl
          exact ⟨(congrArg (fun o => o.get? digest) hobjects).trans hobject,
            _, hlease, hown, rfl⟩
        · exact fun l hl => nomatch hl
      · exact fun l hl => nomatch hl
    exact hsurvives.ending hpin lease rfl hdigest
  have hkept : Guarded digest content (fun l => l.pinned = true) (commands verify st' later) := by
    refine guarded_commands hguarded later (fun command hcommand => ?_)
    obtain ⟨command, given⟩ := command
    cases command with
    | retain source ttl now => exact fun l hl _ => hl
    | pin other => exact fun _ l _ => rfl
    | unpin other =>
        rintro rfl
        exact absurd rfl (hlater _ hcommand)
    | sweep at' dryRun => exact fun _ l hl => .inl hl
  obtain ⟨l, hl, hown, hpinned⟩ := hkept.lease
  exact ⟨hkept.object, l, hl, Subtype.ext (hown.trans hdigest.symm), hpinned⟩

/-- The pinned object outlasts a sweep long after its expiry. -/
theorem pinned_until_unpinned_sample :
    (commands sampleVerify ⟨sampleStore.objects,
        [(sampleToken.1, .file (some { sampleLease with pinned := true }))]⟩
      [(.sweep 1000 false, [0, 0, 0])]).objects.get? sampleToken.1 = some (.dir 7) ∧
      ∃ l, (commands sampleVerify ⟨sampleStore.objects,
          [(sampleToken.1, .file (some { sampleLease with pinned := true }))]⟩
        [(.sweep 1000 false, [0, 0, 0])]).leases.get? sampleToken.1 = some (.file (some l)) ∧
        l.digest = sampleToken ∧ l.pinned = true :=
  pinned_until_unpinned sampleStore
    ⟨sampleStore.objects, [(sampleToken.1, .file (some { sampleLease with pinned := true }))]⟩
    sampleToken.1 [0, 0, 0] { sampleLease with pinned := true } 7 rfl rfl rfl
    [(.sweep 1000 false, [0, 0, 0])] (by simp)

end Window

/-! ## The report of a sweep -/

section Reports

variable {C : Type}
variable {st st' : Store C}

/-- The paths of `t` hold what they held. -/
structure Same (t : Text) (st st' : Store C) : Prop where
  object : st'.objects.get? t = st.objects.get? t
  lease : st'.leases.get? t = st.leases.get? t

/-- Nothing is left at the paths of `t`. -/
structure Gone (t : Text) (st : Store C) : Prop where
  object : st.objects.get? t = none
  lease : st.leases.get? t = none

theorem Same.refl (t : Text) (st : Store C) : Same t st st :=
  ⟨rfl, rfl⟩

theorem Same.trans {t : Text} {st₁ st₂ st₃ : Store C} (h : Same t st₁ st₂) (h' : Same t st₂ st₃) :
    Same t st₁ st₃ :=
  ⟨h'.object.trans h.object, h'.lease.trans h.lease⟩

/-- What becomes of a stem is decided by what is at its paths. -/
theorem Same.fate {t : Text} (h : Same t st st') (now : Int) (dryRun : Bool) :
    st'.fate now dryRun t = st.fate now dryRun t := by
  unfold Store.fate Store.judged
  rw [h.object, h.lease]

theorem Same.of_assign {t stem : Text} (h : t ≠ stem) (object : Object C) :
    Same t st { st with objects := st.objects.assign stem object } :=
  ⟨(Dict.get?_assign _ _ _ _).trans (if_neg h), rfl⟩

theorem Same.of_erase {t stem : Text} (h : t ≠ stem) :
    Same t st { st with objects := st.objects.filter (fun e => e.1 ≠ stem) } :=
  ⟨(Dict.get?_filter _ (fun k => decide (k ≠ stem)) _).trans (if_pos (decide_eq_true h)), rfl⟩

theorem Same.of_unlink {t stem : Text} (h : t ≠ stem) :
    Same t st { st with leases := st.leases.filter (fun e => e.1 ≠ stem) } :=
  ⟨rfl, (Dict.get?_filter _ (fun k => decide (k ≠ stem)) _).trans (if_pos (decide_eq_true h))⟩

/-- The lookup of what has just been dropped. -/
theorem get?_dropped {υ : Type} (d : Dict Text υ) (stem : Text) :
    Dict.get? (d.filter (fun e => e.1 ≠ stem)) stem = none :=
  (Dict.get?_filter d (fun k => decide (k ≠ stem)) stem).trans (if_neg (by simp))

/-- A sweep that is not killed removes what it reports as removed, and nothing else. -/
def SweptBy (now : Int) (dryRun : Bool) (done : List Text) (st st' : Store C) : Prop :=
  ∀ t,
    (t ∈ done ∧ dryRun = false ∧ st.fate now dryRun t = .removed → Gone t st') ∧
      (¬(t ∈ done ∧ dryRun = false ∧ st.fate now dryRun t = .removed) → Same t st st')

theorem removeObject_ends (stem : Text) (hlink : Object.isLink (st.objects.get? stem) = false) :
    Survives exec (fun _ => True)
      (fun r st' => r = .ok .removed ∧ Gone stem st' ∧ ∀ t ≠ stem, Same t st st')
      (removeObject stem) st := by
  refine fun i => ⟨trivial, ?_⟩
  rw [exec_object]
  dsimp only
  rw [hlink, if_neg Bool.false_ne_true]
  refine fun i₁ => ⟨trivial, fun i₂ => ⟨trivial, fun i₃ => ⟨trivial, rfl, ?_, ?_⟩⟩⟩
  · exact ⟨get?_dropped _ stem, get?_dropped _ stem⟩
  · intro t ht
    exact ((Same.of_assign ht _).trans (.of_erase ht)).trans (.of_unlink ht)

theorem sweepOne_ends (now : Int) (dryRun : Bool) (stem : Text) :
    Survives exec (fun _ => True)
      (fun r st' => r = .ok (st.fate now dryRun stem) ∧ SweptBy now dryRun [stem] st st')
      (sweepOne now dryRun stem) st := by
  have hsame : ¬(dryRun = false ∧ st.fate now dryRun stem = .removed) →
      SweptBy now dryRun [stem] st st := fun hkeep t =>
    ⟨fun h => absurd (List.mem_singleton.mp h.1 ▸ h.2) hkeep, fun _ => .refl t st⟩
  refine (judge_survives (I := fun _ => True) trivial now stem).finish (fun r st₁ hjudged => ?_)
  obtain ⟨rfl, hjudged⟩ := hjudged
  unfold Store.fate at hsame ⊢
  rw [← hjudged] at hsame ⊢
  match r with
  | .error _ => exact ⟨rfl, hsame (by simp [Except.toOption])⟩
  | .ok false => exact ⟨rfl, hsame (by simp [Except.toOption])⟩
  | .ok true =>
      simp only [Except.toOption] at hsame ⊢
      cases dryRun with
      | true => exact ⟨rfl, hsame (by simp)⟩
      | false =>
          simp only [Bool.false_eq_true, if_false] at hsame ⊢
          cases hlink : Object.isLink (st₁.objects.get? stem) with
          | true =>
              refine fun i => ⟨trivial, ?_⟩
              rw [exec_object]
              dsimp only
              rw [hlink] at hsame ⊢
              exact ⟨rfl, hsame (by simp)⟩
          | false =>
              refine (removeObject_ends stem hlink).mono (fun r st₂ hremoved => ?_)
              obtain ⟨rfl, hgone, hothers⟩ := hremoved
              refine ⟨by simp, fun t => ⟨?_, ?_⟩⟩
              · rintro ⟨ht, -⟩
                exact List.mem_singleton.mp ht ▸ hgone
              · intro hkeep
                refine hothers t (fun heq => hkeep ?_)
                subst heq
                refine ⟨List.mem_singleton_self _, rfl, ?_⟩
                simp [Store.fate, ← hjudged, hlink, Except.toOption]

/-- The report over the stems, from what the store holds before the sweep. -/
def Store.reportOf (st : Store C) (now : Int) (dryRun : Bool) (stems : List Text)
    (report : SweepReport) : SweepReport :=
  stems.foldl (fun report stem => report.add stem (st.fate now dryRun stem)) report

theorem sweepAll_ends (now : Int) (dryRun : Bool) (stems : List Text) (hnodup : stems.Nodup)
    (report : SweepReport) :
    Survives exec (fun _ => True)
      (fun r st' => r = .ok (st.reportOf now dryRun stems report) ∧
        SweptBy now dryRun stems st st')
      (sweepAll now dryRun stems report) st := by
  induction stems generalizing st report with
  | nil =>
      exact ⟨rfl, fun t => ⟨fun h => absurd h.1 (List.not_mem_nil), fun _ => .refl t st⟩⟩
  | cons stem stems ih =>
      obtain ⟨hfresh, hnodup⟩ := List.nodup_cons.mp hnodup
      refine (sweepOne_ends now dryRun stem).bind (fun fate st₁ h₁ => ?_)
        (fun e _ h₁ => nomatch h₁.1)
      obtain ⟨hfate, hswept⟩ := h₁
      obtain rfl := Except.ok.inj hfate
      -- the later stems are still as they were
      have hlater : ∀ t, t ≠ stem → Same t st st₁ := fun t ht =>
        (hswept t).2 (fun h => ht (List.mem_singleton.mp h.1))
      refine (ih hnodup _).mono (fun r st₂ h₂ => ?_)
      obtain ⟨rfl, hrest⟩ := h₂
      refine ⟨?_, fun t => ?_⟩
      · refine congrArg Except.ok (List.foldl_ext _ _ _ (fun report t ht => ?_))
        rw [(hlater t (fun heq => hfresh (heq ▸ ht))).fate]
      · by_cases ht : t = stem
        · subst ht
          have hstays : Same t st₁ st₂ := (hrest t).2 (fun h => hfresh h.1)
          refine ⟨fun h => ?_, fun h => ?_⟩
          · have hgone := (hswept t).1 ⟨List.mem_singleton_self t, h.2⟩
            exact ⟨hstays.object.trans hgone.object, hstays.lease.trans hgone.lease⟩
          · have hsame := (hswept t).2 (fun h' => h ⟨List.mem_cons_self, h'.2⟩)
            exact hsame.trans hstays
        · have hbefore := hlater t ht
          have hrest := hrest t
          rw [hbefore.fate] at hrest
          refine ⟨fun h => hrest.1 ⟨?_, h.2⟩, fun h => hbefore.trans (hrest.2 (fun h' => ?_))⟩
          · exact (List.mem_cons.mp h.1).resolve_left ht
          · exact h ⟨List.mem_cons_of_mem _ h'.1, h'.2⟩

/-- Every stem is in the list of its fate, in the order of the names. -/
theorem reportOf_eq (now : Int) (dryRun : Bool) (stems : List Text) (report : SweepReport) :
    st.reportOf now dryRun stems report =
      { removed := report.removed ++
          stems.filter (fun t => st.fate now dryRun t = .removed)
        retained := report.retained ++
          stems.filter (fun t => st.fate now dryRun t = .retained)
        malformed := report.malformed ++
          stems.filter (fun t => st.fate now dryRun t = .malformed) } := by
  induction stems generalizing report with
  | nil =>
      simp [Store.reportOf]
  | cons stem stems ih =>
      refine (ih (report.add stem (st.fate now dryRun stem))).trans ?_
      cases hfate : st.fate now dryRun stem <;> simp [SweepReport.add, hfate]

theorem nodup_stems (st : Store C) : st.stems.Nodup :=
  (List.mergeSort_perm _ _).nodup_iff.mpr (List.nodup_dedup _)

theorem mem_stems {t : Text} : t ∈ st.stems ↔ t ∈ st.leases.keys := by
  rw [Store.stems, List.mem_mergeSort, List.mem_dedup]

theorem sweep_ends (now : Int) (dryRun : Bool) :
    Survives exec (fun _ => True)
      (fun r st' => r = .ok (st.reportOf now dryRun st.stems ⟨[], [], []⟩) ∧
        SweptBy now dryRun st.stems st st')
      (sweep now dryRun) st :=
  fun _ => ⟨trivial, sweepAll_ends now dryRun st.stems (nodup_stems st) ⟨[], [], []⟩⟩

/-- A stem whose fate is to be removed has a lease, which is readable, its own, not pinned
and expired. -/
theorem expired_of_fate {now : Int} {dryRun : Bool} {t : Text}
    (h : st.fate now dryRun t = .removed) :
    ∃ lease, st.leases.get? t = some (.file (some lease)) ∧ lease.digest.1 = t ∧
      lease.pinned = false ∧ lease.expiresAt ≤ now := by
  unfold Store.fate Store.judged at h
  rcases hentry : st.leases.get? t with _ | (_ | lease) | _ | _ <;> rw [hentry] at h
  case some.file.some =>
    dsimp only at h
    split at h
    · cases h
    · cases h
    · rename_i htrue
      split at htrue
      · rename_i hown
        have hexpired := Option.some.inj htrue
        simp only [Bool.and_eq_true, Bool.not_eq_true', decide_eq_true_eq] at hexpired
        exact ⟨lease, rfl, hown.1, hexpired.1, hexpired.2⟩
      · cases htrue
  all_goals cases h

/-- What a dry run would remove is what a sweep removes, but for links. -/
theorem fate_wet_iff (now : Int) (t : Text) :
    st.fate now false t = .removed ↔
      st.fate now true t = .removed ∧ Object.isLink (st.objects.get? t) = false := by
  unfold Store.fate
  rcases st.judged now t with _ | (_ | _) <;> simp

theorem fate_retained_iff (now : Int) (t : Text) :
    st.fate now false t = .retained ↔ st.fate now true t = .retained := by
  unfold Store.fate
  rcases st.judged now t with _ | (_ | _) <;> simp
  split <;> simp

/--
**What a sweep removes.**  A dry run and a sweep of one store at one time keep the same
objects, and the sweep removes exactly what the dry run has named, but for objects that
are links, which it reports as malformed and does not follow.  Whatever it removes had
expired under a readable lease of its own, unpinned; object and lease are both gone, and
nothing else has changed, nor has anything after the dry run.
-/
theorem sweep_removes_what_dry_run_names
    (st dried swept : Store C) (now : Int) (inputs inputs' : List C) (named report : SweepReport)
    (hdry : ending exec (sweep now true) inputs st = some (.ok named, dried))
    (hsweep : ending exec (sweep now false) inputs' st = some (.ok report, swept)) :
    report.retained = named.retained ∧
      report.removed =
        named.removed.filter (fun t => Object.isLink (st.objects.get? t) = false) ∧
      (∀ t ∈ report.removed, ∃ lease, st.leases.get? t = some (.file (some lease)) ∧
        lease.digest.1 = t ∧ lease.pinned = false ∧ lease.expiresAt ≤ now) ∧
      (∀ t, (t ∈ report.removed → Gone t swept) ∧ (t ∉ report.removed → Same t st swept)) ∧
      ∀ t, Same t st dried := by
  obtain ⟨hnamed, hdried⟩ := (sweep_ends now true).ending hdry
  obtain ⟨hreport, hswept⟩ := (sweep_ends now false).ending hsweep
  rw [reportOf_eq] at hnamed hreport
  obtain rfl := Except.ok.inj hnamed
  obtain rfl := Except.ok.inj hreport
  refine ⟨?_, ?_, ?_, fun t => ?_, fun t => (hdried t).2 (fun h => nomatch h.2.1)⟩
  · simp only [List.nil_append, fate_retained_iff]
  · simp only [List.nil_append, List.filter_filter]
    refine List.filter_congr (fun t _ => ?_)
    rw [← Bool.decide_and, decide_eq_decide, and_comm]
    exact fate_wet_iff now t
  · intro t ht
    simp only [List.nil_append, List.mem_filter, decide_eq_true_eq] at ht
    exact expired_of_fate ht.2
  · simp only [List.nil_append, List.mem_filter, decide_eq_true_eq]
    exact ⟨fun h => (hswept t).1 ⟨h.1, rfl, h.2⟩,
      fun h => (hswept t).2 (fun h' => h ⟨h'.1, h'.2.2⟩)⟩

/-- A directory with one lease is listed. -/
theorem stems_single (objects : Dict Text (Object Nat)) :
    Store.stems ⟨objects, sampleStore.leases⟩ = [sampleToken.1] :=
  List.mergeSort_singleton _

theorem sweep_listed (objects : Dict Text (Object Nat)) (now : Int) (dryRun : Bool)
    (i : Nat) (inputs : List Nat) :
    ending exec (sweep now dryRun) (i :: inputs) ⟨objects, sampleStore.leases⟩ =
      ending exec (sweepAll now dryRun [sampleToken.1] ⟨[], [], []⟩) inputs
        ⟨objects, sampleStore.leases⟩ :=
  congrArg (fun stems => ending exec (sweepAll now dryRun stems ⟨[], [], []⟩) inputs _)
    (stems_single objects)

/-- A store with one bundle, after its expiry. -/
theorem sweep_removes_what_dry_run_names_sample :
    ([] : List Text) = [] ∧
      [sampleToken.1] = [sampleToken.1].filter
        (fun t => Object.isLink (sampleStore.objects.get? t) = false) ∧
      (∀ t ∈ [sampleToken.1], ∃ lease, sampleStore.leases.get? t = some (.file (some lease)) ∧
        lease.digest.1 = t ∧ lease.pinned = false ∧ lease.expiresAt ≤ 10) ∧
      (∀ t, (t ∈ [sampleToken.1] → Gone t (⟨[], []⟩ : Store Nat)) ∧
        (t ∉ [sampleToken.1] → Same t sampleStore ⟨[], []⟩)) ∧
      ∀ t, Same t sampleStore sampleStore :=
  sweep_removes_what_dry_run_names sampleStore sampleStore ⟨[], []⟩ 10 [0, 0, 0]
    [0, 0, 0, 0, 0, 0, 0] ⟨[sampleToken.1], [], []⟩ ⟨[sampleToken.1], [], []⟩
    (sweep_listed sampleStore.objects 10 true 0 _) (sweep_listed sampleStore.objects 10 false 0 _)

end Reports

/-! ## A sweep that is killed -/

section Killed

variable {C : Type}
variable {st st' : Store C}

/-- The paths of `t` as a sweep may leave them that is killed on its way. -/
inductive Partway (now : Int) (t : Text) (st st' : Store C) : Prop
  | untouched (h : Same t st st')
  | torn
      (hfate : st.fate now false t = .removed)
      (hobject : ∃ remains, st'.objects.get? t = some (.dir remains))
      (hlease : st'.leases.get? t = st.leases.get? t)
  | erased
      (hfate : st.fate now false t = .removed)
      (hobject : st'.objects.get? t = none)

theorem Partway.then_same {now : Int} {t : Text} {st₁ st₂ : Store C}
    (h : Partway now t st st₁) (hsame : Same t st₁ st₂) : Partway now t st st₂ := by
  cases h with
  | untouched h => exact .untouched (h.trans hsame)
  | torn hfate hobject hlease =>
      exact .torn hfate (by rwa [hsame.object]) (hsame.lease.trans hlease)
  | erased hfate hobject => exact .erased hfate (hsame.object.trans hobject)

/-- What has expired stays expired. -/
theorem fate_mono {now later : Int} (hlater : now ≤ later) {t : Text}
    (h : st.fate now false t = .removed) :
    st.fate later false t = .removed := by
  obtain ⟨lease, hlease, -, hpinned, hexpired⟩ := expired_of_fate h
  unfold Store.fate Store.judged at h ⊢
  rw [hlease] at h ⊢
  dsimp only at h ⊢
  split at h
  · cases h
  · cases h
  · rename_i htrue
    split at htrue
    · rename_i hown
      rw [if_pos hown, hpinned, decide_eq_true (hexpired.trans hlater)]
      exact h
    · cases htrue

/-- An object that is torn, or as it was, is one that a sweep removes again. -/
theorem Partway.fate {now : Int} {t : Text} (h : Partway now t st st')
    (hobject : st'.objects.get? t ≠ none) :
    st'.fate now false t = st.fate now false t := by
  cases h with
  | untouched h => exact h.fate now false
  | erased _ hnone => exact absurd hnone hobject
  | torn hfate hremains hlease =>
      obtain ⟨remains, hremains⟩ := hremains
      obtain ⟨lease, hentry, hdigest, hpinned, hexpired⟩ := expired_of_fate hfate
      rw [hfate]
      unfold Store.fate Store.judged
      rw [hlease, hentry, hremains]
      simp [hdigest, Object.isDir, Object.isLink, hpinned, hexpired]

/-- Nothing that is removed at one time is kept at a later one. -/
theorem Partway.fate_earlier {now earlier : Int} {t : Text} (h : Partway now t st st')
    (hearlier : earlier ≤ now)
    (hremoved : st'.fate earlier false t = .removed) :
    st.fate now false t = .removed := by
  refine (h.fate ?_).symm.trans (fate_mono hearlier hremoved)
  intro hnone
  unfold Store.fate at hremoved
  rw [judged_of_absent hnone] at hremoved
  cases hremoved

theorem sweepOne_partway
    {now earlier : Int} (hearlier : earlier ≤ now)
    {st₁ : Store C} (h : ∀ t, Partway now t st st₁)
    (stem : Text) :
    Survives exec (fun st' => ∀ t, Partway now t st st')
      (fun _ st' => ∀ t, Partway now t st st') (sweepOne earlier false stem) st₁ := by
  refine (judge_survives (I := fun st' => ∀ t, Partway now t st st') h earlier stem).finish
    (fun r st₂ hjudged => ?_)
  obtain ⟨rfl, hjudged⟩ := hjudged
  match r with
  | .error _ => exact h
  | .ok false => exact h
  | .ok true =>
      refine fun i => ⟨h, ?_⟩
      rw [exec_object]
      dsimp only
      split
      · exact h
      · rename_i hlink
        have hfate : st.fate now false stem = .removed := by
          refine (h stem).fate_earlier hearlier ?_
          unfold Store.fate
          rw [← hjudged]
          simpa [Except.toOption] using hlink
        have hlease : st₂.leases.get? stem = st.leases.get? stem ∨
            st₂.objects.get? stem = none := by
          cases h stem with
          | untouched h => exact .inl h.lease
          | torn _ _ hlease => exact .inl hlease
          | erased _ hobject => exact .inr hobject
        -- the object is torn, then gone, then its lease
        intro i₁
        have h₁ : ∀ t, Partway now t st (exec (.tear stem) i₁ st₂).2 := by
          intro t
          by_cases ht : t = stem
          · subst ht
            rcases hlease with hlease | hnone
            · exact .torn hfate ⟨i₁, (Dict.get?_assign _ _ _ _).trans (if_pos rfl)⟩ hlease
            · rw [judged_of_absent hnone] at hjudged
              cases hjudged
          · exact (h t).then_same (.of_assign ht _)
        refine ⟨h₁, fun i₂ => ?_⟩
        have h₂ : ∀ t, Partway now t st (exec (.erase stem) i₂ (exec (.tear stem) i₁ st₂).2).2 := by
          intro t
          by_cases ht : t = stem
          · subst ht
            exact .erased hfate (get?_dropped _ t)
          · exact (h₁ t).then_same (.of_erase ht)
        refine ⟨h₂, fun i₃ => ?_⟩
        have h₃ : ∀ t, Partway now t st (exec (.unlink stem) i₃
            (exec (.erase stem) i₂ (exec (.tear stem) i₁ st₂).2).2).2 := by
          intro t
          by_cases ht : t = stem
          · subst ht
            exact .erased hfate (get?_dropped _ t)
          · exact (h₂ t).then_same (.of_unlink ht)
        exact ⟨h₃, h₃⟩

theorem sweep_partway
    {now earlier : Int} (hearlier : earlier ≤ now)
    {st₁ : Store C} (h : ∀ t, Partway now t st st₁) :
    Survives exec (fun st' => ∀ t, Partway now t st st')
      (fun _ st' => ∀ t, Partway now t st st') (sweep earlier false) st₁ := by
  refine fun i => ⟨h, ?_⟩
  have hall : ∀ (stems : List Text) (report : SweepReport) (st₁ : Store C),
      (∀ t, Partway now t st st₁) →
      Survives exec (fun st' => ∀ t, Partway now t st st')
        (fun _ st' => ∀ t, Partway now t st st') (sweepAll earlier false stems report) st₁ := by
    intro stems
    induction stems with
    | nil =>
        intro report st₁ h
        exact h
    | cons stem stems ih =>
        intro report st₁ h
        exact (sweepOne_partway hearlier h stem).bind (fun fate st₂ h₂ => ih _ st₂ h₂)
          (fun _ _ h₂ => h₂)
  exact hall _ _ _ h

/-- The objects that a sweep leaves: what has expired is gone. -/
theorem objects_after_sweep
    {now : Int} {swept : Store C} {r : Except RetentionError SweepReport} {inputs : List C}
    (h : ∀ t, Partway now t st st')
    (hsweep : ending exec (sweep now false) inputs st' = some (r, swept))
    (t : Text) :
    swept.objects.get? t =
      if st.fate now false t = .removed then none else st.objects.get? t := by
  obtain ⟨-, hswept⟩ := (sweep_ends now false).ending hsweep
  by_cases hnone : st'.objects.get? t = none
  · -- there is no object any more, or there was none
    have hkeeps : swept.objects.get? t = none := by
      by_cases hgone : t ∈ st'.stems ∧ false = false ∧ st'.fate now false t = .removed
      · exact ((hswept t).1 hgone).object
      · exact ((hswept t).2 hgone).object.trans hnone
    rw [hkeeps]
    split
    · rfl
    · rename_i hfate
      cases h t with
      | untouched h => exact hnone.symm.trans h.object
      | torn hremoved => exact absurd hremoved hfate
      | erased hremoved => exact absurd hremoved hfate
  · have hfate := (h t).fate hnone
    split
    · rename_i hremoved
      refine ((hswept t).1 ⟨?_, rfl, hfate.trans hremoved⟩).object
      obtain ⟨lease, hlease, -⟩ := expired_of_fate (hfate.trans hremoved)
      exact mem_stems.mpr (Dict.mem_keys_iff.mpr (by simp [hlease]))
    · rename_i hkept
      have hsame := (hswept t).2 (fun h' => hkept (hfate.symm.trans h'.2.2))
      cases h t with
      | untouched h => exact hsame.object.trans h.object
      | torn hremoved => exact absurd hremoved hkept
      | erased hremoved => exact absurd hremoved hkept

/--
**A killed sweep is finished by the next.**  However many sweeps are killed, each after any
of its statements, a sweep that ends at their time or later leaves the objects that it
would have left if none of them had been started: nothing half removed stays, and nothing
is lost that had not expired.
-/
theorem sweep_after_killed_sweeps
    (verify : C → Except Text CandidateEvidenceBundle)
    (st swept alone : Store C) (now : Int) (killed : List (Int × List C))
    (inputs inputs' : List C) (r r' : Except RetentionError SweepReport)
    (hearlier : ∀ k ∈ killed, k.1 ≤ now)
    (hsweep : ending exec (sweep now false) inputs
      (commands verify st (killed.map (fun k => (.sweep k.1 false, k.2)))) = some (r, swept))
    (halone : ending exec (sweep now false) inputs' st = some (r', alone)) :
    ∀ t, swept.objects.get? t = alone.objects.get? t := by
  have hpartway : ∀ (killed : List (Int × List C)) (st₁ : Store C),
      (∀ k ∈ killed, k.1 ≤ now) → (∀ t, Partway now t st st₁) →
        ∀ t, Partway now t st
          (commands verify st₁ (killed.map (fun k => (.sweep k.1 false, k.2)))) := by
    intro killed
    induction killed with
    | nil =>
        intro st₁ _ h
        exact h
    | cons k killed ih =>
        intro st₁ hearlier h
        obtain ⟨hfirst, hrest⟩ := List.forall_mem_cons.mp hearlier
        refine ih _ hrest ?_
        have hprogram : Survives exec (fun st' => ∀ t, Partway now t st st')
            (fun _ st' => ∀ t, Partway now t st st')
            ((Command.sweep k.1 false).program verify) st₁ :=
          (sweep_partway hfirst h).bind (fun _ _ h₂ => h₂) (fun _ _ h₂ => h₂)
        exact hprogram.live h k.2
  intro t
  rw [objects_after_sweep (hpartway killed st hearlier (fun t => .untouched (.refl t st))) hsweep t,
    objects_after_sweep (fun t => .untouched (.refl t st)) halone t]

/-- A sweep that is killed while it removes the bundle. -/
theorem commands_killed :
    commands sampleVerify sampleStore [(.sweep 10 false, [0, 0, 0, 0, 3])] =
      ⟨[(sampleToken.1, .dir 3)], sampleStore.leases⟩ := by
  change live exec (sweepAll 10 false sampleStore.stems ⟨[], [], []⟩ >>=
    fun report => pure (Printed.report report)) [0, 0, 0, 3] sampleStore = _
  rw [stems_single sampleStore.objects]
  rfl

theorem sweep_after_killed_sweeps_sample :
    (⟨[], []⟩ : Store Nat).objects.get? sampleToken.1 =
      (⟨[], []⟩ : Store Nat).objects.get? sampleToken.1 :=
  sweep_after_killed_sweeps sampleVerify sampleStore ⟨[], []⟩ ⟨[], []⟩ 12
    [(10, [0, 0, 0, 0, 3])] [0, 0, 0, 0, 0, 0, 0] [0, 0, 0, 0, 0, 0, 0]
    (.ok ⟨[sampleToken.1], [], []⟩) (.ok ⟨[sampleToken.1], [], []⟩) (by simp)
    ((congrArg (ending exec (sweep 12 false) _) commands_killed).trans
      (sweep_listed [(sampleToken.1, .dir 3)] 12 false 0 _))
    (sweep_listed sampleStore.objects 12 false 0 _) sampleToken.1

end Killed

end Retention
end SwFactory
