import SwFactory.Backend.Routine
import SwFactory.Backend.Soundness

/-!
# The backend: every request keeps to the contract

The proofs follow the programs.  Most of a program performs statements that the
contract asks nothing for; the places that matter are the intents of the
journal, the records on a timeline and the record of a member's epoch.
-/

namespace SwFactory
namespace Backend

open Text Machine Cells Restore

variable {V : Type}

section Journal

/-- The statement opens no intent but those for the given reference, if any. -/
def Opens (ref : Option Journal.OperationRef) : Journal.Stmt V → Prop
  | .intent args => some args.ref = ref
  | _ => True

variable {allowed : Option Journal.OperationRef}

theorem only_sql {α : Type} {s : Journal.Stmt V} {f : s.Ans → Journal.Method V α}
    (hs : Opens allowed s) (hf : ∀ a, (f a).Only (Opens allowed)) :
    (Journal.sql s >>= f).Only (Opens allowed) :=
  ⟨hs, hf⟩

theorem only_get (key : String) :
    (Journal.get key : Journal.Method V _).Only (Opens allowed) := by
  apply only_sql (by trivial)
  intro found
  cases found <;> trivial

theorem only_startAttempt (ref : Journal.OperationRef)
    (budget : Option Journal.RetryBudget) (lease : Time) :
    (Journal.startAttempt ref budget lease : Journal.Method V _).Only
      (Opens allowed) := by
  apply only_sql (by trivial)
  intro owner
  apply only_sql (by trivial)
  intro now
  apply (only_get ref.key).bind
  intro row
  apply Prog.Only.ofExcept.bind
  intro _
  split
  · trivial
  · split
    · split
      · exact only_sql (by trivial) (fun _ => trivial)
      · trivial
    · split
      · exact only_sql (by trivial) (fun _ => trivial)
      · apply only_sql (by trivial)
        intro rowcount
        split <;> trivial

theorem only_markInDoubt (ref : Journal.OperationRef) (error : String)
    (owner : Option Journal.Owner) :
    (Journal.markInDoubt ref error owner : Journal.Method V _).Only (Opens allowed) := by
  apply (only_get ref.key).bind
  intro row
  apply Prog.Only.ofExcept.bind
  intro _
  apply only_sql (by trivial)
  intro now
  exact ⟨trivial, fun _ => trivial⟩

theorem only_markObservation (ref : Journal.OperationRef)
    (outcome : Journal.MutationOutcome V) :
    (Journal.markObservation ref outcome).Only (Opens allowed) := by
  apply (only_get ref.key).bind
  intro row
  apply Prog.Only.ofExcept.bind
  intro _
  apply only_sql (by trivial)
  intro now
  exact ⟨trivial, fun _ => trivial⟩

theorem only_scheduleRetry (ref : Journal.OperationRef) (attempt : Nat)
    (budget : Option Journal.RetryBudget) :
    (Journal.scheduleRetry ref attempt budget : Journal.Method V _).Only
      (Opens allowed) := by
  apply only_sql (by trivial)
  intro started
  apply only_sql (by trivial)
  intro wait
  apply (only_get ref.key).bind
  intro row
  apply Prog.Only.ofExcept.bind
  intro _
  apply only_sql (by trivial)
  intro now
  exact only_sql (by trivial) (fun _ => trivial)

/-- `begin` opens the intent it is called for. -/
theorem only_begin (ref : Journal.OperationRef) (intentDigest : Option String)
    (replaySafe : Option Bool) (maxAttempts : Option Nat) :
    (Journal.begin ref intentDigest replaySafe maxAttempts :
      Journal.Method V _).Only (Opens (some ref)) := by
  apply Prog.Only.ofExcept.bind
  intro _
  apply Prog.Only.ofExcept.bind
  intro _
  split
  · trivial
  · apply only_sql (by trivial)
    intro now
    apply only_sql (by rfl)
    intro bound
    apply Prog.Only.ofExcept.bind
    intro _
    exact (only_get ref.key).bind (fun _ => trivial)

variable [DecidableEq V]

theorem only_commit (ref : Journal.OperationRef) (result : Option V)
    (owner : Option Journal.Owner) :
    (Journal.commit ref result owner).Only (Opens allowed) := by
  apply (only_get ref.key).bind
  intro row
  apply Prog.Only.ofExcept.bind
  intro _
  split
  · split <;> trivial
  · split
    · trivial
    · apply only_sql (by trivial)
      intro now
      apply only_sql (by trivial)
      intro out
      split
      · trivial
      · split
        · trivial
        · split <;> trivial

theorem only_claimAndRun (args : Journal.ExecuteArgs)
    (budget : Journal.RetryBudget) :
    (Journal.claimAndRun args budget : Journal.Method V _).Only (Opens allowed) := by
  apply (only_startAttempt args.ref _ _).bind
  intro claimed
  apply only_sql (by trivial)
  intro _
  apply only_sql (by trivial)
  intro ended
  cases ended with
  | raised error =>
      apply (only_markInDoubt _ _ _).bind
      intro _
      exact (only_scheduleRetry _ _ _).bind (fun _ => trivial)
  | returned result =>
      exact (only_commit _ _ _).bind (fun _ => trivial)

theorem only_observeThenRun (args : Journal.ExecuteArgs)
    (budget : Journal.RetryBudget) (replaySafe : Bool) (row : Journal.Row V)
    (shouldObserve : Bool) :
    (Journal.observeThenRun args budget replaySafe row shouldObserve).Only
      (Opens allowed) := by
  unfold Journal.observeThenRun
  split
  · split
    · trivial
    · apply only_sql (by trivial)
      intro outcome
      apply (only_markObservation _ _).bind
      intro _
      split
      · exact (only_commit _ _ _).bind (fun _ => trivial)
      · split
        · trivial
        · exact only_claimAndRun args budget
  · exact only_claimAndRun args budget

theorem only_observe (ref : Journal.OperationRef) :
    (Journal.observe ref : Journal.Method V _).Only (Opens allowed) := by
  apply (only_get ref.key).bind
  intro row
  apply Prog.Only.ofExcept.bind
  intro _
  split
  · trivial
  · apply only_sql (by trivial)
    intro outcome
    apply (only_markObservation _ _).bind
    intro _
    split
    · exact (only_commit _ _ _).bind (fun _ => trivial)
    · trivial

end Journal

section Keys

variable {setup : Setup V} {guarded : Prop} {known : Stores V → Prop}

/-- A journal method is safe once the Cell of its intent has been reached. -/
theorem safe_onKey {α : Type} {ref : Option Journal.OperationRef} {key : String}
    {p : Journal.Method V α} (hp : p.Only (Opens ref))
    (hreached : ∀ r, ref = some r → ∀ sh, (contract setup guarded).good sh →
      known sh → guarded → 0 < r.epoch →
        sh.cells.Reached r.cellId r.epoch) :
    (contract setup guarded).Safe known (onKey key p) := by
  induction p generalizing known with
  | ret a => exact .ret
  | raise e => exact .raise
  | step s k ih =>
      apply Contract.Safe.step
      · intro sh hgood hknown
        cases s with
        | intent args =>
            intro hguarded hepoch
            exact hreached _ hp.1.symm sh hgood hknown hguarded hepoch
        | _ => trivial
      · intro a
        apply ih a (hp.2 a)
        intro r hr sh hgood hknown
        exact hreached r hr sh hgood hknown.1

/-- A journal method without intents asks for nothing. -/
theorem safe_onKey_none {α : Type} {key : String} {p : Journal.Method V α}
    (hp : p.Only (Opens none)) :
    (contract setup guarded).Safe known (onKey key p) := by
  apply safe_onKey hp
  intro r hr
  cases hr

/-- A row that was read is there. -/
theorem gives_get {key k : String} :
    (contract setup guarded).Gives known (onKey key (Journal.get k))
      (fun _ => HasRow key) := by
  apply Contract.Gives.step (fun _ _ _ => trivial)
  intro found
  cases found with
  | none =>
      exact Contract.Gives.raise
  | some row =>
      apply Contract.Gives.ret
      rintro sh - ⟨-, htold⟩
      exact htold rfl

/-- Behind a program, whatever it answers, the read finds its row. -/
theorem gives_thenGet {α β : Type} {key k : String} {p : Journal.Method V α}
    {f : Journal.Row V → β}
    (hp : (contract setup guarded).Safe known (onKey key p)) :
    (contract setup guarded).Gives known
      (onKey key (p >>= fun _ => Journal.get k >>= fun row => pure (f row)))
      (fun _ => HasRow key) := by
  rw [onKey_bind]
  apply hp.bind_gives
  intro _
  rw [onKey_bind]
  apply gives_get.bind
  intro row
  exact Contract.Gives.ret (fun _ _ h => h.2)

/-- The knowledge that the intent for a reference needs. -/
def Grounded (setup : Setup V) (guarded : Prop) (known : Stores V → Prop)
    (ref : Journal.OperationRef) : Prop :=
  ∀ sh, (contract setup guarded).good sh → known sh → guarded →
    0 < ref.epoch → sh.cells.Reached ref.cellId ref.epoch

variable {args : Journal.ExecuteArgs} {key : String}

theorem safe_begin {ref : Journal.OperationRef} {digest : Option String}
    {replaySafe : Option Bool} {bound : Option Nat}
    (hground : Grounded setup guarded known ref) :
    (contract setup guarded).Safe known
      (onKey key (Journal.begin ref digest replaySafe bound)) := by
  apply safe_onKey (only_begin ref digest replaySafe bound)
  rintro r ⟨⟩
  exact hground

theorem gives_openIntent {budget : Journal.RetryBudget}
    (hground : Grounded setup guarded known args.ref) :
    (contract setup guarded).Gives known
      (onKey key (Journal.openIntent args budget)) (fun _ => HasRow key) := by
  apply Contract.Gives.step (fun _ _ _ => trivial)
  intro found
  have hground' : Grounded setup guarded
      (fun sh => known sh ∧ tells setup guarded (.journal key .select) found sh)
      args.ref :=
    fun sh hgood h => hground sh hgood h.1
  cases found with
  | none =>
      exact gives_thenGet (safe_begin hground')
  | some row =>
      show (contract setup guarded).Gives _ (onKey key (Prog.ofExcept _ >>= _)) _
      rw [onKey_bind]
      apply (safe_onKey_none Prog.Only.ofExcept).bind_gives
      intro _
      exact gives_thenGet (safe_begin hground')

variable [DecidableEq V]

/-- Once `execute` has returned, its row is there. -/
theorem gives_execute (hground : Grounded setup guarded known args.ref) :
    (contract setup guarded).Gives known
      (onKey key (Journal.execute args : Journal.Method V _))
      (fun _ => HasRow key) := by
  unfold Journal.execute
  rw [onKey_bind]
  apply (gives_openIntent hground).bind
  rintro ⟨existed, row⟩
  apply Contract.Safe.gives
  · apply safe_onKey_none
    dsimp only
    split
    · trivial
    · apply only_sql (by trivial)
      intro now
      split
      · exact only_observeThenRun args _ _ row _
      · split
        · trivial
        · apply (only_markInDoubt args.ref _ _).bind
          intro _
          apply (only_get args.ref.key).bind
          intro row'
          exact only_observeThenRun args _ _ row' true
  · exact fun _ _ _ h => h.2

/-- `mutate` is safe once the Cell of its reference has been reached. -/
theorem safe_mutate {ref : Journal.OperationRef} {replaySafe reconciles : Bool}
    {budget : Option Journal.RetryBudget}
    (hground : Grounded setup guarded known ref) :
    (contract setup guarded).Safe known
      (mutate ref replaySafe reconciles budget : Method V _) := by
  apply safe_then (fun _ _ _ => trivial)
  intro gate
  apply Contract.Safe.ofExcept.bind
  intro observes
  exact (gives_execute (fun sh hgood h => hground sh hgood h.1)).safe

omit [DecidableEq V] in
/-- The reference of an epoch that a Cell has reached. -/
theorem grounded_buildRef {cellId kind : String} {epoch : Int}
    {parts : List String}
    (hreached : ∀ sh, (contract setup guarded).good sh → known sh → guarded →
      sh.cells.Reached cellId epoch) :
    Grounded setup guarded known (buildRef setup cellId epoch kind parts) := by
  intro sh hgood hknown hguarded hepoch
  obtain ⟨cell, hfind, hle⟩ := hreached sh hgood hknown hguarded
  refine ⟨cell, hfind, ?_⟩
  have hpos : 0 < epoch.toNat := hepoch
  show (epoch.toNat : Int) ≤ cell.epoch
  omega

end Keys

section Closing

variable {setup : Setup V} {guarded : Prop} {known : Stores V → Prop}

theorem requires_routine {s : Stmt V} (h : s.Routine) (sh : Stores V) :
    requires setup guarded s sh := by
  cases s with
  | record m => exact h.elim
  | journal key js =>
      cases js with
      | intent args => exact h.elim
      | _ => trivial
  | admission op =>
      cases op with
      | submit args => exact h.elim
      | recordMemberEpoch workId jobIdx epoch token => exact h.elim
      | _ => trivial
  | _ => trivial

theorem safe_routine {α : Type} {p : Method V α} (hp : p.Only Stmt.Routine) :
    (contract setup guarded).Safe known p :=
  Contract.Safe.of_only (fun _ hs sh _ => requires_routine hs sh) hp

theorem safe_cancelMember (tag : String) (member : Admission.Member) :
    (contract setup guarded).Safe known
      (cancelMember tag member : Method V _) := by
  unfold cancelMember
  split
  · exact Contract.Safe.ret
  · apply safe_then (fun _ _ _ => trivial)
    intro found
    split
    · exact Contract.Safe.ret
    · split
      · exact Contract.Safe.ret
      · split
        · exact Contract.Safe.ret
        · apply safe_then (fun _ _ _ => trivial)
          intro patched
          split
          · exact Contract.Safe.ret
          · exact Contract.Safe.ret
          · exact Contract.Safe.ret
          · exact Contract.Safe.raise

theorem safe_cancelMembers (tag : String) (members : List Admission.Member) :
    (contract setup guarded).Safe known
      (cancelMembers tag members : Method V _) := by
  induction members with
  | nil => exact Contract.Safe.ret
  | cons member members ih =>
      apply (safe_cancelMember tag member).bind
      intro closed
      exact ih.bind (fun _ => Contract.Safe.ret)

theorem safe_cancelOrder (workId reason state : String)
    (closing : List Admission.Member) :
    (contract setup guarded).Safe known
      (cancelOrder workId reason state closing : Method V _) := by
  apply safe_then (fun _ _ _ => trivial)
  intro answer
  apply Contract.Safe.ofExcept.bind
  intro outcome
  split
  · exact (safe_routine (only_onAdmission (by trivial))).bind
      (fun _ => Contract.Safe.ret)
  · exact Contract.Safe.ret

theorem contract_permits (workId : String) :
    Permits (contract setup guarded) workId where
  routine := fun _ hs sh _ => requires_routine hs sh
  closes := by
    intro known tag reason state
    apply (safe_routine (only_readMembers workId)).bind
    intro members
    apply (safe_cancelMembers tag members).bind
    intro closed
    exact (safe_cancelOrder workId reason state members).bind
      (fun _ => Contract.Safe.ret)

end Closing

end Backend
end SwFactory
