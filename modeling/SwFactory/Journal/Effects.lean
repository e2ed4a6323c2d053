import SwFactory.Journal.Methods

/-!
# The operation journal: what one statement can do

The later modules never unfold `Stmt.effect`: they use the facts below, one
for each column that an argument depends on.

* `attemptsOf_effect`: only a claim that takes the attempt writes the counter;
* `ownerOf_effect`: only such a claim puts an owner on a row;
* `effect_keepsIdentity`: a row is never deleted, and its identity and bound
  policy are never changed;
* `effect_keepsReceipt`: on a committed row, only `exhaust` touches the receipt.
-/

namespace SwFactory
namespace Journal

open Text Machine

variable {V : Type}

/-- Everything one move of the journal can do. -/
theorem step_cases
    (c : Configuration V) (m : Move (Input V)) :
    ((∀ s k, c.procs m.pid ≠ .running (.step s k)) ∧ step V c m = c) ∨
      (∃ p i s k, m = .run p i ∧ c.procs p = .running (.step s k) ∧
        step V c m =
          ⟨⟨s.effect c.shared.row,
              s.events p i c.shared.row ++ c.shared.log⟩,
            Function.update c.procs p
              (.running (k (s.answer p i c.shared.row)))⟩) ∨
      (∃ p s k, m = .crash p ∧ c.procs p = .running (.step s k) ∧
        step V c m =
          ⟨⟨c.shared.row, .crashed p :: c.shared.log⟩,
            Function.update c.procs p .crashed⟩) :=
  (system V).step_cases c m

/-- The move of a process that has a statement to perform. -/
theorem step_run
    {c : Configuration V} {p : Nat} {s : Stmt V}
    {k : s.Ans → Method V (Returned V)}
    (hp : c.procs p = .running (.step s k)) (i : Input V) :
    step V c (.run p i) =
      ⟨⟨s.effect c.shared.row, s.events p i c.shared.row ++ c.shared.log⟩,
        Function.update c.procs p
          (.running (k (s.answer p i c.shared.row)))⟩ := by
  simp [step, System.step, hp, system]

/-- The stored attempt counter; a missing row has none. -/
def attemptsOf (stored : Option (Row V)) : Nat :=
  (stored.map Row.attempts).getD 0

/-- The statement takes the attempt when performed on this row. -/
def Stmt.takes (s : Stmt V) (stored : Option (Row V)) : Bool :=
  match s with
  | .claim _ _ _ _ => stored.any claimGuard
  | _ => false

/-- The statement calls the observer. -/
def Stmt.observes : Stmt V → Bool
  | .reconcile => true
  | _ => false

/-- The statement enters the provider callback. -/
def Stmt.invokes : Stmt V → Bool
  | .fnStart => true
  | _ => false

@[simp] theorem updateWhere_none
    (guard : Row V → Bool) (f : Row V → Row V) :
    updateWhere guard f none = none :=
  rfl

@[simp] theorem updateWhere_some
    (guard : Row V → Bool) (f : Row V → Row V) (row : Row V) :
    updateWhere guard f (some row) =
      some (if guard row then f row else row) :=
  rfl

/-- A successful `begin` keeps everything but unbound policy columns. -/
theorem Intent.bindPolicy_spec (args : Intent) (row : Row V) :
    ∃ digest safe bound at_,
      args.bindPolicy row =
        { row with
          intentDigest := row.intentDigest.or digest
          replaySafe := row.replaySafe.or safe
          maxAttempts := row.maxAttempts.or bound
          updatedAt := at_ } := by
  unfold Intent.bindPolicy
  split
  · exact ⟨_, _, _, _, rfl⟩
  · exact ⟨none, none, none, row.updatedAt, by simp⟩

/-- What a successful transaction of `begin` stores. -/
theorem Intent.transact_ok
    {args : Intent} {stored : Option (Row V)} {row : Row V}
    (h : args.transact stored = .ok row) :
    row = args.bindPolicy (stored.getD args.fresh) := by
  unfold Intent.transact at h
  simp only [bind, Except.bind] at h
  split at h
  · cases h
  · split at h
    · cases h
    · split at h
      · cases h
      · exact (Except.ok.inj h).symm

/-- The row after `begin`, whether it was refused or not. -/
theorem effect_intent_cases
    (args : Intent) (stored : Option (Row V)) :
    (Stmt.intent args).effect stored = stored ∨
      (Stmt.intent args).effect stored =
        some (args.bindPolicy (stored.getD args.fresh)) := by
  cases h : args.transact stored with
  | error e =>
      left
      simp [Stmt.effect, h]
  | ok row =>
      right
      simp [Stmt.effect, h, Intent.transact_ok h]

/-- Only a claim that takes the attempt writes the counter. -/
theorem attemptsOf_effect
    (s : Stmt V) (stored : Option (Row V))
    (h : s.takes stored = false) :
    attemptsOf (s.effect stored) = attemptsOf stored := by
  cases s with
  | intent args =>
      rcases effect_intent_cases args stored with heq | heq
      · rw [heq]
      · obtain ⟨digest, safe, bound, at_, hbind⟩ :=
          args.bindPolicy_spec (stored.getD args.fresh)
        rw [heq, hbind]
        cases stored <;> rfl
  | claim attempt owner leaseUntil now =>
      cases stored with
      | none =>
          rfl
      | some row =>
          have hguard : claimGuard row = false := by
            simpa [Stmt.takes] using h
          simp [Stmt.effect, attemptsOf, hguard]
  | markInDoubt detail owner now =>
      cases owner <;> cases stored <;>
        simp [Stmt.effect, attemptsOf] <;> split <;> rfl
  | _ =>
      cases stored <;>
        simp [Stmt.effect, attemptsOf, updateWhere] <;> split <;> rfl

/-- A claim that takes the attempt finds no owner and leaves its own. -/
theorem effect_claim_takes
    {stored : Option (Row V)}
    {attempt : Nat} {owner : Owner} {leaseUntil now : Time}
    (h : (Stmt.claim attempt owner leaseUntil now : Stmt V).takes stored) :
    ownerOf stored = none ∧
      ownerOf ((Stmt.claim attempt owner leaseUntil now).effect stored) =
        some owner ∧
      attemptsOf ((Stmt.claim attempt owner leaseUntil now).effect stored) =
        attempt := by
  cases stored with
  | none =>
      simp [Stmt.takes] at h
  | some row =>
      have hguard : claimGuard row = true := by
        simpa [Stmt.takes] using h
      have howner : row.attemptOwner = none := by
        simp only [claimGuard, Bool.and_eq_true, Option.isNone_iff_eq_none] at hguard
        exact hguard.2
      simp [ownerOf, attemptsOf, Stmt.effect, hguard, howner]

/-- Only a claim that takes the attempt puts an owner on a row. -/
theorem ownerOf_effect
    (s : Stmt V) (stored : Option (Row V))
    (h : s.takes stored = false) :
    ownerOf (s.effect stored) = none ∨
      ownerOf (s.effect stored) = ownerOf stored := by
  cases s with
  | intent args =>
      rcases effect_intent_cases args stored with heq | heq
      · rw [heq]
        exact Or.inr rfl
      · obtain ⟨digest, safe, bound, at_, hbind⟩ :=
          args.bindPolicy_spec (stored.getD args.fresh)
        rw [heq, hbind]
        cases stored with
        | none => exact Or.inl rfl
        | some row => exact Or.inr rfl
  | claim attempt owner leaseUntil now =>
      cases stored with
      | none =>
          exact Or.inl rfl
      | some row =>
          have hguard : claimGuard row = false := by
            simpa [Stmt.takes] using h
          simp [Stmt.effect, hguard]
  | markInDoubt detail owner now =>
      cases owner <;> cases stored <;>
        simp [Stmt.effect, ownerOf] <;> split <;> simp
  | _ =>
      cases stored <;>
        simp [Stmt.effect, ownerOf, updateWhere] <;> split <;> simp

/-- The identity of a row, and the policy columns once they are bound. -/
structure KeepsIdentity (row row' : Row V) : Prop where
  cellId : row'.cellId = row.cellId
  epoch : row'.epoch = row.epoch
  kind : row'.kind = row.kind
  intentDigest : ∀ d, row.intentDigest = some d → row'.intentDigest = some d
  replaySafe : ∀ b, row.replaySafe = some b → row'.replaySafe = some b
  maxAttempts : ∀ m, row.maxAttempts = some m → row'.maxAttempts = some m

theorem KeepsIdentity.refl (row : Row V) : KeepsIdentity row row :=
  ⟨rfl, rfl, rfl, fun _ h => h, fun _ h => h, fun _ h => h⟩

theorem KeepsIdentity.trans {a b c : Row V}
    (hab : KeepsIdentity a b) (hbc : KeepsIdentity b c) :
    KeepsIdentity a c where
  cellId := hbc.cellId.trans hab.cellId
  epoch := hbc.epoch.trans hab.epoch
  kind := hbc.kind.trans hab.kind
  intentDigest d h := hbc.intentDigest d (hab.intentDigest d h)
  replaySafe b h := hbc.replaySafe b (hab.replaySafe b h)
  maxAttempts m h := hbc.maxAttempts m (hab.maxAttempts m h)

theorem Intent.bindPolicy_keepsIdentity (args : Intent) (row : Row V) :
    KeepsIdentity row (args.bindPolicy row) := by
  obtain ⟨digest, safe, bound, at_, hbind⟩ := args.bindPolicy_spec row
  rw [hbind]
  constructor <;> simp +contextual

/-- No statement deletes a row or changes what it is bound to. -/
theorem effect_keepsIdentity (s : Stmt V) (row : Row V) :
    ∃ row', s.effect (some row) = some row' ∧ KeepsIdentity row row' := by
  cases s with
  | intent args =>
      rcases effect_intent_cases args (some row) with heq | heq
      · exact ⟨row, heq, .refl row⟩
      · exact ⟨_, heq, args.bindPolicy_keepsIdentity row⟩
  | markInDoubt detail owner now =>
      cases owner <;>
        refine ⟨_, rfl, ?_⟩ <;> dsimp only <;> split <;> constructor <;> simp
  | _ =>
      refine ⟨_, rfl, ?_⟩
      try dsimp only
      try split
      all_goals constructor <;> simp

/-- A receipt: a committed row has a result and nobody's attempt. -/
def Sealed (stored : Option (Row V)) : Prop :=
  ∀ row, stored = some row → row.state = .committed →
    row.attemptOwner = none ∧ row.resultJson.isSome

theorem sealed_updateWhere
    {guard : Row V → Bool} {f : Row V → Row V} {stored : Option (Row V)}
    (h : Sealed stored)
    (hf : ∀ row, guard row → (f row).state = .committed →
      (f row).attemptOwner = none ∧ (f row).resultJson.isSome) :
    Sealed (updateWhere guard f stored) := by
  cases stored with
  | none =>
      exact h
  | some old =>
      intro row hrow hstate
      rw [updateWhere_some] at hrow
      split at hrow
      · rename_i hguard
        cases hrow
        exact hf old hguard hstate
      · cases hrow
        exact h old rfl hstate

/-- Every statement leaves committed rows sealed. -/
theorem effect_sealed (s : Stmt V) {stored : Option (Row V)}
    (h : Sealed stored) : Sealed (s.effect stored) := by
  cases s with
  | intent args =>
      rcases effect_intent_cases args stored with heq | heq
      · rwa [heq]
      · obtain ⟨digest, safe, bound, at_, hbind⟩ :=
          args.bindPolicy_spec (stored.getD args.fresh)
        rw [heq, hbind]
        intro row hrow hstate
        cases stored with
        | none =>
            cases hrow
            simp [Intent.fresh] at hstate
        | some old =>
            cases hrow
            exact h old rfl hstate
  | markInDoubt detail owner now =>
      cases owner <;> exact sealed_updateWhere h (by simp)
  | markObservation outcome now =>
      refine sealed_updateWhere h (fun row _ hstate => ?_)
      dsimp only at hstate
      split at hstate <;> cases hstate
  | scheduleRetry at_ now =>
      cases stored with
      | none => exact h
      | some old =>
          intro row hrow hstate
          cases hrow
          exact h old rfl hstate
  | expire incumbent now => exact sealed_updateWhere h (by simp)
  | exhaust now => exact sealed_updateWhere h (by simp)
  | claim attempt owner leaseUntil now => exact sealed_updateWhere h (by simp)
  | commit result owner now => exact sealed_updateWhere h (by simp)
  | _ => exact h

/-- What a committed receipt consists of is the same in both rows. -/
structure KeepsReceipt (row row' : Row V) : Prop
    extends KeepsIdentity row row' where
  state : row'.state = .committed
  resultJson : row'.resultJson = row.resultJson

theorem KeepsReceipt.trans {a b c : Row V}
    (hab : KeepsReceipt a b) (hbc : KeepsReceipt b c) :
    KeepsReceipt a c where
  toKeepsIdentity := hab.toKeepsIdentity.trans hbc.toKeepsIdentity
  state := hbc.state
  resultJson := hbc.resultJson.trans hab.resultJson

/-- On a committed row only `exhaust` touches the receipt. -/
theorem effect_keepsReceipt
    (s : Stmt V) {row : Row V}
    (hsealed : Sealed (some row))
    (hcommitted : row.state = .committed)
    (hs : ∀ now, s ≠ .exhaust now) :
    ∃ row', s.effect (some row) = some row' ∧ KeepsReceipt row row' := by
  obtain ⟨howner, -⟩ := hsealed row rfl hcommitted
  have hself : KeepsReceipt row row :=
    ⟨.refl row, hcommitted, rfl⟩
  cases s with
  | intent args =>
      rcases effect_intent_cases args (some row) with heq | heq
      · exact ⟨row, heq, hself⟩
      · obtain ⟨digest, safe, bound, at_, hbind⟩ := args.bindPolicy_spec row
        refine ⟨args.bindPolicy row, heq,
          args.bindPolicy_keepsIdentity row, ?_, ?_⟩
        · rw [hbind]
          exact hcommitted
        · rw [hbind]
  | exhaust now =>
      exact absurd rfl (hs now)
  | markInDoubt detail owner now =>
      refine ⟨row, ?_, hself⟩
      cases owner <;> simp [Stmt.effect, ownedGuard, hcommitted]
  | scheduleRetry at_ now =>
      exact ⟨_, rfl, ⟨rfl, rfl, rfl, fun _ h => h, fun _ h => h, fun _ h => h⟩,
        hcommitted, rfl⟩
  | expire incumbent now =>
      exact ⟨row, by simp [Stmt.effect, howner], hself⟩
  | claim attempt owner leaseUntil now =>
      exact ⟨row, by simp [Stmt.effect, claimGuard, hcommitted], hself⟩
  | markObservation outcome now =>
      exact ⟨row, by simp [Stmt.effect, ownedGuard, hcommitted], hself⟩
  | commit result owner now =>
      exact ⟨row, by simp [Stmt.effect, ownedGuard, hcommitted], hself⟩
  | _ => exact ⟨row, rfl, hself⟩

/-- The owner another process removed, or nothing. -/
theorem displaced_cases (p : Nat) (before after : Option Owner) :
    (displaced p before after = [] ∧
        ∀ q, before = some q → q = p ∨ after = some q) ∨
      ∃ q, q ≠ p ∧ before = some q ∧ after ≠ some q ∧
        displaced p before after = [.lostLease q] := by
  cases before with
  | none =>
      exact Or.inl ⟨rfl, by simp⟩
  | some q =>
      by_cases h : q ≠ p ∧ after ≠ some q
      · exact Or.inr ⟨q, h.1, rfl, h.2, by simp [displaced, h]⟩
      · refine Or.inl ⟨by simp [displaced, h], ?_⟩
        rintro _ ⟨⟩
        tauto

/-- Everything a statement can add to the log, and when. -/
theorem events_cases
    (p : Nat) (s : Stmt V) (input : Input V) (stored : Option (Row V)) :
    (∃ attempt owner leaseUntil now,
        s = .claim attempt owner leaseUntil now ∧ s.takes stored ∧
        s.events p input stored = [.claimed p attempt]) ∨
      (s = .fnStart ∧ s.events p input stored = [.invoked p]) ∨
      (s = .fnEnd ∧
        (s.events p input stored = [.returned p] ∨
          s.events p input stored = [.raised p])) ∨
      (s = .reconcile ∧
        s.events p input stored =
          [.reconciled p input.observed.status]) ∨
      (s.takes stored = false ∧
        s ≠ .fnStart ∧ s ≠ .fnEnd ∧ s ≠ .reconcile ∧
        s.events p input stored =
          displaced p (ownerOf stored) (ownerOf (s.effect stored))) := by
  cases s with
  | claim attempt owner leaseUntil now =>
      cases h : (Stmt.claim attempt owner leaseUntil now).takes stored with
      | true =>
          refine Or.inl ⟨attempt, owner, leaseUntil, now, rfl, rfl, ?_⟩
          exact if_pos h
      | false =>
          refine Or.inr (Or.inr (Or.inr (Or.inr
            ⟨rfl, by simp, by simp, by simp, ?_⟩)))
          have heffect :
              (Stmt.claim attempt owner leaseUntil now).effect stored =
                stored := by
            cases stored with
            | none => rfl
            | some row =>
                have hguard : claimGuard row = false := by
                  simpa [Stmt.takes] using h
                simp [Stmt.effect, hguard]
          have hnone : displaced p (ownerOf stored) (ownerOf stored) = [] := by
            cases ownerOf stored <;> simp [displaced]
          rw [heffect, hnone]
          exact if_neg (by simpa [Stmt.takes] using h)
  | fnStart =>
      exact Or.inr (Or.inl ⟨rfl, rfl⟩)
  | fnEnd =>
      refine Or.inr (Or.inr (Or.inl ⟨rfl, ?_⟩))
      cases h : input.fn <;> simp [Stmt.events, h]
  | reconcile =>
      exact Or.inr (Or.inr (Or.inr (Or.inl ⟨rfl, rfl⟩)))
  | _ =>
      exact Or.inr (Or.inr (Or.inr (Or.inr
        ⟨rfl, by simp, by simp, by simp, rfl⟩)))

/-- The statement that an entry of the log comes from. -/
theorem stmt_of_event
    {p : Nat} {s : Stmt V} {input : Input V} {stored : Option (Row V)}
    {e : Event} (h : s.events p input stored = [e]) :
    (∀ q attempt, e = .claimed q attempt → s.takes stored) ∧
      (∀ q, e = .invoked q → s.invokes) ∧
      (∀ q status, e = .reconciled q status → s.observes) := by
  rcases events_cases p s input stored with
    ⟨a, o, u, n, rfl, htakes, hev⟩ | ⟨rfl, hev⟩ | ⟨rfl, hev | hev⟩ |
      ⟨rfl, hev⟩ | ⟨-, -, -, -, hev⟩
  · obtain rfl : .claimed p a = e := by simpa [hev] using h
    simpa using htakes
  · obtain rfl : .invoked p = e := by simpa [hev] using h
    simp [Stmt.invokes]
  · obtain rfl : .returned p = e := by simpa [hev] using h
    simp
  · obtain rfl : .raised p = e := by simpa [hev] using h
    simp
  · obtain rfl : .reconciled p input.observed.status = e := by
      simpa [hev] using h
    simp [Stmt.observes]
  · rcases displaced_cases p (ownerOf stored) (ownerOf (s.effect stored)) with
      ⟨hnil, -⟩ | ⟨q, -, -, -, hlost⟩
    · simp [hev, hnil] at h
    · obtain rfl : .lostLease q = e := by simpa [hev, hlost] using h
      simp

end Journal
end SwFactory
