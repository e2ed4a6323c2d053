import SwFactory.Journal.Effects

/-!
# The operation journal: the attempt protocol

What a single process does around its attempt, whatever the others do: it
takes at most one attempt, under its own token; it enters the provider
callback only in an `execute` call and behind such a claim, once, and leaves
it before it writes anything.  An `execute` call that has observed the outside
world claims only if its last observation was `definitely_absent`.  Where every
row is bound to a retry budget `m`, an `execute` call enters the callback only
with an attempt number of at most `m`.

`Call.obeys` says that every public method keeps to this protocol.  It is the
only place where the methods are taken apart.
-/

namespace SwFactory
namespace Journal

open Text Machine

variable {V : Type}

/-- Where a process stands with its attempt. -/
inductive Phase
  | idle
  | claimed (attempt : Nat)
  | inside (attempt : Nat)
  | over
deriving DecidableEq, Repr

/--
The local state of a process: its number, whether it makes an `execute` call,
its last observation, and its phase.
-/
structure Local where
  pid : Nat
  executes : Bool
  seen : Option OutcomeStatus
  phase : Phase

/-- No attempt is in progress. -/
def Local.Settled (l : Local) : Prop :=
  l.phase = .idle ∨ l.phase = .over

/-- The process may take the attempt, as far as it has observed. -/
structure Local.MayClaim (l : Local) : Prop where
  idle : l.phase = .idle
  absent : l.executes = true → l.seen = none ∨ l.seen = some .definitelyAbsent

/-- The statements that a process may perform. -/
def attemptAllow (bound : Option Nat) (l : Local) : Stmt V → Prop
  | .claim _ owner _ _ => l.MayClaim ∧ owner = l.pid
  | .fnStart =>
      l.executes = true ∧
        ∃ n, l.phase = .claimed n ∧ ∀ m, bound = some m → n ≤ m
  | .fnEnd => ∃ n, l.phase = .inside n
  | _ => l.Settled

/-- The answers it can get while every row is bound to `bound`. -/
def attemptAnswers (bound : Option Nat) (l : Local) :
    (s : Stmt V) → s.Ans → Prop
  | .uuid, (owner : Owner) => owner = l.pid
  | .select, (found : Option (Row V)) =>
      ∀ row, found = some row →
        ∀ m, bound = some m → row.maxAttempts = some m
  | .intent args, (bound_ : Except OperationError Unit) =>
      bound_ = .ok () →
        ∀ m, bound = some m →
          args.maxAttempts = none ∨ args.maxAttempts = some m
  | _, _ => True

/-- How an answer moves the process on. -/
def attemptNext (l : Local) : (s : Stmt V) → s.Ans → Local
  | .claim attempt _ _ _, (rowcount : Nat) =>
      if rowcount = 1 then { l with phase := .claimed attempt } else l
  | .fnStart, _ =>
      match l.phase with
      | .claimed n => { l with phase := .inside n }
      | _ => l
  | .fnEnd, _ => { l with phase := .over }
  | .reconcile, (outcome : MutationOutcome V) =>
      { l with seen := some outcome.status }
  | _, _ => l

/-- The attempt protocol; `bound` is the retry bound of the key, if known. -/
def attemptProtocol (V : Type) (bound : Option Nat) :
    Protocol (Stmt V) Stmt.Ans Local where
  allow l s := attemptAllow bound l s
  answers l s a := attemptAnswers bound l s a
  next l s a := attemptNext l s a

section Methods

variable {bound : Option Nat} {l : Local}

/-- The local state is what it was. -/
def Unmoved {α : Type} (l : Local) :
    Local → Except OperationError α → Prop :=
  fun l' _ => l = l'

/-- The row a method works with carries the bound of the key. -/
def Bounded (bound : Option Nat) (row : Row V) : Prop :=
  ∀ m, bound = some m → row.maxAttempts = some m

/-- One statement and what follows it. -/
theorem sql_obeys {β : Type}
    {Q : Local → Except OperationError β → Prop}
    {s : Stmt V} {f : s.Ans → Method V β}
    (hallow : attemptAllow bound l s)
    (hnext : ∀ a, attemptAnswers bound l s a →
      Obeys (attemptProtocol V bound) Q (f a) (attemptNext l s a)) :
    Obeys (attemptProtocol V bound) Q (sql s >>= f) l :=
  ⟨hallow, hnext⟩

theorem ofExcept_obeys {α : Type} (check : Except OperationError α) :
    Obeys (attemptProtocol V bound) (Unmoved l) (Prog.ofExcept check) l := by
  cases check <;> rfl

theorem get_obeys (hl : l.Settled) (key : String) :
    Obeys (attemptProtocol V bound)
      (fun l' r => l = l' ∧ ∀ row, r = .ok row → Bounded bound row)
      (get key) l := by
  refine ⟨hl, fun found hfound => ?_⟩
  cases found with
  | none => exact ⟨rfl, by simp⟩
  | some row =>
      refine ⟨rfl, ?_⟩
      rintro _ ⟨⟩
      exact hfound row rfl

/-- Read the row, check whose it is, and go on. -/
theorem guarded_obeys {β : Type}
    {Q : Local → Except OperationError β → Prop}
    (hl : l.Settled) (ref : OperationRef)
    (digest : Option String) {f : Row V → Method V β}
    (hok : ∀ row, Bounded bound row →
      Obeys (attemptProtocol V bound) Q (f row) l)
    (herr : ∀ e, Q l (.error e)) :
    Obeys (attemptProtocol V bound) Q
      (do
        let row ← get ref.key
        Prog.ofExcept (assertIdentity ref row digest)
        f row) l := by
  refine (get_obeys hl ref.key).bind ?_ ?_
  · rintro _ row ⟨rfl, hrow⟩
    refine (ofExcept_obeys _).bind ?_ ?_
    · rintro _ _ rfl
      exact hok row (hrow row rfl)
    · rintro _ e rfl
      exact herr e
  · rintro _ e ⟨rfl, -⟩
    exact herr e

theorem markInDoubt_obeys (hl : l.Settled)
    (ref : OperationRef) (error : String) (owner : Option Owner) :
    Obeys (attemptProtocol V bound) (Unmoved l)
      (markInDoubt ref error owner) l := by
  refine guarded_obeys hl ref none (fun row _ => ?_) (fun _ => rfl)
  exact ⟨hl, fun now _ => ⟨hl, fun _ _ => rfl⟩⟩

theorem markObservation_obeys (hl : l.Settled)
    (ref : OperationRef) (outcome : MutationOutcome V) :
    Obeys (attemptProtocol V bound) (Unmoved l)
      (markObservation ref outcome) l := by
  refine guarded_obeys hl ref none (fun row _ => ?_) (fun _ => rfl)
  exact ⟨hl, fun now _ => ⟨hl, fun _ _ => rfl⟩⟩

theorem scheduleRetry_obeys (hl : l.Settled)
    (ref : OperationRef) (attempt : Nat) (budget : Option RetryBudget) :
    Obeys (attemptProtocol V bound) (Unmoved l)
      (scheduleRetry ref attempt budget) l := by
  refine ⟨hl, fun started _ => ⟨hl, fun wait _ => ?_⟩⟩
  refine guarded_obeys hl ref none (fun row _ => ?_) (fun _ => rfl)
  exact ⟨hl, fun now _ => ⟨hl, fun _ _ => rfl⟩⟩

theorem begin_obeys (hl : l.Settled)
    (ref : OperationRef) (digest : Option String)
    (safe : Option Bool) (max : Option Nat) :
    Obeys (attemptProtocol V bound)
      (fun l' r => l = l' ∧ ∀ st, r = .ok st →
        ∀ m, bound = some m → max = none ∨ max = some m)
      (begin ref digest safe max) l := by
  refine (ofExcept_obeys _).bind ?_ (by rintro _ e rfl; simp)
  rintro _ _ rfl
  refine (ofExcept_obeys _).bind ?_ (by rintro _ e rfl; simp)
  rintro _ _ rfl
  split
  · exact ⟨rfl, by simp⟩
  · refine ⟨hl, fun now _ => ⟨hl, fun answer hanswer => ?_⟩⟩
    refine Obeys.bind (Q := fun l' r => l = l' ∧ r = answer) ?_ ?_ ?_
    · cases answer <;> exact ⟨rfl, rfl⟩
    · rintro _ _ ⟨rfl, hok⟩
      refine (get_obeys hl ref.key).bind ?_ (by rintro _ e ⟨rfl, -⟩; simp)
      rintro _ row ⟨rfl, -⟩
      exact ⟨rfl, fun _ _ => hanswer hok.symm⟩
    · rintro _ e ⟨rfl, -⟩
      exact ⟨rfl, by simp⟩

/-- A claim is made under the token of the process and inside the budget. -/
theorem startAttempt_obeys (hl : l.MayClaim)
    (ref : OperationRef) (budget : Option RetryBudget) (lease : Time) :
    Obeys (attemptProtocol V bound)
      (fun l' r =>
        (∀ e, r = .error e → l = l') ∧
          ∀ a o, r = .ok (a, o) →
            { l with phase := .claimed a } = l' ∧
              a ≤ (budget.getD (budgetFor ref.kind)).maxAttempts)
      (startAttempt ref budget lease) l := by
  have hsettled : l.Settled := Or.inl hl.idle
  refine sql_obeys hsettled ?_
  rintro _ rfl
  refine sql_obeys hsettled (fun (now : Time) _ => ?_)
  refine guarded_obeys hsettled ref none (fun row _ => ?_) ?_
  · split
    · exact ⟨fun _ _ => rfl, by simp⟩
    · split
      · split
        · refine sql_obeys hsettled (fun _ _ => ?_)
          exact ⟨fun _ _ => rfl, by simp⟩
        · exact ⟨fun _ _ => rfl, by simp⟩
      · split
        · refine sql_obeys hsettled (fun _ _ => ?_)
          exact ⟨fun _ _ => rfl, by simp⟩
        · rename_i hbudget
          refine sql_obeys ⟨hl, rfl⟩ (fun (rowcount : Nat) _ => ?_)
          split
          · rename_i hlost
            have hnext : attemptNext l (.claim (V := V) (row.attempts + 1)
                l.pid (now + max 1 lease) now) rowcount = l :=
              if_neg hlost
            exact ⟨fun _ _ => hnext.symm, by simp⟩
          · rename_i hwon
            refine ⟨by simp, ?_⟩
            rintro a o ⟨⟩
            refine ⟨(if_pos (not_not.mp hwon)).symm, ?_⟩
            omega
  · exact fun _ => ⟨fun _ _ => rfl, by simp⟩

variable [DecidableEq V]

theorem commit_obeys (hl : l.Settled)
    (ref : OperationRef) (result : Option V) (owner : Option Owner) :
    Obeys (attemptProtocol V bound) (Unmoved l) (commit ref result owner) l := by
  refine guarded_obeys hl ref none (fun row _ => ?_) (fun _ => rfl)
  split
  · split <;> rfl
  · split
    · rfl
    · refine sql_obeys hl (fun now _ => ?_)
      refine sql_obeys hl (fun (out : Nat × Option (Row V)) _ => ?_)
      split
      · rfl
      · split
        · rfl
        · split <;> rfl

/-- The callback is entered behind the claim and left before any write. -/
theorem runAttempt_obeys
    (ref : OperationRef) (budget : RetryBudget) {a : Nat} (owner : Owner)
    (hexecutes : l.executes = true)
    (hl : l.phase = .claimed a)
    (hbound : ∀ m, bound = some m → a ≤ m) :
    Obeys (attemptProtocol V bound) (fun _ _ => True)
      (runAttempt ref budget a owner) l := by
  have hinside : ∀ u, attemptNext l (.fnStart : Stmt V) u =
      { l with phase := .inside a } := by
    simp [attemptNext, hl]
  refine sql_obeys ⟨hexecutes, a, hl, hbound⟩ (fun _ _ => ?_)
  rw [hinside]
  refine sql_obeys ⟨a, rfl⟩ (fun (ended : FnOutcome V) _ => ?_)
  have hover : ({ l with phase := .over } : Local).Settled := Or.inr rfl
  cases ended with
  | raised error =>
      refine (markInDoubt_obeys hover ref error (some owner)).bind ?_ (by simp)
      rintro _ _ rfl
      refine (scheduleRetry_obeys hover ref a (some budget)).bind ?_ (by simp)
      rintro _ _ rfl
      trivial
  | returned result =>
      refine (commit_obeys hover ref result (some owner)).bind ?_ (by simp)
      rintro _ _ rfl
      trivial

theorem claimAndRun_obeys (hl : l.MayClaim) (hexecutes : l.executes = true)
    (args : ExecuteArgs) (budget : RetryBudget)
    (hbound : ∀ m, bound = some m → budget.maxAttempts ≤ m) :
    Obeys (attemptProtocol V bound) (fun _ _ => True)
      (claimAndRun args budget : Method V (Option V)) l := by
  refine (startAttempt_obeys hl args.ref (some budget) defaultLease).bind ?_
    (by simp)
  rintro _ ⟨a, o⟩ ⟨-, h⟩
  obtain ⟨rfl, ha⟩ := h a o rfl
  exact runAttempt_obeys args.ref budget o hexecutes rfl
    (fun m hm => Nat.le_trans ha (hbound m hm))

theorem observeThenRun_obeys
    (hl : l.phase = .idle) (hexecutes : l.executes = true)
    (hseen : l.seen = none)
    (args : ExecuteArgs) (budget : RetryBudget)
    (hbound : ∀ m, bound = some m → budget.maxAttempts ≤ m)
    (replaySafe : Bool) (row : Row V) (shouldObserve : Bool) :
    Obeys (attemptProtocol V bound) (fun _ _ => True)
      (observeThenRun args budget replaySafe row shouldObserve) l := by
  have hsettled : l.Settled := Or.inl hl
  unfold observeThenRun
  split
  · split
    · trivial
    · refine sql_obeys hsettled (fun (outcome : MutationOutcome V) _ => ?_)
      have hobserved :
          ({ l with seen := some outcome.status } : Local).Settled := hsettled
      refine (markObservation_obeys hobserved args.ref outcome).bind ?_
        (by simp)
      rintro _ _ rfl
      split
      · refine (commit_obeys hobserved args.ref _ none).bind ?_ (by simp)
        rintro _ _ rfl
        trivial
      · split
        · trivial
        · rename_i habsent
          simp only [ne_eq, Bool.or_eq_true, decide_eq_true_eq, not_or,
            not_not] at habsent
          exact claimAndRun_obeys
            (l := { l with seen := some outcome.status })
            ⟨hl, fun _ => Or.inr (congrArg some habsent.1)⟩
            hexecutes args budget hbound
  · exact claimAndRun_obeys ⟨hl, fun _ => Or.inl hseen⟩ hexecutes args budget
      hbound

omit [DecidableEq V] in
/-- What `execute` works with after its first part. -/
theorem openIntent_obeys (hl : l.Settled) (args : ExecuteArgs) :
    Obeys (attemptProtocol V bound)
      (fun l' r => l = l' ∧ ∀ found, r = .ok found →
        ∀ m, bound = some m →
          (effectiveBudget args found.2).maxAttempts ≤ m)
      (openIntent args (args.budget.getD (budgetFor args.ref.kind))) l := by
  have heffective : ∀ (row : Row V) (m : Nat),
      row.maxAttempts = some m →
      (∀ b, args.budget = some b → b.maxAttempts = m) →
      (effectiveBudget args row).maxAttempts ≤ m := by
    intro row m hrow hbudget
    unfold effectiveBudget
    cases hb : args.budget with
    | none => simp [hrow]
    | some b => simp [hbudget b hb]
  refine sql_obeys hl (fun (found : Option (Row V)) _ => ?_)
  cases found with
  | none =>
      refine (begin_obeys hl _ _ _ _).bind ?_ (by rintro _ e ⟨rfl, -⟩; simp)
      rintro _ st ⟨rfl, hst⟩
      refine (get_obeys hl _).bind ?_ (by rintro _ e ⟨rfl, -⟩; simp)
      rintro _ row ⟨rfl, hrow⟩
      refine ⟨rfl, ?_⟩
      rintro _ ⟨⟩ m hm
      refine heffective row m (hrow row rfl m hm) (fun b hb => ?_)
      simpa [hb] using hst st rfl m hm
  | some row =>
      refine (ofExcept_obeys _).bind ?_ (by rintro _ e rfl; simp [attemptNext])
      rintro _ _ rfl
      refine (begin_obeys hl _ _ _ _).bind ?_ (by rintro _ e ⟨rfl, -⟩; simp)
      rintro _ st ⟨rfl, hst⟩
      refine (get_obeys hl _).bind ?_ (by rintro _ e ⟨rfl, -⟩; simp)
      rintro _ row' ⟨rfl, hrow'⟩
      refine ⟨rfl, ?_⟩
      rintro _ ⟨⟩ m hm
      refine heffective row' m (hrow' row' rfl m hm) (fun b hb => ?_)
      simpa [hb] using hst st rfl m hm

theorem execute_obeys
    (hl : l.phase = .idle) (hexecutes : l.executes = true)
    (hseen : l.seen = none) (args : ExecuteArgs) :
    Obeys (attemptProtocol V bound) (fun _ _ => True)
      (execute args : Method V (Option V)) l := by
  have hsettled : l.Settled := Or.inl hl
  refine (openIntent_obeys hsettled args).bind ?_ (by simp)
  rintro _ ⟨existed, row⟩ ⟨rfl, hfound⟩
  have hbound := hfound _ rfl
  dsimp only
  split
  · trivial
  · refine sql_obeys hsettled (fun (now : Time) _ => ?_)
    split
    · exact observeThenRun_obeys hl hexecutes hseen args _ hbound _ _ _
    · split
      · trivial
      · refine (markInDoubt_obeys hsettled _ _ _).bind ?_ (by simp)
        rintro _ _ rfl
        refine (get_obeys hsettled _).bind ?_ (by simp)
        rintro _ row' ⟨rfl, -⟩
        exact observeThenRun_obeys hl hexecutes hseen args _ hbound _ _ _

theorem observe_obeys (hl : l.Settled) (ref : OperationRef) :
    Obeys (attemptProtocol V bound) (fun _ _ => True)
      (observe ref : Method V (MutationOutcome V)) l := by
  refine guarded_obeys hl ref none (fun row _ => ?_) (by simp)
  split
  · trivial
  · refine sql_obeys hl (fun (outcome : MutationOutcome V) _ => ?_)
    have hobserved :
        ({ l with seen := some outcome.status } : Local).Settled := hl
    refine (markObservation_obeys hobserved ref outcome).bind ?_ (by simp)
    rintro _ _ rfl
    split
    · refine (commit_obeys hobserved ref _ none).bind ?_ (by simp)
      rintro _ _ rfl
      trivial
    · trivial

/-- The local state of process `p` before its call. -/
def Call.local_ (call : Call V) (p : Nat) : Local where
  pid := p
  executes := call.isExecute
  seen := none
  phase := .idle

/-- **Every public method keeps to the attempt protocol.** -/
theorem Call.obeys (call : Call V) (p : Nat) :
    Obeys (attemptProtocol V bound) (fun _ _ => True) call.prog
      (call.local_ p) := by
  have hsettled : (call.local_ p).Settled := Or.inl rfl
  cases call with
  | execute args =>
      exact (execute_obeys rfl rfl rfl args).bind (by intros; trivial) (by simp)
  | begin ref digest safe max =>
      exact (begin_obeys hsettled ref digest safe max).bind
        (by intros; trivial) (by simp)
  | startAttempt ref budget lease =>
      exact (startAttempt_obeys ⟨rfl, by simp [Call.local_, Call.isExecute]⟩
        ref budget lease).bind (by intros; trivial) (by simp)
  | markInDoubt ref error owner =>
      exact (markInDoubt_obeys hsettled ref error owner).bind
        (by intros; trivial) (by simp)
  | markObservation ref outcome =>
      exact (markObservation_obeys hsettled ref outcome).bind
        (by intros; trivial) (by simp)
  | scheduleRetry ref attempt budget =>
      exact (scheduleRetry_obeys hsettled ref attempt budget).bind
        (by intros; trivial) (by simp)
  | commit ref result owner =>
      exact (commit_obeys hsettled ref result owner).bind
        (by intros; trivial) (by simp)
  | observe ref =>
      exact (observe_obeys hsettled ref).bind (by intros; trivial) (by simp)

end Methods

section Turns

variable {bound : Option Nat} {l : Local}

/--
One statement of a process that keeps to the protocol: where the process
stands before and after, what it does to the row, and what is logged.
-/
inductive Turn (bound : Option Nat) (p : Nat) :
    Local → Option (Row V) → Local → Option (Row V) → List Event → Prop
  | takes {l : Local} {stored stored' : Option (Row V)} {attempt : Nat}
      (hmay : l.MayClaim)
      (hfree : ownerOf stored = none)
      (howner : ownerOf stored' = some l.pid)
      (hcounter : attemptsOf stored' = attempt) :
      Turn bound p l stored { l with phase := .claimed attempt } stored'
        [.claimed p attempt]
  | enters {l : Local} {stored : Option (Row V)} {attempt : Nat}
      (hexecutes : l.executes = true)
      (hclaimed : l.phase = .claimed attempt)
      (hbound : ∀ m, bound = some m → attempt ≤ m) :
      Turn bound p l stored { l with phase := .inside attempt } stored
        [.invoked p]
  | leaves {l : Local} {stored : Option (Row V)} {attempt : Nat} {e : Event}
      (hinside : l.phase = .inside attempt)
      (hend : e = .returned p ∨ e = .raised p) :
      Turn bound p l stored { l with phase := .over } stored [e]
  | observes {l : Local} {stored : Option (Row V)} {status : OutcomeStatus}
      (hsettled : l.Settled) :
      Turn bound p l stored { l with seen := some status } stored
        [.reconciled p status]
  | writes {l : Local} {stored stored' : Option (Row V)}
      (hsettled : l.Settled)
      (howner : ownerOf stored' = none ∨ ownerOf stored' = ownerOf stored)
      (hcounter : attemptsOf stored' = attemptsOf stored) :
      Turn bound p l stored l stored'
        (displaced p (ownerOf stored) (ownerOf stored'))

/-- Only a claim that takes the attempt and the callback move a process on. -/
theorem attemptNext_of_other
    (p : Nat) (s : Stmt V) (i : Input V) (stored : Option (Row V))
    (htakes : s.takes stored = false)
    (hstart : s ≠ .fnStart) (hend : s ≠ .fnEnd) (hrec : s ≠ .reconcile) :
    attemptNext l s (s.answer p i stored) = l := by
  cases s with
  | claim attempt owner leaseUntil now =>
      have hguard : stored.any claimGuard = false := htakes
      simp [attemptNext, Stmt.answer, rowcountWhere, hguard]
  | fnStart => exact absurd rfl hstart
  | fnEnd => exact absurd rfl hend
  | reconcile => exact absurd rfl hrec
  | _ => rfl

/-- **Turn inversion.**  Everything an obedient process can do next. -/
theorem turn_of_allow
    (p : Nat) (s : Stmt V) (i : Input V) (stored : Option (Row V))
    (hallow : attemptAllow bound l s) :
    Turn bound p l stored (attemptNext l s (s.answer p i stored))
      (s.effect stored) (s.events p i stored) := by
  rcases events_cases p s i stored with
    ⟨attempt, owner, leaseUntil, now, rfl, htakes, hev⟩ | ⟨rfl, hev⟩ |
      ⟨rfl, hev⟩ | ⟨rfl, hev⟩ | ⟨htakes, hstart, hend, hrec, hev⟩
  · obtain ⟨hmay, rfl⟩ := hallow
    obtain ⟨hfree, howner, hcounter⟩ := effect_claim_takes htakes
    have hguard : stored.any claimGuard = true := htakes
    have hnext : attemptNext l (.claim attempt l.pid leaseUntil now)
        ((Stmt.claim attempt l.pid leaseUntil now).answer p i stored) =
          { l with phase := .claimed attempt } := by
      simp [attemptNext, Stmt.answer, rowcountWhere, hguard]
    rw [hev, hnext]
    exact .takes hmay hfree howner hcounter
  · obtain ⟨hexecutes, attempt, hclaimed, hbound⟩ := hallow
    have hnext : attemptNext l (.fnStart : Stmt V)
        ((.fnStart : Stmt V).answer p i stored) =
          { l with phase := .inside attempt } := by
      simp [attemptNext, hclaimed]
    rw [hev, hnext]
    exact .enters hexecutes hclaimed hbound
  · obtain ⟨attempt, hinside⟩ := hallow
    rcases hev with hev | hev <;> rw [hev] <;> exact .leaves hinside (by simp)
  · rw [hev]
    exact .observes hallow
  · have hsettled : l.Settled := by
      cases s with
      | claim attempt owner leaseUntil now => exact Or.inl hallow.1.idle
      | fnStart => exact absurd rfl hstart
      | fnEnd => exact absurd rfl hend
      | _ => exact hallow
    rw [hev, attemptNext_of_other p s i stored htakes hstart hend hrec]
    exact .writes hsettled (ownerOf_effect s stored htakes)
      (attemptsOf_effect s stored htakes)

end Turns

end Journal
end SwFactory
