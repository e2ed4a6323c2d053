import SwFactory.Journal.Effects

/-!
# The operation journal: committed receipts

A committed row is the receipt of its operation.  Eight methods write rows,
each under its own `WHERE` clause and after a `SELECT` that may be stale.  All
of their statements leave a committed row alone except one: `start_attempt` on
a spent budget sets `state='exhausted'` without looking at the state, and a
commit may have landed since it read the row.

`receipts_immutable_iff` says that this is the only way to lose a receipt: the
receipts of a run are immutable, and every later `execute` answers from them,
exactly if no such statement is performed on a committed row.
-/

namespace SwFactory
namespace Journal

open Text Machine

variable {V : Type}

section Refusals

theorem validateRef_error {ref : OperationRef} {e : OperationError}
    (h : validateRef ref = .error e) : ∃ why, e = .identityConflict why := by
  unfold validateRef at h
  split at h
  · exact ⟨_, (Except.error.inj h).symm⟩
  · split at h
    · exact ⟨_, (Except.error.inj h).symm⟩
    · cases h

theorem validateDigest_error {digest : Option String} {e : OperationError}
    (h : validateDigest digest = .error e) :
    ∃ why, e = .identityConflict why := by
  unfold validateDigest at h
  split at h
  · cases h
  · split at h
    · exact ⟨_, (Except.error.inj h).symm⟩
    · split at h
      · exact ⟨_, (Except.error.inj h).symm⟩
      · cases h

/-- A row is refused to a caller only as an identity conflict. -/
theorem assertIdentity_error
    {ref : OperationRef} {row : Row V} {digest : Option String}
    {e : OperationError}
    (h : assertIdentity ref row digest = .error e) :
    ∃ why, e = .identityConflict why := by
  unfold assertIdentity at h
  simp only [bind, Except.bind] at h
  split at h
  · rename_i hvalid
    cases h
    exact validateRef_error hvalid
  · split at h
    · rename_i hvalid
      cases h
      exact validateDigest_error hvalid
    · split at h
      · exact ⟨_, (Except.error.inj h).symm⟩
      · split at h
        · exact ⟨_, (Except.error.inj h).symm⟩
        · cases h

theorem Intent.transact_error
    {args : Intent} {stored : Option (Row V)} {e : OperationError}
    (h : args.transact stored = .error e) :
    ∃ why, e = .identityConflict why := by
  unfold Intent.transact at h
  simp only [bind, Except.bind] at h
  split at h
  · rename_i hassert
    cases h
    exact assertIdentity_error hassert
  · split at h
    · exact ⟨_, (Except.error.inj h).symm⟩
    · split at h
      · exact ⟨_, (Except.error.inj h).symm⟩
      · cases h

end Refusals

/-- The request of an `execute` call is the one the row is bound to. -/
structure Agrees (args : ExecuteArgs) (row : Row V) : Prop where
  ref : validateRef args.ref = .ok ()
  digest : validateDigest args.intentDigest = .ok ()
  cellId : row.cellId = args.ref.cellId
  epoch : row.epoch = args.ref.epoch
  kind : row.kind = args.ref.kind
  intentDigest :
    args.intentDigest = none ∨ row.intentDigest = args.intentDigest
  replaySafe : args.replaySafe = none ∨ row.replaySafe = args.replaySafe
  maxAttempts :
    args.budget = none ∨
      ∃ b, args.budget = some b ∧ 1 ≤ b.maxAttempts ∧
        row.maxAttempts = some b.maxAttempts

theorem Agrees.of_keepsIdentity
    {args : ExecuteArgs} {row row' : Row V}
    (h : Agrees args row) (hkeeps : KeepsIdentity row row') :
    Agrees args row' where
  ref := h.ref
  digest := h.digest
  cellId := hkeeps.cellId.trans h.cellId
  epoch := hkeeps.epoch.trans h.epoch
  kind := hkeeps.kind.trans h.kind
  intentDigest := by
    rcases h.intentDigest with hnone | heq
    · exact Or.inl hnone
    · cases hd : args.intentDigest with
      | none => exact Or.inl rfl
      | some d => exact Or.inr (hkeeps.intentDigest d (heq.trans hd))
  replaySafe := by
    rcases h.replaySafe with hnone | heq
    · exact Or.inl hnone
    · cases hb : args.replaySafe with
      | none => exact Or.inl rfl
      | some b => exact Or.inr (hkeeps.replaySafe b (heq.trans hb))
  maxAttempts := by
    rcases h.maxAttempts with hnone | ⟨b, hb, hpos, heq⟩
    · exact Or.inl hnone
    · exact Or.inr ⟨b, hb, hpos, hkeeps.maxAttempts _ heq⟩

theorem diverges_eq_false
    {β : Type} [DecidableEq β] {stored wanted : Option β}
    (h : wanted = none ∨ stored = wanted) :
    diverges stored wanted = false := by
  rcases h with rfl | rfl <;> simp [diverges]

theorem Agrees.assertIdentity
    {args : ExecuteArgs} {row : Row V} (h : Agrees args row) :
    assertIdentity args.ref row args.intentDigest = .ok () := by
  unfold Journal.assertIdentity
  rw [h.ref, h.digest]
  simp [bind, Except.bind, h.cellId, h.epoch, h.kind,
    diverges_eq_false h.intentDigest]

/-- `begin`, as `execute` calls it on a row it found, is not refused. -/
theorem Agrees.transact
    {args : ExecuteArgs} {row : Row V} (h : Agrees args row) (now : Time) :
    ∃ row',
      (Intent.mk args.ref args.intentDigest args.replaySafe
        (args.budget.map RetryBudget.maxAttempts) now).transact (some row) =
        .ok row' := by
  have hbound :
      diverges row.maxAttempts (args.budget.map RetryBudget.maxAttempts) =
        false := by
    apply diverges_eq_false
    rcases h.maxAttempts with hnone | ⟨b, hb, -, heq⟩
    · exact Or.inl (by simp [hnone])
    · exact Or.inr (by simp [hb, heq])
  simp [Intent.transact, bind, Except.bind, h.assertIdentity,
    diverges_eq_false h.replaySafe, hbound]

section Replay

/-- What a process can be told while the row is the receipt `receipt`. -/
def replayAnswers (receipt : Row V) : (s : Stmt V) → s.Ans → Prop
  | .select, (found : Option (Row V)) =>
      ∃ row, found = some row ∧ KeepsReceipt receipt row
  | .intent args, (bound : Except OperationError Unit) =>
      ∃ row, KeepsReceipt receipt row ∧
        bound = (args.transact (some row)).map (fun _ => ())
  | _, _ => True

/--
The protocol of an `execute` call that finds a receipt: it reads the clock and
the row and binds policy, and the local state bounds the statements left.
-/
def replayProtocol (receipt : Row V) :
    Protocol (Stmt V) Stmt.Ans Nat where
  allow n s :=
    0 < n ∧ (s = .time ∨ s = .select ∨ ∃ args, s = .intent args)
  answers _ s a := replayAnswers receipt s a
  next n _ _ := n - 1

/-- The refusal of a request that is not the one the receipt is bound to. -/
def Refusal (args : ExecuteArgs) (receipt : Row V) (e : OperationError) :
    Prop :=
  ¬ Agrees args receipt ∧ ∃ why, e = .identityConflict why

/-- It returns the stored result, or is refused as a different request. -/
def replayPost (args : ExecuteArgs) (receipt : Row V) :
    Nat → Except OperationError (Returned V) → Prop
  | _, .ok v => v = .value receipt.result
  | _, .error e => Refusal args receipt e

/-- Reading the row takes one statement and gives the receipt. -/
theorem get_replays (receipt : Row V) (key : String) (n : Nat) :
    Obeys (replayProtocol receipt)
      (fun k r => k = n ∧ ∃ row, r = .ok row ∧ KeepsReceipt receipt row)
      (get key) (n + 1) := by
  refine ⟨⟨Nat.succ_pos n, by simp⟩, ?_⟩
  rintro _ ⟨row, rfl, hrow⟩
  exact ⟨rfl, row, rfl, hrow⟩

/-- A check that fails only on requests that do not agree. -/
theorem ofExcept_replays
    (args : ExecuteArgs) {receipt : Row V} {n : Nat}
    {check : Except OperationError Unit}
    (hok : Agrees args receipt → check = .ok ())
    (herr : ∀ e, check = .error e → ∃ why, e = .identityConflict why) :
    Obeys (replayProtocol receipt)
      (fun k r => k = n ∧ ∀ e, r = .error e → Refusal args receipt e)
      (Prog.ofExcept check) n := by
  cases hcheck : check with
  | ok u =>
      exact ⟨rfl, by simp⟩
  | error e =>
      refine ⟨rfl, ?_⟩
      rintro _ ⟨⟩
      refine ⟨fun hagrees => ?_, herr e hcheck⟩
      rw [hok hagrees] at hcheck
      cases hcheck

/-- `begin` on the receipt takes three statements. -/
theorem begin_replays (args : ExecuteArgs) (receipt : Row V) (n : Nat) :
    Obeys (replayProtocol receipt)
      (fun k r =>
        (∀ e, r = .error e → Refusal args receipt e) ∧
          (∀ st, r = .ok st → k = n))
      (begin args.ref args.intentDigest args.replaySafe
        (args.budget.map RetryBudget.maxAttempts))
      (n + 3) := by
  refine (ofExcept_replays args (fun h => h.ref)
    (fun _ => validateRef_error)).bind ?_ ?_
  · rintro _ _ ⟨rfl, -⟩
    refine (ofExcept_replays args (fun h => h.digest)
      (fun _ => validateDigest_error)).bind ?_ ?_
    · rintro _ _ ⟨rfl, -⟩
      split
      · rename_i hempty
        refine ⟨?_, by simp⟩
        rintro _ ⟨⟩
        refine ⟨fun hagrees => ?_, _, rfl⟩
        rcases hagrees.maxAttempts with hnone | ⟨b, hb, hpos, -⟩
        · simp [hnone] at hempty
        · simp [hb] at hempty
          omega
      · refine ⟨⟨by omega, by simp⟩, fun now _ => ?_⟩
        refine ⟨⟨by simp [replayProtocol], by simp⟩, ?_⟩
        rintro _ ⟨row, hrow, rfl⟩
        refine (ofExcept_replays args (fun hagrees => ?_) ?_).bind ?_ ?_
        · obtain ⟨row', hok⟩ :=
            (hagrees.of_keepsIdentity hrow.toKeepsIdentity).transact now
          rw [hok]
          rfl
        · intro e he
          cases ht : Intent.transact _ (some row) with
          | ok row' =>
              rw [ht] at he
              cases he
          | error e' =>
              rw [ht] at he
              cases he
              exact Intent.transact_error ht
        · rintro _ _ ⟨rfl, -⟩
          refine (get_replays receipt _ n).bind ?_ ?_
          · rintro _ row' ⟨rfl, -⟩
            exact ⟨by simp, by simp⟩
          · rintro _ e ⟨-, row', h, -⟩
            cases h
        · rintro _ e ⟨-, he⟩
          exact ⟨by simpa using he e rfl, by simp⟩
    · rintro _ e ⟨-, he⟩
      exact ⟨by simpa using he e rfl, by simp⟩
  · rintro _ e ⟨-, he⟩
    exact ⟨by simpa using he e rfl, by simp⟩

/-- The first part of `execute` finds the receipt, or refuses the request. -/
theorem openIntent_replays
    (args : ExecuteArgs) (receipt : Row V) (budget : RetryBudget) :
    Obeys (replayProtocol receipt)
      (fun _ r =>
        (∀ e, r = .error e → Refusal args receipt e) ∧
          ∀ v, r = .ok v → KeepsReceipt receipt v.2)
      (openIntent args budget) 5 := by
  refine ⟨⟨by decide, by simp⟩, ?_⟩
  rintro _ ⟨row, rfl, hrow⟩
  refine (ofExcept_replays args
    (fun h => (h.of_keepsIdentity hrow.toKeepsIdentity).assertIdentity)
    (fun _ => assertIdentity_error)).bind ?_ ?_
  · rintro _ _ ⟨rfl, -⟩
    refine (begin_replays args receipt 1).bind ?_ ?_
    · rintro _ st ⟨-, hst⟩
      obtain rfl := hst st rfl
      refine (get_replays receipt _ 0).bind ?_ ?_
      · rintro _ row' ⟨-, row'', h, hrow''⟩
        cases h
        exact ⟨by simp, by simpa using hrow''⟩
      · rintro _ e ⟨-, row', h, -⟩
        cases h
    · rintro _ e ⟨he, -⟩
      exact ⟨by simpa using he e rfl, by simp⟩
  · rintro _ e ⟨-, he⟩
    exact ⟨by simpa using he e rfl, by simp⟩

variable [DecidableEq V]

/-- An `execute` call that finds a receipt ends within five statements. -/
theorem execute_replays (args : ExecuteArgs) (receipt : Row V) :
    Obeys (replayProtocol receipt) (replayPost args receipt)
      (Call.execute args).prog 5 := by
  refine Obeys.bind (Q := fun _ r =>
    (∀ e, r = .error e → Refusal args receipt e) ∧
      ∀ v, r = .ok v → v = receipt.result) ?_ ?_ ?_
  · refine (openIntent_replays args receipt _).bind ?_ ?_
    · rintro _ ⟨existed, row⟩ ⟨-, h⟩
      have hrow : KeepsReceipt receipt row := h _ rfl
      simp only [hrow.state, if_true]
      refine ⟨by simp, ?_⟩
      rintro _ ⟨⟩
      simp [Row.result, hrow.resultJson]
    · rintro _ e ⟨he, -⟩
      exact ⟨by simpa using he e rfl, by simp⟩
  · rintro _ v ⟨-, hv⟩
    simp [Obeys, replayPost, hv v rfl]
  · rintro _ e ⟨he, -⟩
    exact he e rfl

end Replay

section CallOuts

/-- Process `p` has called neither the provider nor an observer. -/
def NoCallOut (p : Nat) (log : List Event) : Prop :=
  ∀ e ∈ log, e ≠ .invoked p ∧ ∀ st, e ≠ .reconciled p st

/-- Other statements and other processes add no call of `p`. -/
theorem NoCallOut.exec
    {p q : Nat} {s : Stmt V} {input : Input V} {stored : Option (Row V)}
    {log : List Event}
    (h : NoCallOut p log)
    (hs : q = p → s ≠ .fnStart ∧ s ≠ .reconcile) :
    NoCallOut p (s.events q input stored ++ log) := by
  intro e he
  rcases List.mem_append.mp he with hnew | hold
  · rcases events_cases q s input stored with
      ⟨a, o, u, n, -, -, hev⟩ | ⟨rfl, hev⟩ | ⟨rfl, hev | hev⟩ | ⟨rfl, hev⟩ |
        ⟨-, -, -, -, hev⟩
    · simp_all
    · have hqp : q ≠ p := fun h => (hs h).1 rfl
      simp_all
    · simp_all
    · simp_all
    · have hqp : q ≠ p := fun h => (hs h).2 rfl
      simp_all
    · rcases displaced_cases q (ownerOf stored) (ownerOf (s.effect stored)) with
        ⟨hnil, -⟩ | ⟨r, -, -, -, hlost⟩ <;> simp_all
  · exact h e hold

theorem NoCallOut.crash {p q : Nat} {log : List Event}
    (h : NoCallOut p log) :
    NoCallOut p (.crashed q :: log) := by
  intro e he
  rcases List.mem_cons.mp he with rfl | he
  · simp
  · exact h e he

end CallOuts

section Runs

/-- `exhaust` is performed only where no receipt is. -/
def ExhaustsUncommitted (_p : Nat) (s : Stmt V) (sh : Shared V) : Prop :=
  ∀ now, s = .exhaust now →
    ∀ row, sh.row = some row → row.state ≠ .committed

/-- The receipt is in place. -/
structure HoldsReceipt (receipt : Row V) (c : Configuration V) : Prop where
  sealed_ : Sealed c.shared.row
  kept : ∃ row, c.shared.row = some row ∧ KeepsReceipt receipt row

/-- The receipt survives a move that exhausts no committed row. -/
theorem HoldsReceipt.move
    {receipt : Row V} {c : Configuration V} {m : Move (Input V)}
    (h : HoldsReceipt receipt c)
    (hm : Performs ExhaustsUncommitted c m) :
    HoldsReceipt receipt (step V c m) := by
  obtain ⟨row, hrow, hkept⟩ := h.kept
  have hsealed : Sealed (some row) := hrow ▸ h.sealed_
  rcases step_cases c m with
    ⟨-, heq⟩ | ⟨q, i, s, k, rfl, hq, heq⟩ | ⟨q, s, k, rfl, -, heq⟩
  · rwa [heq]
  · have hexhaust : ∀ now, s ≠ .exhaust now := by
      rintro now rfl
      exact hm q i _ k rfl hq now rfl row hrow hkept.state
    obtain ⟨row', heffect, hkept'⟩ :=
      effect_keepsReceipt s hsealed hkept.state hexhaust
    rw [heq]
    exact ⟨effect_sealed s h.sealed_,
      row', by rw [hrow, heffect], hkept.trans hkept'⟩
  · rw [heq]
    exact ⟨h.sealed_, h.kept⟩

/-- A process that makes no move stays where it is and calls nobody. -/
theorem untouched
    {p : Nat} {c : Configuration V} {ms : List (Move (Input V))}
    (hlog : NoCallOut p c.shared.log)
    (hms : ∀ m ∈ ms, m.pid ≠ p) :
    (runFrom (step V) c ms).procs p = c.procs p ∧
      NoCallOut p (runFrom (step V) c ms).shared.log := by
  induction ms generalizing c with
  | nil =>
      exact ⟨rfl, hlog⟩
  | cons m ms ih =>
      have hm : m.pid ≠ p := hms m (by simp)
      have hlog' : NoCallOut p (step V c m).shared.log := by
        rcases step_cases c m with
          ⟨-, heq⟩ | ⟨q, i, s, k, rfl, -, heq⟩ | ⟨q, s, k, rfl, -, heq⟩
        · rwa [heq]
        · rw [heq]
          exact hlog.exec (fun h => absurd h hm)
        · rw [heq]
          exact hlog.crash
      obtain ⟨hprocs, hlast⟩ :=
        ih hlog' (fun m' hm' => hms m' (List.mem_cons_of_mem m hm'))
      exact ⟨hprocs.trans ((system V).step_procs_of_ne c hm), hlast⟩

/-- The receipt is in place, and process `p` answers from it. -/
structure Following
    (receipt : Row V) (args : ExecuteArgs) (p n : Nat)
    (c : Configuration V) : Prop
    extends HoldsReceipt receipt c where
  noCallOut : NoCallOut p c.shared.log
  obeys :
    ProcObeys (replayProtocol receipt) (replayPost args receipt) n
      (c.procs p)

/-- A process that has ended meets its post-condition at any bound. -/
theorem obeys_of_ended
    {receipt : Row V} {args : ExecuteArgs} {n n' : Nat}
    {proc : Proc (Stmt V) Stmt.Ans OperationError (Returned V)}
    (h : ProcObeys (replayProtocol receipt) (replayPost args receipt) n proc)
    (hended : ∀ s k, proc ≠ .running (.step s k)) :
    ProcObeys (replayProtocol receipt) (replayPost args receipt) n' proc := by
  cases proc with
  | crashed => trivial
  | running prog =>
      cases prog with
      | ret v => exact h
      | raise e => exact h
      | step s k => exact absurd rfl (hended s k)

/-- What statements answer while the receipt is in place. -/
theorem replayAnswers_answer
    {receipt row : Row V} (hkept : KeepsReceipt receipt row)
    (p : Nat) (s : Stmt V) (input : Input V) :
    replayAnswers receipt s (s.answer p input (some row)) := by
  cases s with
  | select => exact ⟨row, rfl, hkept⟩
  | intent args => exact ⟨row, hkept, rfl⟩
  | _ => trivial

/-- One move, whoever makes it. -/
theorem Following.move
    {receipt : Row V} {args : ExecuteArgs} {p n : Nat}
    {c : Configuration V} {m : Move (Input V)}
    (h : Following receipt args p n c)
    (hm : Performs ExhaustsUncommitted c m) :
    Following receipt args p (if m.pid = p then n - 1 else n)
      (step V c m) := by
  refine ⟨h.toHoldsReceipt.move hm, ?_, ?_⟩ <;>
    rcases step_cases c m with
      ⟨hended, heq⟩ | ⟨q, i, s, k, rfl, hq, heq⟩ | ⟨q, s, k, rfl, hq, heq⟩
  · rw [heq]
    exact h.noCallOut
  · rw [heq]
    refine h.noCallOut.exec ?_
    rintro rfl
    have hobeys := h.obeys
    rw [hq] at hobeys
    obtain ⟨⟨-, hs⟩, -⟩ := hobeys
    rcases hs with rfl | rfl | ⟨args', rfl⟩ <;> simp
  · rw [heq]
    exact h.noCallOut.crash
  · rw [heq]
    split
    · rename_i hp
      exact obeys_of_ended h.obeys (hp ▸ hended)
    · exact h.obeys
  · rw [heq]
    by_cases hqp : q = p
    · subst hqp
      obtain ⟨row, hrow, hkept⟩ := h.kept
      have hobeys := h.obeys
      rw [hq] at hobeys
      have hnext := hobeys.2 (s.answer q i c.shared.row)
        (hrow ▸ replayAnswers_answer hkept q s i)
      simpa [Move.pid, ProcObeys, replayProtocol] using hnext
    · simpa [Move.pid, hqp, Ne.symm hqp] using h.obeys
  · rw [heq]
    by_cases hqp : q = p
    · subst hqp
      simp [ProcObeys]
    · simpa [Move.pid, hqp, Ne.symm hqp] using h.obeys

/-- A whole run, with the moves of `p` counted against its bound. -/
theorem Following.moves
    {receipt : Row V} {args : ExecuteArgs} {p n : Nat}
    {c : Configuration V} {ms : List (Move (Input V))}
    (h : Following receipt args p n c)
    (hms : AlongRun (step V) (Performs ExhaustsUncommitted) c ms) :
    Following receipt args p (n - turns p ms) (runFrom (step V) c ms) := by
  induction ms generalizing c n with
  | nil =>
      exact h
  | cons m ms ih =>
      have hrest := ih (h.move hms.1) hms.2
      have hcount : (if m.pid = p then n - 1 else n) - turns p ms =
          n - turns p (m :: ms) := by
        by_cases hp : m.pid = p
        · simp [turns, hp]
          omega
        · simp [turns, hp]
      rwa [hcount] at hrest

/-- What a later `execute` call of process `p` makes of the receipt. -/
structure ReplaysReceipt
    (receipt : Row V) (args : ExecuteArgs) (p taken : Nat)
    (c : Configuration V) : Prop where
  noCallOut : NoCallOut p c.shared.log
  returns : ∀ v, c.procs p = .running (.ret v) → v = .value receipt.result
  refuses : ∀ e, c.procs p = .running (.raise e) → Refusal args receipt e
  /-- It is through after five moves of its own. -/
  ends : 5 ≤ taken → ∀ s k, c.procs p ≠ .running (.step s k)

theorem Following.replaysReceipt
    {receipt : Row V} {args : ExecuteArgs} {p taken : Nat}
    {c : Configuration V}
    (h : Following receipt args p (5 - taken) c) :
    ReplaysReceipt receipt args p taken c where
  noCallOut := h.noCallOut
  returns v hv := by
    have hobeys := h.obeys
    rw [hv] at hobeys
    exact hobeys
  refuses e he := by
    have hobeys := h.obeys
    rw [he] at hobeys
    exact hobeys
  ends htaken s k hs := by
    have hobeys := h.obeys
    rw [hs] at hobeys
    have := hobeys.1.1
    omega

variable [DecidableEq V]

/--
Once a row is committed it keeps its receipt, and every `execute` call that
starts from then on answers from it.
-/
def ReceiptsImmutable
    (calls : Nat → Call V) (ms : List (Move (Input V))) : Prop :=
  ∀ pre mid post receipt, ms = pre ++ mid ++ post →
    (runFrom (step V) (start calls) pre).shared.row = some receipt →
    receipt.state = .committed →
    (∃ row,
      (runFrom (step V) (start calls) (pre ++ mid)).shared.row = some row ∧
        KeepsReceipt receipt row) ∧
    ∀ p args, calls p = .execute args → (∀ m ∈ pre, m.pid ≠ p) →
      ReplaysReceipt receipt args p (turns p mid)
        (runFrom (step V) (start calls) (pre ++ mid))

/-- Committed rows are sealed in every state of the journal. -/
theorem run_sealed (calls : Nat → Call V) (ms : List (Move (Input V))) :
    Sealed (runFrom (step V) (start calls) ms).shared.row := by
  refine Reachable.invariant (P := fun c : Configuration V =>
    Sealed c.shared.row) ?_ ?_ ⟨ms, rfl⟩
  · rintro row ⟨⟩
  · intro c m h
    rcases step_cases c m with
      ⟨-, heq⟩ | ⟨q, i, s, k, rfl, -, heq⟩ | ⟨q, s, k, rfl, -, heq⟩
    · rwa [heq]
    · rw [heq]
      exact effect_sealed s h
    · rw [heq]
      exact h

/-- An `execute` call that starts behind the commit answers from the receipt. -/
theorem later_execute_follows
    {calls : Nat → Call V} {pre mid : List (Move (Input V))}
    {receipt : Row V}
    (hholds : HoldsReceipt receipt (runFrom (step V) (start calls) pre))
    (hmid : AlongRun (step V) (Performs ExhaustsUncommitted)
      (runFrom (step V) (start calls) pre) mid)
    {p : Nat} {args : ExecuteArgs}
    (hcall : calls p = .execute args)
    (hp : ∀ m ∈ pre, m.pid ≠ p) :
    Following receipt args p (5 - turns p mid)
      (runFrom (step V) (start calls) (pre ++ mid)) := by
  have hlog : NoCallOut p (start calls).shared.log :=
    fun e he => absurd he (by simp [start])
  obtain ⟨hprocs, hlog'⟩ := untouched hlog hp
  have hfollow :
      Following receipt args p 5 (runFrom (step V) (start calls) pre) := by
    refine ⟨hholds, hlog', ?_⟩
    rw [hprocs]
    simpa [start, hcall, ProcObeys] using execute_replays args receipt
  rw [runFrom_append]
  exact hfollow.moves hmid

/--
**Committed receipts.**  The receipts of a run are immutable, and every later
`execute` answers from them without calling out, exactly if no `start_attempt`
writes its spent budget over a committed row.
-/
theorem receipts_immutable_iff
    (calls : Nat → Call V) (ms : List (Move (Input V))) :
    ReceiptsImmutable calls ms ↔
      AlongRun (step V) (Performs ExhaustsUncommitted) (start calls) ms := by
  constructor
  · intro h
    rw [alongRun_iff]
    rintro pre m post rfl p i s k rfl hp now rfl row hrow hcommitted
    -- the very move that writes `exhausted` breaks the receipt
    obtain ⟨⟨row', hrow', hkept⟩, -⟩ :=
      h pre [.run p i] post row (by simp) hrow hcommitted
    rw [runFrom_append, runFrom_cons, runFrom_nil, step_run hp, hrow] at hrow'
    have hstate := hkept.state
    cases hrow'
    cases hstate
  · rintro h pre mid post receipt rfl hrow hcommitted
    have hmid : AlongRun (step V) (Performs ExhaustsUncommitted)
        (runFrom (step V) (start calls) pre) mid := by
      rw [List.append_assoc, alongRun_append, alongRun_append] at h
      exact h.2.1
    have hholds :
        HoldsReceipt receipt (runFrom (step V) (start calls) pre) :=
      ⟨run_sealed calls pre, receipt, hrow, .refl receipt, hcommitted, rfl⟩
    constructor
    · rw [runFrom_append]
      exact (runFrom_invariant (fun _ _ hc hm => hc.move hm) hholds hmid).kept
    · intro p args hcall hp
      exact (later_execute_follows hholds hmid hcall hp).replaysReceipt

/--
The attempt of process 0 fails.  Process 1 observes that nothing was published
and is about to declare the budget spent when process 2 observes the late
effect and commits it.
-/
def lateExhaust : List (Move (Input Nat)) :=
  plain 0 11 ++ [.run 0 { fn := .raised "timeout" }] ++ plain 0 8 ++
    List.replicate 13 (.run 1 { observed := ⟨.definitelyAbsent, none, none, none⟩ }) ++
    List.replicate 13 (.run 2 { observed := ⟨.committed, some 7, none, none⟩ })

set_option maxRecDepth 4000 in
/-- The receipt of process 2 is overwritten by the last move of process 1. -/
theorem receipt_overwritten :
    ¬ ∀ (calls : Nat → Call Nat) (ms : List (Move (Input Nat))),
      ReceiptsImmutable calls ms := by
  intro h
  obtain ⟨receipt, hrow, hstate⟩ := Option.map_eq_some_iff.mp
    (by decide :
      (runFrom (step Nat) (start publishOnce) lateExhaust).shared.row.map
        Row.state = some .committed)
  obtain ⟨⟨row, hrow', hkept⟩, -⟩ :=
    h publishOnce (lateExhaust ++ plain 1 1) lateExhaust (plain 1 1) []
      receipt (by simp) hrow hstate
  have hlast :
      (runFrom (step Nat) (start publishOnce)
        (lateExhaust ++ plain 1 1)).shared.row.map Row.state =
          some .exhausted := by
    decide
  rw [hrow', Option.map_some, hkept.state] at hlast
  cases hlast

end Runs

end Journal
end SwFactory
