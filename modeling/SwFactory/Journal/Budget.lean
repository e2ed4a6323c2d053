import Mathlib.Data.List.Perm.Subperm
import SwFactory.Journal.Attempts

/-!
# The operation journal: the retry budget

`start_attempt` reads the counter with a `SELECT`, adds one, and writes the sum
with an `UPDATE` that compares only the owner column.  A claim and a release by
another process in between are lost.

`budget_hard_iff` says exactly when the budget is hard: the counter equals the
number of claims, and with it the callback is entered at most `m` times,
precisely if every claim that takes the attempt finds the counter it read.
-/

namespace SwFactory
namespace Journal

open Text Machine

variable {V : Type}

/-- The attempts taken so far, latest first: who, and under which number. -/
def claims : List Event → List (Nat × Nat)
  | [] => []
  | .claimed p attempt :: log => (p, attempt) :: claims log
  | _ :: log => claims log

/-- The processes that entered the provider callback, latest first. -/
def invokers : List Event → List Nat
  | [] => []
  | .invoked p :: log => p :: invokers log
  | _ :: log => invokers log

@[simp] theorem claims_displaced
    (p : Nat) (before after : Option Owner) (log : List Event) :
    claims (displaced p before after ++ log) = claims log := by
  rcases displaced_cases p before after with ⟨h, -⟩ | ⟨q, -, -, -, h⟩ <;>
    simp [h, claims]

@[simp] theorem invokers_displaced
    (p : Nat) (before after : Option Owner) (log : List Event) :
    invokers (displaced p before after ++ log) = invokers log := by
  rcases displaced_cases p before after with ⟨h, -⟩ | ⟨q, -, -, -, h⟩ <;>
    simp [h, invokers]

/-- The counter the claim writes is one more than the one it finds. -/
def FreshClaim (_p : Nat) (s : Stmt V) (sh : Shared V) : Prop :=
  ∀ attempt owner leaseUntil now,
    s = .claim attempt owner leaseUntil now → s.takes sh.row →
      attempt = attemptsOf sh.row + 1

/-- The row is bound to the retry budget `m`. -/
def BoundTo (m : Nat) (stored : Option (Row V)) : Prop :=
  ∀ row, stored = some row → row.maxAttempts = some m

instance (m : Nat) (stored : Option (Row V)) :
    Decidable (BoundTo m stored) :=
  decidable_of_iff (stored.all (fun row => decide (row.maxAttempts = some m)))
    (by cases stored <;> simp [BoundTo])

/-- Counter and claims, and who entered the callback, fit together. -/
structure BudgetInv (m : Nat) (loc : Nat → Local) (sh : Shared V) :
    Prop where
  pid : ∀ p, (loc p).pid = p
  counter : attemptsOf sh.row = (claims sh.log).length
  positive : ∀ c ∈ claims sh.log, 1 ≤ c.2
  counted : ∀ c ∈ claims sh.log, c.2 ≤ attemptsOf sh.row
  distinct : ((claims sh.log).map Prod.snd).Nodup
  once : (invokers sh.log).Nodup
  claimed : ∀ p a, (loc p).phase = .claimed a →
    (p, a) ∈ claims sh.log ∧ p ∉ invokers sh.log
  idle : ∀ p, (loc p).phase = .idle → p ∉ invokers sh.log
  backed : ∀ p ∈ invokers sh.log, ∃ a ≤ m, (p, a) ∈ claims sh.log

/-- Distinct numbers from `1` to `m`, one for each invocation. -/
theorem BudgetInv.invokers_le
    {m : Nat} {loc : Nat → Local} {sh : Shared V}
    (h : BudgetInv m loc sh) :
    (invokers sh.log).length ≤ m := by
  let inside := (claims sh.log).filter (fun c => c.2 ≤ m)
  have hinvokers : invokers sh.log ⊆ inside.map Prod.fst := by
    intro p hp
    obtain ⟨a, ha, hmem⟩ := h.backed p hp
    exact List.mem_map.mpr ⟨(p, a), by simpa [inside] using ⟨hmem, ha⟩, rfl⟩
  have hnumbers : inside.map Prod.snd ⊆ List.range' 1 m := by
    intro a ha
    obtain ⟨c, hc, rfl⟩ := List.mem_map.mp ha
    simp only [inside, List.mem_filter, decide_eq_true_eq] at hc
    have := h.positive c hc.1
    rw [List.mem_range'_1]
    omega
  have hdistinct : (inside.map Prod.snd).Nodup :=
    h.distinct.sublist (List.filter_sublist.map Prod.snd)
  calc (invokers sh.log).length
      ≤ (inside.map Prod.fst).length :=
        (List.subperm_of_subset h.once hinvokers).length_le
    _ = (inside.map Prod.snd).length := by simp
    _ ≤ (List.range' 1 m).length :=
        (List.subperm_of_subset hdistinct hnumbers).length_le
    _ = m := by simp

section Obligations

variable {m : Nat} {loc : Nat → Local} {sh : Shared V} {p : Nat}

/-- A transaction of `begin` is accepted only under the bound of the row. -/
theorem Intent.transact_ok_bound
    {args : Intent} {stored : Option (Row V)} {row : Row V}
    (h : args.transact stored = .ok row) :
    diverges (stored.getD args.fresh).maxAttempts args.maxAttempts = false := by
  unfold Intent.transact at h
  simp only [bind, Except.bind] at h
  split at h
  · cases h
  · split at h
    · cases h
    · split at h
      · cases h
      · rename_i hsame
        simpa using hsame

/-- `begin` binds the bound it is given where there is none. -/
theorem Intent.bindPolicy_maxAttempts (args : Intent) (row : Row V) :
    (args.bindPolicy row).maxAttempts =
      row.maxAttempts.or args.maxAttempts := by
  unfold Intent.bindPolicy
  split
  · rfl
  · rename_i hbound
    cases hrow : row.maxAttempts with
    | some m => rfl
    | none =>
        cases hargs : args.maxAttempts with
        | none => rfl
        | some m => simp [Intent.unbound, hrow, hargs] at hbound

/-- An accepted `begin` asks for no other bound than the row has. -/
theorem Intent.transact_bound
    {args : Intent} {stored : Option (Row V)}
    (hafter : BoundTo m ((Stmt.intent args).effect stored))
    (hok : (args.transact stored).map (fun _ => ()) = .ok ()) :
    args.maxAttempts = none ∨ args.maxAttempts = some m := by
  cases ht : args.transact stored with
  | error e =>
      rw [ht] at hok
      cases hok
  | ok row =>
      have hrow : row.maxAttempts = some m :=
        hafter row (by simp [Stmt.effect, ht])
      have hsame := Intent.transact_ok_bound ht
      rw [Intent.transact_ok ht, Intent.bindPolicy_maxAttempts] at hrow
      cases hwanted : args.maxAttempts with
      | none => exact Or.inl rfl
      | some wanted =>
          cases hfound : (stored.getD args.fresh).maxAttempts with
          | none => simpa [hfound, hwanted] using hrow
          | some found => simp_all [diverges]

/-- While the row is bound to `m`, the answers say so. -/
theorem attemptAnswers_answer
    {l : Local} (s : Stmt V) (i : Input V) (stored : Option (Row V))
    (hpid : l.pid = p)
    (hbefore : BoundTo m stored)
    (hafter : BoundTo m (s.effect stored)) :
    attemptAnswers (some m) l s (s.answer p i stored) := by
  cases s with
  | uuid => exact hpid.symm
  | select =>
      rintro row hrow _ ⟨⟩
      exact hbefore row hrow
  | intent args =>
      rintro hok _ ⟨⟩
      exact Intent.transact_bound hafter hok
  | _ => trivial

/-- Turns that neither take an attempt nor enter the callback. -/
theorem BudgetInv.same_log
    {l' : Local} {stored' : Option (Row V)} {log' : List Event}
    (h : BudgetInv m loc sh)
    (hclaims : claims log' = claims sh.log)
    (hinvokers : invokers log' = invokers sh.log)
    (hcounter : attemptsOf stored' = attemptsOf sh.row)
    (hpid : ∀ q, (Function.update loc p l' q).pid = q)
    (hphase : l'.phase = (loc p).phase ∨ l'.phase = .over) :
    BudgetInv m (Function.update loc p l') ⟨stored', log'⟩ := by
  have hphases : ∀ q, (Function.update loc p l' q).phase = .over ∨
      (Function.update loc p l' q).phase = (loc q).phase := by
    intro q
    rcases hphase with hsame | hover
    · exact Or.inr (proj_update Local.phase loc hsame q)
    · by_cases hq : q = p
      · subst hq
        simp [hover]
      · simp [hq]
  constructor
  · exact hpid
  · simpa [hclaims, hcounter] using h.counter
  · simpa [hclaims] using h.positive
  · simpa [hclaims, hcounter] using h.counted
  · simpa [hclaims] using h.distinct
  · simpa [hinvokers] using h.once
  · intro q a hq
    rcases hphases q with hover | hsame
    · rw [hover] at hq
      cases hq
    · simpa [hclaims, hinvokers] using h.claimed q a (hsame ▸ hq)
  · intro q hq
    rcases hphases q with hover | hsame
    · rw [hover] at hq
      cases hq
    · simpa [hinvokers] using h.idle q (hsame ▸ hq)
  · simpa [hclaims, hinvokers] using h.backed

/-- One turn keeps counter, claims and invocations in step. -/
theorem BudgetInv.turn
    {l' : Local} {stored' : Option (Row V)} {new : List Event}
    (h : BudgetInv m loc sh)
    (hturn : Turn (some m) p (loc p) sh.row l' stored' new)
    (hfresh : ∀ attempt, new = [.claimed p attempt] →
      attempt = attemptsOf sh.row + 1) :
    BudgetInv m (Function.update loc p l') ⟨stored', new ++ sh.log⟩ := by
  have hpid : ∀ l'' : Local, l''.pid = (loc p).pid →
      ∀ q, (Function.update loc p l'' q).pid = q :=
    fun l'' hl'' q => (proj_update Local.pid loc hl'' q).trans (h.pid q)
  cases hturn with
  | takes hmay hfree howner hcounter =>
      rename_i attempt
      obtain rfl := hfresh attempt rfl
      refine ⟨hpid _ rfl, ?_, ?_, ?_, ?_, h.once, ?_, ?_, ?_⟩
      · simpa [claims, hcounter] using h.counter
      · simpa [claims] using h.positive
      · intro c hc
        rw [hcounter]
        rcases List.mem_cons.mp hc with rfl | hc
        · exact Nat.le_refl _
        · exact Nat.le_succ_of_le (h.counted c hc)
      · refine List.nodup_cons.mpr ⟨fun hmem => ?_, h.distinct⟩
        obtain ⟨c, hc, heq⟩ := List.mem_map.mp hmem
        have := h.counted c hc
        omega
      · intro q a hq
        by_cases hqp : q = p
        · subst hqp
          simp only [Function.update_self, Phase.claimed.injEq] at hq
          subst hq
          exact ⟨List.mem_cons_self, h.idle q hmay.idle⟩
        · rw [Function.update_of_ne hqp] at hq
          exact ⟨List.mem_cons_of_mem _ (h.claimed q a hq).1,
            (h.claimed q a hq).2⟩
      · intro q hq
        by_cases hqp : q = p
        · subst hqp
          simp at hq
        · rw [Function.update_of_ne hqp] at hq
          exact h.idle q hq
      · intro q hq
        obtain ⟨a, ha, hmem⟩ := h.backed q hq
        exact ⟨a, ha, List.mem_cons_of_mem _ hmem⟩
  | enters hexecutes hclaimed hbound =>
      rename_i attempt
      obtain ⟨hmem, hnot⟩ := h.claimed p attempt hclaimed
      refine ⟨hpid _ rfl, h.counter, h.positive, h.counted, h.distinct,
        List.nodup_cons.mpr ⟨hnot, h.once⟩, ?_, ?_, ?_⟩
      · intro q a hq
        by_cases hqp : q = p
        · subst hqp
          simp at hq
        · rw [Function.update_of_ne hqp] at hq
          exact ⟨(h.claimed q a hq).1,
            List.not_mem_cons_of_ne_of_not_mem hqp (h.claimed q a hq).2⟩
      · intro q hq
        by_cases hqp : q = p
        · subst hqp
          simp at hq
        · rw [Function.update_of_ne hqp] at hq
          exact List.not_mem_cons_of_ne_of_not_mem hqp (h.idle q hq)
      · intro q hq
        rcases List.mem_cons.mp hq with rfl | hq
        · exact ⟨attempt, hbound m rfl, hmem⟩
        · exact h.backed q hq
  | leaves hinside hend =>
      rename_i attempt e
      have hclaims : claims (e :: sh.log) = claims sh.log := by
        rcases hend with rfl | rfl <;> rfl
      have hinvokers : invokers (e :: sh.log) = invokers sh.log := by
        rcases hend with rfl | rfl <;> rfl
      refine h.same_log hclaims hinvokers rfl (hpid _ rfl) ?_
      simp
  | observes hsettled =>
      exact h.same_log rfl rfl rfl (hpid _ rfl) (by simp)
  | writes hsettled howner hcounter =>
      exact h.same_log (claims_displaced ..) (invokers_displaced ..) hcounter
        (hpid _ rfl) (by simp)

end Obligations

section Runs

variable [DecidableEq V]

/--
The counter is the number of attempts taken, and the provider callback was
entered at most `m` times.
-/
def BudgetHard (m : Nat) (c : Configuration V) : Prop :=
  attemptsOf c.shared.row = (claims c.shared.log).length ∧
    (invokers c.shared.log).length ≤ m

instance (m : Nat) (c : Configuration V) : Decidable (BudgetHard m c) :=
  inferInstanceAs (Decidable (_ ∧ _))

/-- What a move has to meet for the obligations above. -/
def BudgetCond (m : Nat) (p : Nat) (s : Stmt V) (sh : Shared V) : Prop :=
  BoundTo m sh.row ∧ BoundTo m (s.effect sh.row) ∧ FreshClaim p s sh

/-- In a run of a bound row, only the claims are left to check. -/
theorem budgetCond_of_bound
    {m : Nat} {calls : Nat → Call V} {ms : List (Move (Input V))}
    (hbound : EveryState (step V) (fun c => BoundTo m c.shared.row)
      (start calls) ms)
    (hfresh : AlongRun (step V) (Performs FreshClaim) (start calls) ms) :
    AlongRun (step V) (Performs (BudgetCond m)) (start calls) ms := by
  rw [everyState_iff] at hbound
  rw [alongRun_iff] at hfresh ⊢
  rintro pre _ post rfl p i s k rfl hp
  refine ⟨hbound pre _ rfl, ?_, hfresh pre _ post rfl p i s k rfl hp⟩
  have hnext := hbound (pre ++ [.run p i]) post (by simp)
  rwa [runFrom_append, runFrom_cons, runFrom_nil, step_run hp] at hnext

/-- Fresh claims keep counter, claims and invocations together. -/
theorem budget_composed
    {m : Nat} {calls : Nat → Call V} {ms : List (Move (Input V))}
    (hms : AlongRun (step V) (Performs (BudgetCond m)) (start calls) ms) :
    EveryState (step V)
      (Composed (attemptProtocol V (some m)) (fun _ _ => True) (BudgetInv m))
      (start calls) ms := by
  refine (system V).composition ?_ ?_ ?_ hms
  · rintro loc sh p s i hinv hallow ⟨hbefore, hafter, hfresh⟩
    refine ⟨attemptAnswers_answer s i sh.row (hinv.pid p) hbefore hafter, ?_⟩
    refine hinv.turn (turn_of_allow p s i sh.row hallow) ?_
    intro attempt hevents
    rcases events_cases p s i sh.row with
      ⟨a, o, u, n, rfl, htakes, hev⟩ | ⟨rfl, hev⟩ | ⟨rfl, hev | hev⟩ |
        ⟨rfl, hev⟩ | ⟨-, -, -, -, hev⟩
    · obtain rfl : a = attempt := by simpa [hev] using hevents
      exact hfresh a o u n rfl htakes
    · simp [hev] at hevents
    · simp [hev] at hevents
    · simp [hev] at hevents
    · simp [hev] at hevents
    · rcases displaced_cases p (ownerOf sh.row) (ownerOf (s.effect sh.row)) with
        ⟨hnil, -⟩ | ⟨q, -, -, -, hlost⟩ <;> simp_all
  · intro loc sh p hinv
    exact ⟨hinv.pid, hinv.counter, hinv.positive, hinv.counted,
      hinv.distinct, hinv.once, hinv.claimed, hinv.idle, hinv.backed⟩
  · refine ⟨fun p => (calls p).local_ p, ?_, fun p => (calls p).obeys p⟩
    constructor <;> simp [start, claims, invokers, attemptsOf, Call.local_]

/--
**The retry budget.**  On a key whose bound is `m`, the counter is the number
of attempts taken and the callback is entered at most `m` times, in every
state of a run, exactly if every claim that takes the attempt finds the
counter it has read.
-/
theorem budget_hard_iff
    (calls : Nat → Call V) (ms : List (Move (Input V))) (m : Nat)
    (hbound : EveryState (step V) (fun c => BoundTo m c.shared.row)
      (start calls) ms) :
    EveryState (step V) (BudgetHard m) (start calls) ms ↔
      AlongRun (step V) (Performs FreshClaim) (start calls) ms := by
  constructor
  · intro h
    rw [everyState_iff] at h
    rw [alongRun_iff]
    rintro pre _ post rfl p i _ k rfl hp attempt owner leaseUntil now rfl htakes
    have hbefore := (h pre _ rfl).1
    have hafter := (h (pre ++ [.run p i]) post (by simp)).1
    rw [runFrom_append, runFrom_cons, runFrom_nil, step_run hp] at hafter
    dsimp only at hafter
    rw [(effect_claim_takes htakes).2.2] at hafter
    have hevents : (Stmt.claim attempt owner leaseUntil now).events p i
        (runFrom (step V) (start calls) pre).shared.row =
          [.claimed p attempt] :=
      if_pos htakes
    rw [hevents] at hafter
    simpa [claims, hbefore] using hafter
  · intro h
    have hcomposed := budget_composed (budgetCond_of_bound hbound h)
    rw [everyState_iff] at hcomposed ⊢
    intro pre post heq
    obtain ⟨loc, hinv, -⟩ := hcomposed pre post heq
    exact ⟨hinv.counter, hinv.invokers_le⟩

/-- One process alone: it publishes, and the run meets the condition. -/
theorem budget_hard_single_process :
    EveryState (step Nat) (fun c => BoundTo 1 c.shared.row)
        (start publishOnce) (plain 0 12) ∧
      AlongRun (step Nat) (Performs FreshClaim)
        (start publishOnce) (plain 0 12) := by
  have hbound : EveryState (step Nat) (fun c => BoundTo 1 c.shared.row)
      (start publishOnce) (plain 0 12) := by
    decide
  exact ⟨hbound, (budget_hard_iff publishOnce (plain 0 12) 1 hbound).mp
    (by decide)⟩

/--
Process 1 reads the counter; process 0 claims, calls the provider, fails and
releases; process 1 claims with the counter it read.
-/
def lostUpdate : List (Move (Input Nat)) :=
  plain 0 1 ++ plain 1 9 ++ plain 0 10 ++
    [.run 0 { fn := .raised "timeout" }] ++ plain 0 3 ++ plain 1 2

/-- The counter says one attempt, and the provider was called twice. -/
theorem budget_lost_update :
    ¬ ∀ (calls : Nat → Call Nat) (ms : List (Move (Input Nat))) (m : Nat),
      EveryState (step Nat) (fun c => BoundTo m c.shared.row)
        (start calls) ms →
      EveryState (step Nat) (BudgetHard m) (start calls) ms := by
  intro h
  have hbound : EveryState (step Nat) (fun c => BoundTo 1 c.shared.row)
      (start publishOnce) lostUpdate := by
    decide
  exact absurd (h publishOnce lostUpdate 1 hbound).last (by decide)

end Runs

end Journal
end SwFactory
