import SwFactory.Machine.Interaction

/-!
# What a program has performed

A log is a list of statements with their answers.  `Prog.Logs p log q` says
that the program `p` can perform the log and go on as `q`, whatever else acts
meanwhile.  The protocol `history` keeps the log as the local state, so that a
rule about statements may speak of everything that went before.

A program that asks nothing twice is run against a function from its
statements to their answers.  What it ends with and what it performed are then
functions of that world.
-/

namespace SwFactory
namespace Machine

universe u

section Logs

variable {S : Type u}
variable {Ans : S → Type u}
variable {ε α : Type u}

/-- A statement with its answer. -/
abbrev Event (S : Type u) (Ans : S → Type u) : Type u :=
  Σ s : S, Ans s

/-- The program performs the log and goes on as the second program. -/
inductive Prog.Logs :
    Prog S Ans ε α → List (Event S Ans) → Prog S Ans ε α → Prop
  | done (p : Prog S Ans ε α) :
      Prog.Logs p [] p
  | step {s : S} {k : Ans s → Prog S Ans ε α} (a : Ans s)
      {log : List (Event S Ans)} {q : Prog S Ans ε α}
      (h : Prog.Logs (k a) log q) :
      Prog.Logs (.step s k) (⟨s, a⟩ :: log) q

/-- A statement is allowed by what went before it; any answer may come. -/
def history (allow : List (Event S Ans) → S → Prop) :
    Protocol S Ans (List (Event S Ans)) where
  allow := allow
  answers := fun _ _ _ => True
  next := fun log s a => log ++ [⟨s, a⟩]

/-- What a composed program has performed splits where its second part begins. -/
theorem Prog.Logs.bind_ret {β : Type u} {p : Prog S Ans ε α} {f : α → Prog S Ans ε β}
    {log : List (Event S Ans)} {b : β} (h : (p >>= f).Logs log (.ret b)) :
    ∃ first rest a, log = first ++ rest ∧ p.Logs first (.ret a) ∧ (f a).Logs rest (.ret b) := by
  induction p generalizing log with
  | ret a => exact ⟨[], log, a, rfl, .done _, h⟩
  | raise e => cases h
  | step s k ih =>
      cases h with
      | step answer hrest =>
          obtain ⟨first, rest, a, rfl, hfirst, hlast⟩ := ih answer hrest
          exact ⟨⟨s, answer⟩ :: first, rest, a, rfl, .step answer hfirst, hlast⟩

theorem Prog.Logs.of_ret {a b : α} {log : List (Event S Ans)}
    (h : (Prog.ret a : Prog S Ans ε α).Logs log (.ret b)) : log = [] ∧ a = b := by
  cases h
  exact ⟨rfl, rfl⟩

variable {allow : List (Event S Ans) → S → Prop}
variable {Q : List (Event S Ans) → Except ε α → Prop}

/-- The rest of a program keeps to the protocol that the program keeps to. -/
theorem Obeys.of_logs {p q : Prog S Ans ε α} {before log : List (Event S Ans)}
    (h : Obeys (history allow) Q p before) (hlog : p.Logs log q) :
    Obeys (history allow) Q q (before ++ log) := by
  induction hlog generalizing before with
  | done p =>
      rwa [List.append_nil]
  | step a _ ih =>
      have hrest := ih (h.2 a trivial)
      change Obeys (history allow) Q _ ((before ++ [_]) ++ _) at hrest
      rwa [List.append_assoc] at hrest

/-- Every statement of a log was allowed when it was performed. -/
theorem Obeys.allowed {p q : Prog S Ans ε α} {before log : List (Event S Ans)}
    (h : Obeys (history allow) Q p before) (hlog : p.Logs log q)
    {pre post : List (Event S Ans)} {e : Event S Ans} (hsplit : log = pre ++ e :: post) :
    allow (before ++ pre) e.1 := by
  induction hlog generalizing before pre with
  | done p =>
      cases pre <;> cases hsplit
  | step a _ ih =>
      cases pre with
      | nil =>
          cases hsplit
          rw [List.append_nil]
          exact h.1
      | cons first rest =>
          cases hsplit
          have hrest := ih (h.2 a trivial) rfl
          change allow ((before ++ [_]) ++ rest) e.1 at hrest
          rwa [List.append_assoc] at hrest

end Logs

/-! ## Programs against a fixed world -/

section Oracle

variable {S : Type u}
variable {Ans : S → Type u}
variable {ε α β : Type u}
variable (world : ∀ s, Ans s)

/-- What a program ends with. -/
def Prog.outcome : Prog S Ans ε α → Except ε α
  | .ret a => .ok a
  | .raise e => .error e
  | .step s k => (k (world s)).outcome

/-- What a program performs, with the answers it gets. -/
def Prog.trace : Prog S Ans ε α → List (Event S Ans)
  | .ret _ => []
  | .raise _ => []
  | .step s k => ⟨s, world s⟩ :: (k (world s)).trace

/-- What a program performs, where it ends well, and nothing otherwise. -/
def Prog.traceAfter (f : α → Prog S Ans ε β) : Except ε α → List (Event S Ans)
  | .ok a => (f a).trace world
  | .error _ => []

@[simp] theorem outcome_ret (a : α) :
    (Prog.ret a : Prog S Ans ε α).outcome world = .ok a :=
  rfl

@[simp] theorem outcome_raise (e : ε) :
    (Prog.raise e : Prog S Ans ε α).outcome world = .error e :=
  rfl

@[simp] theorem outcome_step (s : S) (k : Ans s → Prog S Ans ε α) :
    (Prog.step s k).outcome world = (k (world s)).outcome world :=
  rfl

@[simp] theorem trace_ret (a : α) :
    (Prog.ret a : Prog S Ans ε α).trace world = [] :=
  rfl

@[simp] theorem trace_raise (e : ε) :
    (Prog.raise e : Prog S Ans ε α).trace world = [] :=
  rfl

@[simp] theorem trace_step (s : S) (k : Ans s → Prog S Ans ε α) :
    (Prog.step s k).trace world = ⟨s, world s⟩ :: (k (world s)).trace world :=
  rfl

@[simp] theorem outcome_bind (p : Prog S Ans ε α) (f : α → Prog S Ans ε β) :
    (p >>= f).outcome world = p.outcome world >>= fun a => (f a).outcome world := by
  induction p with
  | ret a => rfl
  | raise e => rfl
  | step s k ih => exact ih (world s)

@[simp] theorem trace_bind (p : Prog S Ans ε α) (f : α → Prog S Ans ε β) :
    (p >>= f).trace world =
      p.trace world ++ Prog.traceAfter world f (p.outcome world) := by
  induction p with
  | ret a => rfl
  | raise e => rfl
  | step s k ih => exact congrArg (⟨s, world s⟩ :: ·) (ih (world s))

@[simp] theorem traceAfter_ok (f : α → Prog S Ans ε β) (a : α) :
    Prog.traceAfter world f (.ok a) = (f a).trace world :=
  rfl

end Oracle

end Machine
end SwFactory
