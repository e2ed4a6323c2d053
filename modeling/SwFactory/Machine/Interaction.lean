import SwFactory.Machine.Runs

/-!
# Programs that interleave on a shared state

A process is a tree of atomic statements: it performs a statement, receives
the statement's answer, and goes on with the tree chosen by that answer.
Between two statements any other process may act.  `Prog` is the type of such
trees, with exceptions; it is a monad, so a method that is written as a
sequence of statements is translated line by line.

`System.step` lets one process perform its next statement, or stops a process
for good.  What the environment contributes to a statement (a clock reading, a
remote answer) is the input of the move.

Reasoning is in two levels.  A `Protocol` says which statements a process may
perform in which local state, and `Obeys` that a program keeps to it whatever
answers it gets; `Obeys.bind` composes the methods.  `System.composition` then
derives an invariant of the whole system from one proof obligation per
statement.
-/

namespace SwFactory
namespace Machine

universe u

/-- A tree of atomic statements that ends with a value or an exception. -/
inductive Prog (S : Type u) (Ans : S → Type u) (ε α : Type u) : Type u
  | ret (value : α)
  | raise (error : ε)
  | step (stmt : S) (next : Ans stmt → Prog S Ans ε α)

namespace Prog

variable {S : Type u}
variable {Ans : S → Type u}
variable {ε α β : Type u}

/-- Go on with `f` where the first program returns. -/
def bind : Prog S Ans ε α → (α → Prog S Ans ε β) → Prog S Ans ε β
  | ret a, f => f a
  | raise e, _ => raise e
  | step s k, f => step s (fun a => (k a).bind f)

instance : Monad (Prog S Ans ε) where
  pure := ret
  bind := bind

/-- Perform one statement and return its answer. -/
def perform (s : S) : Prog S Ans ε (Ans s) :=
  step s ret

/-- Go on with `f` wherever the program ends, with a value or an exception. -/
def finish {ε' : Type u} :
    Prog S Ans ε α → (Except ε α → Prog S Ans ε' β) → Prog S Ans ε' β
  | ret a, f => f (.ok a)
  | raise e, f => f (.error e)
  | step s k, f => step s (fun a => (k a).finish f)

/-- `try: p except Exception as e: f(e)`. -/
def handle (p : Prog S Ans ε α) (f : ε → Prog S Ans ε α) : Prog S Ans ε α :=
  p.finish (fun
    | .ok a => ret a
    | .error e => f e)

/-- A computation without statements, as a program. -/
def ofExcept : Except ε α → Prog S Ans ε α
  | .ok a => ret a
  | .error e => raise e

@[simp] theorem pure_eq (a : α) :
    (pure a : Prog S Ans ε α) = ret a :=
  rfl

@[simp] theorem ret_bind (a : α) (f : α → Prog S Ans ε β) :
    (ret a >>= f) = f a :=
  rfl

@[simp] theorem raise_bind (e : ε) (f : α → Prog S Ans ε β) :
    ((raise e : Prog S Ans ε α) >>= f) = raise e :=
  rfl

@[simp] theorem step_bind
    (s : S) (k : Ans s → Prog S Ans ε α) (f : α → Prog S Ans ε β) :
    (step s k >>= f) = step s (fun a => k a >>= f) :=
  rfl

@[simp] theorem perform_bind (s : S) (f : Ans s → Prog S Ans ε β) :
    (perform s >>= f) = step s f :=
  rfl

theorem finish_ofExcept (p : Prog S Ans ε α) :
    p.finish ofExcept = p := by
  induction p with
  | ret a => rfl
  | raise e => rfl
  | step s k ih => exact congrArg (step s) (funext ih)

theorem bind_eq_finish (p : Prog S Ans ε α) (f : α → Prog S Ans ε β) :
    (p >>= f) = p.finish (fun
      | .ok a => f a
      | .error e => raise e) := by
  induction p with
  | ret a => rfl
  | raise e => rfl
  | step s k ih => exact congrArg (step s) (funext ih)

end Prog

section Protocols

variable {S : Type u}
variable {Ans : S → Type u}
variable {ε α β : Type u}
variable {L : Type u}

/--
What a process may do, as a function of a local state: the statements it may
perform, the answers it can get, and how an answer changes the local state.
-/
structure Protocol (S : Type u) (Ans : S → Type u) (L : Type u) where
  allow : L → S → Prop
  answers : L → (s : S) → Ans s → Prop
  next : L → (s : S) → Ans s → L

/-- The program keeps to the protocol and ends in a state `Q` accepts. -/
def Obeys
    (P : Protocol S Ans L)
    (Q : L → Except ε α → Prop) :
    Prog S Ans ε α → L → Prop
  | .ret a, l => Q l (.ok a)
  | .raise e, l => Q l (.error e)
  | .step s k, l =>
      P.allow l s ∧
        ∀ a, P.answers l s a → Obeys P Q (k a) (P.next l s a)

variable {P : Protocol S Ans L}

/-- What a program ends with may be weakened. -/
theorem Obeys.mono
    {Q Q' : L → Except ε α → Prop}
    {p : Prog S Ans ε α} {l : L}
    (h : Obeys P Q p l)
    (hQ : ∀ l r, Q l r → Q' l r) :
    Obeys P Q' p l := by
  induction p generalizing l with
  | ret a =>
      exact hQ l _ h
  | raise e =>
      exact hQ l _ h
  | step s k ih =>
      exact ⟨h.1, fun a ha => ih a (h.2 a ha)⟩

/-- Whatever the first program ends with, the second one goes on from there. -/
theorem Obeys.finish {ε' : Type u}
    {Q : L → Except ε α → Prop}
    {R : L → Except ε' β → Prop}
    {p : Prog S Ans ε α} {f : Except ε α → Prog S Ans ε' β} {l : L}
    (hp : Obeys P Q p l)
    (hf : ∀ l r, Q l r → Obeys P R (f r) l) :
    Obeys P R (p.finish f) l := by
  induction p generalizing l with
  | ret a =>
      exact hf l _ hp
  | raise e =>
      exact hf l _ hp
  | step s k ih =>
      exact ⟨hp.1, fun a ha => ih a (hp.2 a ha)⟩

/-- **Sequential composition.** -/
theorem Obeys.bind
    {Q : L → Except ε α → Prop}
    {R : L → Except ε β → Prop}
    {p : Prog S Ans ε α} {f : α → Prog S Ans ε β} {l : L}
    (hp : Obeys P Q p l)
    (hok : ∀ l a, Q l (.ok a) → Obeys P R (f a) l)
    (herr : ∀ l e, Q l (.error e) → R l (.error e)) :
    Obeys P R (p >>= f) l := by
  induction p generalizing l with
  | ret a =>
      exact hok l a hp
  | raise e =>
      exact herr l e hp
  | step s k ih =>
      exact ⟨hp.1, fun a ha => ih a (hp.2 a ha)⟩

end Protocols

/-- A new local state of one process that agrees on what `f` reads. -/
theorem proj_update {L β : Type u}
    (f : L → β) (loc : Nat → L) {p : Nat} {l : L}
    (h : f l = f (loc p)) (q : Nat) :
    f (Function.update loc p l q) = f (loc q) := by
  by_cases hq : q = p
  · subst hq
    simpa using h
  · simp [hq]

/-- One process: its remaining program, or stopped for good. -/
inductive Proc (S : Type u) (Ans : S → Type u) (ε α : Type u) : Type u
  | running (prog : Prog S Ans ε α)
  | crashed

/-- What happens next: one process acts on an input, or stops. -/
inductive Move (ι : Type u) : Type u
  | run (pid : Nat) (input : ι)
  | crash (pid : Nat)

/-- The process a move is about. -/
def Move.pid {ι : Type u} : Move ι → Nat
  | run p _ => p
  | crash p => p

/-- The shared state and all processes. -/
structure Config (S : Type u) (Ans : S → Type u) (ε α σ : Type u) where
  shared : σ
  procs : Nat → Proc S Ans ε α

/-- The meaning of statements, and what the stop of a process leaves behind. -/
structure System (S : Type u) (Ans : S → Type u) (σ ι : Type u) where
  exec : Nat → (s : S) → ι → σ → Ans s × σ
  crash : Nat → σ → σ

section Systems

variable {S : Type u}
variable {Ans : S → Type u}
variable {ε α σ ι L : Type u}
variable (sys : System S Ans σ ι)

/-- One move of the system; a process that has ended makes no move. -/
def System.step
    (c : Config S Ans ε α σ) :
    Move ι → Config S Ans ε α σ
  | .run p i =>
      match c.procs p with
      | .running (.step s k) =>
          let out := sys.exec p s i c.shared
          ⟨out.2, Function.update c.procs p (.running (k out.1))⟩
      | _ => c
  | .crash p =>
      match c.procs p with
      | .running (.step _ _) =>
          ⟨sys.crash p c.shared, Function.update c.procs p .crashed⟩
      | _ => c

/-- Everything one move can do. -/
theorem System.step_cases
    (c : Config S Ans ε α σ) (m : Move ι) :
    ((∀ s k, c.procs m.pid ≠ .running (.step s k)) ∧
        sys.step c m = c) ∨
      (∃ p i s k, m = .run p i ∧
        c.procs p = .running (.step s k) ∧
        sys.step c m =
          ⟨(sys.exec p s i c.shared).2,
            Function.update c.procs p
              (.running (k (sys.exec p s i c.shared).1))⟩) ∨
      (∃ p s k, m = .crash p ∧
        c.procs p = .running (.step s k) ∧
        sys.step c m =
          ⟨sys.crash p c.shared, Function.update c.procs p .crashed⟩) := by
  cases m with
  | run p i =>
      cases hp : c.procs p with
      | crashed =>
          exact Or.inl ⟨by simp [Move.pid, hp], by simp [System.step, hp]⟩
      | running prog =>
          cases prog with
          | ret a =>
              exact Or.inl ⟨by simp [Move.pid, hp], by simp [System.step, hp]⟩
          | raise e =>
              exact Or.inl ⟨by simp [Move.pid, hp], by simp [System.step, hp]⟩
          | step s k =>
              refine Or.inr (Or.inl ⟨p, i, s, k, rfl, hp, ?_⟩)
              simp [System.step, hp]
  | crash p =>
      cases hp : c.procs p with
      | crashed =>
          exact Or.inl ⟨by simp [Move.pid, hp], by simp [System.step, hp]⟩
      | running prog =>
          cases prog with
          | ret a =>
              exact Or.inl ⟨by simp [Move.pid, hp], by simp [System.step, hp]⟩
          | raise e =>
              exact Or.inl ⟨by simp [Move.pid, hp], by simp [System.step, hp]⟩
          | step s k =>
              refine Or.inr (Or.inr ⟨p, s, k, rfl, hp, ?_⟩)
              simp [System.step, hp]

/-- A move is no business of the other processes. -/
theorem System.step_procs_of_ne
    (c : Config S Ans ε α σ) {m : Move ι} {p : Nat}
    (h : m.pid ≠ p) :
    (sys.step c m).procs p = c.procs p := by
  rcases sys.step_cases c m with
    ⟨-, heq⟩ | ⟨q, i, s, k, rfl, hq, heq⟩ | ⟨q, s, k, rfl, hq, heq⟩
  · rw [heq]
  · rw [heq]
    exact Function.update_of_ne (Ne.symm h) _ _
  · rw [heq]
    exact Function.update_of_ne (Ne.symm h) _ _

/-- A process that no move is about stays where it is. -/
theorem System.runFrom_procs_of_ne
    (c : Config S Ans ε α σ) {ms : List (Move ι)} {p : Nat}
    (h : ∀ m ∈ ms, m.pid ≠ p) :
    (runFrom sys.step c ms).procs p = c.procs p := by
  induction ms generalizing c with
  | nil => rfl
  | cons m ms ih =>
      rw [runFrom_cons, ih _ (fun m' hm' => h m' (List.mem_cons_of_mem _ hm'))]
      exact sys.step_procs_of_ne c (h m List.mem_cons_self)

/-- The moves that are about process `p`. -/
def turns (p : Nat) (ms : List (Move ι)) : Nat :=
  ms.countP (fun m => m.pid == p)

/-- A condition on the statement a move performs, in the state it meets. -/
def Performs
    (cond : Nat → S → σ → Prop)
    (c : Config S Ans ε α σ) (m : Move ι) : Prop :=
  ∀ p i s k, m = .run p i →
    c.procs p = .running (.step s k) → cond p s c.shared

instance decidablePerforms
    (cond : Nat → S → σ → Prop) [∀ p s sh, Decidable (cond p s sh)]
    (c : Config S Ans ε α σ) : (m : Move ι) → Decidable (Performs cond c m)
  | .crash _ => isTrue (by rintro p i s k ⟨⟩)
  | .run p i =>
      match hp : c.procs p with
      | .running (.step s k) =>
          decidable_of_iff (cond p s c.shared)
            ⟨by
              rintro h _ _ s' k' ⟨⟩ hs
              cases hp.symm.trans hs
              exact h,
            fun h => h p i s k rfl hp⟩
      | .running (.ret a) =>
          isTrue (by rintro _ _ s k ⟨⟩ hs; cases hp.symm.trans hs)
      | .running (.raise e) =>
          isTrue (by rintro _ _ s k ⟨⟩ hs; cases hp.symm.trans hs)
      | .crashed =>
          isTrue (by rintro _ _ s k ⟨⟩ hs; cases hp.symm.trans hs)

/-- A process keeps to the protocol for as long as it runs. -/
def ProcObeys
    (P : Protocol S Ans L)
    (Q : L → Except ε α → Prop)
    (l : L) : Proc S Ans ε α → Prop
  | .running prog => Obeys P Q prog l
  | .crashed => True

/--
Every process keeps to the protocol from its local state `loc p`, and the
local states fit the shared state.
-/
def Composed
    (P : Protocol S Ans L)
    (Q : L → Except ε α → Prop)
    (Inv : (Nat → L) → σ → Prop)
    (c : Config S Ans ε α σ) : Prop :=
  ∃ loc : Nat → L,
    Inv loc c.shared ∧ ∀ p, ProcObeys P Q (loc p) (c.procs p)

/-- One allowed move keeps a composed system composed. -/
theorem System.step_composed
    {P : Protocol S Ans L}
    {Q : L → Except ε α → Prop}
    {Inv : (Nat → L) → σ → Prop}
    {cond : Nat → S → σ → Prop}
    (hexec : ∀ loc sh p s i,
      Inv loc sh → P.allow (loc p) s → cond p s sh →
        P.answers (loc p) s (sys.exec p s i sh).1 ∧
        Inv (Function.update loc p
            (P.next (loc p) s (sys.exec p s i sh).1))
          (sys.exec p s i sh).2)
    (hcrash : ∀ loc sh p, Inv loc sh → Inv loc (sys.crash p sh))
    (c : Config S Ans ε α σ) (m : Move ι)
    (hc : Composed P Q Inv c)
    (hm : Performs cond c m) :
    Composed P Q Inv (sys.step c m) := by
  obtain ⟨loc, hinv, hobeys⟩ := hc
  rcases sys.step_cases c m with
    ⟨-, heq⟩ | ⟨p, i, s, k, rfl, hp, heq⟩ | ⟨p, s, k, rfl, hp, heq⟩
  · rw [heq]
    exact ⟨loc, hinv, hobeys⟩
  · have hs := hobeys p
    rw [hp] at hs
    obtain ⟨hallow, hnext⟩ := hs
    obtain ⟨hans, hinv'⟩ :=
      hexec loc c.shared p s i hinv hallow (hm p i s k rfl hp)
    rw [heq]
    refine ⟨Function.update loc p _, hinv', fun q => ?_⟩
    by_cases hq : q = p
    · subst hq
      simpa [ProcObeys] using hnext _ hans
    · simpa [hq] using hobeys q
  · rw [heq]
    refine ⟨loc, hcrash loc c.shared p hinv, fun q => ?_⟩
    by_cases hq : q = p
    · subst hq
      simp [ProcObeys]
    · simpa [hq] using hobeys q

/-- **Composition rule.**  An allowed run of a composed system stays composed. -/
theorem System.composition
    {P : Protocol S Ans L}
    {Q : L → Except ε α → Prop}
    {Inv : (Nat → L) → σ → Prop}
    {cond : Nat → S → σ → Prop}
    (hexec : ∀ loc sh p s i,
      Inv loc sh → P.allow (loc p) s → cond p s sh →
        P.answers (loc p) s (sys.exec p s i sh).1 ∧
        Inv (Function.update loc p
            (P.next (loc p) s (sys.exec p s i sh).1))
          (sys.exec p s i sh).2)
    (hcrash : ∀ loc sh p, Inv loc sh → Inv loc (sys.crash p sh))
    {c : Config S Ans ε α σ} {ms : List (Move ι)}
    (hc : Composed P Q Inv c)
    (hms : AlongRun sys.step (Performs cond) c ms) :
    EveryState sys.step (Composed P Q Inv) c ms :=
  EveryState.of_step
    (fun c m hc hm => sys.step_composed hexec hcrash c m hc hm) hc hms

end Systems

end Machine
end SwFactory
