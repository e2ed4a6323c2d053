import Mathlib.Logic.Function.Basic
import Mathlib.Data.List.Basic
import Mathlib.Order.Basic

/-!
# Runs of a step function

A deterministic machine is a step function `step : σ → μ → σ`: the state it is
in and the move it is given determine the next state.  Everything the outside
decides (who acts, what a clock reads, what a remote party answers) is part of
the move, so quantifying over lists of moves is quantifying over every
schedule and every environment.

* `runFrom` performs a list of moves;
* `AlongRun G` says that every move is made in a state where `G` allows it;
* `EveryState P` says that `P` holds in each state the run goes through;
* `Reachable` forgets the run and keeps the state;
* `loop` makes turns while its fuel lasts.

The rules below are the only way the rest of the development does induction
over runs.  A loop with an invariant and a number that every turn lowers needs
no more fuel than that number, and what it leaves with is what a last turn
leaves with.
-/

namespace SwFactory
namespace Machine

universe u v

section Runs

variable {σ : Type u}
variable {μ : Type v}
variable (step : σ → μ → σ)

/-- The state after the moves have been made in order. -/
def runFrom (s : σ) (moves : List μ) : σ :=
  moves.foldl step s

@[simp] theorem runFrom_nil (s : σ) :
    runFrom step s [] = s :=
  rfl

@[simp] theorem runFrom_cons (s : σ) (m : μ) (ms : List μ) :
    runFrom step s (m :: ms) = runFrom step (step s m) ms :=
  rfl

theorem runFrom_append (s : σ) (pre post : List μ) :
    runFrom step s (pre ++ post) =
      runFrom step (runFrom step s pre) post := by
  simp [runFrom]

/-- Every move of the run is made in a state where `G` allows it. -/
def AlongRun (G : σ → μ → Prop) : σ → List μ → Prop
  | _, [] => True
  | s, m :: ms => G s m ∧ AlongRun G (step s m) ms

/-- `P` holds in every state of the run, the first and the last included. -/
def EveryState (P : σ → Prop) : σ → List μ → Prop
  | s, [] => P s
  | s, m :: ms => P s ∧ EveryState P (step s m) ms

instance decidableEveryState
    (P : σ → Prop) [DecidablePred P] :
    (s : σ) → (ms : List μ) → Decidable (EveryState step P s ms)
  | s, [] => inferInstanceAs (Decidable (P s))
  | s, m :: ms =>
      have := decidableEveryState P (step s m) ms
      inferInstanceAs (Decidable (P s ∧ EveryState step P (step s m) ms))

instance decidableAlongRun
    (G : σ → μ → Prop) [∀ s m, Decidable (G s m)] :
    (s : σ) → (ms : List μ) → Decidable (AlongRun step G s ms)
  | _, [] => inferInstanceAs (Decidable True)
  | s, m :: ms =>
      have := decidableAlongRun G (step s m) ms
      inferInstanceAs (Decidable (G s m ∧ AlongRun step G (step s m) ms))

/-- A run of two parts is allowed when each part is. -/
theorem alongRun_append
    (G : σ → μ → Prop)
    (s : σ) (pre post : List μ) :
    AlongRun step G s (pre ++ post) ↔
      AlongRun step G s pre ∧
        AlongRun step G (runFrom step s pre) post := by
  induction pre generalizing s with
  | nil =>
      simp [AlongRun]
  | cons m pre ih =>
      simp [AlongRun, ih, and_assoc]

/-- The moves of a run, one by one, each with the state it is made in. -/
theorem alongRun_iff
    (G : σ → μ → Prop)
    (s : σ) (ms : List μ) :
    AlongRun step G s ms ↔
      ∀ pre m post, ms = pre ++ m :: post →
        G (runFrom step s pre) m := by
  constructor
  · rintro h pre m post rfl
    exact ((alongRun_append step G s pre (m :: post)).mp h).2.1
  · intro h
    induction ms generalizing s with
    | nil =>
        trivial
    | cons m ms ih =>
        refine ⟨h [] m ms rfl, ih (step s m) ?_⟩
        rintro pre m' post rfl
        exact h (m :: pre) m' post rfl

/-- The states of a run are those its initial parts end in. -/
theorem everyState_iff
    (P : σ → Prop)
    (s : σ) (ms : List μ) :
    EveryState step P s ms ↔
      ∀ pre post, ms = pre ++ post → P (runFrom step s pre) := by
  induction ms generalizing s with
  | nil =>
      constructor
      · rintro h pre post heq
        obtain ⟨rfl, rfl⟩ := List.append_eq_nil_iff.mp heq.symm
        exact h
      · intro h
        exact h [] [] rfl
  | cons m ms ih =>
      constructor
      · rintro ⟨hs, hrest⟩ pre post heq
        cases pre with
        | nil =>
            exact hs
        | cons m' pre =>
            obtain ⟨rfl, rfl⟩ := List.cons.inj heq
            exact (ih _).mp hrest pre post rfl
      · intro h
        refine ⟨h [] (m :: ms) rfl, (ih _).mpr ?_⟩
        rintro pre post rfl
        exact h (m :: pre) post rfl

variable {step}

/-- **Invariant rule.**  What every allowed move preserves holds throughout. -/
theorem EveryState.of_step
    {P : σ → Prop}
    {G : σ → μ → Prop}
    (hstep : ∀ s m, P s → G s m → P (step s m))
    {s : σ} {ms : List μ}
    (hinit : P s)
    (hallowed : AlongRun step G s ms) :
    EveryState step P s ms := by
  induction ms generalizing s with
  | nil =>
      exact hinit
  | cons m ms ih =>
      exact ⟨hinit, ih (hstep s m hinit hallowed.1) hallowed.2⟩

theorem EveryState.last
    {P : σ → Prop} {s : σ} {ms : List μ}
    (h : EveryState step P s ms) :
    P (runFrom step s ms) :=
  (everyState_iff step P s ms).mp h ms [] (by simp)

/-- The last state of an allowed run satisfies the invariant. -/
theorem runFrom_invariant
    {P : σ → Prop}
    {G : σ → μ → Prop}
    (hstep : ∀ s m, P s → G s m → P (step s m))
    {s : σ} {ms : List μ}
    (hinit : P s)
    (hallowed : AlongRun step G s ms) :
    P (runFrom step s ms) :=
  (EveryState.of_step hstep hinit hallowed).last

variable (step)

/-- The states some run from `init` ends in. -/
def Reachable (init s : σ) : Prop :=
  ∃ ms : List μ, runFrom step init ms = s

variable {step}

/-- The states of a run are reachable. -/
theorem reachable_runFrom (init : σ) (ms : List μ) :
    Reachable step init (runFrom step init ms) :=
  ⟨ms, rfl⟩

/-- **Invariant rule**, for a move that is made in a reachable state. -/
theorem EveryState.of_reachable_step
    {P : σ → Prop}
    {G : σ → μ → Prop}
    {init : σ} {ms : List μ}
    (hstep : ∀ s m, Reachable step init s → P s → G s m → P (step s m))
    (hinit : P init)
    (hallowed : AlongRun step G init ms) :
    EveryState step P init ms := by
  have hboth : EveryState step
      (fun s => Reachable step init s ∧ P s) init ms := by
    refine EveryState.of_step (fun s m hs hm => ?_)
      ⟨reachable_runFrom init [], hinit⟩ hallowed
    obtain ⟨pre, rfl⟩ := hs.1
    refine ⟨⟨pre ++ [m], ?_⟩, hstep _ m hs.1 hs.2 hm⟩
    rw [runFrom_append, runFrom_cons, runFrom_nil]
  rw [everyState_iff] at hboth ⊢
  exact fun pre post heq => (hboth pre post heq).2

/-- **Invariant rule for reachable states.** -/
theorem Reachable.invariant
    {P : σ → Prop}
    {init s : σ}
    (hinit : P init)
    (hstep : ∀ s m, P s → P (step s m))
    (h : Reachable step init s) :
    P s := by
  obtain ⟨ms, rfl⟩ := h
  refine runFrom_invariant (G := fun _ _ => True)
    (fun s m hs _ => hstep s m hs) hinit ?_
  rw [alongRun_iff]
  intros
  trivial

end Runs

/-! ## Loops -/

/-- What one turn of a loop comes to. -/
inductive Turn (σ : Type u) (ρ : Type v)
  | again (s : σ)
  | leave (r : ρ)

section Loops

variable {σ : Type u}
variable {ρ : Type v}
variable (turn : σ → Turn σ ρ)

/-- The turns of a loop, at most as many as there is fuel. -/
def loop : Nat → σ → Option ρ
  | 0, _ => none
  | fuel + 1, s =>
      match turn s with
      | .again s => loop fuel s
      | .leave r => some r

variable {turn}

theorem loop_again {s s' : σ} (h : turn s = .again s') (fuel : Nat) :
    loop turn (fuel + 1) s = loop turn fuel s' := by
  rw [loop, h]

theorem loop_leave {s : σ} {r : ρ} (h : turn s = .leave r) (fuel : Nat) :
    loop turn (fuel + 1) s = some r := by
  rw [loop, h]

/--
**Total correctness of a loop.**  The induction is on the fuel, which stays
above the variant.
-/
theorem loop_spec
    {I : σ → Prop}
    {Q : ρ → Prop}
    (variant : σ → Nat)
    (hturn : ∀ s, I s →
      (∃ s', turn s = .again s' ∧ I s' ∧ variant s' < variant s) ∨
        ∃ r, turn s = .leave r ∧ Q r)
    {s : σ}
    (hs : I s)
    {fuel : Nat}
    (hfuel : variant s < fuel) :
    ∃ r, loop turn fuel s = some r ∧ Q r := by
  induction fuel generalizing s with
  | zero =>
      omega
  | succ fuel ih =>
      rcases hturn s hs with ⟨s', hagain, hs', hlt⟩ | ⟨r, hleave, hr⟩
      · rw [loop_again hagain fuel]
        exact ih hs' (by omega)
      · exact ⟨r, loop_leave hleave fuel, hr⟩

end Loops

end Machine
end SwFactory
