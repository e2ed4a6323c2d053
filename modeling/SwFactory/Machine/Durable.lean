import SwFactory.Machine.Interaction
import Mathlib.Data.List.Forall2

/-!
# Programs that are killed and started again

One program at a time owns a durable state.  It may be killed after any of its
statements and is then started again from its first statement, with nothing but
the durable state left.  `Survives` is a weakest precondition with a crash
condition: `I` holds after every statement, `Q` where the program ends.  The
rule `Survives.sessions` says that a crash condition from which the program
survives holds of the durable state throughout any number of such lives.

A process may also run several threads on the state it owns, whose statements
interleave.  `Staffed` says that every thread keeps to a protocol from its own
local state; `runThread_staffed` carries an invariant that relates the local
states to the shared one over the statement of one thread.
-/

namespace SwFactory
namespace Machine

universe u

section Durable

variable {S : Type u}
variable {Ans : S → Type u}
variable {ε ε' α β σ ι κ : Type u}

/-- What a statement does to the durable state, by what the outside decides. -/
abbrev Effect (S : Type u) (Ans : S → Type u) (σ ι : Type u) :=
  (s : S) → ι → σ → Ans s × σ

/-- One life: the program performs a statement for each input, or ends before. -/
def live (exec : Effect S Ans σ ι) : Prog S Ans ε α → List ι → σ → σ
  | .step s k, i :: rest, st => live exec (k (exec s i st).1) rest (exec s i st).2
  | _, _, st => st

/-- One life after the other. -/
def lives (exec : Effect S Ans σ ι) (p : Prog S Ans ε α) (st : σ) :
    List (List ι) → σ
  | [] => st
  | inputs :: rest => lives exec p (live exec p inputs st) rest

/-- Where a life ends by itself: the result and the state, or `none` if it is killed. -/
def ending (exec : Effect S Ans σ ι) : Prog S Ans ε α → List ι → σ →
    Option (Except ε α × σ)
  | .ret a, _, st => some (.ok a, st)
  | .raise e, _, st => some (.error e, st)
  | .step s k, i :: rest, st => ending exec (k (exec s i st).1) rest (exec s i st).2
  | .step _ _, [], _ => none

/-- `I` holds after every statement of the program, and `Q` where it ends. -/
def Survives (exec : Effect S Ans σ ι) (I : σ → Prop)
    (Q : Except ε α → σ → Prop) : Prog S Ans ε α → σ → Prop
  | .ret a, st => Q (.ok a) st
  | .raise e, st => Q (.error e) st
  | .step s k, st =>
      ∀ i, I (exec s i st).2 ∧ Survives exec I Q (k (exec s i st).1) (exec s i st).2

namespace Survives

variable {exec : Effect S Ans σ ι} {I : σ → Prop}

theorem mono {Q Q' : Except ε α → σ → Prop} {p : Prog S Ans ε α} {st : σ}
    (h : Survives exec I Q p st)
    (hQ : ∀ r st, Q r st → Q' r st) :
    Survives exec I Q' p st := by
  induction p generalizing st with
  | ret a =>
      exact hQ _ _ h
  | raise e =>
      exact hQ _ _ h
  | step s k ih =>
      exact fun i => ⟨(h i).1, ih _ (h i).2⟩

/-- The crash condition may be dropped. -/
theorem ends {Q : Except ε α → σ → Prop} {p : Prog S Ans ε α} {st : σ}
    (h : Survives exec I Q p st) :
    Survives exec (fun _ => True) Q p st := by
  induction p generalizing st with
  | ret a =>
      exact h
  | raise e =>
      exact h
  | step s k ih =>
      exact fun i => ⟨trivial, ih _ (h i).2⟩

theorem conj {I' : σ → Prop} {Q Q' : Except ε α → σ → Prop}
    {p : Prog S Ans ε α} {st : σ}
    (h : Survives exec I Q p st) (h' : Survives exec I' Q' p st) :
    Survives exec (fun st => I st ∧ I' st) (fun r st => Q r st ∧ Q' r st) p st := by
  induction p generalizing st with
  | ret a =>
      exact ⟨h, h'⟩
  | raise e =>
      exact ⟨h, h'⟩
  | step s k ih =>
      exact fun i => ⟨⟨(h i).1, (h' i).1⟩, ih _ (h i).2 (h' i).2⟩

/-- An outside that decides less is survived as well. -/
theorem restrict {exec' : Effect S Ans σ κ} {Q : Except ε α → σ → Prop}
    {p : Prog S Ans ε α} {st : σ}
    (h : Survives exec I Q p st)
    (hless : ∀ s i st, ∃ j, exec' s i st = exec s j st) :
    Survives exec' I Q p st := by
  induction p generalizing st with
  | ret a =>
      exact h
  | raise e =>
      exact h
  | step s k ih =>
      intro i
      obtain ⟨j, hj⟩ := hless s i st
      rw [hj]
      exact ⟨(h j).1, ih _ (h j).2⟩

/-- A program ends somewhere. -/
theorem elim [Nonempty ι] {p : Prog S Ans ε α} {st : σ}
    (h : Survives exec I (fun _ _ => False) p st) : False := by
  induction p generalizing st with
  | ret a =>
      exact h
  | raise e =>
      exact h
  | step s k ih =>
      exact ih _ (h (Classical.arbitrary ι)).2

/-- The rule for `try`: the handler takes over wherever the program ends. -/
theorem finish {Q : Except ε α → σ → Prop} {R : Except ε' β → σ → Prop}
    {p : Prog S Ans ε α} {f : Except ε α → Prog S Ans ε' β} {st : σ}
    (h : Survives exec I Q p st)
    (hf : ∀ r st, Q r st → Survives exec I R (f r) st) :
    Survives exec I R (p.finish f) st := by
  induction p generalizing st with
  | ret a =>
      exact hf _ _ h
  | raise e =>
      exact hf _ _ h
  | step s k ih =>
      exact fun i => ⟨(h i).1, ih _ (h i).2⟩

/-- The rule for sequential composition. -/
theorem bind {Q : Except ε α → σ → Prop} {R : Except ε β → σ → Prop}
    {p : Prog S Ans ε α} {f : α → Prog S Ans ε β} {st : σ}
    (h : Survives exec I Q p st)
    (hok : ∀ a st, Q (.ok a) st → Survives exec I R (f a) st)
    (herr : ∀ e st, Q (.error e) st → R (.error e) st) :
    Survives exec I R (p >>= f) st := by
  induction p generalizing st with
  | ret a =>
      exact hok _ _ h
  | raise e =>
      exact herr _ _ h
  | step s k ih =>
      exact fun i => ⟨(h i).1, ih _ (h i).2⟩

/-- A life ends in a state that meets the crash condition. -/
theorem live {Q : Except ε α → σ → Prop} {p : Prog S Ans ε α} {st : σ}
    (h : Survives exec I Q p st)
    (hst : I st) (inputs : List ι) :
    I (Machine.live exec p inputs st) := by
  induction inputs generalizing p st with
  | nil =>
      cases p <;> exact hst
  | cons i rest ih =>
      cases p with
      | ret a => exact hst
      | raise e => exact hst
      | step s k => exact ih (h i).2 (h i).1

/-- A life that is not killed ends where `Q` holds. -/
theorem ending {Q : Except ε α → σ → Prop} {p : Prog S Ans ε α} {st st' : σ}
    (h : Survives exec I Q p st)
    {inputs : List ι} {r : Except ε α}
    (hend : Machine.ending exec p inputs st = some (r, st')) :
    Q r st' := by
  induction inputs generalizing p st with
  | nil =>
      cases p <;> cases hend <;> exact h
  | cons i rest ih =>
      cases p with
      | ret a => cases hend; exact h
      | raise e => cases hend; exact h
      | step s k => exact ih (h i).2 hend

/-- **The rule for restarts.** -/
theorem sessions {Q : Except ε α → σ → Prop} {p : Prog S Ans ε α}
    (h : ∀ st, I st → Survives exec I Q p st)
    {st : σ} (hst : I st) (inputs : List (List ι)) :
    I (lives exec p st inputs) := by
  induction inputs generalizing st with
  | nil =>
      exact hst
  | cons first rest ih =>
      exact ih ((h st hst).live hst first)

end Survives

end Durable

/-! ## Threads of one process -/

section Lists

variable {α β : Type*}

theorem forall₂_getElem? {R : α → β → Prop} {xs : List α} {ys : List β}
    (h : List.Forall₂ R xs ys) {i : Nat} {x : α}
    (hx : xs[i]? = some x) :
    ∃ y, ys[i]? = some y ∧ R x y := by
  induction h generalizing i with
  | nil =>
      cases hx
  | @cons a b as bs hab _ ih =>
      cases i with
      | zero =>
          cases hx
          exact ⟨b, rfl, hab⟩
      | succ i =>
          exact ih hx

theorem forall₂_set {R : α → β → Prop} {xs : List α} {ys : List β}
    (h : List.Forall₂ R xs ys) (i : Nat) {x : α} {y : β}
    (hxy : R x y) :
    List.Forall₂ R (xs.set i x) (ys.set i y) := by
  induction h generalizing i with
  | nil =>
      exact .nil
  | cons hab hrest ih =>
      cases i with
      | zero =>
          exact .cons hxy hrest
      | succ i =>
          exact .cons hab (ih i)

end Lists

section Threads

variable {S : Type u}
variable {Ans : S → Type u}
variable {ε α σ ι L : Type u}

/-- Thread `i` performs its next statement; one that has ended stays as it is. -/
def runThread (exec : Effect S Ans σ ι) (i : Nat) (input : ι)
    (threads : List (Prog S Ans ε α)) (sh : σ) : List (Prog S Ans ε α) × σ :=
  match threads[i]? with
  | some (.step s k) => (threads.set i (k (exec s input sh).1), (exec s input sh).2)
  | _ => (threads, sh)

theorem runThread_cases (exec : Effect S Ans σ ι) (i : Nat) (input : ι)
    (threads : List (Prog S Ans ε α)) (sh : σ) :
    runThread exec i input threads sh = (threads, sh) ∨
      ∃ s k, threads[i]? = some (.step s k) ∧
        runThread exec i input threads sh =
          (threads.set i (k (exec s input sh).1), (exec s input sh).2) := by
  unfold runThread
  split
  · rename_i s k h
    exact Or.inr ⟨s, k, h, rfl⟩
  · exact Or.inl rfl

/-- Every thread keeps to the protocol from its local state. -/
def Staffed (P : Protocol S Ans L) (Q : L → Except ε α → Prop)
    (locals : List L) (threads : List (Prog S Ans ε α)) : Prop :=
  List.Forall₂ (fun prog l => Obeys P Q prog l) threads locals

/-- **The rule for one statement of one thread.** -/
theorem runThread_staffed
    {exec : Effect S Ans σ ι}
    {P : Protocol S Ans L}
    {Q : L → Except ε α → Prop}
    {Inv : List L → σ → Prop}
    {locals : List L} {threads : List (Prog S Ans ε α)} {sh : σ} {i : Nat} {input : ι}
    (hexec : ∀ s k l, threads[i]? = some (.step s k) → locals[i]? = some l →
      P.allow l s →
        P.answers l s (exec s input sh).1 ∧
          Inv (locals.set i (P.next l s (exec s input sh).1)) (exec s input sh).2)
    (hstaffed : Staffed P Q locals threads)
    (hinv : Inv locals sh) :
    ∃ locals', Staffed P Q locals' (runThread exec i input threads sh).1 ∧
      Inv locals' (runThread exec i input threads sh).2 := by
  rcases runThread_cases exec i input threads sh with heq | ⟨s, k, hi, heq⟩
  · rw [heq]
    exact ⟨locals, hstaffed, hinv⟩
  · obtain ⟨l, hl, hallow, hnext⟩ := forall₂_getElem? hstaffed hi
    obtain ⟨hanswers, hinv'⟩ := hexec s k l hi hl hallow
    rw [heq]
    exact ⟨_, forall₂_set hstaffed i (hnext _ hanswers), hinv'⟩

end Threads

end Machine
end SwFactory
