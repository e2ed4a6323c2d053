import SwFactory.Machine.Interaction

/-!
# What a process knows about the shared state

Between two statements of a process any other process may act, so a process can
rely only on facts that no statement destroys.  A `Contract` says what holds of
the shared state at all times, what must hold where a statement is performed,
which lasting fact its answer tells, and what the answer says about the moment
it was given.  `Contract.Triple` says of a program that the facts it has been
told entail the preconditions of the statements it performs; the rules follow
the shape of the program.

`Sound.run` is the rule for the system: if every statement keeps the contract
and no statement destroys a fact that another one has told, programs that are
correct alone keep the invariant in every interleaving.
-/

namespace SwFactory
namespace Machine

universe u

section Statements

variable {S : Type u}
variable {Ans : S → Type u}
variable {ε α β : Type u}

/-- The program performs statements of one kind only. -/
def Prog.Only (allowed : S → Prop) : Prog S Ans ε α → Prop
  | .ret _ => True
  | .raise _ => True
  | .step s k => allowed s ∧ ∀ a, Prog.Only allowed (k a)

theorem Prog.Only.bind {allowed : S → Prop} {p : Prog S Ans ε α}
    {f : α → Prog S Ans ε β} (hp : p.Only allowed)
    (hf : ∀ a, (f a).Only allowed) : (p >>= f).Only allowed := by
  induction p with
  | ret a => exact hf a
  | raise e => trivial
  | step s k ih => exact ⟨hp.1, fun a => ih a (hp.2 a)⟩

theorem Prog.Only.mono {allowed allowed' : S → Prop} {p : Prog S Ans ε α}
    (hp : p.Only allowed) (h : ∀ s, allowed s → allowed' s) :
    p.Only allowed' := by
  induction p with
  | ret a => trivial
  | raise e => trivial
  | step s k ih => exact ⟨h s hp.1, fun a => ih a (hp.2 a)⟩

theorem Prog.Only.finish {ε' : Type u} {allowed : S → Prop}
    {p : Prog S Ans ε α} {f : Except ε α → Prog S Ans ε' β}
    (hp : p.Only allowed) (hf : ∀ r, (f r).Only allowed) :
    (p.finish f).Only allowed := by
  induction p with
  | ret a => exact hf (.ok a)
  | raise e => exact hf (.error e)
  | step s k ih => exact ⟨hp.1, fun a => ih a (hp.2 a)⟩

theorem Prog.Only.ofExcept {allowed : S → Prop} {x : Except ε α} :
    (Prog.ofExcept x : Prog S Ans ε α).Only allowed := by
  cases x <;> trivial

end Statements

/-- An invariant, the precondition of every statement, and what answers tell. -/
structure Contract (S : Type u) (Ans : S → Type u) (σ : Type u) where
  good : σ → Prop
  pre : S → σ → Prop
  tells : (s : S) → Ans s → σ → Prop
  /-- What an answer says about the state that the statement was performed in. -/
  reveals : (s : S) → Ans s → σ → Prop := fun _ _ _ => True

namespace Contract

variable {S : Type u}
variable {Ans : S → Type u}
variable {ε ε' α β σ ι : Type u}

/-- The facts a process has been told are its local state. -/
def protocol (C : Contract S Ans σ) : Protocol S Ans (σ → Prop) where
  allow known s := ∀ sh, C.good sh → known sh → C.pre s sh
  answers known s a := ∃ sh, C.good sh ∧ known sh ∧ C.reveals s a sh
  next known s a := fun sh => known sh ∧ C.tells s a sh

/--
A program that starts with the knowledge `known` performs no statement outside
of its precondition, and knows `R` where it ends.
-/
def Triple
    (C : Contract S Ans σ)
    (known : σ → Prop)
    (p : Prog S Ans ε α)
    (R : Except ε α → σ → Prop) : Prop :=
  Obeys C.protocol
    (fun known' r => ∀ sh, C.good sh → known' sh → R r sh) p known

variable {C : Contract S Ans σ}
variable {known known' : σ → Prop}

theorem Triple.ret {a : α} {R : Except ε α → σ → Prop}
    (h : ∀ sh, C.good sh → known sh → R (.ok a) sh) :
    C.Triple known (.ret a) R :=
  h

theorem Triple.raise {e : ε} {R : Except ε α → σ → Prop}
    (h : ∀ sh, C.good sh → known sh → R (.error e) sh) :
    C.Triple known (.raise e) R :=
  h

/-- The answer was given in some state that the process knows about. -/
theorem Triple.step_said {s : S} {k : Ans s → Prog S Ans ε α}
    {R : Except ε α → σ → Prop}
    (hpre : ∀ sh, C.good sh → known sh → C.pre s sh)
    (hk : ∀ a, (∃ sh, C.good sh ∧ known sh ∧ C.reveals s a sh) →
      C.Triple (fun sh => known sh ∧ C.tells s a sh) (k a) R) :
    C.Triple known (.step s k) R :=
  ⟨hpre, hk⟩

theorem Triple.step {s : S} {k : Ans s → Prog S Ans ε α}
    {R : Except ε α → σ → Prop}
    (hpre : ∀ sh, C.good sh → known sh → C.pre s sh)
    (hk : ∀ a, C.Triple (fun sh => known sh ∧ C.tells s a sh) (k a) R) :
    C.Triple known (.step s k) R :=
  Triple.step_said hpre (fun a _ => hk a)

/-- More knowledge does no harm, and less may be concluded. -/
theorem Triple.mono {p : Prog S Ans ε α} {R R' : Except ε α → σ → Prop}
    (h : C.Triple known p R)
    (hknown : ∀ sh, C.good sh → known' sh → known sh)
    (hpost : ∀ r sh, C.good sh → known' sh → R r sh → R' r sh) :
    C.Triple known' p R' := by
  induction p generalizing known known' with
  | ret a =>
      intro sh hgood hknown'
      exact hpost _ sh hgood hknown' (h sh hgood (hknown sh hgood hknown'))
  | raise e =>
      intro sh hgood hknown'
      exact hpost _ sh hgood hknown' (h sh hgood (hknown sh hgood hknown'))
  | step s k ih =>
      apply Triple.step_said
      · intro sh hgood hknown'
        exact h.1 sh hgood (hknown sh hgood hknown')
      · rintro a ⟨sh, hgood, hknown', hreveals⟩
        apply ih a (h.2 a ⟨sh, hgood, hknown sh hgood hknown', hreveals⟩)
        · rintro sh hgood ⟨hknown', htold⟩
          exact ⟨hknown sh hgood hknown', htold⟩
        · rintro r sh hgood ⟨hknown', -⟩
          exact hpost r sh hgood hknown'

/-- What a program knows before, it knows wherever it goes on. -/
theorem Triple.finish {p : Prog S Ans ε α}
    {f : Except ε α → Prog S Ans ε' β}
    {R : Except ε α → σ → Prop} {T : Except ε' β → σ → Prop}
    (hp : C.Triple known p R)
    (hf : ∀ r, C.Triple (fun sh => known sh ∧ R r sh) (f r) T) :
    C.Triple known (p.finish f) T := by
  -- `told` is the part of the knowledge that the program began with
  have hgen : ∀ (told : σ → Prop), (∀ sh, C.good sh → known sh → told sh) →
      (∀ r, C.Triple (fun sh => told sh ∧ R r sh) (f r) T) →
      C.Triple known (p.finish f) T := by
    clear hf
    intro told htold hf
    induction p generalizing known with
    | ret a =>
        apply (hf (.ok a)).mono
        · exact fun sh hgood hknown => ⟨htold sh hgood hknown, hp sh hgood hknown⟩
        · exact fun r sh _ _ hT => hT
    | raise e =>
        apply (hf (.error e)).mono
        · exact fun sh hgood hknown => ⟨htold sh hgood hknown, hp sh hgood hknown⟩
        · exact fun r sh _ _ hT => hT
    | step s k ih =>
        apply Triple.step_said hp.1
        intro a hsaid
        apply ih a (hp.2 a hsaid)
        rintro sh hgood ⟨hknown, -⟩
        exact htold sh hgood hknown
  exact hgen known (fun sh _ hknown => hknown) hf

/-- **Sequential composition.** -/
theorem Triple.bind {p : Prog S Ans ε α} {f : α → Prog S Ans ε β}
    {R : Except ε α → σ → Prop} {T : Except ε β → σ → Prop}
    (hp : C.Triple known p R)
    (hok : ∀ a, C.Triple (fun sh => known sh ∧ R (.ok a) sh) (f a) T)
    (herr : ∀ e sh, C.good sh → known sh → R (.error e) sh → T (.error e) sh) :
    C.Triple known (p >>= f) T := by
  rw [Prog.bind_eq_finish]
  apply Triple.finish hp
  intro r
  cases r with
  | ok a =>
      exact hok a
  | error e =>
      exact Triple.raise (fun sh hgood h => herr e sh hgood h.1 h.2)

/-- A program that performs no statement outside of its precondition. -/
def Safe (C : Contract S Ans σ) (known : σ → Prop) (p : Prog S Ans ε α) : Prop :=
  C.Triple known p (fun _ _ => True)

theorem Triple.safe {p : Prog S Ans ε α} {R : Except ε α → σ → Prop}
    (h : C.Triple known p R) : C.Safe known p :=
  h.mono (fun _ _ hknown => hknown) (fun _ _ _ _ _ => trivial)

theorem Safe.ret {a : α} : C.Safe known (.ret a : Prog S Ans ε α) :=
  fun _ _ _ => trivial

theorem Safe.raise {e : ε} : C.Safe known (.raise e : Prog S Ans ε α) :=
  fun _ _ _ => trivial

theorem Safe.ofExcept {x : Except ε α} :
    C.Safe known (.ofExcept x : Prog S Ans ε α) := by
  cases x with
  | ok a => exact Safe.ret
  | error e => exact Safe.raise

theorem Safe.step {s : S} {k : Ans s → Prog S Ans ε α}
    (hpre : ∀ sh, C.good sh → known sh → C.pre s sh)
    (hk : ∀ a, C.Safe (fun sh => known sh ∧ C.tells s a sh) (k a)) :
    C.Safe known (.step s k) :=
  Triple.step hpre hk

/-- Statements whose precondition always holds need no knowledge. -/
theorem Safe.of_only {allowed : S → Prop} {p : Prog S Ans ε α}
    (hallowed : ∀ s, allowed s → ∀ sh, C.good sh → C.pre s sh)
    (hp : p.Only allowed) : C.Safe known p := by
  induction p generalizing known with
  | ret a => exact Safe.ret
  | raise e => exact Safe.raise
  | step s k ih =>
      apply Safe.step
      · exact fun sh hgood _ => hallowed s hp.1 sh hgood
      · exact fun a => ih a (hp.2 a)

/-- A program that cannot be reached. -/
theorem Safe.absurd {p : Prog S Ans ε α}
    (h : ∀ sh, C.good sh → known sh → False) : C.Safe known p := by
  induction p generalizing known with
  | ret a => exact Safe.ret
  | raise e => exact Safe.raise
  | step s k ih =>
      apply Safe.step
      · exact fun sh hgood hknown => (h sh hgood hknown).elim
      · exact fun a => ih a (fun sh hgood hknown => h sh hgood hknown.1)

theorem Safe.weaken {p : Prog S Ans ε α}
    (h : C.Safe known p)
    (hknown : ∀ sh, C.good sh → known' sh → known sh) :
    C.Safe known' p :=
  h.mono hknown (fun _ _ _ _ _ => trivial)

theorem Safe.bind {p : Prog S Ans ε α} {f : α → Prog S Ans ε β}
    (hp : C.Safe known p) (hf : ∀ a, C.Safe known (f a)) :
    C.Safe known (p >>= f) :=
  Triple.bind hp (fun a => (hf a).weaken (fun _ _ h => h.1))
    (fun _ _ _ _ _ => trivial)

theorem Safe.finish {p : Prog S Ans ε α} {f : Except ε α → Prog S Ans ε' β}
    (hp : C.Safe known p) (hf : ∀ r, C.Safe known (f r)) :
    C.Safe known (p.finish f) :=
  Triple.finish hp
    (fun r => (hf r).weaken (fun _ _ h => h.1))

/-- A safe program that knows `Q` of the value it returns. -/
def Gives (C : Contract S Ans σ) (known : σ → Prop) (p : Prog S Ans ε α)
    (Q : α → σ → Prop) : Prop :=
  C.Triple known p (fun r sh => ∀ a, r = .ok a → Q a sh)

theorem Gives.ret {a : α} {Q : α → σ → Prop}
    (h : ∀ sh, C.good sh → known sh → Q a sh) :
    C.Gives known (.ret a : Prog S Ans ε α) Q := by
  rintro sh hgood hknown _ ⟨⟩
  exact h sh hgood hknown

theorem Gives.raise {e : ε} {Q : α → σ → Prop} :
    C.Gives known (.raise e : Prog S Ans ε α) Q := by
  rintro sh - - a ⟨⟩

theorem Gives.ofExcept {x : Except ε α} {Q : α → σ → Prop}
    (h : ∀ a, x = .ok a → ∀ sh, C.good sh → known sh → Q a sh) :
    C.Gives known (.ofExcept x : Prog S Ans ε α) Q := by
  cases x with
  | ok a => exact Gives.ret (h a rfl)
  | error e => exact Gives.raise

theorem Gives.step {s : S} {k : Ans s → Prog S Ans ε α} {Q : α → σ → Prop}
    (hpre : ∀ sh, C.good sh → known sh → C.pre s sh)
    (hk : ∀ a, C.Gives (fun sh => known sh ∧ C.tells s a sh) (k a) Q) :
    C.Gives known (.step s k) Q :=
  Triple.step hpre hk

theorem Gives.step_said {s : S} {k : Ans s → Prog S Ans ε α}
    {Q : α → σ → Prop}
    (hpre : ∀ sh, C.good sh → known sh → C.pre s sh)
    (hk : ∀ a, (∃ sh, C.good sh ∧ known sh ∧ C.reveals s a sh) →
      C.Gives (fun sh => known sh ∧ C.tells s a sh) (k a) Q) :
    C.Gives known (.step s k) Q :=
  Triple.step_said hpre hk

theorem Gives.weaken {p : Prog S Ans ε α} {Q Q' : α → σ → Prop}
    (h : C.Gives known p Q)
    (hknown : ∀ sh, C.good sh → known' sh → known sh)
    (hpost : ∀ a sh, C.good sh → known' sh → Q a sh → Q' a sh) :
    C.Gives known' p Q' :=
  h.mono hknown
    (fun _ sh hgood hknown' hQ a ha => hpost a sh hgood hknown' (hQ a ha))

theorem Gives.safe {p : Prog S Ans ε α} {Q : α → σ → Prop}
    (h : C.Gives known p Q) : C.Safe known p :=
  Triple.safe h

/-- A safe program still knows what it knew before. -/
theorem Safe.gives {p : Prog S Ans ε α} {Q : α → σ → Prop}
    (h : C.Safe known p) (hQ : ∀ a sh, C.good sh → known sh → Q a sh) :
    C.Gives known p Q :=
  h.mono (fun _ _ hknown => hknown)
    (fun _ sh hgood hknown _ a _ => hQ a sh hgood hknown)

theorem Gives.bind {p : Prog S Ans ε α} {f : α → Prog S Ans ε β}
    {Q : α → σ → Prop} {T : β → σ → Prop}
    (hp : C.Gives known p Q)
    (hf : ∀ a, C.Gives (fun sh => known sh ∧ Q a sh) (f a) T) :
    C.Gives known (p >>= f) T := by
  refine Triple.bind hp (fun a => ?_) (fun e sh _ _ _ b hb => by cases hb)
  exact Triple.mono (hf a) (fun sh _ h => ⟨h.1, h.2 a rfl⟩)
    (fun _ _ _ _ hT => hT)

/-- The second program starts from what the first one knows at its end. -/
theorem Gives.bind_safe {p : Prog S Ans ε α} {f : α → Prog S Ans ε β}
    {Q : α → σ → Prop}
    (hp : C.Gives known p Q)
    (hf : ∀ a, C.Safe (fun sh => known sh ∧ Q a sh) (f a)) :
    C.Safe known (p >>= f) :=
  (Gives.bind hp (fun a => (hf a).gives (fun _ _ _ _ => trivial))).safe

theorem Safe.bind_gives {p : Prog S Ans ε α} {f : α → Prog S Ans ε β}
    {T : β → σ → Prop}
    (hp : C.Safe known p) (hf : ∀ a, C.Gives known (f a) T) :
    C.Gives known (p >>= f) T :=
  Gives.bind (hp.gives (fun _ _ _ hknown => hknown))
    (fun a => (hf a).weaken (fun _ _ h => h.1) (fun _ _ _ _ hT => hT))

/-- Two contracts at once. -/
def both (C D : Contract S Ans σ) : Contract S Ans σ where
  good sh := C.good sh ∧ D.good sh
  pre s sh := C.pre s sh ∧ D.pre s sh
  tells s a sh := C.tells s a sh ∧ D.tells s a sh
  reveals s a sh := C.reveals s a sh ∧ D.reveals s a sh

/-- A program that keeps to each of two contracts keeps to both. -/
theorem Safe.both {D : Contract S Ans σ} {p : Prog S Ans ε α}
    (hC : C.Safe known p) (hD : D.Safe known' p) :
    (C.both D).Safe (fun sh => known sh ∧ known' sh) p := by
  induction p generalizing known known' with
  | ret a => exact Safe.ret
  | raise e => exact Safe.raise
  | step s k ih =>
      apply Triple.step_said
      · rintro sh ⟨hgood, hgood'⟩ ⟨hknown, hknown'⟩
        exact ⟨hC.1 sh hgood hknown, hD.1 sh hgood' hknown'⟩
      · rintro a ⟨sh, ⟨hgood, hgood'⟩, ⟨hknown, hknown'⟩, hsaid, hsaid'⟩
        apply (ih a (hC.2 a ⟨sh, hgood, hknown, hsaid⟩)
          (hD.2 a ⟨sh, hgood', hknown', hsaid'⟩)).weaken
        rintro sh - ⟨⟨h, h'⟩, htold, htold'⟩
        exact ⟨⟨h, htold⟩, h', htold'⟩

section Systems

variable (C)
variable (sys : System S Ans σ ι)
variable (cond : Nat → S → σ → Prop)

/-- No allowed statement, and no stop of a process, destroys the fact. -/
structure Stable (fact : σ → Prop) : Prop where
  exec : ∀ sh p s i, C.good sh → C.pre s sh → cond p s sh →
    fact sh → fact (sys.exec p s i sh).2
  crash : ∀ sh p, C.good sh → fact sh → fact (sys.crash p sh)

/-- The system keeps the contract where its statements meet `cond`. -/
structure Sound : Prop where
  keeps : ∀ sh p s i, C.good sh → C.pre s sh → cond p s sh →
    C.good (sys.exec p s i sh).2
  crash : ∀ sh p, C.good sh → C.good (sys.crash p sh)
  told : ∀ sh p s i, C.good sh → C.pre s sh → cond p s sh →
    C.tells s (sys.exec p s i sh).1 (sys.exec p s i sh).2
  revealed : ∀ sh p s i, C.good sh → C.pre s sh → cond p s sh →
    C.reveals s (sys.exec p s i sh).1 sh
  stable : ∀ s a, C.Stable sys cond (C.tells s a)

/-- The invariant holds, and what the processes know is true and lasting. -/
def Informed (loc : Nat → σ → Prop) (sh : σ) : Prop :=
  C.good sh ∧ ∀ p, loc p sh ∧ C.Stable sys cond (loc p)

variable {sys C cond}

theorem Stable.and {f g : σ → Prop}
    (hf : C.Stable sys cond f) (hg : C.Stable sys cond g) :
    C.Stable sys cond (fun sh => f sh ∧ g sh) where
  exec := fun sh p s i hgood hpre hcond h =>
    ⟨hf.exec sh p s i hgood hpre hcond h.1, hg.exec sh p s i hgood hpre hcond h.2⟩
  crash := fun sh p hgood h => ⟨hf.crash sh p hgood h.1, hg.crash sh p hgood h.2⟩

/-- A fact that is not about the shared state. -/
theorem Stable.const (P : Prop) : C.Stable sys cond (fun _ => P) where
  exec := fun _ _ _ _ _ _ _ h => h
  crash := fun _ _ _ h => h

theorem Stable.imp {P : Prop} {f : σ → Prop}
    (hf : P → C.Stable sys cond f) :
    C.Stable sys cond (fun sh => P → f sh) where
  exec := fun sh p s i hgood hpre hcond h hP =>
    (hf hP).exec sh p s i hgood hpre hcond (h hP)
  crash := fun sh p hgood h hP => (hf hP).crash sh p hgood (h hP)

theorem Stable.all {κ : Sort*} {f : κ → σ → Prop}
    (hf : ∀ k, C.Stable sys cond (f k)) :
    C.Stable sys cond (fun sh => ∀ k, f k sh) where
  exec := fun sh p s i hgood hpre hcond h k =>
    (hf k).exec sh p s i hgood hpre hcond (h k)
  crash := fun sh p hgood h k => (hf k).crash sh p hgood (h k)

theorem Sound.exec_informed (h : C.Sound sys cond)
    {loc : Nat → σ → Prop} {sh : σ} {p : Nat} {s : S} {i : ι}
    (hinv : C.Informed sys cond loc sh)
    (hallow : C.protocol.allow (loc p) s) (hcond : cond p s sh) :
    C.Informed sys cond
      (Function.update loc p (C.protocol.next (loc p) s (sys.exec p s i sh).1))
      (sys.exec p s i sh).2 := by
  obtain ⟨hgood, hloc⟩ := hinv
  have hpre := hallow sh hgood (hloc p).1
  refine ⟨h.keeps sh p s i hgood hpre hcond, fun q => ?_⟩
  have hlast : ∀ q, loc q (sys.exec p s i sh).2 :=
    fun q => (hloc q).2.exec sh p s i hgood hpre hcond (hloc q).1
  by_cases hq : q = p
  · subst hq
    rw [Function.update_self]
    exact ⟨⟨hlast q, h.told sh q s i hgood hpre hcond⟩,
      (hloc q).2.and (h.stable s _)⟩
  · rw [Function.update_of_ne hq]
    exact ⟨hlast q, (hloc q).2⟩

theorem Sound.exec_said (h : C.Sound sys cond)
    {loc : Nat → σ → Prop} {sh : σ} {p : Nat} {s : S} {i : ι}
    (hinv : C.Informed sys cond loc sh)
    (hallow : C.protocol.allow (loc p) s) (hcond : cond p s sh) :
    C.protocol.answers (loc p) s (sys.exec p s i sh).1 := by
  obtain ⟨hgood, hloc⟩ := hinv
  have hpre := hallow sh hgood (hloc p).1
  exact ⟨sh, hgood, (hloc p).1, h.revealed sh p s i hgood hpre hcond⟩

theorem Sound.crash_informed (h : C.Sound sys cond)
    {loc : Nat → σ → Prop} {sh : σ} (p : Nat)
    (hinv : C.Informed sys cond loc sh) :
    C.Informed sys cond loc (sys.crash p sh) := by
  obtain ⟨hgood, hloc⟩ := hinv
  exact ⟨h.crash sh p hgood,
    fun q => ⟨(hloc q).2.crash sh p hgood (hloc q).1, (hloc q).2⟩⟩

/--
**The rule of the contract.**  Programs that are safe alone keep the invariant
in every state of every run whose statements meet `cond`.
-/
theorem Sound.run (h : C.Sound sys cond)
    {c : Config S Ans ε α σ} {ms : List (Move ι)}
    (hgood : C.good c.shared)
    (hprocs : ∀ p prog, c.procs p = .running prog → C.Safe (fun _ => True) prog)
    (hms : AlongRun sys.step (Machine.Performs cond) c ms) :
    EveryState sys.step (fun c => C.good c.shared) c ms := by
  have hstart : Composed C.protocol
      (fun known' (_ : Except ε α) => ∀ sh, C.good sh → known' sh → True)
      (C.Informed sys cond) c := by
    refine ⟨fun _ _ => True, ⟨hgood, fun _ => ⟨trivial, Stable.const True⟩⟩, fun p => ?_⟩
    cases hp : c.procs p with
    | crashed => trivial
    | running prog => exact hprocs p prog hp
  have hrun := sys.composition
    (fun loc sh p s i hinv hallow hcond =>
      ⟨h.exec_said hinv hallow hcond, h.exec_informed hinv hallow hcond⟩)
    (fun loc sh p hinv => h.crash_informed p hinv) hstart hms
  rw [everyState_iff] at hrun ⊢
  intro pre post heq
  obtain ⟨loc, hinv, -⟩ := hrun pre post heq
  exact hinv.1

end Systems

end Contract

end Machine
end SwFactory
