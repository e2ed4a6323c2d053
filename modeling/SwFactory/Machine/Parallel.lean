import SwFactory.Machine.Durable
import Mathlib.Data.List.Forall2

/-!
# Programs that fork and join

`Prog.all` runs programs side by side until each has ended: a statement of its
own asks the outside who is next.  `Secure` is a weakest precondition with a
rely and a guarantee.  Between any two statements the others may do what the
rely `R` permits, every statement the outside performs within `allow` is one
that the guarantee `G` permits, and `Q` holds where the program ends.  Programs
run side by side when each of them guarantees what the others rely on.
-/

namespace SwFactory
namespace Machine

universe u

variable {S S' : Type u}
variable {Ans : S → Type u}
variable {Ans' : S' → Type u}
variable {ε ε' α β σ σ' ι ι' : Type u}

/-! ## Side by side -/

section Forks

variable (turn : S) (first : Ans turn → Bool)

/-- The left program is about to perform `s`, with the rest `rest`. -/
def Prog.beside (s : S)
    (rest : Ans s → Prog S Ans ε β → Prog S Ans ε' (Except ε α × Except ε β)) :
    Prog S Ans ε β → Prog S Ans ε' (Except ε α × Except ε β)
  | .ret b => .step s (fun a => rest a (.ret b))
  | .raise e => .step s (fun a => rest a (.raise e))
  | .step s' k =>
      .step turn (fun t =>
        if first t then
          .step s (fun a => rest a (.step s' k))
        else
          .step s' (fun a => beside s rest (k a)))

/-- Two programs side by side, until both have ended. -/
def Prog.both : Prog S Ans ε α → Prog S Ans ε β →
    Prog S Ans ε' (Except ε α × Except ε β)
  | .ret a => fun q => q.finish (fun r => .ret (.ok a, r))
  | .raise e => fun q => q.finish (fun r => .ret (.error e, r))
  | .step s k => Prog.beside turn first s (fun a => both (k a))

/-- The result of the first program in front of the results of the others. -/
def gather : Except ε (Except ε α × Except ε (List (Except ε α))) →
    Except ε (List (Except ε α))
  | .ok (r, .ok rest) => .ok (r :: rest)
  | .ok (_, .error e) => .error e
  | .error e => .error e

/-- The programs side by side, with what each of them ended with. -/
def Prog.all : List (Prog S Ans ε α) → Prog S Ans ε (List (Except ε α))
  | [] => .ret []
  | p :: ps => (Prog.both turn first p (all ps)).finish (fun out => .ofExcept (gather out))

end Forks

/-! ## Rely and guarantee -/

section Secure

/-- What a program guarantees to the others, and where it ends. -/
def Secure (exec : Effect S Ans σ ι) (allow : S → ι → σ → Prop) (R G : σ → σ → Prop)
    (Q : Except ε α → σ → Prop) : Prog S Ans ε α → σ → Prop
  | .ret a, st => ∀ st', R st st' → Q (.ok a) st'
  | .raise e, st => ∀ st', R st st' → Q (.error e) st'
  | .step s k, st =>
      ∀ st', R st st' → ∀ i, allow s i st' →
        G st' (exec s i st').2 ∧
          Secure exec allow R G Q (k (exec s i st').1) (exec s i st').2

namespace Secure

variable {exec : Effect S Ans σ ι} {allow : S → ι → σ → Prop}
variable {R G : σ → σ → Prop}

/-- What the others do beforehand does not matter. -/
theorem relied {Q : Except ε α → σ → Prop} {p : Prog S Ans ε α} {st st' : σ}
    (htrans : ∀ {a b c}, R a b → R b c → R a c)
    (h : Secure exec allow R G Q p st) (hst : R st st') :
    Secure exec allow R G Q p st' := by
  cases p with
  | ret a => exact fun st'' hst' => h st'' (htrans hst hst')
  | raise e => exact fun st'' hst' => h st'' (htrans hst hst')
  | step s k => exact fun st'' hst' => h st'' (htrans hst hst')

theorem mono {G' : σ → σ → Prop} {Q Q' : Except ε α → σ → Prop}
    {p : Prog S Ans ε α} {st : σ}
    (h : Secure exec allow R G Q p st)
    (hG : ∀ st st', G st st' → G' st st')
    (hQ : ∀ r st, Q r st → Q' r st) :
    Secure exec allow R G' Q' p st := by
  induction p generalizing st with
  | ret a => exact fun st' hst => hQ _ _ (h st' hst)
  | raise e => exact fun st' hst => hQ _ _ (h st' hst)
  | step s k ih =>
      intro st' hst i hi
      obtain ⟨hstep, hrest⟩ := h st' hst i hi
      exact ⟨hG _ _ hstep, ih _ hrest⟩

/-- What the others and the program preserve holds where the program ends. -/
theorem keep {Q : Except ε α → σ → Prop} {I : σ → Prop} {p : Prog S Ans ε α} {st : σ}
    (hR : ∀ st st', R st st' → I st → I st')
    (hG : ∀ st st', G st st' → I st → I st')
    (h : Secure exec allow R G Q p st) (hst : I st) :
    Secure exec allow R G (fun r st => I st ∧ Q r st) p st := by
  induction p generalizing st with
  | ret a => exact fun st' hst' => ⟨hR _ _ hst' hst, h st' hst'⟩
  | raise e => exact fun st' hst' => ⟨hR _ _ hst' hst, h st' hst'⟩
  | step s k ih =>
      intro st' hst' i hi
      obtain ⟨hstep, hrest⟩ := h st' hst' i hi
      exact ⟨hstep, ih _ hrest (hG _ _ hstep (hR _ _ hst' hst))⟩

/-- The rule for `try`: the handler takes over wherever the program ends. -/
theorem finish {Q : Except ε α → σ → Prop} {Q' : Except ε' β → σ → Prop}
    {p : Prog S Ans ε α} {f : Except ε α → Prog S Ans ε' β} {st : σ}
    (hrefl : ∀ st, R st st)
    (h : Secure exec allow R G Q p st)
    (hf : ∀ r st, Q r st → Secure exec allow R G Q' (f r) st) :
    Secure exec allow R G Q' (p.finish f) st := by
  induction p generalizing st with
  | ret a => exact hf _ _ (h st (hrefl st))
  | raise e => exact hf _ _ (h st (hrefl st))
  | step s k ih =>
      intro st' hst i hi
      obtain ⟨hstep, hrest⟩ := h st' hst i hi
      exact ⟨hstep, ih _ hrest⟩

/-- The rule for sequential composition. -/
theorem bind {Q : Except ε α → σ → Prop} {Q' : Except ε β → σ → Prop}
    {p : Prog S Ans ε α} {f : α → Prog S Ans ε β} {st : σ}
    (hrefl : ∀ st, R st st)
    (h : Secure exec allow R G Q p st)
    (hok : ∀ a st, Q (.ok a) st → Secure exec allow R G Q' (f a) st)
    (herr : ∀ e st, Q (.error e) st → Q' (.error e) st) :
    Secure exec allow R G Q' (p >>= f) st := by
  induction p generalizing st with
  | ret a => exact hok _ _ (h st (hrefl st))
  | raise e => exact fun st' hst => herr _ _ (h st' hst)
  | step s k ih =>
      intro st' hst i hi
      obtain ⟨hstep, hrest⟩ := h st' hst i hi
      exact ⟨hstep, ih _ hrest⟩

/-- What a program ends with may be renamed. -/
theorem conclude {Q : Except ε α → σ → Prop} {Q' : Except ε' β → σ → Prop}
    {p : Prog S Ans ε α} {g : Except ε α → Except ε' β} {st : σ}
    (h : Secure exec allow R G Q p st)
    (hg : ∀ r st, Q r st → Q' (g r) st) :
    Secure exec allow R G Q' (p.finish (fun r => .ofExcept (g r))) st := by
  have hend : ∀ (r : Except ε α) (st : σ), (∀ st', R st st' → Q r st') →
      Secure exec allow R G Q' (.ofExcept (g r)) st := by
    intro r st hr
    have hg' : ∀ st', R st st' → Q' (g r) st' := fun st' hst => hg _ _ (hr st' hst)
    cases hr' : g r with
    | ok b => exact fun st' hst => hr' ▸ hg' st' hst
    | error e => exact fun st' hst => hr' ▸ hg' st' hst
  induction p generalizing st with
  | ret a => exact hend _ _ h
  | raise e => exact hend _ _ h
  | step s k ih =>
      intro st' hst i hi
      obtain ⟨hstep, hrest⟩ := h st' hst i hi
      exact ⟨hstep, ih _ hrest⟩

/-- The rule for one statement. -/
theorem perform {s : S} {Q : Except ε (Ans s) → σ → Prop} {st : σ}
    (h : ∀ st', R st st' → ∀ i, allow s i st' →
      G st' (exec s i st').2 ∧
        ∀ st'', R (exec s i st').2 st'' → Q (.ok (exec s i st').1) st'') :
    Secure exec allow R G Q (Prog.perform s) st :=
  h

/-! ## Side by side -/

section Forks

variable {turn : S} {first : Ans turn → Bool}
variable {R₁ R₂ G₁ G₂ : σ → σ → Prop}
variable {Q₁ : Except ε α → σ → Prop} {Q₂ : Except ε β → σ → Prop}

/-- Two guarantees at once: what one program does the other relies on. -/
structure Compatible (R R₁ R₂ G G₁ G₂ : σ → σ → Prop) : Prop where
  trans₁ : ∀ {a b c}, R₁ a b → R₁ b c → R₁ a c
  trans₂ : ∀ {a b c}, R₂ a b → R₂ b c → R₂ a c
  rely₁ : ∀ {a b}, R a b → R₁ a b
  rely₂ : ∀ {a b}, R a b → R₂ a b
  guarantee₁ : ∀ {a b}, G₁ a b → R₂ a b ∧ G a b
  guarantee₂ : ∀ {a b}, G₂ a b → R₁ a b ∧ G a b
  idle : ∀ a, G a a

/-- The first program has ended, and its result stands. -/
theorem alone (hcompat : Compatible R R₁ R₂ G G₁ G₂) {r : Except ε α}
    {q : Prog S Ans ε β} {st : σ}
    (hr : ∀ st', R₁ st st' → Q₁ r st')
    (hq : Secure exec allow R₂ G₂ Q₂ q st) :
    Secure exec allow R G (fun out st => ∃ r₁ r₂, out = .ok (r₁, r₂) ∧ Q₁ r₁ st ∧ Q₂ r₂ st)
      (q.finish (fun r' => (.ret (r, r') : Prog S Ans ε' (Except ε α × Except ε β)))) st := by
  induction q generalizing st with
  | ret b =>
      exact fun st' hst =>
        ⟨_, _, rfl, hr st' (hcompat.rely₁ hst), hq st' (hcompat.rely₂ hst)⟩
  | raise e =>
      exact fun st' hst =>
        ⟨_, _, rfl, hr st' (hcompat.rely₁ hst), hq st' (hcompat.rely₂ hst)⟩
  | step s k ih =>
      intro st' hst i hi
      obtain ⟨hstep, hrest⟩ := hq st' (hcompat.rely₂ hst) i hi
      obtain ⟨hrely, hguarantee⟩ := hcompat.guarantee₂ hstep
      refine ⟨hguarantee, ih _ (fun st'' hst' => hr st'' ?_) hrest⟩
      exact hcompat.trans₁ (hcompat.trans₁ (hcompat.rely₁ hst) hrely) hst'

/-- **The rule for two programs side by side.** -/
theorem both (hcompat : Compatible R R₁ R₂ G G₁ G₂)
    (hturn : ∀ i st, (exec turn i st).2 = st)
    {p : Prog S Ans ε α} {q : Prog S Ans ε β} {st : σ}
    (hp : Secure exec allow R₁ G₁ Q₁ p st)
    (hq : Secure exec allow R₂ G₂ Q₂ q st) :
    Secure exec allow R G (fun out st => ∃ r₁ r₂, out = .ok (r₁, r₂) ∧ Q₁ r₁ st ∧ Q₂ r₂ st)
      (Prog.both turn first p q : Prog S Ans ε' _) st := by
  induction p generalizing q st with
  | ret a => exact alone hcompat hp hq
  | raise e => exact alone hcompat hp hq
  | step s k ih =>
      -- the first program performs its statement, from any state the others leave
      have hleft : ∀ {q : Prog S Ans ε β} {st : σ},
          Secure exec allow R₁ G₁ Q₁ (.step s k) st → Secure exec allow R₂ G₂ Q₂ q st →
          Secure exec allow R G
            (fun out st => ∃ r₁ r₂, out = .ok (r₁, r₂) ∧ Q₁ r₁ st ∧ Q₂ r₂ st)
            (.step s (fun a => Prog.both turn first (k a) q) : Prog S Ans ε' _) st := by
        intro q st hp hq st' hst i hi
        obtain ⟨hstep, hrest⟩ := hp st' (hcompat.rely₁ hst) i hi
        obtain ⟨hrely, hguarantee⟩ := hcompat.guarantee₁ hstep
        exact ⟨hguarantee, ih _ hrest
          (hq.relied hcompat.trans₂ (hcompat.trans₂ (hcompat.rely₂ hst) hrely))⟩
      induction q generalizing st with
      | ret b => exact hleft hp hq
      | raise e => exact hleft hp hq
      | step s' k' ihq =>
          intro st' hst t ht
          rw [hturn]
          refine ⟨hcompat.idle st', ?_⟩
          have hp' : Secure exec allow R₁ G₁ Q₁ (.step s k) st' :=
            hp.relied hcompat.trans₁ (hcompat.rely₁ hst)
          have hq' : Secure exec allow R₂ G₂ Q₂ (.step s' k') st' :=
            hq.relied hcompat.trans₂ (hcompat.rely₂ hst)
          dsimp only
          split
          · exact hleft hp' hq'
          · intro st'' hst' i hi
            obtain ⟨hstep, hrest⟩ := hq' st'' (hcompat.rely₂ hst') i hi
            obtain ⟨hrely, hguarantee⟩ := hcompat.guarantee₂ hstep
            exact ⟨hguarantee, ihq _
              (hp'.relied hcompat.trans₁ (hcompat.trans₁ (hcompat.rely₁ hst') hrely)) hrest⟩

end Forks

/-- **The rule for many programs side by side.** -/
theorem all {κ : Type*} {turn : S} {first : Ans turn → Bool}
    {Rely Guarantee : κ → σ → σ → Prop} {Post : κ → Except ε α → σ → Prop}
    (hturn : ∀ i st, (exec turn i st).2 = st)
    (hrefl : ∀ x a, Rely x a a)
    (htrans : ∀ x {a b c}, Rely x a b → Rely x b c → Rely x a c)
    {xs : List κ}
    (hdistinct : xs.Pairwise (fun x y => ∀ a b,
      (Guarantee x a b → Rely y a b) ∧ (Guarantee y a b → Rely x a b)))
    {p : κ → Prog S Ans ε α} {st : σ}
    (hp : ∀ x ∈ xs, Secure exec allow (Rely x) (Guarantee x) (Post x) (p x) st) :
    Secure exec allow (fun a b => ∀ x ∈ xs, Rely x a b)
      (fun a b => a = b ∨ ∃ x ∈ xs, Guarantee x a b)
      (fun out st => ∃ rs, out = .ok rs ∧ List.Forall₂ (fun x r => Post x r st) xs rs)
      (Prog.all turn first (xs.map p)) st := by
  induction xs with
  | nil => exact fun st' _ => ⟨[], rfl, .nil⟩
  | cons x xs ih =>
      obtain ⟨hhead, htail⟩ := List.pairwise_cons.mp hdistinct
      have hothers := ih htail (fun y hy => hp y (List.mem_cons_of_mem _ hy))
      have hcompat : Compatible (fun a b => ∀ y ∈ x :: xs, Rely y a b)
          (Rely x) (fun a b => ∀ y ∈ xs, Rely y a b)
          (fun a b => a = b ∨ ∃ y ∈ x :: xs, Guarantee y a b)
          (Guarantee x) (fun a b => a = b ∨ ∃ y ∈ xs, Guarantee y a b) :=
        { trans₁ := htrans x
          trans₂ := fun hab hbc y hy => htrans y (hab y hy) (hbc y hy)
          rely₁ := fun h => h x List.mem_cons_self
          rely₂ := fun h y hy => h y (List.mem_cons_of_mem _ hy)
          guarantee₁ := fun h =>
            ⟨fun y hy => (hhead y hy _ _).1 h, Or.inr ⟨x, List.mem_cons_self, h⟩⟩
          guarantee₂ := by
            rintro a b (rfl | ⟨y, hy, h⟩)
            · exact ⟨hrefl x a, Or.inl rfl⟩
            · exact ⟨(hhead y hy _ _).2 h, Or.inr ⟨y, List.mem_cons_of_mem _ hy, h⟩⟩
          idle := fun a => Or.inl rfl }
      refine (both hcompat hturn (hp x List.mem_cons_self) hothers).conclude ?_
      rintro _ st ⟨r, _, rfl, hr, rs, rfl, hrs⟩
      exact ⟨r :: rs, rfl, .cons hr hrs⟩

/-! ## Whole lives -/

end Secure

end Secure

/-- One life, told by its inputs: what it ended with, if it did, and the state. -/
def play (exec : Effect S Ans σ ι) :
    Prog S Ans ε α → List ι → σ → Option (Except ε α) × σ
  | .ret a, _, st => (some (.ok a), st)
  | .raise e, _, st => (some (.error e), st)
  | .step _ _, [], st => (none, st)
  | .step s k, i :: rest, st => play exec (k (exec s i st).1) rest (exec s i st).2

/-- Every statement of the life is performed as `allow` permits. -/
def Allowed (exec : Effect S Ans σ ι) (allow : S → ι → σ → Prop) :
    Prog S Ans ε α → List ι → σ → Prop
  | .step s k, i :: rest, st =>
      allow s i st ∧ Allowed exec allow (k (exec s i st).1) rest (exec s i st).2
  | _, _, _ => True

theorem Allowed.of_forall {exec : Effect S Ans σ ι} {allow : S → ι → σ → Prop}
    (h : ∀ s i st, allow s i st) {p : Prog S Ans ε α} {inputs : List ι} {st : σ} :
    Allowed exec allow p inputs st := by
  induction inputs generalizing p st with
  | nil => cases p <;> trivial
  | cons i rest ih =>
      cases p with
      | ret a => trivial
      | raise e => trivial
      | step s k => exact ⟨h s i st, ih⟩

/-- What the guarantee preserves holds after a life, and `Q` where it ended. -/
theorem Secure.play {exec : Effect S Ans σ ι} {allow : S → ι → σ → Prop}
    {R G : σ → σ → Prop} {Q : Except ε α → σ → Prop} {I : σ → Prop}
    (hrefl : ∀ st, R st st)
    (hI : ∀ st st', G st st' → I st → I st')
    {p : Prog S Ans ε α} {inputs : List ι} {st : σ}
    (h : Secure exec allow R G Q p st)
    (hallowed : Allowed exec allow p inputs st)
    (hst : I st) :
    I (Machine.play exec p inputs st).2 ∧
      ∀ r, (Machine.play exec p inputs st).1 = some r → Q r (Machine.play exec p inputs st).2 := by
  induction inputs generalizing p st with
  | nil =>
      cases p with
      | ret a => exact ⟨hst, by rintro _ ⟨⟩; exact h st (hrefl st)⟩
      | raise e => exact ⟨hst, by rintro _ ⟨⟩; exact h st (hrefl st)⟩
      | step s k => exact ⟨hst, by rintro _ ⟨⟩⟩
  | cons i rest ih =>
      cases p with
      | ret a => exact ⟨hst, by rintro _ ⟨⟩; exact h st (hrefl st)⟩
      | raise e => exact ⟨hst, by rintro _ ⟨⟩; exact h st (hrefl st)⟩
      | step s k =>
          obtain ⟨hstep, hrest⟩ := h st (hrefl st) i hallowed.1
          exact ih hrest hallowed.2 (hI _ _ hstep hst)

/-- What every statement preserves holds after a life, and `Q` where it ended. -/
theorem Survives.play {exec : Effect S Ans σ ι} {I : σ → Prop} {Q : Except ε α → σ → Prop}
    {p : Prog S Ans ε α} {st : σ}
    (h : Survives exec I Q p st)
    (hst : I st) (inputs : List ι) :
    I (Machine.play exec p inputs st).2 ∧
      ∀ r, (Machine.play exec p inputs st).1 = some r → Q r (Machine.play exec p inputs st).2 := by
  induction inputs generalizing p st with
  | nil =>
      cases p with
      | ret a => exact ⟨hst, by rintro _ ⟨⟩; exact h⟩
      | raise e => exact ⟨hst, by rintro _ ⟨⟩; exact h⟩
      | step s k => exact ⟨hst, by rintro _ ⟨⟩⟩
  | cons i rest ih =>
      cases p with
      | ret a => exact ⟨hst, by rintro _ ⟨⟩; exact h⟩
      | raise e => exact ⟨hst, by rintro _ ⟨⟩; exact h⟩
      | step s k => exact ih (h i).2 (h i).1

end Machine
end SwFactory
