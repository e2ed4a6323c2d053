import Mathlib.Algebra.BigOperators.Group.Finset.Basic
import Mathlib.Algebra.Order.BigOperators.Group.Finset
import Mathlib.Data.Fintype.Basic

/-!
# Service by credits

A server has finitely many classes, each with a weight.  A round serves an
available class that has credit, and takes one unit of it.  When no available
class has credit, each available one first gets its weight.  Which of the
classes with credit is served is left open.

Credits never exceed the weights.  A class that is available in every round
waits for the credits that the others have left, and after the refill for
their weights: twice the weights of the others is a bound.  When all classes
are always available, the rounds fall into cycles that serve each class by its
weight.
-/

namespace SwFactory
namespace Machine
namespace Credits

open Finset

universe u

variable {κ : Type u}
variable [DecidableEq κ]

section Rounds

variable (w : κ → Nat)

/-- The credits that a round is decided on. -/
def refilled (available : Finset κ) (d : κ → Nat) : κ → Nat :=
  if ∃ q ∈ available, 0 < d q then d
  else fun q => if q ∈ available then d q + w q else d q

/-- A round that serves the class `q`. -/
structure Serves (available : Finset κ) (d : κ → Nat) (q : κ) (d' : κ → Nat) : Prop where
  admitted : q ∈ available
  credit : 0 < refilled w available d q
  paid : d' = Function.update (refilled w available d) q (refilled w available d q - 1)

/-- Rounds one after the other, each with the classes available and the one served. -/
inductive Rounds : (κ → Nat) → List (Finset κ × κ) → (κ → Nat) → Prop
  | nil (d : κ → Nat) : Rounds d [] d
  | cons {available : Finset κ} {q : κ} {rest : List (Finset κ × κ)} {d d' d'' : κ → Nat}
      (first : Serves w available d q d') (others : Rounds d' rest d'') :
      Rounds d ((available, q) :: rest) d''

variable {w}

theorem Rounds.append {front back : List (Finset κ × κ)} {d d' d'' : κ → Nat}
    (h : Rounds w d front d') (h' : Rounds w d' back d'') : Rounds w d (front ++ back) d'' := by
  induction h with
  | nil d => exact h'
  | cons first _ ih => exact .cons first (ih h')

theorem Rounds.split {front back : List (Finset κ × κ)} {d d'' : κ → Nat}
    (h : Rounds w d (front ++ back) d'') :
    ∃ d', Rounds w d front d' ∧ Rounds w d' back d'' := by
  induction front generalizing d with
  | nil => exact ⟨d, .nil d, h⟩
  | cons r front ih =>
      cases h with
      | cons first others =>
          obtain ⟨d', hfront, hback⟩ := ih others
          exact ⟨d', .cons first hfront, hback⟩

end Rounds

/-! ## The bound on credits -/

section Bounds

variable {w : κ → Nat}

/-- No class has more credit than its weight. -/
def Within (w d : κ → Nat) : Prop :=
  ∀ q, d q ≤ w q

theorem Within.refilled {d : κ → Nat} (h : Within w d) (available : Finset κ) :
    Within w (refilled w available d) := by
  intro q
  unfold Credits.refilled
  split
  · exact h q
  · next hnone =>
      dsimp only
      split
      · next hq =>
          have hzero : d q = 0 := by
            by_contra hne
            exact hnone ⟨q, hq, Nat.pos_of_ne_zero hne⟩
          omega
      · exact h q

theorem Serves.within {available : Finset κ} {d d' : κ → Nat} {q : κ}
    (h : Serves w available d q d') (hd : Within w d) : Within w d' := by
  intro r
  have hr := hd.refilled available r
  rw [h.paid]
  by_cases hrq : r = q
  · subst hrq
    rw [Function.update_self]
    omega
  · rw [Function.update_of_ne hrq]
    exact hr

theorem Rounds.within {rounds : List (Finset κ × κ)} {d d' : κ → Nat}
    (h : Rounds w d rounds d') (hd : Within w d) : Within w d' := by
  induction h with
  | nil d => exact hd
  | cons first _ ih => exact ih (first.within hd)

end Bounds

variable [Fintype κ]

/-! ## The wait of a class that is always available -/

section Waits

variable {w : κ → Nat}

/-- What the other classes have together. -/
def others (p : κ) (d : κ → Nat) : Nat :=
  ∑ q ∈ univ.erase p, d q

/-- How many rounds may still go by before `p` is served. -/
def debt (w : κ → Nat) (p : κ) (d : κ → Nat) : Nat :=
  others p d + if d p = 0 then others p w else 0

theorem others_le {p : κ} {d d' : κ → Nat} (h : ∀ q, d q ≤ d' q) : others p d ≤ others p d' :=
  Finset.sum_le_sum fun q _ => h q

theorem others_update_lt {p q : κ} {d : κ → Nat} (hq : q ≠ p) (h : 0 < d q) :
    others p (Function.update d q (d q - 1)) < others p d := by
  refine Finset.sum_lt_sum (fun r _ => ?_) ⟨q, Finset.mem_erase.mpr ⟨hq, mem_univ q⟩, ?_⟩
  · by_cases hr : r = q
    · subst hr
      rw [Function.update_self]
      omega
    · rw [Function.update_of_ne hr]
  · rw [Function.update_self]
    omega

theorem debt_le {p : κ} {d : κ → Nat} (h : Within w d) : debt w p d ≤ 2 * others p w := by
  have hle : others p d ≤ others p w := others_le h
  unfold debt
  split
  · omega
  · omega

/-- A round that does not serve `p`, though it is available, brings it closer. -/
theorem Serves.debt_lt {available : Finset κ} {d d' : κ → Nat} {p q : κ}
    (h : Serves w available d q d') (hd : Within w d) (hw : 0 < w p) (hp : p ∈ available)
    (hq : q ≠ p) : debt w p d' < debt w p d := by
  have hpaid : d' p = Credits.refilled w available d p := by
    rw [h.paid, Function.update_of_ne (Ne.symm hq)]
  have hless : others p d' < others p (Credits.refilled w available d) := by
    rw [h.paid]
    exact others_update_lt hq h.credit
  by_cases hcredit : ∃ r ∈ available, 0 < d r
  · rw [refilled, if_pos hcredit] at hpaid hless
    unfold debt
    rw [hpaid]
    omega
  · have hzero : d p = 0 := by
      by_contra hne
      exact hcredit ⟨p, hp, Nat.pos_of_ne_zero hne⟩
    have hfilled : d' p ≠ 0 := by
      rw [hpaid, refilled, if_neg hcredit, if_pos hp]
      omega
    have hle : others p (Credits.refilled w available d) ≤ others p w :=
      others_le (hd.refilled available)
    unfold debt
    rw [if_neg hfilled, if_pos hzero]
    omega

theorem Rounds.length_le_debt {rounds : List (Finset κ × κ)} {d d' : κ → Nat} {p : κ}
    (h : Rounds w d rounds d') (hd : Within w d) (hw : 0 < w p)
    (hp : ∀ r ∈ rounds, p ∈ r.1) (hq : ∀ r ∈ rounds, r.2 ≠ p) :
    rounds.length ≤ debt w p d := by
  induction h with
  | nil d => exact Nat.zero_le _
  | cons first _ ih =>
      have hless := first.debt_lt hd hw (hp _ List.mem_cons_self) (hq _ List.mem_cons_self)
      have hrest := ih (first.within hd) (fun r hr => hp r (List.mem_cons_of_mem _ hr))
        (fun r hr => hq r (List.mem_cons_of_mem _ hr))
      rw [List.length_cons]
      omega

/-- **No starvation.**  Among more rounds than twice the weights of the others, one serves
a class that is available in all of them. -/
theorem Rounds.serves {rounds : List (Finset κ × κ)} {d d' : κ → Nat} {p : κ}
    (h : Rounds w d rounds d') (hd : Within w d) (hw : 0 < w p)
    (hp : ∀ r ∈ rounds, p ∈ r.1) (hlong : 2 * others p w < rounds.length) :
    p ∈ rounds.map Prod.snd := by
  by_contra hnone
  have hq : ∀ r ∈ rounds, r.2 ≠ p := fun r hr heq =>
    hnone (List.mem_map.mpr ⟨r, hr, heq⟩)
  have hbound := h.length_le_debt hd hw hp hq
  have hdebt : debt w p d ≤ 2 * others p w := debt_le hd
  omega

end Waits

/-! ## Cycles -/

section Cycles

variable {w : κ → Nat}

theorem sum_update_pred {d : κ → Nat} {q : κ} (h : 0 < d q) :
    ∑ r, Function.update d q (d q - 1) r + 1 = ∑ r, d r := by
  have hothers : ∑ r ∈ univ.erase q, Function.update d q (d q - 1) r = ∑ r ∈ univ.erase q, d r :=
    Finset.sum_congr rfl fun r hr => Function.update_of_ne (Finset.ne_of_mem_erase hr) _ _
  rw [← Finset.add_sum_erase univ d (mem_univ q), ← Finset.add_sum_erase univ _ (mem_univ q),
    hothers, Function.update_self]
  omega

/-- Rounds that use up the credits, all classes being available. -/
theorem Rounds.spend {rounds : List (Finset κ × κ)} {d d' : κ → Nat}
    (h : Rounds w d rounds d') (hall : ∀ r ∈ rounds, r.1 = univ)
    (hlength : rounds.length = ∑ q, d q) :
    (∀ q, (rounds.map Prod.snd).count q = d q) ∧ ∀ q, d' q = 0 := by
  induction h with
  | nil d =>
      have hzero : ∀ q, d q = 0 := by
        intro q
        have hle := Finset.single_le_sum (fun r _ => Nat.zero_le (d r)) (mem_univ q)
        rw [List.length_nil] at hlength
        omega
      exact ⟨fun q => (hzero q).symm ▸ rfl, hzero⟩
  | @cons available q rest d d₁ d₂ first _ ih =>
      obtain rfl : available = univ := hall _ List.mem_cons_self
      have hcredit : ∃ r ∈ (univ : Finset κ), 0 < d r := by
        by_contra hnone
        have hzero : ∑ r, d r = 0 := Finset.sum_eq_zero fun r hr => by
          by_contra hne
          exact hnone ⟨r, hr, Nat.pos_of_ne_zero hne⟩
        rw [List.length_cons] at hlength
        omega
      have hpos := first.credit
      have hpaid := first.paid
      rw [refilled, if_pos hcredit] at hpos hpaid
      have hsum : ∑ r, d₁ r + 1 = ∑ r, d r := hpaid ▸ sum_update_pred hpos
      rw [List.length_cons] at hlength
      obtain ⟨hcount, hzero⟩ := ih (fun r hr => hall r (List.mem_cons_of_mem _ hr)) (by omega)
      refine ⟨fun r => ?_, hzero⟩
      rw [List.map_cons, List.count_cons, hcount, hpaid]
      by_cases hr : r = q
      · subst hr
        rw [Function.update_self, if_pos (beq_self_eq_true r)]
        omega
      · rw [Function.update_of_ne hr, if_neg (by simpa using Ne.symm hr), Nat.add_zero]

/-- **A cycle** from empty credits serves each class by its weight, and ends in empty
credits. -/
theorem Rounds.cycle {rounds : List (Finset κ × κ)} {d d' : κ → Nat}
    (h : Rounds w d rounds d') (hd : ∀ q, d q = 0) (hall : ∀ r ∈ rounds, r.1 = univ)
    (hlength : rounds.length = ∑ q, w q) :
    (∀ q, (rounds.map Prod.snd).count q = w q) ∧ ∀ q, d' q = 0 := by
  cases h with
  | nil =>
      have hzero : ∀ q, w q = 0 := by
        intro q
        have hle := Finset.single_le_sum (fun r _ => Nat.zero_le (w r)) (mem_univ q)
        rw [List.length_nil] at hlength
        omega
      exact ⟨fun q => (hzero q).symm ▸ rfl, hd⟩
  | @cons available q rest _ d₁ _ first others =>
      obtain rfl : available = univ := hall _ List.mem_cons_self
      have hempty : ¬ ∃ r ∈ (univ : Finset κ), 0 < d r := fun ⟨r, _, hr⟩ => by
        rw [hd r] at hr
        exact lt_irrefl 0 hr
      have hfull : refilled w univ d = w := by
        funext r
        rw [refilled, if_neg hempty, if_pos (mem_univ r), hd r, Nat.zero_add]
      have hcredit : ∃ r ∈ (univ : Finset κ), 0 < w r :=
        ⟨q, mem_univ q, hfull ▸ first.credit⟩
      have hsame : refilled w univ w = w := if_pos hcredit
      have hfirst : Serves w univ w q d₁ :=
        ⟨mem_univ q, by rw [hsame, ← hfull]; exact first.credit,
          by rw [hsame, ← hfull]; exact first.paid⟩
      exact (Rounds.cons hfirst others).spend hall hlength

theorem Rounds.cycles {d d' : κ → Nat} (n : Nat) {rounds : List (Finset κ × κ)}
    (h : Rounds w d rounds d') (hd : ∀ q, d q = 0) (hall : ∀ r ∈ rounds, r.1 = univ)
    (hlength : rounds.length = (∑ q, w q) * n) : ∀ q, d' q = 0 := by
  induction n generalizing d rounds with
  | zero =>
      obtain rfl : rounds = [] := List.length_eq_zero_iff.mp (by simpa using hlength)
      cases h
      exact hd
  | succ n ih =>
      rw [← List.take_append_drop (∑ q, w q) rounds] at h
      obtain ⟨d₁, hfront, hback⟩ := h.split
      rw [Nat.mul_succ] at hlength
      obtain ⟨-, hzero⟩ := hfront.cycle hd (fun r hr => hall r (List.mem_of_mem_take hr))
        (by rw [List.length_take]; omega)
      exact ih hback hzero (fun r hr => hall r (List.mem_of_mem_drop hr))
        (by rw [List.length_drop]; omega)

/-- **Proportional service.**  Every aligned block of rounds serves each class by its
weight. -/
theorem Rounds.aligned {front block back : List (Finset κ × κ)} {d d' : κ → Nat}
    (h : Rounds w d (front ++ block ++ back) d') (hd : ∀ q, d q = 0)
    (hall : ∀ r ∈ front ++ block ++ back, r.1 = univ)
    (haligned : ∑ q, w q ∣ front.length) (hlength : block.length = ∑ q, w q) :
    ∀ q, (block.map Prod.snd).count q = w q := by
  obtain ⟨d₂, h₂, -⟩ := h.split
  obtain ⟨d₁, hfront, hblock⟩ := h₂.split
  obtain ⟨n, hn⟩ := haligned
  have hzero := hfront.cycles n hd (fun r hr => hall r (by simp [hr])) hn
  exact (hblock.cycle hzero (fun r hr => hall r (by simp [hr])) hlength).1

end Cycles

end Credits
end Machine
end SwFactory
