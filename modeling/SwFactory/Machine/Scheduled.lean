import Mathlib.Data.List.Basic
import Mathlib.Algebra.Order.BigOperators.Group.List
import Mathlib.Algebra.Order.Ring.Nat

/-!
# Machines that a schedule drives to rest

A scheduled machine lists the moves that are enabled in a state and carries the
schedule that picks one of them.  `settle` makes moves until none is enabled or
its fuel is spent.  A weight that every enabled move lowers bounds the fuel, and
an invariant of the enabled moves holds where the machine comes to rest.
-/

namespace SwFactory
namespace Machine

universe u v

/-- Enabled moves, their effect, and the choice of the schedule. -/
structure Scheduled (σ : Type u) (μ : Type v) where
  moves : σ → List μ
  step : σ → μ → σ
  pick : σ → Nat

namespace Scheduled

variable {σ : Type u}
variable {μ : Type v}
variable (M : Scheduled σ μ)

/-- The enabled move that the schedule picks, if one is enabled. -/
def next (s : σ) : Option μ :=
  (M.moves s)[M.pick s % (M.moves s).length]?

/-- Make moves until the machine rests. -/
def settle : Nat → σ → σ
  | 0, s => s
  | fuel + 1, s =>
      match M.next s with
      | none => s
      | some m => settle fuel (M.step s m)

theorem mem_moves_of_next {s : σ} {m : μ} (h : M.next s = some m) :
    m ∈ M.moves s :=
  List.mem_of_getElem? h

theorem moves_eq_nil_of_next {s : σ} (h : M.next s = none) :
    M.moves s = [] := by
  rw [next, List.getElem?_eq_none_iff] at h
  by_contra hne
  have hpos : 0 < (M.moves s).length := List.length_pos_iff.mpr hne
  have hlt := Nat.mod_lt (M.pick s) hpos
  omega

/-- What every enabled move keeps holds where the machine stops. -/
theorem settle_invariant
    {P : σ → Prop}
    (hstep : ∀ s, ∀ m ∈ M.moves s, P s → P (M.step s m))
    (fuel : Nat)
    {s : σ}
    (hs : P s) :
    P (M.settle fuel s) := by
  induction fuel generalizing s with
  | zero =>
      exact hs
  | succ fuel ih =>
      rw [settle]
      split
      · exact hs
      · next m hm =>
          exact ih (hstep s m (M.mem_moves_of_next hm) hs)

/-- With fuel for the weight of the state, the machine comes to rest. -/
theorem settle_rests
    (weight : σ → Nat)
    (hweight : ∀ s, ∀ m ∈ M.moves s, weight (M.step s m) < weight s)
    {fuel : Nat}
    {s : σ}
    (hfuel : weight s ≤ fuel) :
    M.moves (M.settle fuel s) = [] := by
  induction fuel generalizing s with
  | zero =>
      -- an enabled move would lower a weight of zero
      refine List.eq_nil_iff_forall_not_mem.mpr fun m hm => ?_
      have := hweight s m hm
      omega
  | succ fuel ih =>
      rw [settle]
      split
      · next hnone =>
          exact M.moves_eq_nil_of_next hnone
      · next m hm =>
          have hmem := M.mem_moves_of_next hm
          have hlt := hweight s m hmem
          exact ih (by omega)

end Scheduled

/-- Replacing one entry changes a sum by the two entries. -/
theorem sum_map_set
    {α : Type u}
    (f : α → Nat)
    {l : List α}
    {i : Nat}
    {a : α}
    (b : α)
    (h : l[i]? = some a) :
    ((l.set i b).map f).sum + f a = (l.map f).sum + f b := by
  induction l generalizing i with
  | nil =>
      simp at h
  | cons x xs ih =>
      cases i with
      | zero =>
          simp only [List.getElem?_cons_zero, Option.some.injEq] at h
          subst h
          simp only [List.set_cons_zero, List.map_cons, List.sum_cons]
          omega
      | succ i =>
          simp only [List.getElem?_cons_succ] at h
          have := ih h
          simp only [List.set_cons_succ, List.map_cons, List.sum_cons]
          omega

end Machine
end SwFactory
