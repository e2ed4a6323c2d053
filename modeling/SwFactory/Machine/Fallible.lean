import Mathlib.Data.List.Forall2

/-!
# Fallible computations

How a computation in `Except` that ended well is taken apart.
-/

namespace SwFactory
namespace Machine

universe u v

variable {ε : Type u}
variable {α β : Type v}

@[simp] theorem ok_bind (a : α) (f : α → Except ε β) :
    (Except.ok a >>= f) = f a :=
  rfl

/-- A computation that ends well has steps that end well. -/
theorem bind_eq_ok
    {x : Except ε α}
    {f : α → Except ε β}
    {b : β}
    (h : (x >>= f) = .ok b) :
    ∃ a, x = .ok a ∧ f a = .ok b := by
  cases x with
  | error e =>
      cases h
  | ok a =>
      exact ⟨a, rfl, h⟩

theorem map_eq_ok {x : Except ε α} {f : α → β} {b : β} :
    x.map f = .ok b ↔ ∃ a, x = .ok a ∧ f a = b := by
  cases x <;> simp [Except.map]

theorem mapError_eq_ok {ε' : Type u} {x : Except ε α} {f : ε → ε'} {a : α} :
    x.mapError f = .ok a ↔ x = .ok a := by
  cases x <;> simp [Except.mapError]

/-- Checks pass where each of them does. -/
theorem forM_eq_ok {ι : Type*} {f : ι → Except ε PUnit} {xs : List ι} :
    forM xs f = .ok ⟨⟩ ↔ ∀ x ∈ xs, f x = .ok ⟨⟩ := by
  induction xs with
  | nil => simp [pure, Except.pure]
  | cons x xs ih =>
      rw [List.forM_cons, List.forall_mem_cons, ← ih]
      cases hx : f x with
      | error e => exact ⟨(by rintro ⟨⟩), (by rintro ⟨⟨⟩, -⟩)⟩
      | ok u => exact ⟨fun h => ⟨rfl, h⟩, fun h => h.2⟩

/-- A list of computations that ends well ends well at each entry. -/
theorem mapM_eq_ok
    {ι : Type*}
    {f : ι → Except ε α}
    {xs : List ι}
    {ys : List α}
    (h : xs.mapM f = .ok ys) :
    List.Forall₂ (fun x y => f x = .ok y) xs ys := by
  induction xs generalizing ys with
  | nil =>
      rw [List.mapM_nil] at h
      cases h
      exact .nil
  | cons x xs ih =>
      rw [List.mapM_cons] at h
      obtain ⟨y, hy, h⟩ := bind_eq_ok h
      obtain ⟨rest, hrest, h⟩ := bind_eq_ok h
      cases h
      exact .cons hy (ih hrest)

theorem exists_of_mapM_eq_ok
    {ι : Type*}
    {f : ι → Except ε α}
    {xs : List ι}
    {ys : List α}
    (h : xs.mapM f = .ok ys)
    {x : ι}
    (hx : x ∈ xs) :
    ∃ y ∈ ys, f x = .ok y := by
  have hall := mapM_eq_ok h
  clear h
  induction hall with
  | nil =>
      cases hx
  | cons hy _ ih =>
      rcases List.mem_cons.mp hx with rfl | hx
      · exact ⟨_, List.mem_cons_self, hy⟩
      · obtain ⟨y, hmem, hy⟩ := ih hx
        exact ⟨y, List.mem_cons_of_mem _ hmem, hy⟩

theorem exists_of_mem_mapM
    {ι : Type*}
    {f : ι → Except ε α}
    {xs : List ι}
    {ys : List α}
    (h : xs.mapM f = .ok ys)
    {y : α}
    (hy : y ∈ ys) :
    ∃ x ∈ xs, f x = .ok y := by
  have hall := mapM_eq_ok h
  clear h
  induction hall with
  | nil =>
      cases hy
  | cons hx _ ih =>
      rcases List.mem_cons.mp hy with rfl | hy
      · exact ⟨_, List.mem_cons_self, hx⟩
      · obtain ⟨x, hmem, hx⟩ := ih hy
        exact ⟨x, List.mem_cons_of_mem _ hmem, hx⟩

/-- What is written entry by entry is read again if each entry is. -/
theorem mapM_map_ok
    {ι : Type*}
    {f : ι → Except ε α}
    {g : α → ι}
    {xs : List α}
    (h : ∀ x ∈ xs, f (g x) = .ok x) :
    (xs.map g).mapM f = .ok xs := by
  induction xs with
  | nil =>
      rfl
  | cons x xs ih =>
      rw [List.map_cons, List.mapM_cons, h x List.mem_cons_self, ok_bind,
        ih fun x hx => h x (List.mem_cons_of_mem _ hx)]
      rfl

/-- A list of computations ends well where each of them does. -/
theorem mapM_ok
    {ι : Type*}
    {f : ι → Except ε α}
    {xs : List ι}
    (h : ∀ x ∈ xs, ∃ y, f x = .ok y) :
    ∃ ys, xs.mapM f = .ok ys := by
  induction xs with
  | nil =>
      exact ⟨[], rfl⟩
  | cons x xs ih =>
      obtain ⟨y, hy⟩ := h x List.mem_cons_self
      obtain ⟨ys, hys⟩ := ih fun x hx => h x (List.mem_cons_of_mem _ hx)
      refine ⟨y :: ys, ?_⟩
      rw [List.mapM_cons, hy, ok_bind, hys]
      rfl

/-- A fold whose steps end well, and keep an invariant, ends well and keeps it. -/
theorem foldlM_ok
    {ι : Type*}
    {f : α → ι → Except ε α}
    {xs : List ι}
    {I : α → Prop}
    (hstep : ∀ a, I a → ∀ x ∈ xs, ∃ a', f a x = .ok a' ∧ I a')
    {a : α}
    (ha : I a) :
    ∃ a', xs.foldlM f a = .ok a' ∧ I a' := by
  induction xs generalizing a with
  | nil =>
      exact ⟨a, rfl, ha⟩
  | cons x xs ih =>
      obtain ⟨next, hnext, hI⟩ := hstep a ha x List.mem_cons_self
      rw [List.foldlM_cons, hnext, ok_bind]
      exact ih (fun a ha x hx => hstep a ha x (List.mem_cons_of_mem _ hx)) hI

end Machine
end SwFactory
