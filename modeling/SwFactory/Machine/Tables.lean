import Mathlib.Data.List.Nodup
import Mathlib.Algebra.Order.BigOperators.Group.List
import Mathlib.Algebra.Order.Ring.Nat

/-!
# Keyed tables

A table is a list of records with a key; no two records share one.  The list
keeps the order of insertion.  `updateRows` changes the record under one key,
`lookup` finds it.  The rules say what an update does to membership, to the
keys, to a lookup and to a sum over the records.
-/

namespace SwFactory
namespace Machine

universe u v

section Tables

variable {α : Type u}
variable {κ : Type v}
variable [DecidableEq κ]
variable (key : α → κ)

/-- The record under a key. -/
def lookup (k : κ) (rows : List α) : Option α :=
  rows.find? (fun a => key a = k)

/-- Change the record under a key. -/
def updateRows (k : κ) (f : α → α) (rows : List α) : List α :=
  rows.map (fun a => if key a = k then f a else a)

/-- No two records share a key. -/
def Keyed (rows : List α) : Prop :=
  (rows.map key).Nodup

variable {key}
variable {k : κ} {f : α → α} {rows : List α}

theorem lookup_some {a : α} (h : lookup key k rows = some a) :
    a ∈ rows ∧ key a = k :=
  ⟨List.mem_of_find?_eq_some h, by simpa using List.find?_some h⟩

theorem lookup_none (h : lookup key k rows = none) {a : α} (ha : a ∈ rows) :
    key a ≠ k := by
  simpa using List.find?_eq_none.mp h a ha

omit [DecidableEq κ] in
/-- The record under a key is unique. -/
theorem Keyed.eq (h : Keyed key rows) {a b : α}
    (ha : a ∈ rows) (hb : b ∈ rows) (hk : key a = key b) : a = b :=
  List.inj_on_of_nodup_map h ha hb hk

theorem Keyed.lookup_eq (h : Keyed key rows) {a : α} (ha : a ∈ rows) :
    lookup key (key a) rows = some a := by
  cases hfound : lookup key (key a) rows with
  | none => exact absurd rfl (lookup_none hfound ha)
  | some b =>
      obtain ⟨hb, hkey⟩ := lookup_some hfound
      rw [h.eq hb ha hkey]

omit [DecidableEq κ] in
/-- A list that only the record `a` contributes to. -/
theorem Keyed.flatMap_eq {β : Type*} {g : α → List β} {a : α}
    (h : Keyed key rows) (ha : a ∈ rows)
    (hother : ∀ b ∈ rows, key b ≠ key a → g b = []) :
    rows.flatMap g = g a := by
  induction rows with
  | nil =>
      cases ha
  | cons b rows ih =>
      obtain ⟨hb, hrows⟩ := List.nodup_cons.mp h
      rw [List.flatMap_cons]
      rcases List.mem_cons.mp ha with rfl | ha'
      · have hnone : rows.flatMap g = [] := by
          rw [List.flatMap_eq_nil_iff]
          intro c hc
          apply hother c (List.mem_cons_of_mem _ hc)
          intro hkey
          exact hb (hkey ▸ List.mem_map_of_mem hc)
        rw [hnone, List.append_nil]
      · have hne : key b ≠ key a := by
          intro hkey
          exact hb (hkey ▸ List.mem_map_of_mem ha')
        rw [hother b List.mem_cons_self hne, List.nil_append]
        exact ih hrows ha' (fun c hc => hother c (List.mem_cons_of_mem _ hc))

omit [DecidableEq κ] in
/-- A test that only the record `a` can pass selects it. -/
theorem Keyed.filter_eq_singleton {p : α → Bool} {a : α}
    (h : Keyed key rows) (ha : a ∈ rows) (hp : p a = true)
    (honly : ∀ b, p b = true → key b = key a) :
    rows.filter p = [a] := by
  have hfilter : rows.filter p = rows.flatMap (fun b => [b].filter p) := by
    rw [← List.filter_flatMap, List.flatMap_singleton']
  rw [hfilter, h.flatMap_eq ha]
  · exact List.filter_cons_of_pos hp
  · intro b _ hne
    exact List.filter_cons_of_neg (fun hpb => hne (honly b hpb))

omit [DecidableEq κ] in
/-- A test that only the record `a` can pass is passed once. -/
theorem Keyed.countP_eq_one {p : α → Bool} {a : α}
    (h : Keyed key rows) (ha : a ∈ rows) (hp : p a = true)
    (honly : ∀ b, p b = true → key b = key a) :
    rows.countP p = 1 := by
  induction rows with
  | nil =>
      cases ha
  | cons b rows ih =>
      obtain ⟨hb, hrows⟩ := List.nodup_cons.mp h
      rcases List.mem_cons.mp ha with rfl | ha'
      · have hnone : rows.countP p = 0 := by
          refine List.countP_eq_zero.mpr fun c hc hpc => hb ?_
          exact honly c hpc ▸ List.mem_map_of_mem hc
        simp [hp, hnone]
      · have hpb : p b = false := by
          by_contra hpb
          refine hb (honly b (by simpa using hpb) ▸ ?_)
          exact List.mem_map_of_mem ha'
        rw [List.countP_cons_of_neg (by simp [hpb])]
        exact ih hrows ha'

theorem mem_updateRows {b : α} :
    b ∈ updateRows key k f rows ↔
      ∃ a ∈ rows, (if key a = k then f a else a) = b := by
  simp [updateRows]

/-- An update that keeps a column keeps all of it. -/
theorem map_updateRows {β : Type*} {g : α → β}
    (hf : ∀ a ∈ rows, key a = k → g (f a) = g a) :
    (updateRows key k f rows).map g = rows.map g := by
  simp only [updateRows, List.map_map]
  refine List.map_congr_left fun a ha => ?_
  simp only [Function.comp_apply]
  split
  · rename_i hk
    exact hf a ha hk
  · rfl

theorem Keyed.updateRows (h : Keyed key rows) (hf : ∀ a, key (f a) = key a) :
    Keyed key (updateRows key k f rows) := by
  rw [Keyed, map_updateRows (fun a _ _ => hf a)]
  exact h

/-- A second column stays a key when the new value in it is fresh. -/
theorem Keyed.updateRows_fresh {ι : Type*} {key₂ : α → ι}
    (h : Keyed key rows) (h₂ : Keyed key₂ rows)
    (hf : ∀ a ∈ rows, key a = k →
      key₂ (f a) = key₂ a ∨ ∀ b ∈ rows, key₂ b ≠ key₂ (f a)) :
    Keyed key₂ (Machine.updateRows key k f rows) := by
  -- a changed record cannot meet another one in the new column
  have hmeet : ∀ a ∈ rows, ∀ b ∈ rows, key a = k → key₂ (f a) = key₂ b →
      a = b := by
    intro a ha b hb hk hmeets
    rcases hf a ha hk with hsame | hfresh
    · exact h₂.eq ha hb (hsame.symm.trans hmeets)
    · exact absurd hmeets.symm (hfresh b hb)
  rw [Keyed, Machine.updateRows, List.map_map]
  refine List.Nodup.map_on (fun a ha b hb hmeets => ?_) (List.Nodup.of_map _ h)
  simp only [Function.comp_apply] at hmeets
  split at hmeets
  · rename_i hka
    split at hmeets
    · rename_i hkb
      exact h.eq ha hb (hka.trans hkb.symm)
    · exact hmeet a ha b hb hka hmeets
  · split at hmeets
    · rename_i hkb
      exact (hmeet b hb a ha hkb hmeets.symm).symm
    · exact h₂.eq ha hb hmeets

/-- A change of every record that keeps the keys. -/
theorem lookup_map {g : α → α} (hg : ∀ a, key (g a) = key a) :
    lookup key k (rows.map g) = (lookup key k rows).map g := by
  rw [lookup, List.find?_map]
  simp only [Function.comp_def, hg]
  rfl

/-- The lookup after an update: the changed record, or what was there. -/
theorem lookup_updateRows (hf : ∀ a, key (f a) = key a) (k' : κ) :
    lookup key k' (updateRows key k f rows) =
      (lookup key k' rows).map (fun a => if key a = k then f a else a) := by
  have hkey : ∀ a, key (if key a = k then f a else a) = key a := by
    intro a
    split
    · exact hf a
    · rfl
  simp only [lookup, Machine.updateRows, List.find?_map, Function.comp_def,
    hkey]

/-- Two updates under one key are one. -/
theorem updateRows_updateRows {g : α → α} (hf : ∀ a, key (f a) = key a) :
    updateRows key k g (updateRows key k f rows) =
      updateRows key k (fun a => g (f a)) rows := by
  simp only [updateRows, List.map_map]
  refine List.map_congr_left fun a _ => ?_
  simp only [Function.comp_apply]
  by_cases hk : key a = k
  · simp [hk, hf]
  · simp [hk]

/-- What holds of every record survives an update that keeps it. -/
theorem forall_updateRows {P : α → Prop}
    (h : ∀ a ∈ rows, P a)
    (hf : ∀ a ∈ rows, key a = k → P a → P (f a)) :
    ∀ a ∈ updateRows key k f rows, P a := by
  intro b hb
  obtain ⟨a, ha, rfl⟩ := mem_updateRows.mp hb
  split
  · rename_i hk
    exact hf a ha hk (h a ha)
  · exact h a ha

/-- A sum over the records does not grow when no changed record does. -/
theorem sum_updateRows_le {g : α → Nat}
    (hf : ∀ a ∈ rows, key a = k → g (f a) ≤ g a) :
    ((updateRows key k f rows).map g).sum ≤ (rows.map g).sum := by
  simp only [updateRows, List.map_map]
  refine List.sum_le_sum fun a ha => ?_
  simp only [Function.comp_apply]
  split
  · rename_i hk
    exact hf a ha hk
  · exact Nat.le_refl _

/-- A sum over the records changes by the one record that does. -/
theorem sum_updateRows {g : α → Nat} {a : α}
    (h : Keyed key rows) (ha : a ∈ rows) :
    ((updateRows key (key a) f rows).map g).sum + g a =
      (rows.map g).sum + g (f a) := by
  induction rows with
  | nil =>
      cases ha
  | cons b rows ih =>
      obtain ⟨hb, hrows⟩ := List.nodup_cons.mp h
      have hrest : ∀ c ∈ rows, key c = key b → False :=
        fun c hc hk => hb (hk ▸ List.mem_map_of_mem hc)
      rcases List.mem_cons.mp ha with rfl | ha'
      · have hsame : updateRows key (key a) f rows = rows := by
          refine (List.map_congr_left fun c hc => ?_).trans (List.map_id' rows)
          exact if_neg (fun hk => hrest c hc hk)
        have hcons : updateRows key (key a) f (a :: rows) = f a :: rows := by
          rw [updateRows, List.map_cons, if_pos rfl]
          exact congrArg _ hsame
        rw [hcons]
        simp only [List.map_cons, List.sum_cons]
        omega
      · have hba : key b ≠ key a := fun hk => hrest a ha' hk.symm
        have hcons : updateRows key (key a) f (b :: rows) =
            b :: updateRows key (key a) f rows := by
          rw [updateRows, List.map_cons, if_neg hba]
          rfl
        have := ih hrows ha'
        rw [hcons]
        simp only [List.map_cons, List.sum_cons]
        omega

end Tables

end Machine
end SwFactory
