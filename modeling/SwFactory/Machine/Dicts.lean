import Mathlib.Data.List.Nodup

/-!
# Dictionaries that keep the order of insertion

A dictionary is a list of entries with different keys.  `assign` and `update`
write one key in place and add a new key at the end; `amend` does the same in
one pass over the entries, as code does that has only a list of pairs.
-/

namespace SwFactory
namespace Machine

universe u v w

abbrev Dict (κ : Type u) (υ : Type v) : Type (max u v) :=
  List (κ × υ)

namespace Dict

variable {κ : Type u}
variable {υ : Type v}

/-- The keys, in the order of insertion. -/
def keys (d : Dict κ υ) : List κ :=
  d.map Prod.fst

section Entries

variable [DecidableEq κ]

/-- `d.get(k)` -/
def get? (d : Dict κ υ) (k : κ) : Option υ :=
  (d.find? (fun e => e.1 = k)).map Prod.snd

/-- `d[k] = v` -/
def assign (d : Dict κ υ) (k : κ) (v : υ) : Dict κ υ :=
  if k ∈ d.keys then
    d.map (fun e => if e.1 = k then (k, v) else e)
  else
    d ++ [(k, v)]

/-- `d[k] = f(d.get(k, default))` -/
def update (d : Dict κ υ) (k : κ) (default : υ) (f : υ → υ) : Dict κ υ :=
  d.assign k (f ((d.get? k).getD default))

/-- Change the first entry of the key, or add one at the end. -/
def amend (k : κ) (new : υ) (f : υ → υ) : Dict κ υ → Dict κ υ
  | [] => [(k, new)]
  | e :: rest =>
      if e.1 = k then
        (e.1, f e.2) :: rest
      else
        e :: amend k new f rest

theorem get?_of_mem {d : Dict κ υ} (hnodup : d.keys.Nodup) {k : κ} {v : υ}
    (h : (k, v) ∈ d) : d.get? k = some v := by
  induction d with
  | nil =>
      cases h
  | cons e rest ih =>
      obtain ⟨hnew, hrest⟩ := List.nodup_cons.mp hnodup
      rcases List.mem_cons.mp h with rfl | h
      · simp [get?]
      · have hne : e.1 ≠ k := by
          rintro rfl
          exact hnew (List.mem_map.mpr ⟨_, h, rfl⟩)
        simpa [get?, hne] using ih hrest h

theorem mem_of_get? {d : Dict κ υ} {k : κ} {v : υ} (h : d.get? k = some v) :
    (k, v) ∈ d := by
  obtain ⟨e, he, rfl⟩ := Option.map_eq_some_iff.mp h
  have hk : e.1 = k := by simpa using List.find?_some he
  rw [← hk]
  exact List.mem_of_find?_eq_some he

theorem get?_eq_none_iff {d : Dict κ υ} {k : κ} :
    d.get? k = none ↔ k ∉ d.keys := by
  simp only [get?, keys, Option.map_eq_none_iff, List.find?_eq_none, decide_eq_true_eq,
    List.mem_map, not_exists, not_and]

theorem mem_keys_iff {d : Dict κ υ} {k : κ} :
    k ∈ d.keys ↔ d.get? k ≠ none := by
  rw [ne_eq, get?_eq_none_iff, not_not]

/-- The order of the entries does not matter to a lookup. -/
theorem get?_of_perm {d e : Dict κ υ} (hnodup : d.keys.Nodup) (h : d.Perm e) (k : κ) :
    e.get? k = d.get? k := by
  have hkeys : d.keys.Perm e.keys := h.map Prod.fst
  cases hd : d.get? k with
  | none => exact get?_eq_none_iff.mpr fun hk => get?_eq_none_iff.mp hd (hkeys.mem_iff.mpr hk)
  | some v => exact get?_of_mem (hkeys.nodup_iff.mp hnodup) (h.mem_iff.mp (mem_of_get? hd))

theorem keys_assign (d : Dict κ υ) (k : κ) (v : υ) :
    (d.assign k v).keys = if k ∈ d.keys then d.keys else d.keys ++ [k] := by
  unfold assign
  split
  · simp only [keys, List.map_map]
    refine List.map_congr_left fun e _ => ?_
    simp only [Function.comp_apply]
    split
    · rename_i h
      exact h.symm
    · rfl
  · simp [keys]

theorem mem_keys_assign {d : Dict κ υ} {k : κ} {v : υ} {j : κ} :
    j ∈ (d.assign k v).keys ↔ j = k ∨ j ∈ d.keys := by
  rw [keys_assign]
  split
  · rename_i hk
    exact ⟨Or.inr, Or.rec (fun heq => heq ▸ hk) id⟩
  · rw [List.mem_append, List.mem_singleton, or_comm]

theorem nodup_assign {d : Dict κ υ} (k : κ) (v : υ) (h : d.keys.Nodup) :
    (d.assign k v).keys.Nodup := by
  rw [keys_assign]
  split
  · exact h
  · rename_i hnew
    exact List.nodup_append.mpr
      ⟨h, List.nodup_singleton k, fun a ha b hb heq => hnew (List.mem_singleton.mp hb ▸ heq ▸ ha)⟩

theorem nodup_update {d : Dict κ υ} (k : κ) (default : υ) (f : υ → υ) (h : d.keys.Nodup) :
    (d.update k default f).keys.Nodup :=
  nodup_assign k _ h

/-- An entry of the new dictionary is the assigned one, or an old one. -/
theorem mem_assign {d : Dict κ υ} {k : κ} {v : υ} {e : κ × υ} (h : e ∈ d.assign k v) :
    e = (k, v) ∨ e ∈ d := by
  unfold assign at h
  split at h
  · obtain ⟨e', he', rfl⟩ := List.mem_map.mp h
    split
    · exact Or.inl rfl
    · exact Or.inr he'
  · rcases List.mem_append.mp h with h | h
    · exact Or.inr h
    · exact Or.inl (List.mem_singleton.mp h)

theorem get?_assign (d : Dict κ υ) (k : κ) (v : υ) (j : κ) :
    (d.assign k v).get? j = if j = k then some v else d.get? j := by
  by_cases hk : k ∈ d.keys
  · have hkey : ((fun e : κ × υ => decide (e.1 = j)) ∘ fun e => if e.1 = k then (k, v) else e) =
        fun e => decide (e.1 = j) := by
      funext e
      by_cases he : e.1 = k
      · simp [he]
      · simp [he]
    rw [assign, if_pos hk, get?, List.find?_map, hkey]
    cases hfind : d.find? (fun e => decide (e.1 = j)) with
    | none =>
        have hnone : d.get? j = none := by rw [get?, hfind]; rfl
        have hj : j ≠ k := fun heq => get?_eq_none_iff.mp hnone (heq ▸ hk)
        rw [if_neg hj, hnone]
        rfl
    | some e =>
        have he : e.1 = j := by simpa using List.find?_some hfind
        have hget : d.get? j = some e.2 := by rw [get?, hfind]; rfl
        rw [hget, ← he, Option.map_some, Option.map_some]
        split <;> rfl
  · rw [assign, if_neg hk]
    by_cases hj : j = k
    · subst hj
      have hnone : d.get? j = none := get?_eq_none_iff.mpr hk
      rw [get?, Option.map_eq_none_iff] at hnone
      simp [get?, List.find?_append, hnone]
    · simp [get?, List.find?_append, hj, Ne.symm hj]

/-- A lookup among the keys that are kept. -/
theorem get?_filter (d : Dict κ υ) (keep : κ → Bool) (k : κ) :
    get? (d.filter (fun e => keep e.1)) k = if keep k then d.get? k else none := by
  induction d with
  | nil => simp [get?]
  | cons e rest ih =>
      have hcons : ∀ d : Dict κ υ, get? (e :: d) k = if e.1 = k then some e.2 else d.get? k := by
        intro d
        by_cases he : e.1 = k <;> simp [get?, he]
      rw [List.filter_cons, hcons]
      by_cases he : e.1 = k
      · subst he
        cases hkeep : keep e.1 with
        | true => simp [hcons]
        | false => simpa [hkeep] using ih
      · rw [if_neg he, ← ih]
        cases keep e.1 with
        | true => simp [hcons, he]
        | false => simp

/-- A lookup behind a new entry. -/
theorem get?_append_singleton (d : Dict κ υ) (k : κ) (v : υ) (j : κ) :
    get? (d ++ [(k, v)]) j = (d.get? j).or (if j = k then some v else none) := by
  unfold get?
  rw [List.find?_append]
  by_cases h : k = j
  · cases d.find? (fun e => e.1 = j) <;> simp [h]
  · cases d.find? (fun e => e.1 = j) <;> simp [h, Ne.symm h]
theorem get?_update (d : Dict κ υ) (k : κ) (default : υ) (f : υ → υ) (j : κ) :
    (d.update k default f).get? j =
      if j = k then some (f ((d.get? k).getD default)) else d.get? j :=
  get?_assign d k _ j

/-- One pass over the entries is an update. -/
theorem amend_eq_update {d : Dict κ υ} (hnodup : d.keys.Nodup) (k : κ) (default : υ)
    (f : υ → υ) :
    amend k (f default) f d = d.update k default f := by
  induction d with
  | nil =>
      rfl
  | cons e rest ih =>
      obtain ⟨hnew, hrest⟩ := List.nodup_cons.mp hnodup
      have hrestUpdate := ih hrest
      by_cases h : e.1 = k
      · subst h
        have hsame : rest.map (fun e' => if e'.1 = e.1 then (e.1, f e.2) else e') = rest := by
          conv_rhs => rw [← List.map_id rest]
          refine List.map_congr_left fun e' he' => if_neg fun heq => hnew ?_
          exact List.mem_map.mpr ⟨e', he', heq⟩
        simp [amend, update, assign, get?, keys, hsame]
      · have hget : get? (e :: rest) k = get? rest k := by simp [get?, h]
        have hkeys : k ∈ keys (e :: rest) ↔ k ∈ keys rest := by
          simp [keys, Ne.symm h]
        rw [amend, if_neg h, hrestUpdate]
        simp only [update, assign, hget, hkeys]
        split
        · simp [h]
        · simp

end Entries

end Dict

end Machine
end SwFactory
