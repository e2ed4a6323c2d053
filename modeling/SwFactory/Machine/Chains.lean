import Mathlib.Data.List.Induction
import Mathlib.Data.List.Perm.Subperm
import Mathlib.Logic.Relation

/-!
# Chains and descents

Records with a source and a target are linked when each starts where the one in
front of it ended.

A hash chain folds a link function over a list of bodies: the digest of a body
covers the body and the digest in front of it.  If the link function has no
collision among the pairs two chains hash, and no link is the digest that a
chain starts from, then the last digest determines the whole list.

A descent of a relation goes from an element to a related one, and on from
there.  Where a relation has no cycle and leads into a list only, no descent is
longer than the list.
-/

namespace SwFactory
namespace Machine

universe u

section Chains

variable {D B : Type*}

/-- The records lead from one place to another. -/
def Linked (source target : B → D) (start : D) : List B → D → Prop
  | [], last => last = start
  | b :: rest, last =>
      source b = start ∧ Linked source target (target b) rest last

theorem linked_concat {source target : B → D} {start last : D}
    {bs : List B} {b : B} :
    Linked source target start (bs ++ [b]) last ↔
      Linked source target start bs (source b) ∧ last = target b := by
  induction bs generalizing start with
  | nil =>
      rfl
  | cons first rest ih =>
      rw [List.cons_append, Linked, Linked, ih, and_assoc]

/-- The pairs a chain hashes: each body behind the digest in front of it. -/
def links (link : D → B → D) (start : D) : List B → List (D × B)
  | [] => []
  | b :: bs => (start, b) :: links link (link start b) bs

theorem links_append
    (link : D → B → D) (start : D) (xs ys : List B) :
    links link start (xs ++ ys) =
      links link start xs ++ links link (xs.foldl link start) ys := by
  induction xs generalizing start with
  | nil =>
      rfl
  | cons x xs ih =>
      simp [links, ih]

/-- The link function has no collision among the given pairs. -/
def CollisionFree (link : D → B → D) (pairs : List (D × B)) : Prop :=
  ∀ a ∈ pairs, ∀ b ∈ pairs, link a.1 a.2 = link b.1 b.2 → a = b

/-- **The last digest determines the chain.** -/
theorem eq_of_foldl_eq
    {link : D → B → D} {start : D} {xs ys : List B}
    (hstart : ∀ d b, link d b ≠ start)
    (hfree : CollisionFree link (links link start xs ++ links link start ys))
    (htail : xs.foldl link start = ys.foldl link start) :
    xs = ys := by
  -- both lists are taken apart from the end, where the digests are known
  induction xs using List.reverseRecOn generalizing ys with
  | nil =>
      cases ys using List.reverseRecOn with
      | nil =>
          rfl
      | append_singleton ys y =>
          rw [List.foldl_append] at htail
          exact absurd htail.symm (hstart _ _)
  | append_singleton xs x ih =>
      cases ys using List.reverseRecOn with
      | nil =>
          rw [List.foldl_append] at htail
          exact absurd htail (hstart _ _)
      | append_singleton ys y =>
          simp only [links_append] at hfree
          have hpair : (xs.foldl link start, x) = (ys.foldl link start, y) := by
            refine hfree _ (by simp [links]) _ (by simp [links]) ?_
            simpa using htail
          obtain ⟨hprevious, rfl⟩ := Prod.mk.inj hpair
          have hsub : CollisionFree link
              (links link start xs ++ links link start ys) := by
            intro a ha b hb
            apply hfree
            · simp only [List.mem_append] at ha ⊢
              tauto
            · simp only [List.mem_append] at hb ⊢
              tauto
          rw [ih hsub hprevious]

end Chains

/-! ## Descents -/

section Descents

variable {α : Type u}
variable {r : α → α → Prop}

/-- A descent of so many steps that starts at an element. -/
inductive Descent (r : α → α → Prop) : α → Nat → Prop
  | here (x : α) : Descent r x 0
  | step {x y : α} {k : Nat} (h : r x y) (rest : Descent r y k) : Descent r x (k + 1)

/-- No element leads back to itself. -/
def Acyclic (r : α → α → Prop) : Prop :=
  ∀ x, ¬ Relation.TransGen r x x

theorem Descent.shorten {x : α} {j k : Nat} (h : Descent r x k) (hj : j ≤ k) :
    Descent r x j := by
  induction h generalizing j with
  | here x =>
      obtain rfl : j = 0 := by omega
      exact .here x
  | step hxy _ ih =>
      cases j with
      | zero => exact .here _
      | succ j => exact .step hxy (ih (by omega))

theorem Descent.prepend {x y : α} {k : Nat} (hxy : Relation.TransGen r x y)
    (h : Descent r y k) :
    ∃ j, k < j ∧ Descent r x j := by
  induction hxy using Relation.TransGen.head_induction_on with
  | single hxy => exact ⟨k + 1, by omega, .step hxy h⟩
  | head hxz _ ih =>
      obtain ⟨j, hj, hdescent⟩ := ih
      exact ⟨j + 1, by omega, .step hxz hdescent⟩

/-- An element on a cycle has descents of every length. -/
theorem Descent.of_cycle {x : α} (h : Relation.TransGen r x x) (k : Nat) :
    Descent r x k := by
  induction k with
  | zero => exact .here x
  | succ k ih =>
      obtain ⟨j, hj, hdescent⟩ := Descent.prepend h ih
      exact hdescent.shorten hj

/-- A descent passes through its elements in the order of the relation. -/
theorem Descent.elements {x : α} {k : Nat} (h : Descent r x k)
    {l : List α} (hl : ∀ y z, r y z → z ∈ l) :
    ∃ ys : List α, ys.length = k ∧ ys ⊆ l ∧ (x :: ys).Pairwise (Relation.TransGen r) := by
  induction h with
  | here x => exact ⟨[], rfl, List.nil_subset l, List.pairwise_singleton _ x⟩
  | @step x y k hxy _ ih =>
      obtain ⟨ys, hlength, hsubset, hpairwise⟩ := ih
      refine ⟨y :: ys, by simp [hlength], List.cons_subset.mpr ⟨hl x y hxy, hsubset⟩, ?_⟩
      refine List.pairwise_cons.mpr ⟨fun z hz => ?_, hpairwise⟩
      rcases List.mem_cons.mp hz with rfl | hz
      · exact .single hxy
      · exact .head hxy ((List.pairwise_cons.mp hpairwise).1 z hz)

/-- Without a cycle, a descent into a list is no longer than the list. -/
theorem Descent.length_le (hacyclic : Acyclic r) {x : α} {k : Nat} (h : Descent r x k)
    {l : List α} (hl : ∀ y z, r y z → z ∈ l) :
    k ≤ l.length := by
  obtain ⟨ys, rfl, hsubset, hpairwise⟩ := h.elements hl
  have hnodup : ys.Nodup := (List.pairwise_cons.mp hpairwise).2.imp (by
    rintro a _ hab rfl
    exact hacyclic a hab)
  exact (hnodup.subperm hsubset).length_le

end Descents

end Machine
end SwFactory
