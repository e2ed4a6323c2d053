import Mathlib.Algebra.Order.Round
import Mathlib.Algebra.Ring.Int.Parity
import Mathlib.Tactic.Linarith
import Mathlib.Tactic.Ring

/-!
# Two roundings to the nearest integer

They differ at ties only: `roundHalfEven` goes to the even neighbour,
`roundHalfAway` to the neighbour farther from zero.  A comparison of a rounded
value with an integer is a comparison of the value itself with the half below
it, and the parity of the integer says whether the tie is included.
-/

namespace SwFactory
namespace Arithmetic

variable {K : Type*} [Field K] [LinearOrder K] [IsStrictOrderedRing K] [FloorRing K]

/-- Nearest integer, ties to even. -/
def roundHalfEven (x : K) : Int :=
  if x - ⌊x⌋ < 1 / 2 then
    ⌊x⌋
  else if 1 / 2 < x - ⌊x⌋ then
    ⌊x⌋ + 1
  else if ⌊x⌋ % 2 = 0 then
    ⌊x⌋
  else
    ⌊x⌋ + 1

/-- Nearest integer, ties away from zero. -/
def roundHalfAway (x : K) : Int :=
  if 0 ≤ x then ⌊x + 1 / 2⌋ else -⌊-x + 1 / 2⌋

variable {x : K} {n : Int}

theorem le_roundHalfAway (hn : 0 < n) :
    n ≤ roundHalfAway x ↔ (n : K) - 1 / 2 ≤ x := by
  have hn' : (1 : K) ≤ n := by exact_mod_cast hn
  by_cases hx : 0 ≤ x
  · rw [roundHalfAway, if_pos hx, Int.le_floor, sub_le_iff_le_add]
  · have hfloor : 0 ≤ ⌊-x + 1 / 2⌋ := by
      rw [Int.floor_nonneg]
      linarith
    rw [roundHalfAway, if_neg hx]
    constructor
    · intro h
      omega
    · intro h
      linarith

omit [IsStrictOrderedRing K] in
/-- Above the floor only the next integer is in question. -/
theorem le_roundHalfEven_of_ne (h : n ≠ ⌊x⌋ + 1) :
    n ≤ roundHalfEven x ↔ n ≤ ⌊x⌋ := by
  unfold roundHalfEven
  split
  · rfl
  split
  · omega
  split
  · rfl
  · omega

theorem le_floor_iff_of_ne (h : n ≠ ⌊x⌋ + 1) :
    n ≤ ⌊x⌋ ↔ (n : K) - 1 / 2 ≤ x := by
  constructor
  · intro hle
    have := Int.le_floor.mp hle
    linarith
  · intro hle
    by_contra hlt
    have hfloor : (⌊x⌋ : K) + 2 ≤ n := by
      exact_mod_cast (by omega : ⌊x⌋ + 2 ≤ n)
    have := Int.lt_floor_add_one x
    linarith

theorem le_floor_iff_of_ne_strict (h : n ≠ ⌊x⌋ + 1) :
    n ≤ ⌊x⌋ ↔ (n : K) - 1 / 2 < x := by
  constructor
  · intro hle
    have := Int.le_floor.mp hle
    linarith
  · intro hlt
    exact (le_floor_iff_of_ne h).mpr hlt.le

theorem le_roundHalfEven_of_even (hn : n % 2 = 0) :
    n ≤ roundHalfEven x ↔ (n : K) - 1 / 2 ≤ x := by
  by_cases h : n = ⌊x⌋ + 1
  · have hcast : (n : K) = ⌊x⌋ + 1 := by exact_mod_cast h
    unfold roundHalfEven
    split
    · constructor
      · intro hle
        omega
      · intro hle
        linarith
    split
    · constructor
      · intro _
        linarith
      · intro _
        omega
    split
    · omega
    · constructor
      · intro _
        linarith
      · intro _
        omega
  · rw [le_roundHalfEven_of_ne h, le_floor_iff_of_ne h]

theorem le_roundHalfEven_of_odd (hn : n % 2 = 1) :
    n ≤ roundHalfEven x ↔ (n : K) - 1 / 2 < x := by
  by_cases h : n = ⌊x⌋ + 1
  · have hcast : (n : K) = ⌊x⌋ + 1 := by exact_mod_cast h
    unfold roundHalfEven
    split
    · constructor
      · intro hle
        omega
      · intro hle
        linarith
    split
    · constructor
      · intro _
        linarith
      · intro _
        omega
    split
    · constructor
      · intro hle
        omega
      · intro hle
        linarith
    · omega
  · rw [le_roundHalfEven_of_ne h, le_floor_iff_of_ne_strict h]

/-- An even bound from below does not tell the roundings apart. -/
theorem le_roundHalfEven_iff_le_roundHalfAway (hn : 0 < n) (heven : n % 2 = 0) :
    n ≤ roundHalfEven x ↔ n ≤ roundHalfAway x := by
  rw [le_roundHalfEven_of_even heven, le_roundHalfAway hn]

/-- An even bound from above does, at the tie just above it and nowhere else. -/
theorem roundHalfEven_le_iff_roundHalfAway_le (hn : 0 ≤ n) (heven : n % 2 = 0)
    (htie : x ≠ n + 1 / 2) :
    roundHalfEven x ≤ n ↔ roundHalfAway x ≤ n := by
  have heq : ((n + 1 : Int) : K) - 1 / 2 = n + 1 / 2 := by
    push_cast
    ring
  have hodd := le_roundHalfEven_of_odd (x := x) (n := n + 1) (by omega)
  have haway := le_roundHalfAway (x := x) (n := n + 1) (by omega)
  rw [heq] at hodd haway
  rw [← not_lt, ← not_lt, ← Int.add_one_le_iff, ← Int.add_one_le_iff, hodd, haway,
    htie.symm.le_iff_lt]

theorem roundHalfEven_le_of_tie (heven : n % 2 = 0) :
    roundHalfEven ((n : K) + 1 / 2) ≤ n := by
  have hodd := le_roundHalfEven_of_odd (x := (n : K) + 1 / 2) (n := n + 1) (by omega)
  rw [← not_lt, ← Int.add_one_le_iff, hodd]
  push_cast
  linarith

theorem lt_roundHalfAway_of_tie (hn : 0 ≤ n) :
    n < roundHalfAway ((n : K) + 1 / 2) := by
  rw [← Int.add_one_le_iff, le_roundHalfAway (by omega)]
  push_cast
  linarith

/-! ## Rounding to a number of places -/

/-- Round the value to `places` decimals. -/
def roundTo (round : K → Int) (places : Nat) (x : K) : K :=
  (round (x * 10 ^ places) : K) / 10 ^ places

theorem le_roundTo {round : K → Int} {places : Nat} {t : K}
    (h : t * 10 ^ places = n) :
    t ≤ roundTo round places x ↔ n ≤ round (x * 10 ^ places) := by
  rw [roundTo, le_div_iff₀ (by positivity), h]
  exact Int.cast_le

theorem roundTo_le {round : K → Int} {places : Nat} {t : K}
    (h : t * 10 ^ places = n) :
    roundTo round places x ≤ t ↔ round (x * 10 ^ places) ≤ n := by
  rw [roundTo, div_le_iff₀ (by positivity), h]
  exact Int.cast_le

end Arithmetic
end SwFactory
