import BoundSql.Binary64.Nearest

/-!
# Decimal numbers and their nearest binary64

A nonnegative decimal number is `digits * 10 ^ exponent`.  `nearest?` rounds it
to binary64, and `reduce` writes the same number without trailing zeros.
Rounding depends on the value alone, so reducing does not change its result.
-/

namespace BoundSql

structure Decimal where
  digits : Nat
  exponent : Int
  deriving DecidableEq, Repr

namespace Decimal

def tenPow (n : Nat) : Nat :=
  Nat.pow 10 n

/-- The number is `numerator / denominator` units of binary64. -/
def numerator (d : Decimal) : Nat :=
  d.digits * tenPow d.exponent.toNat * Binary64.unitsInOne

def denominator (d : Decimal) : Nat :=
  tenPow (-d.exponent).toNat

def inRange? (magnitude : Nat) : Option Nat :=
  if magnitude < Binary64.infinity then some magnitude else none

/--
The magnitude of the nearest binary64, or `none` if the number is out of range.
Ten exceeds two cubed, so a glance at the exponent settles a number that is far
out of range or far below half a unit, however long its powers would be.
-/
def nearest? (d : Decimal) : Option Nat :=
  if d.digits = 0 then some 0
  else if 1025 ≤ 3 * d.exponent then none
  else if (d.digits.log2 : Int) + 1076 ≤ 3 * -d.exponent then some 0
  else inRange? (Binary64.nearest d.numerator d.denominator)

/-- The same number without trailing zeros; zero is `0 * 10 ^ 0`. -/
def reduce (d : Decimal) : Decimal :=
  if _nonzero : d.digits = 0 then ⟨0, 0⟩
  else if d.digits % 10 = 0 then reduce ⟨d.digits / 10, d.exponent + 1⟩
  else d
termination_by d.digits
decreasing_by exact Nat.div_lt_self (Nat.pos_of_ne_zero _nonzero) (by decide)

/-! ## Powers of ten -/

theorem tenPow_zero : tenPow 0 = 1 := rfl

theorem tenPow_succ (n : Nat) : tenPow (n + 1) = tenPow n * 10 := rfl

theorem tenPow_pos (n : Nat) : 0 < tenPow n :=
  Nat.pow_pos (by decide)

theorem shiftLeft_le_tenPow (n : Nat) : 1 <<< (3 * n) ≤ tenPow n := by
  induction n with
  | zero => decide
  | succ n ih =>
      have : 1 <<< (3 * (n + 1)) = 8 * 1 <<< (3 * n) := by
        rw [Nat.mul_succ, Nat.shiftLeft_succ, Nat.shiftLeft_succ, Nat.shiftLeft_succ]
        omega
      rw [this, tenPow_succ]
      omega

theorem shiftLeft_le_shiftLeft {m n : Nat} (h : m ≤ n) : 1 <<< m ≤ 1 <<< n := by
  rw [Nat.shiftLeft_eq, Nat.shiftLeft_eq, Nat.one_mul, Nat.one_mul]
  exact Nat.pow_le_pow_right (by decide) h

/-! ## Rounding depends on the value alone -/

theorem roundHalfEven_mul_mul (num den : Nat) {c : Nat} (h : 0 < c) :
    roundHalfEven (num * c) (den * c) = roundHalfEven num den := by
  have lt (a b : Nat) : a * c < b * c ↔ a < b := Nat.mul_lt_mul_right h
  simp only [roundHalfEven, Nat.mul_div_mul_right _ _ h, Nat.mul_mod_mul_right,
    ← Nat.mul_assoc, lt]

theorem nearest_mul_mul (num den : Nat) {c : Nat} (h : 0 < c) :
    Binary64.nearest (num * c) (den * c) = Binary64.nearest num den := by
  simp only [Binary64.nearest, Nat.mul_div_mul_right _ _ h, Nat.shiftLeft_eq]
  rw [Nat.mul_right_comm den, roundHalfEven_mul_mul _ _ h]

theorem nearest_congr {a b c d : Nat} (hb : 0 < b) (hd : 0 < d) (h : a * d = c * b) :
    Binary64.nearest a b = Binary64.nearest c d := by
  rw [← nearest_mul_mul a b hd, ← nearest_mul_mul c d hb, h, Nat.mul_comm b d]

theorem denominator_pos (d : Decimal) : 0 < d.denominator :=
  tenPow_pos _

theorem nearest_of_two_mul_lt {num den : Nat} (h : 2 * num < den) :
    Binary64.nearest num den = 0 := by
  have quotient : num / den = 0 := Nat.div_eq_of_lt (by omega)
  have rest : num % den = num := Nat.mod_eq_of_lt (by omega)
  simp [Binary64.nearest, roundHalfEven, quotient, rest, h]

theorem infinity_le_nearest {num k : Nat} (hk : 2099 ≤ k) (h : 1 <<< k ≤ num) :
    Binary64.infinity ≤ Binary64.nearest num 1 := by
  have nonzero : num ≠ 0 :=
    Nat.ne_of_gt (Nat.lt_of_lt_of_le (Binary64.shiftLeft_pos k Nat.one_pos) h)
  rw [Nat.shiftLeft_eq, Nat.one_mul] at h
  have := (Nat.le_log2 nonzero).mpr h
  simp only [Binary64.nearest, Nat.div_one, Binary64.infinity]
  exact Nat.le_trans (Nat.mul_le_mul_right _ (by omega)) (Nat.le_add_right _ _)

theorem infinity_le_nearest_of_large {d : Decimal} (nonzero : d.digits ≠ 0)
    (large : 1025 ≤ 3 * d.exponent) :
    Binary64.infinity ≤ Binary64.nearest d.numerator d.denominator := by
  have whole : d.denominator = 1 := by
    have : (-d.exponent).toNat = 0 := by omega
    rw [denominator, this, tenPow_zero]
  rw [whole]
  apply infinity_le_nearest (k := 3 * d.exponent.toNat + Binary64.unitExponent)
    (by simp only [Binary64.unitExponent]; omega)
  rw [← Binary64.shiftLeft_mul_unitsInOne]
  exact Nat.mul_le_mul_right _
    (Nat.le_trans (shiftLeft_le_tenPow _)
      (Nat.le_mul_of_pos_left _ (Nat.pos_of_ne_zero nonzero)))

theorem two_mul_numerator_lt_of_small {d : Decimal}
    (small : (d.digits.log2 : Int) + 1076 ≤ 3 * -d.exponent) :
    2 * d.numerator < d.denominator := by
  have whole : d.exponent.toNat = 0 := by omega
  have lt : d.digits < 1 <<< (d.digits.log2 + 1) := by
    rw [Nat.shiftLeft_eq, Nat.one_mul]
    exact Nat.lt_log2_self
  have doubled : 2 * d.numerator = d.digits * (1 <<< 1 * Binary64.unitsInOne) := by
    simp only [numerator, whole, tenPow_zero, Nat.mul_one]
    exact Nat.mul_left_comm _ _ _
  rw [doubled]
  refine Nat.lt_of_lt_of_le
    (Nat.mul_lt_mul_of_pos_right lt (Nat.mul_pos (by decide) Binary64.unitsInOne_pos)) ?_
  rw [Binary64.shiftLeft_mul_unitsInOne, Nat.shiftLeft_eq 1, Nat.shiftLeft_eq 1,
    Nat.one_mul, Nat.one_mul, ← Nat.pow_add, ← Nat.one_mul (_ ^ _), ← Nat.shiftLeft_eq]
  exact Nat.le_trans
    (shiftLeft_le_shiftLeft (by simp only [Binary64.unitExponent]; omega))
    (shiftLeft_le_tenPow _)

theorem inRange?_zero : inRange? 0 = some 0 := rfl

/-- The glances at the exponent change nothing. -/
theorem nearest?_eq (d : Decimal) :
    d.nearest? = inRange? (Binary64.nearest d.numerator d.denominator) := by
  unfold nearest?
  split
  · next zero =>
      have : 2 * d.numerator < d.denominator := by
        simpa [numerator, zero] using d.denominator_pos
      rw [nearest_of_two_mul_lt this, inRange?_zero]
  split
  · next nonzero large =>
      rw [inRange?, if_neg (Nat.not_lt.mpr (infinity_le_nearest_of_large nonzero large))]
  split
  · next small =>
      rw [nearest_of_two_mul_lt (two_mul_numerator_lt_of_small small), inRange?_zero]
  · rfl

theorem nearest?_congr {d e : Decimal}
    (h : d.numerator * e.denominator = e.numerator * d.denominator) :
    d.nearest? = e.nearest? := by
  rw [nearest?_eq, nearest?_eq, nearest_congr d.denominator_pos e.denominator_pos h]

theorem nearest?_shift (n : Nat) (e : Int) :
    nearest? ⟨n * 10, e⟩ = nearest? ⟨n, e + 1⟩ := by
  apply nearest?_congr
  simp only [numerator, denominator]
  generalize Binary64.unitsInOne = units
  by_cases h : 0 ≤ e
  · have up : (e + 1).toNat = e.toNat + 1 := by omega
    have none : (-e).toNat = 0 := by omega
    have none' : (-(e + 1)).toNat = 0 := by omega
    rw [up, none, none', tenPow_succ]
    ac_rfl
  · have down : (-e).toNat = (-(e + 1)).toNat + 1 := by omega
    have none : e.toNat = 0 := by omega
    have none' : (e + 1).toNat = 0 := by omega
    rw [down, none, none', tenPow_succ]
    ac_rfl

theorem nearest?_reduce (d : Decimal) : d.reduce.nearest? = d.nearest? := by
  fun_induction reduce d with
  | case1 d zero => simp [nearest?, zero]
  | case2 d _ even ih =>
      rw [ih, ← nearest?_shift, Nat.div_mul_cancel (Nat.dvd_of_mod_eq_zero even)]
  | case3 => rfl

theorem digits_reduce (d : Decimal) : d.reduce = ⟨0, 0⟩ ∨ d.reduce.digits % 10 ≠ 0 := by
  fun_induction reduce d with
  | case1 => exact .inl rfl
  | case2 _ _ _ ih => exact ih
  | case3 _ _ last => exact .inr last

end Decimal

end BoundSql
