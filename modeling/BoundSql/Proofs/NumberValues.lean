import BoundSql.Proofs.NearestEven
import BoundSql.Proofs.Numerals
import BoundSql.Value.Json
import Mathlib.Tactic.FieldSimp
import Mathlib.Tactic.Linarith

/-!
# Numerals and numbers by their values

A numeral has an exact value, and so has a finite binary64 number.  The number
that is read from a numeral is the one whose value is nearest to it, a half going
to the even neighbour; it has the sign of the numeral, also if it is zero.  There
is one if and only if the value is less than half a step beyond the greatest
finite number.
-/

namespace BoundSql

/-! ## The greatest numbers -/

namespace Binary64

def halfStep : ℚ :=
  2 ^ 2044

theorem halfStep_pos : 0 < halfStep :=
  pow_pos two_pos 2044

/-- From here on a value is out of range. -/
def limit : ℚ :=
  2 ^ 1024 - 2 ^ 970

theorem limit_mul_units : limit * 2 ^ unitExponent = (2 ^ 54 - 1) * halfStep := by
  have whole : (2 : ℚ) ^ 1024 * 2 ^ unitExponent = 2 ^ 54 * halfStep := by
    rw [unitExponent, halfStep, ← pow_add, ← pow_add]
  have part : (2 : ℚ) ^ 970 * 2 ^ unitExponent = halfStep := by
    rw [unitExponent, halfStep, ← pow_add]
  rw [limit, sub_mul, sub_mul, whole, part, one_mul]

theorem unitsOf_around_limit :
    (unitsOf (infinity - 1) : ℚ) = limit * 2 ^ unitExponent - halfStep ∧
      (unitsOf infinity : ℚ) = limit * 2 ^ unitExponent + halfStep := by
  have greatest : unitsOf (infinity - 1) = (2 * fractions - 1) <<< (2044 + 1) :=
    @unitsOf_add 2045 (2 * fractions - 1) (by decide) (.inr (by decide))
  have next : unitsOf infinity = fractions <<< (2044 + 2) :=
    @unitsOf_add 2046 fractions (by decide) (.inr (Nat.le_refl _))
  have doubled : ∀ n k : Nat, ((n <<< (2044 + k) : Nat) : ℚ) = n * (halfStep * 2 ^ k) := by
    intro n k
    rw [Nat.shiftLeft_eq, Nat.cast_mul, Nat.cast_pow, Nat.cast_ofNat, pow_add, halfStep]
  rw [greatest, next, limit_mul_units, doubled, doubled, fractions]
  constructor <;> norm_num <;> ring

theorem unitsOf_le_iff {m n : Nat} : (unitsOf m : ℚ) ≤ unitsOf n ↔ m ≤ n := by
  rw [Nat.cast_le, unitsOf_strictMono.le_iff_le]

theorem unitsOf_inj {m n : Nat} : (unitsOf m : ℚ) = unitsOf n ↔ m = n := by
  rw [Nat.cast_inj, unitsOf_strictMono.injective.eq_iff]

end Binary64

namespace Decimal

open Binary64 (unitsOf infinity limit halfStep unitExponent)

theorem abs_greatest_sub_lt {d : Decimal} (inRange : d.inUnits < limit * 2 ^ unitExponent)
    {other : Nat} (outside : infinity ≤ other) :
    |unitsOf (infinity - 1) - d.inUnits| < |unitsOf other - d.inUnits| := by
  obtain ⟨greatest, next⟩ := Binary64.unitsOf_around_limit
  have positive := Binary64.halfStep_pos
  have above : (unitsOf infinity : ℚ) ≤ unitsOf other := Binary64.unitsOf_le_iff.mpr outside
  calc |unitsOf (infinity - 1) - d.inUnits|
    _ < unitsOf infinity - d.inUnits := abs_lt.mpr ⟨by linarith, by linarith⟩
    _ ≤ unitsOf other - d.inUnits := by linarith
    _ ≤ |unitsOf other - d.inUnits| := le_abs_self _

/-- Out of range is what is nearer to the number after the greatest, or as near to both. -/
theorem RoundsTo.lt_infinity_iff {d : Decimal} {m : Nat} (h : d.RoundsTo m) :
    m < infinity ↔ d.inUnits < limit * 2 ^ unitExponent := by
  obtain ⟨greatest, next⟩ := Binary64.unitsOf_around_limit
  have positive := Binary64.halfStep_pos
  constructor
  · intro inside
    by_contra large
    have below : (unitsOf m : ℚ) ≤ unitsOf (infinity - 1) :=
      Binary64.unitsOf_le_iff.mpr (Nat.le_pred_of_lt inside)
    have nearest := h.nearest infinity
    have far : |unitsOf m - d.inUnits| = d.inUnits - unitsOf m := by
      rw [abs_sub_comm]
      exact abs_of_nonneg (by linarith)
    have near : |unitsOf infinity - d.inUnits|
        ≤ d.inUnits - limit * 2 ^ unitExponent + halfStep :=
      abs_le.mpr ⟨by linarith, by linarith⟩
    -- so `m` is the greatest magnitude in range and lies as near as the next one, but is odd
    have same : (unitsOf m : ℚ) = unitsOf (infinity - 1) := by linarith
    obtain rfl : m = infinity - 1 := Binary64.unitsOf_inj.mp same
    have tie : |unitsOf (infinity - 1) - d.inUnits| = |unitsOf infinity - d.inUnits| := by
      linarith
    exact absurd (h.even infinity tie) (by decide)
  · intro small
    by_contra outside
    exact absurd (h.nearest (infinity - 1))
      (not_le.mpr (abs_greatest_sub_lt small (Nat.le_of_not_lt outside)))

end Decimal

/-! ## Numbers and what is nearest to them -/

def signed (negative : Bool) (q : ℚ) : ℚ :=
  if negative then -q else q

theorem abs_signed {negative : Bool} {q : ℚ} (h : 0 ≤ q) : |signed negative q| = q := by
  unfold signed
  split
  · rw [abs_neg, abs_of_nonneg h]
  · exact abs_of_nonneg h

namespace Binary64

def value (x : Binary64) : ℚ :=
  signed x.isNegative (x.units / 2 ^ unitExponent)

/-- No finite number is nearer to `q`, and only an even one has another that is as near. -/
structure IsClosest (q : ℚ) (x : Binary64) : Prop where
  finite : x.isFinite = true
  nearest : ∀ y : Binary64, y.isFinite = true → |x.value - q| ≤ |y.value - q|
  even : ∀ y : Binary64, y.isFinite = true → |x.value - q| = |y.value - q| →
    y.value = x.value ∨ x.magnitude % 2 = 0

theorem abs_value_sub (y : Binary64) (negative : Bool) (inUnits : ℚ) :
    |y.value - signed negative (inUnits / 2 ^ unitExponent)|
      = (if y.isNegative = negative then |unitsOf y.magnitude - inUnits|
          else |unitsOf y.magnitude + inUnits|) / 2 ^ unitExponent := by
  have positive : (0 : ℚ) < 2 ^ unitExponent := pow_pos two_pos unitExponent
  rw [value, units_eq_unitsOf]
  generalize (unitsOf y.magnitude : ℚ) = u
  have same : |u / 2 ^ unitExponent - inUnits / 2 ^ unitExponent|
      = |u - inUnits| / 2 ^ unitExponent := by
    rw [← sub_div, abs_div, abs_of_pos positive]
  have opposite : |u / 2 ^ unitExponent + inUnits / 2 ^ unitExponent|
      = |u + inUnits| / 2 ^ unitExponent := by
    rw [← add_div, abs_div, abs_of_pos positive]
  cases y.isNegative <;> cases negative <;> simp only [signed, if_true, if_false,
    Bool.false_eq_true, Bool.true_eq_false]
  · exact same
  · rw [sub_neg_eq_add, opposite]
  · rw [← neg_add', abs_neg, opposite]
  · rw [neg_sub_neg, abs_sub_comm, same]

theorem magnitude_eq_of_value_eq {x y : Binary64} (signs : x.isNegative = y.isNegative)
    (values : x.value = y.value) : x.magnitude = y.magnitude := by
  have nonzero : (2 : ℚ) ^ unitExponent ≠ 0 := (pow_pos two_pos unitExponent).ne'
  have units : (unitsOf x.magnitude : ℚ) = unitsOf y.magnitude := by
    rw [value, value, signs, units_eq_unitsOf, units_eq_unitsOf] at values
    unfold signed at values
    split at values
    · exact (div_left_inj' nonzero).mp (neg_injective values)
    · exact (div_left_inj' nonzero).mp values
  exact unitsOf_inj.mp units

theorem exists_of_magnitude (negative : Bool) {m : Nat} (h : m < infinity) :
    ∃ y : Binary64, y.isFinite = true ∧ y.isNegative = negative ∧ y.magnitude = m := by
  have small : m % signWeight = m := by
    apply Nat.mod_eq_of_lt
    have : infinity < signWeight := by decide
    omega
  refine ⟨ofParts negative m, ?_, isNegative_ofParts negative m, ?_⟩
  · simp [isFinite, small, h]
  · rw [magnitude_ofParts, small]

end Binary64

namespace Decimal

open Binary64

theorem inUnits_nonneg (d : Decimal) : 0 ≤ d.inUnits := by
  rw [inUnits_eq]
  positivity

theorem abs_value_sub_self (d : Decimal) (x : Binary64) :
    |x.value - signed x.isNegative (d.inUnits / 2 ^ unitExponent)|
      = |unitsOf x.magnitude - d.inUnits| / 2 ^ unitExponent := by
  rw [abs_value_sub, if_pos rfl]

theorem RoundsTo.isClosest {d : Decimal} {x : Binary64} (h : d.RoundsTo x.magnitude)
    (finite : x.isFinite = true) :
    IsClosest (signed x.isNegative (d.inUnits / 2 ^ unitExponent)) x := by
  have positive : (0 : ℚ) < 2 ^ unitExponent := pow_pos two_pos unitExponent
  have nonneg := d.inUnits_nonneg
  have nearest := h.nearest 0
  have atZero : |unitsOf 0 - d.inUnits| = d.inUnits := by
    have zero : (unitsOf 0 : ℚ) = 0 := Nat.cast_zero
    rw [zero, zero_sub, abs_neg, abs_of_nonneg nonneg]
  refine ⟨finite, ?_, ?_⟩
  · intro y _
    rw [abs_value_sub_self, abs_value_sub, div_le_div_iff_of_pos_right positive]
    split
    · exact h.nearest y.magnitude
    · have further := le_abs_self (unitsOf y.magnitude + d.inUnits)
      have : (0 : ℚ) ≤ unitsOf y.magnitude := Nat.cast_nonneg _
      linarith
  · intro y _ tie
    rw [abs_value_sub_self, abs_value_sub, div_left_inj' positive.ne'] at tie
    split at tie
    · next sign =>
        refine (h.even y.magnitude tie).imp_left fun same => ?_
        rw [value, value, sign, units_eq_unitsOf, units_eq_unitsOf, same]
    · -- then `y` is a zero, and zero is even
      right
      have further := le_abs_self (unitsOf y.magnitude + d.inUnits)
      have : (0 : ℚ) ≤ unitsOf y.magnitude := Nat.cast_nonneg _
      rcases h.even 0 (by linarith) with same | even
      · rw [← same]
      · exact even

theorem roundsTo_of_isClosest {d : Decimal} {x : Binary64}
    (inRange : d.inUnits < limit * 2 ^ unitExponent)
    (closest : IsClosest (signed x.isNegative (d.inUnits / 2 ^ unitExponent)) x) :
    d.RoundsTo x.magnitude := by
  have positive : (0 : ℚ) < 2 ^ unitExponent := pow_pos two_pos unitExponent
  have inside : ∀ other, other < infinity →
      |unitsOf x.magnitude - d.inUnits| ≤ |unitsOf other - d.inUnits| ∧
      (|unitsOf x.magnitude - d.inUnits| = |unitsOf other - d.inUnits| →
        other = x.magnitude ∨ x.magnitude % 2 = 0) := by
    intro other small
    obtain ⟨y, finite, sign, rfl⟩ := exists_of_magnitude x.isNegative small
    have nearest := closest.nearest y finite
    have even := closest.even y finite
    rw [← sign, abs_value_sub_self, sign, abs_value_sub_self] at nearest even
    rw [div_le_div_iff_of_pos_right positive] at nearest
    refine ⟨nearest, fun tie => ?_⟩
    exact (even (congrArg (· / _) tie)).imp_left (magnitude_eq_of_value_eq sign)
  have outside : ∀ other, infinity ≤ other →
      |unitsOf x.magnitude - d.inUnits| < |unitsOf other - d.inUnits| := fun _ large =>
    (inside (infinity - 1) (by decide)).1.trans_lt (abs_greatest_sub_lt inRange large)
  constructor
  · intro other
    rcases Nat.lt_or_ge other infinity with small | large
    · exact (inside other small).1
    · exact (outside other large).le
  · intro other tie
    rcases Nat.lt_or_ge other infinity with small | large
    · exact (inside other small).2 tie
    · exact absurd tie (outside other large).ne

/-- The number that is read from a decimal is the closest one of its sign, if it is in range. -/
theorem nearest?_eq_some_iff_isClosest (d : Decimal) (x : Binary64) :
    d.nearest? = some x.magnitude ↔ d.inUnits < limit * 2 ^ unitExponent ∧
      IsClosest (signed x.isNegative (d.inUnits / 2 ^ unitExponent)) x := by
  rw [nearest?_eq_some_iff]
  constructor
  · rintro ⟨rounded, inside⟩
    exact ⟨rounded.lt_infinity_iff.mp inside, rounded.isClosest (decide_eq_true inside)⟩
  · rintro ⟨inRange, closest⟩
    exact ⟨roundsTo_of_isClosest inRange closest, of_decide_eq_true closest.finite⟩

theorem nearest?_eq_none_iff (d : Decimal) :
    d.nearest? = none ↔ limit * 2 ^ unitExponent ≤ d.inUnits := by
  have rounded := (d.roundsTo_iff _).mpr rfl
  rw [nearest?_eq, inRange?, ← not_lt, ← rounded.lt_infinity_iff]
  split <;> simp_all

theorem nearest?_natural {n : Nat} (h : n < UInt64.size) :
    nearest? ⟨n, 0⟩ = some (Binary64.nearest (n * unitsInOne) 1) := by
  have value : inUnits ⟨n, 0⟩ = n * 2 ^ unitExponent := by
    rw [inUnits, zpow_zero, mul_one]
  have small : (n : ℚ) < 2 ^ 64 := by exact_mod_cast h
  have below : (n : ℚ) < limit := calc
    (n : ℚ) < 2 ^ 970 := small.trans_le (pow_le_pow_right₀ one_le_two (by decide))
    _ ≤ (2 ^ 54 - 1) * 2 ^ 970 := le_mul_of_one_le_left (by positivity) (by norm_num)
    _ = limit := by rw [limit, sub_mul, one_mul, ← pow_add]
  have inRange : inUnits ⟨n, 0⟩ < limit * 2 ^ unitExponent := by
    rw [value]
    exact mul_lt_mul_of_pos_right below (pow_pos two_pos unitExponent)
  have rounded := ((roundsTo_iff ⟨n, 0⟩ _).mpr rfl).lt_infinity_iff.mpr inRange
  have numerator_eq : numerator ⟨n, 0⟩ = n * unitsInOne := by
    rw [numerator, Int.toNat_zero, tenPow_zero, Nat.mul_one]
  rw [nearest?_eq, inRange?, if_pos rounded, numerator_eq]
  rfl
end Decimal

/-! ## Numerals and what is read from them -/

namespace Json.Numeral

open Binary64 (limit unitExponent unitsInOne IsClosest)

def value (n : Numeral) : ℚ :=
  signed n.negative ((Nat.ofDigitChars 10 n.whole 0
    + Nat.ofDigitChars 10 n.fraction 0 / 10 ^ n.fraction.length) * 10 ^ n.exponent.getD 0)

structure Denotes (n : Numeral) (x : Binary64) : Prop where
  sign : x.isNegative = n.negative
  inRange : |n.value| < limit
  closest : IsClosest n.value x

theorem inUnits_decimal (n : Numeral) :
    n.decimal.inUnits / 2 ^ unitExponent = (Nat.ofDigitChars 10 n.whole 0
      + Nat.ofDigitChars 10 n.fraction 0 / 10 ^ n.fraction.length) * 10 ^ n.exponent.getD 0 := by
  have ten : (10 : ℚ) ≠ 0 := by norm_num
  have unit : (2 : ℚ) ^ unitExponent ≠ 0 := (pow_pos two_pos unitExponent).ne'
  have digits : (n.digits : ℚ) = 10 ^ n.fraction.length * Nat.ofDigitChars 10 n.whole 0
      + Nat.ofDigitChars 10 n.fraction 0 := by
    rw [Numeral.digits, Nat.ofDigitChars_append, Nat.ofDigitChars_eq_ofDigitChars_zero]
    push_cast
    ring
  rw [Decimal.inUnits, mul_div_cancel_right₀ _ unit]
  simp only [decimal, digits]
  rw [zpow_sub₀ ten, zpow_natCast]
  field_simp

theorem value_eq (n : Numeral) :
    n.value = signed n.negative (n.decimal.inUnits / 2 ^ unitExponent) := by
  rw [value, inUnits_decimal]

theorem abs_value_lt_limit_iff (n : Numeral) :
    |n.value| < limit ↔ n.decimal.inUnits < limit * 2 ^ unitExponent := by
  have positive : (0 : ℚ) < 2 ^ unitExponent := pow_pos two_pos unitExponent
  have nonneg := div_nonneg n.decimal.inUnits_nonneg positive.le
  rw [value_eq, abs_signed nonneg, div_lt_iff₀ positive]

theorem denotes_iff (n : Numeral) (x : Binary64) :
    n.Denotes x ↔ x.isNegative = n.negative ∧ n.decimal.nearest? = some x.magnitude := by
  rw [Decimal.nearest?_eq_some_iff_isClosest]
  constructor
  · rintro ⟨sign, inRange, closest⟩
    rw [value_eq, ← sign] at closest
    exact ⟨sign, n.abs_value_lt_limit_iff.mp inRange, closest⟩
  · rintro ⟨sign, inRange, closest⟩
    rw [sign, ← value_eq] at closest
    exact ⟨sign, n.abs_value_lt_limit_iff.mpr inRange, closest⟩

/-! ## Integers among the numerals -/

def isInteger (n : Numeral) : Bool :=
  n.isWhole && !(n.negative && n.digits == 0)
    && Int64.minValue.toInt ≤ n.integer && n.integer ≤ Int64.maxValue.toInt

/-- A token without point and exponent and not minus zero, whose value fits into 64 bits. -/
structure IsIntegerToken (n : Numeral) (token : List Char) : Prop where
  plain : '.' ∉ token ∧ 'e' ∉ token ∧ 'E' ∉ token
  nonzero : token ≠ ['-', '0']
  least : -2 ^ 63 ≤ n.value
  greatest : n.value ≤ 2 ^ 63 - 1

theorem value_of_isWhole {n : Numeral} (whole : n.isWhole = true) : n.value = n.integer := by
  obtain ⟨negative, digits, fraction, exponent⟩ := n
  simp only [isWhole, Bool.and_eq_true, List.isEmpty_iff, Option.isNone_iff_eq_none] at whole
  obtain ⟨rfl, rfl⟩ := whole
  cases negative <;> simp [value, integer, Numeral.digits, signed]

theorem ofDigitChars_pos {c : Char} (digit : c.isDigit = true) (nonzero : c ≠ '0')
    (others : List Char) : 0 < Nat.ofDigitChars 10 (c :: others) 0 := by
  have least : 48 ≤ c.toNat := (Char.isDigit_iff_toNat.mp digit).1
  have other : c.toNat ≠ 48 := fun same => nonzero (Char.toNat_inj.mp same)
  have leading : 0 < c.toNat - 48 := by omega
  rw [Nat.ofDigitChars_cons, Nat.ofDigitChars_eq_ofDigitChars_zero, Nat.mul_zero, Nat.zero_add]
  exact Nat.add_pos_left (Nat.mul_pos (Nat.pow_pos (by decide)) leading) _

theorem Spells.isWhole_iff {n : Numeral} {token : List Char} (h : n.Spells token) :
    n.isWhole = true ↔ '.' ∉ token ∧ 'e' ∉ token ∧ 'E' ∉ token := by
  obtain ⟨wf, spelling, spelled, rfl⟩ := h
  rw [isWhole, Bool.and_eq_true, List.isEmpty_iff, Option.isNone_iff_eq_none]
  constructor
  · rintro ⟨fraction, exponent⟩
    rw [exponent] at spelled
    cases spelled
    have chars : ∀ c ∈ (if n.negative then ['-'] else [])
        ++ (n.whole ++ (fractionChars n.fraction ++ [])), c = '-' ∨ c.isDigit = true := by
      intro c there
      rw [fraction] at there
      simp only [fractionChars, List.isEmpty_nil, if_true, List.append_nil,
        List.mem_append] at there
      rcases there with sign | digit
      · left
        cases negative : n.negative <;> simp_all
      · exact .inr (wf.whole_digits c digit)
    refine ⟨fun h => ?_, fun h => ?_, fun h => ?_⟩ <;> simpa using chars _ h
  · rintro ⟨point, small, capital⟩
    constructor
    · by_contra nonempty
      exact point (by simp [fractionChars, nonempty])
    · generalize n.exponent = exponent at spelled ⊢
      cases spelled with
      | absent => rfl
      | marked isMark signed =>
          rcases isMark with rfl | rfl
          · exact absurd (by simp) small
          · exact absurd (by simp) capital

theorem Spells.minus_zero_iff {n : Numeral} {token : List Char} (h : n.Spells token)
    (whole : n.isWhole = true) : n.negative = true ∧ n.digits = 0 ↔ token = ['-', '0'] := by
  obtain ⟨wf, spelling, spelled, rfl⟩ := h
  rw [isWhole, Bool.and_eq_true, List.isEmpty_iff, Option.isNone_iff_eq_none] at whole
  obtain ⟨fraction, exponent⟩ := whole
  rw [exponent] at spelled
  cases spelled
  have digits : n.digits = Nat.ofDigitChars 10 n.whole 0 := by
    rw [Numeral.digits, fraction, List.append_nil]
  have written : fractionChars n.fraction ++ [] = [] := by rw [fraction]; rfl
  rw [written, List.append_nil, digits]
  have leading := wf.leading
  have all := wf.whole_digits
  obtain ⟨c, others, parts⟩ := List.exists_cons_of_ne_nil wf.whole_ne_nil
  rw [parts] at all leading ⊢
  have digit := all c List.mem_cons_self
  constructor
  · rintro ⟨negative, zero⟩
    have first : c = '0' := by
      by_contra nonzero
      exact absurd zero (ofDigitChars_pos digit nonzero others).ne'
    rw [leading (congrArg some first), negative]
    rfl
  · intro same
    cases negative : n.negative with
    | true =>
        rw [negative] at same
        have single : c :: others = ['0'] := (List.cons.inj same).2
        rw [single]
        exact ⟨rfl, rfl⟩
    | false =>
        rw [negative] at same
        obtain rfl : c = '-' := (List.cons.inj same).1
        contradiction

theorem Spells.isInteger_iff {n : Numeral} {token : List Char} (h : n.Spells token) :
    n.isInteger = true ↔ n.IsIntegerToken token := by
  have least : Int64.minValue.toInt = -2 ^ 63 := by decide
  have greatest : Int64.maxValue.toInt = 2 ^ 63 - 1 := by decide
  have bounds : n.isWhole = true →
      ((Int64.minValue.toInt ≤ n.integer ↔ -2 ^ 63 ≤ n.value) ∧
        (n.integer ≤ Int64.maxValue.toInt ↔ n.value ≤ 2 ^ 63 - 1)) := by
    intro whole
    rw [value_of_isWhole whole, least, greatest]
    constructor <;> norm_cast
  have parts : n.isInteger = true ↔ n.isWhole = true ∧ ¬ (n.negative = true ∧ n.digits = 0) ∧
      Int64.minValue.toInt ≤ n.integer ∧ n.integer ≤ Int64.maxValue.toInt := by
    simp only [isInteger, Bool.and_eq_true, decide_eq_true_eq, Bool.not_eq_true',
      Bool.and_eq_false_iff, beq_eq_false_iff_ne, not_and_or, Bool.not_eq_true, and_assoc]
  rw [parts]
  constructor
  · rintro ⟨whole, nonzero, lower, upper⟩
    exact ⟨h.isWhole_iff.mp whole, fun same => nonzero ((h.minus_zero_iff whole).mpr same),
      (bounds whole).1.mp lower, (bounds whole).2.mp upper⟩
  · rintro ⟨plain, nonzero, lower, upper⟩
    have whole := h.isWhole_iff.mpr plain
    exact ⟨whole, fun zero => nonzero ((h.minus_zero_iff whole).mp zero),
      (bounds whole).1.mpr lower, (bounds whole).2.mpr upper⟩

/-! ## What is read from a token -/

theorem isInteger_iff {n : Numeral} : n.isInteger = true ↔
    n.isBelowZero = true ∨ n.isNatural = true ∧ n.digits < 0x8000_0000_0000_0000 := by
  have least : Int64.minValue.toInt = -0x8000_0000_0000_0000 := by decide
  have greatest : Int64.maxValue.toInt = 0x7FFF_FFFF_FFFF_FFFF := by decide
  have size : UInt64.size = 0x1_0000_0000_0000_0000 := rfl
  simp only [isInteger, isBelowZero, isNatural, integer, least, greatest, size]
  cases n.isWhole with
  | false => simp
  | true =>
      by_cases negative : n.negative = true
      · simp [negative]
      · simp only [negative, Bool.not_false, Bool.true_and, Bool.and_eq_true, decide_eq_true_eq,
          Bool.false_and, if_false, Bool.false_eq_true]
        omega

theorem ofNumber_natural {n : Nat} (h : n < UInt64.size) :
    Value.ofNumber (.natural (.ofNat n)) = if n < 0x8000_0000_0000_0000 then .int (.ofInt n)
      else .float (.ofParts false (Binary64.nearest (n * unitsInOne) 1)) := by
  have same : (UInt64.ofNat n).toNat = n := UInt64.toNat_ofNat_of_lt h
  have nonneg : ¬ (n : Int) < 0 := by omega
  have signed : Number.toInt64? (.natural (.ofNat n))
      = if n < 0x8000_0000_0000_0000 then some (.ofInt n) else none := by
    rw [Number.toInt64?, Number.signed?, same, UInt64.toInt64_ofNat', ← Int64.ofInt_eq_ofNat]
  have float : Number.toBinary64 (.natural (.ofNat n))
      = .ofParts false (Binary64.nearest (n * unitsInOne) 1) := by
    rw [Number.toBinary64, same, Binary64.ofInt, Int.natAbs_natCast, decide_eq_false nonneg]
  unfold Value.ofNumber
  rw [signed, float]
  by_cases fits : n < 0x8000_0000_0000_0000
  · rw [if_pos fits, if_pos fits]
  · rw [if_neg fits, if_neg fits]

theorem decimal_of_isWhole {n : Numeral} (whole : n.isWhole = true) :
    n.decimal = ⟨n.digits, 0⟩ := by
  simp only [isWhole, Bool.and_eq_true, List.isEmpty_iff, Option.isNone_iff_eq_none] at whole
  rw [decimal, whole.1, whole.2]
  rfl

theorem map_ofNumber_number? (n : Numeral) :
    n.number?.map Value.ofNumber = if n.isInteger then some (.int (.ofInt n.integer))
      else n.decimal.nearest?.map fun m => .float (.ofParts n.negative m) := by
  unfold number?
  by_cases natural : n.isNatural = true
  · have parts := natural
    simp only [isNatural, Bool.and_eq_true, Bool.not_eq_true', decide_eq_true_eq] at parts
    obtain ⟨⟨whole, positive⟩, small⟩ := parts
    have integer : n.integer = n.digits := by rw [integer, positive]; rfl
    have decimal := decimal_of_isWhole whole
    rw [if_pos natural, Option.map_some, ofNumber_natural small]
    by_cases fits : n.digits < 0x8000_0000_0000_0000
    · rw [if_pos fits, if_pos (isInteger_iff.mpr (.inr ⟨natural, fits⟩)), integer]
    · have above : ¬ n.isBelowZero = true := by simp [isBelowZero, integer]
      have other : ¬ n.isInteger = true := fun h =>
        (isInteger_iff.mp h).elim above fun h => fits h.2
      rw [if_neg fits, if_neg other, decimal, Decimal.nearest?_natural small, positive]
      rfl
  · by_cases below : n.isBelowZero = true
    · rw [if_neg natural, if_pos below, if_pos (isInteger_iff.mpr (.inl below)), Option.map_some,
        Value.ofNumber_ofInt64]
    · have other : ¬ n.isInteger = true := fun integer =>
        (isInteger_iff.mp integer).elim below fun h => natural h.1
      rw [if_neg natural, if_neg below, if_neg other, Option.map_map]
      rfl
theorem Spells.number?_integer_iff {n : Numeral} {token : List Char} (h : n.Spells token)
    (i : Int64) : n.number?.map Value.ofNumber = some (.int i) ↔
      n.IsIntegerToken token ∧ (i.toInt : ℚ) = n.value := by
  rw [← h.isInteger_iff, map_ofNumber_number?]
  cases integer : n.isInteger with
  | false => simp
  | true =>
      have bounds := integer
      simp only [isInteger, Bool.and_eq_true, decide_eq_true_eq] at bounds
      obtain ⟨⟨⟨whole, -⟩, least⟩, greatest⟩ := bounds
      have within : (Int64.ofInt n.integer).toInt = n.integer :=
        Int64.toInt_ofInt_of_le least (Int.lt_add_one_of_le greatest)
      rw [value_of_isWhole whole, Int.cast_inj, if_pos rfl, Option.some.injEq,
        Value.int.injEq, ← Int64.toInt_inj, within]
      simp [eq_comm]

theorem Spells.number?_float_iff {n : Numeral} {token : List Char} (h : n.Spells token)
    (x : Binary64) : n.number?.map Value.ofNumber = some (.float x) ↔
      ¬ n.IsIntegerToken token ∧ n.Denotes x := by
  rw [← h.isInteger_iff, denotes_iff, map_ofNumber_number?]
  cases integer : n.isInteger with
  | true => simp
  | false =>
      simp only [Bool.false_eq_true, if_false, not_false_eq_true, true_and,
        Option.map_eq_some_iff, Value.float.injEq]
      constructor
      · rintro ⟨m, nearest, rfl⟩
        obtain ⟨-, inRange⟩ := (Decimal.nearest?_eq_some_iff _ _).mp nearest
        have small : m % Binary64.signWeight = m :=
          Nat.mod_eq_of_lt (inRange.trans (by decide))
        rw [Binary64.isNegative_ofParts, Binary64.magnitude_ofParts, small]
        exact ⟨rfl, nearest⟩
      · rintro ⟨sign, nearest⟩
        exact ⟨x.magnitude, nearest, by rw [← sign, x.ofParts_magnitude]⟩

theorem Spells.number?_none_iff {n : Numeral} {token : List Char} (h : n.Spells token) :
    n.number?.map Value.ofNumber = none ↔ ¬ n.IsIntegerToken token ∧ limit ≤ |n.value| := by
  rw [← h.isInteger_iff, ← not_lt, abs_value_lt_limit_iff, not_lt,
    ← Decimal.nearest?_eq_none_iff, map_ofNumber_number?]
  cases n.isInteger <;> simp

end Json.Numeral

end BoundSql
