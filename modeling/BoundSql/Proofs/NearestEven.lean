import BoundSql.Decimal.Basic
import Mathlib.Algebra.Order.Field.Basic
import Mathlib.Algebra.Order.Ring.Abs
import Mathlib.Data.Rat.Cast.Order
import Mathlib.Order.Monotone.Basic
import Mathlib.Tactic.Ring

/-!
# Rounding takes the nearest number

The magnitudes of binary64 numbers count up a grid of values that lie ever
further apart.  Rounding finds the two neighbours of a quotient on this grid and
takes the nearer one, or the even one if both are equally near.  So a decimal
has one nearest magnitude, and it is the one that rounding finds.
-/

namespace BoundSql

namespace Binary64

/-! ## The grid -/

/-- The value of a magnitude in units, as though there were no bound on exponents. -/
def unitsOf (magnitude : Nat) : Nat :=
  let exponent := magnitude / fractions
  let fraction := magnitude % fractions
  if exponent = 0 then fraction else (fractions + fraction) <<< (exponent - 1)

theorem units_eq_unitsOf (x : Binary64) : x.units = unitsOf x.magnitude := rfl

theorem fractions_pos : 0 < fractions := by decide

theorem unitsOf_parts (exponent : Nat) {fraction : Nat} (h : fraction < fractions) :
    unitsOf (exponent * fractions + fraction)
      = if exponent = 0 then fraction else (fractions + fraction) <<< (exponent - 1) := by
  have quotient : (exponent * fractions + fraction) / fractions = exponent := by
    rw [Nat.mul_comm, Nat.mul_add_div fractions_pos, Nat.div_eq_of_lt h, Nat.add_zero]
  have rest : (exponent * fractions + fraction) % fractions = fraction := by
    rw [Nat.mul_add_mod', Nat.mod_eq_of_lt h]
  simp only [unitsOf, quotient, rest]

theorem unitsOf_add {doublings digits : Nat} (few : digits ≤ 2 * fractions)
    (normal : doublings = 0 ∨ fractions ≤ digits) :
    unitsOf (doublings * fractions + digits) = digits <<< doublings := by
  rcases Nat.lt_or_ge digits fractions with small | leading
  · obtain rfl : doublings = 0 := by omega
    rw [unitsOf_parts 0 small]
    rfl
  · obtain ⟨fraction, rfl⟩ := Nat.exists_eq_add_of_le leading
    rcases Nat.lt_or_ge fraction fractions with inside | carried
    · have parts := unitsOf_parts (doublings + 1) inside
      rw [Nat.succ_mul, Nat.add_assoc] at parts
      rw [parts, if_neg (Nat.succ_ne_zero _), Nat.add_sub_cancel]
    · obtain rfl : fraction = fractions := by omega
      have parts := unitsOf_parts (doublings + 2) fractions_pos
      rw [Nat.add_zero, Nat.succ_mul, Nat.succ_mul, Nat.add_assoc] at parts
      rw [parts, if_neg (Nat.succ_ne_zero _), Nat.add_zero, Nat.succ_sub_one,
        Nat.shiftLeft_succ_inside, Nat.two_mul]

theorem exists_digits (m : Nat) :
    ∃ doublings digits, m = doublings * fractions + digits ∧ digits < 2 * fractions ∧
      (doublings = 0 ∨ fractions ≤ digits) := by
  have split : m / fractions * fractions + m % fractions = m := Nat.div_add_mod' m fractions
  have inside : m % fractions < fractions := Nat.mod_lt m fractions_pos
  cases exponent : m / fractions with
  | zero =>
      rw [exponent, Nat.zero_mul, Nat.zero_add] at split
      exact ⟨0, m % fractions, by omega, by omega, .inl rfl⟩
  | succ doublings =>
      rw [exponent, Nat.succ_mul] at split
      exact ⟨doublings, fractions + m % fractions, by omega, by omega, .inr (by omega)⟩

theorem unitsOf_strictMono : StrictMono unitsOf := by
  refine strictMono_nat_of_lt_succ fun m => ?_
  obtain ⟨doublings, digits, rfl, few, normal⟩ := exists_digits m
  rw [Nat.add_assoc, unitsOf_add (Nat.le_of_lt few) normal, unitsOf_add few (by omega),
    Nat.shiftLeft_eq, Nat.shiftLeft_eq]
  exact Nat.mul_lt_mul_of_pos_right (Nat.lt_succ_self digits) (Nat.two_pow_pos doublings)

/-! ## The neighbours of a quotient -/

def doublings (num den : Nat) : Nat :=
  (num / den).log2 - 52

def below (num den : Nat) : Nat :=
  doublings num den * fractions + num / (den <<< doublings num den)

theorem digits_bounds (num den : Nat) :
    num / (den <<< doublings num den) < 2 * fractions ∧
      (doublings num den = 0 ∨ fractions ≤ num / (den <<< doublings num den)) := by
  have amount : doublings num den = (num / den).log2 - 52 := rfl
  generalize doublings num den = doublings at amount ⊢
  have same : num / (den <<< doublings) = num / den / 2 ^ doublings := by
    rw [Nat.shiftLeft_eq, Nat.div_div_eq_div_mul]
  have upper : num / den < 2 ^ (53 + doublings) :=
    Nat.lt_of_lt_of_le Nat.lt_log2_self (Nat.pow_le_pow_right (by decide) (by omega))
  rw [same]
  constructor
  · rw [Nat.div_lt_iff_lt_mul (Nat.two_pow_pos _)]
    rw [Nat.pow_add] at upper
    exact upper
  · by_cases none : doublings = 0
    · exact .inl none
    · right
      have exact_log : (num / den).log2 = 52 + doublings := by omega
      have nonzero : num / den ≠ 0 := by
        intro zero
        rw [zero, Nat.log2_zero] at exact_log
        omega
      have lower := Nat.log2_self_le nonzero
      rw [exact_log, Nat.pow_add] at lower
      exact (Nat.le_div_iff_mul_le (Nat.two_pow_pos _)).mpr lower

theorem neighbours {doublings digits num den : Nat} (few : digits < 2 * fractions)
    (normal : doublings = 0 ∨ fractions ≤ digits)
    (quotient : num / (den <<< doublings) = digits) :
    unitsOf (doublings * fractions + digits + 1)
        = unitsOf (doublings * fractions + digits) + 1 <<< doublings ∧
      unitsOf (doublings * fractions + digits) * den + num % (den <<< doublings) = num ∧
      (doublings * fractions + digits) % 2 = digits % 2 := by
  have value : unitsOf (doublings * fractions + digits) = digits <<< doublings :=
    unitsOf_add (Nat.le_of_lt few) normal
  refine ⟨?_, ?_, ?_⟩
  · rw [Nat.add_assoc, unitsOf_add few (by omega), value, Nat.shiftLeft_eq, Nat.shiftLeft_eq,
      Nat.shiftLeft_eq, ← Nat.add_mul]
  · have scaled : digits <<< doublings * den = num / (den <<< doublings) * (den <<< doublings) := by
      rw [quotient, Nat.shiftLeft_eq, Nat.shiftLeft_eq, Nat.mul_assoc, Nat.mul_comm den]
    rw [value, scaled]
    exact Nat.div_add_mod' _ _
  · simp only [fractions]
    omega

/-- Rounding goes to the neighbour that is less than half a step away, or to the even one. -/
theorem nearest_eq (num : Nat) {den : Nat} (h : 0 < den) :
    ∃ step rest, unitsOf (below num den + 1) = unitsOf (below num den) + step ∧
      unitsOf (below num den) * den + rest = num ∧ rest < step * den ∧
      nearest num den =
        if 2 * rest < step * den then below num den
        else if step * den < 2 * rest then below num den + 1
        else below num den + below num den % 2 := by
  obtain ⟨few, normal⟩ := digits_bounds num den
  obtain ⟨next, whole, parity⟩ := neighbours few normal rfl
  have step : 1 <<< doublings num den * den = den <<< doublings num den := by
    rw [Nat.shiftLeft_eq, Nat.shiftLeft_eq, Nat.one_mul, Nat.mul_comm]
  refine ⟨1 <<< doublings num den, num % (den <<< doublings num den), next, whole, ?_, ?_⟩
  · rw [step]
    exact Nat.mod_lt _ (shiftLeft_pos _ h)
  · have rounded : nearest num den = doublings num den * fractions
        + roundHalfEven num (den <<< doublings num den) := rfl
    rw [rounded, step, below, parity, roundHalfEven]
    split
    · rfl
    · split
      · exact (Nat.add_assoc ..).symm
      · exact (Nat.add_assoc ..).symm

def distance (num den m : Nat) : Nat :=
  ((unitsOf m * den : Nat) - num : Int).natAbs

structure IsNearest (num den m : Nat) : Prop where
  nearest : ∀ other, distance num den m ≤ distance num den other
  even : ∀ other, distance num den m = distance num den other → other = m ∨ m % 2 = 0

theorem isNearest_nearest (num : Nat) {den : Nat} (h : 0 < den) :
    IsNearest num den (nearest num den) := by
  obtain ⟨step, rest, next, whole, inside, rounded⟩ := nearest_eq num h
  generalize below num den = m at next whole rounded
  have width : unitsOf (m + 1) * den = unitsOf m * den + step * den := by
    rw [next, Nat.add_mul]
  have elsewhere : ∀ other, other < m ∧ unitsOf other * den < unitsOf m * den ∨ other = m ∨
      other = m + 1 ∨ m + 1 < other ∧ unitsOf (m + 1) * den < unitsOf other * den := by
    intro other
    rcases Nat.lt_trichotomy other m with lt | rfl | gt
    · exact .inl ⟨lt, Nat.mul_lt_mul_of_pos_right (unitsOf_strictMono lt) h⟩
    · exact .inr (.inl rfl)
    · rcases Nat.eq_or_lt_of_le gt with rfl | gt
      · exact .inr (.inr (.inl rfl))
      · exact .inr (.inr (.inr ⟨gt, Nat.mul_lt_mul_of_pos_right (unitsOf_strictMono gt) h⟩))
  have here : distance num den m = rest := by
    unfold distance
    omega
  have there : distance num den (m + 1) = step * den - rest := by
    unfold distance
    omega
  have apart : ∀ other, other = m ∨ other = m + 1 ∨ rest < distance num den other ∨
      step * den - rest < distance num den other := by
    intro other
    unfold distance
    have := elsewhere other
    omega
  have chosen : (distance num den (nearest num den) ≤ rest ∧
        distance num den (nearest num den) ≤ step * den - rest) ∧
      (distance num den (nearest num den) = rest → nearest num den = m ∨ nearest num den % 2 = 0) ∧
      (distance num den (nearest num den) = step * den - rest →
        nearest num den = m + 1 ∨ nearest num den % 2 = 0) := by
    rw [rounded]
    split
    · omega
    · split
      · omega
      · rcases Nat.mod_two_eq_zero_or_one m with even | odd
        · rw [even, Nat.add_zero]
          omega
        · rw [odd]
          omega
  obtain ⟨near, even, even'⟩ := chosen
  constructor
  · intro other
    rcases apart other with rfl | rfl | far | far
    · exact here ▸ near.1
    · exact there ▸ near.2
    · omega
    · omega
  · intro other equal
    rcases apart other with rfl | rfl | far | far
    · exact (even (equal.trans here)).imp_left Eq.symm
    · exact (even' (equal.trans there)).imp_left Eq.symm
    · omega
    · omega

theorem IsNearest.unique {num den a b : Nat} (h : 0 < den) (ha : IsNearest num den a)
    (hb : IsNearest num den b) : a = b := by
  have equal : distance num den a = distance num den b :=
    Nat.le_antisymm (ha.nearest b) (hb.nearest a)
  have between : ∀ m n, m + 1 < n → distance num den m = distance num den n →
      distance num den (m + 1) < distance num den m := by
    intro m n gap same
    have left := Nat.mul_lt_mul_of_pos_right (unitsOf_strictMono (Nat.lt_add_one m)) h
    have right := Nat.mul_lt_mul_of_pos_right (unitsOf_strictMono gap) h
    unfold distance at same ⊢
    omega
  rcases Nat.lt_trichotomy a b with lt | same | gt
  · have parities := And.intro (ha.even b equal) (hb.even a equal.symm)
    have nearer := between a b (by omega) equal
    exact absurd (ha.nearest (a + 1)) (Nat.not_le.mpr nearer)
  · exact same
  · have parities := And.intro (ha.even b equal) (hb.even a equal.symm)
    have nearer := between b a (by omega) equal.symm
    exact absurd (hb.nearest (b + 1)) (Nat.not_le.mpr nearer)

end Binary64

/-! ## Decimals -/

namespace Decimal

open Binary64 (unitsOf distance)

def inUnits (d : Decimal) : ℚ :=
  d.digits * (10 : ℚ) ^ d.exponent * 2 ^ Binary64.unitExponent

/-- The decimal is correctly rounded to `m`: a half goes to the even neighbour. -/
structure RoundsTo (d : Decimal) (m : Nat) : Prop where
  nearest : ∀ other, |unitsOf m - d.inUnits| ≤ |unitsOf other - d.inUnits|
  even : ∀ other, |unitsOf m - d.inUnits| = |unitsOf other - d.inUnits| →
    other = m ∨ m % 2 = 0

theorem inUnits_eq (d : Decimal) : d.inUnits = (d.numerator : ℚ) / d.denominator := by
  have unit : (Binary64.unitsInOne : ℚ) = 2 ^ Binary64.unitExponent := by
    rw [Binary64.unitsInOne, Nat.shiftLeft_eq, Nat.one_mul]
    exact Nat.cast_pow 2 _
  have tens : ∀ n, (tenPow n : ℚ) = 10 ^ n := fun n => Nat.cast_pow 10 n
  rw [inUnits, numerator, denominator, Nat.cast_mul, Nat.cast_mul, unit, tens, tens]
  rcases Int.le_total 0 d.exponent with whole | fractional
  · obtain ⟨n, exponent⟩ := Int.eq_ofNat_of_zero_le whole
    simp [exponent]
  · obtain ⟨n, exponent⟩ := Int.exists_eq_neg_ofNat fractional
    simp [exponent]
    ring

theorem abs_sub_inUnits (d : Decimal) (m : Nat) :
    |unitsOf m - d.inUnits| = (distance d.numerator d.denominator m : ℚ) / d.denominator := by
  have pos : (0 : ℚ) < d.denominator := Nat.cast_pos.mpr d.denominator_pos
  have scaled : (unitsOf m - (d.numerator : ℚ) / d.denominator) * d.denominator
      = unitsOf m * d.denominator - d.numerator := by
    rw [sub_mul, div_mul_cancel₀ _ (ne_of_gt pos)]
  calc |unitsOf m - d.inUnits|
    _ = |(unitsOf m - (d.numerator : ℚ) / d.denominator) * d.denominator| / d.denominator := by
        rw [abs_mul, abs_of_pos pos, mul_div_cancel_right₀ _ (ne_of_gt pos), inUnits_eq]
    _ = (distance d.numerator d.denominator m : ℚ) / d.denominator := by
        rw [scaled, distance, Nat.cast_natAbs]
        push_cast
        rfl

/-- Rounding finds the one magnitude to which the decimal is correctly rounded. -/
theorem roundsTo_iff (d : Decimal) (m : Nat) :
    d.RoundsTo m ↔ Binary64.nearest d.numerator d.denominator = m := by
  have pos : (0 : ℚ) < d.denominator := Nat.cast_pos.mpr d.denominator_pos
  have same : d.RoundsTo m ↔ Binary64.IsNearest d.numerator d.denominator m := by
    have le : ∀ a b : Nat, (a : ℚ) / d.denominator ≤ b / d.denominator ↔ a ≤ b := fun a b => by
      rw [div_le_div_iff_of_pos_right pos, Nat.cast_le]
    have eq : ∀ a b : Nat, (a : ℚ) / d.denominator = b / d.denominator ↔ a = b := fun a b => by
      rw [div_left_inj' (ne_of_gt pos), Nat.cast_inj]
    constructor
    · rintro ⟨nearest, even⟩
      simp only [abs_sub_inUnits, le, eq] at nearest even
      exact ⟨nearest, even⟩
    · rintro ⟨nearest, even⟩
      refine ⟨?_, ?_⟩
      · simpa only [abs_sub_inUnits, le] using nearest
      · simpa only [abs_sub_inUnits, eq] using even
  have found := Binary64.isNearest_nearest d.numerator d.denominator_pos
  rw [same]
  constructor
  · exact found.unique d.denominator_pos
  · rintro rfl
    exact found

theorem nearest?_eq_some_iff (d : Decimal) (m : Nat) :
    d.nearest? = some m ↔ d.RoundsTo m ∧ m < Binary64.infinity := by
  rw [nearest?_eq, roundsTo_iff, inRange?]
  split
  · next inside =>
      rw [Option.some.injEq]
      exact ⟨fun same => ⟨same, same ▸ inside⟩, And.left⟩
  · next outside =>
      constructor
      · intro refused
        contradiction
      · rintro ⟨rfl, inside⟩
        exact absurd inside outside

end Decimal

end BoundSql
