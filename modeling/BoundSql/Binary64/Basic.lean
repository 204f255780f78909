/-!
# Binary64 numbers

A number of the IEEE 754 format binary64, given by its 64 bits: a sign bit, an
exponent field of 11 bits and a fraction field of 52 bits.  A finite number is
plus or minus a whole number of units, a unit being the least positive number.
-/

namespace BoundSql

structure Binary64 where
  bits : UInt64
  deriving DecidableEq, Repr

namespace Binary64

def signWeight : Nat :=
  0x8000_0000_0000_0000

/-- The number of fractions that share an exponent. -/
def fractions : Nat :=
  0x10_0000_0000_0000

def isNegative (x : Binary64) : Bool :=
  signWeight ≤ x.bits.toNat

/-- The exponent and fraction fields together, that is, the bits without the sign. -/
def magnitude (x : Binary64) : Nat :=
  x.bits.toNat % signWeight

/-- The magnitude of the infinities; every larger magnitude is a NaN. -/
def infinity : Nat :=
  2047 * fractions

def isFinite (x : Binary64) : Bool :=
  x.magnitude < infinity

def isNaN (x : Binary64) : Bool :=
  infinity < x.magnitude

/-- The number with the given sign and magnitude, which is taken modulo the sign's weight. -/
def ofParts (negative : Bool) (magnitude : Nat) : Binary64 :=
  ⟨.ofNat (magnitude % signWeight + if negative then signWeight else 0)⟩

/-- A unit is one halved this often. -/
def unitExponent : Nat :=
  1074

def unitsInOne : Nat :=
  1 <<< unitExponent

/--
The absolute value of a finite number in units.  A zero exponent field holds
the numbers with fewer units than there are fractions; any other one adds the
leading bit and doubles the number as often as it exceeds one.
-/
def units (x : Binary64) : Nat :=
  let exponent := x.magnitude / fractions
  let fraction := x.magnitude % fractions
  if exponent = 0 then fraction else (fractions + fraction) <<< (exponent - 1)

/--
Equality as numbers: the two zeros are equal, a NaN equals nothing, and any
other number equals itself only.
-/
def eqv (x y : Binary64) : Bool :=
  !x.isNaN && !y.isNaN && (x == y || (x.magnitude == 0 && y.magnitude == 0))

/-! ## Units -/

theorem shiftLeft_mul_unitsInOne (k : Nat) :
    (1 <<< k) * unitsInOne = 1 <<< (k + unitExponent) := by
  simp only [unitsInOne, Nat.shiftLeft_eq, Nat.one_mul, Nat.pow_add]

theorem shiftLeft_pos {n : Nat} (k : Nat) (h : 0 < n) : 0 < n <<< k := by
  rw [Nat.shiftLeft_eq]
  exact Nat.mul_pos h (Nat.two_pow_pos k)

theorem unitsInOne_pos : 0 < unitsInOne :=
  shiftLeft_pos _ Nat.one_pos

/-! ## Signs and magnitudes -/

@[simp] theorem magnitude_ofParts (negative : Bool) (m : Nat) :
    (ofParts negative m).magnitude = m % signWeight := by
  simp only [ofParts, magnitude, signWeight, UInt64.toNat_ofNat']
  split <;> omega

@[simp] theorem isNegative_ofParts (negative : Bool) (m : Nat) :
    (ofParts negative m).isNegative = negative := by
  cases negative <;>
    simp only [ofParts, isNegative, signWeight, UInt64.toNat_ofNat', decide_eq_true_eq,
      decide_eq_false_iff_not, Bool.false_eq_true, if_true, if_false] <;> omega

theorem ofParts_magnitude (x : Binary64) : ofParts x.isNegative x.magnitude = x := by
  cases x with
  | mk bits =>
      have := bits.toNat_lt
      simp only [ofParts, magnitude, isNegative, Binary64.mk.injEq]
      apply UInt64.toNat_inj.mp
      by_cases h : signWeight ≤ bits.toNat <;>
        simp only [h, UInt64.toNat_ofNat', decide_true, decide_false, Bool.false_eq_true,
          if_true, if_false] <;>
        simp only [signWeight] at h ⊢ <;> omega

end Binary64

end BoundSql
