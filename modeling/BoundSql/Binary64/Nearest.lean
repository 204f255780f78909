import BoundSql.Binary64.Basic

/-!
# Rounding to binary64

The magnitude nearest to a quotient of whole numbers, counted in units, a half
going to the even neighbour.  Whole numbers and the numbers of the shorter
format binary32 are converted through it.
-/

namespace BoundSql

/-- The whole number nearest to `num / den`, a half going to the even neighbour. -/
def roundHalfEven (num den : Nat) : Nat :=
  let quotient := num / den
  let rest := num % den
  if 2 * rest < den then quotient
  else if den < 2 * rest then quotient + 1
  else quotient + quotient % 2

namespace Binary64

/--
The magnitude nearest to `num / den` units.  As long as a quotient has at most
53 binary digits magnitudes count units; each doubling from there on doubles the
step between neighbours and takes up one exponent.  A result of `infinity` or
more says that the quotient is out of range.
-/
def nearest (num den : Nat) : Nat :=
  let doublings := (num / den).log2 - 52
  doublings * fractions + roundHalfEven num (den <<< doublings)

def ofInt (n : Int) : Binary64 :=
  ofParts (n < 0) (nearest (n.natAbs * unitsInOne) 1)

/--
The number with the same value as the 32-bit pattern `bits`: a sign bit, an
exponent field of 8 bits and a fraction field of 23 bits, whose least positive
number is one unit doubled 925 times.  Infinities stay infinite and NaNs stay
NaNs.
-/
def ofBinary32 (bits : UInt32) : Binary64 :=
  let negative := 0x8000_0000 ≤ bits.toNat
  let exponent := bits.toNat % 0x8000_0000 / 0x80_0000
  let fraction := bits.toNat % 0x80_0000
  if exponent = 255 then
    ofParts negative (infinity + fraction <<< 29)
  else if exponent = 0 then
    ofParts negative (nearest (fraction <<< 925) 1)
  else
    ofParts negative (nearest ((0x80_0000 + fraction) <<< (exponent - 1 + 925)) 1)

/-! ## Numbers are their own nearest -/

theorem roundHalfEven_mul_right {d : Nat} (n : Nat) (h : 0 < d) :
    roundHalfEven (n * d) d = n := by
  simp [roundHalfEven, Nat.mul_div_cancel _ h, h]

theorem roundHalfEven_shiftLeft (n k : Nat) : roundHalfEven (n <<< k) (1 <<< k) = n := by
  rw [Nat.shiftLeft_eq, Nat.shiftLeft_eq, Nat.one_mul]
  exact roundHalfEven_mul_right n (Nat.two_pow_pos k)

theorem log2_shiftLeft {n : Nat} (k : Nat) (h : n ≠ 0) : (n <<< k).log2 = n.log2 + k := by
  induction k with
  | zero => rfl
  | succ k ih =>
      have : n <<< k ≠ 0 := Nat.ne_of_gt (shiftLeft_pos k (Nat.pos_of_ne_zero h))
      rw [Nat.shiftLeft_succ, Nat.log2_two_mul this, ih, Nat.add_assoc]

theorem nearest_units (x : Binary64) : nearest x.units 1 = x.magnitude := by
  have split : x.magnitude / fractions * fractions + x.magnitude % fractions = x.magnitude :=
    Nat.div_add_mod' _ _
  have fraction_lt : x.magnitude % fractions < fractions := Nat.mod_lt _ (by decide)
  simp only [units, nearest, Nat.div_one]
  generalize x.magnitude % fractions = f at *
  generalize x.magnitude / fractions = e at *
  cases e with
  | zero =>
      have log2_lt : f.log2 < 53 := by
        by_cases zero : f = 0
        · simp [zero]
        · refine (Nat.log2_lt zero).mpr ?_
          simp only [fractions] at fraction_lt
          omega
      have none : f.log2 - 52 = 0 := by omega
      have self := roundHalfEven_shiftLeft f 0
      simp only [Nat.shiftLeft_zero] at self
      simp only [if_true, none, Nat.shiftLeft_zero, self, Nat.zero_mul, Nat.zero_add]
      omega
  | succ d =>
      have log2_eq : (fractions + f).log2 = 52 := by
        have positive : fractions + f ≠ 0 := by
          simp only [fractions]
          omega
        refine (Nat.log2_eq_iff positive).mpr ?_
        simp only [fractions] at *
        omega
      have doubled : ((fractions + f) <<< d).log2 = 52 + d := by
        rw [log2_shiftLeft, log2_eq]
        simp only [fractions]
        omega
      simp only [Nat.add_one_ne_zero, if_false, Nat.add_sub_cancel, doubled,
        Nat.add_sub_cancel_left, roundHalfEven_shiftLeft]
      rw [← split, Nat.succ_mul, Nat.add_assoc]

end Binary64

end BoundSql
