import BoundSql.Proofs.Numerals
import BoundSql.Value.Literal

/-!
# Numbers as numerals

Whatever the layout, the text of a finite number consists of the characters of a
well-formed numeral with the value of the number's shortest decimal, so it is
rounded to the number itself.  With a point or an exponent it is never taken for
an integer; the text of an integer always is.
-/

namespace BoundSql

/-! ## Laying out decimals -/

theorem digitChar_ne_zero {n : Nat} (pos : 0 < n) (small : n < 10) : n.digitChar ≠ '0' := by
  intro same
  have code := Nat.toNat_digitChar_of_lt_ten small
  rw [same] at code
  have : '0'.toNat = 48 := rfl
  omega

theorem head?_toDigits_ne_zero {n : Nat} (pos : 0 < n) :
    (Nat.toDigits 10 n).head? ≠ some '0' := by
  induction n using Nat.strongRecOn with
  | ind n ih =>
      rw [Nat.toDigits_eq_if (by decide)]
      split
      · next small => exact fun same => digitChar_ne_zero pos small (Option.some.inj same)
      · rw [List.head?_append_of_ne_nil _ Nat.toDigits_ne_nil]
        exact ih (n / 10) (by omega) (by omega)

namespace Decimal

theorem nearest?_mul_tenPow (n k : Nat) (e : Int) :
    nearest? ⟨n * tenPow k, e⟩ = nearest? ⟨n, e + k⟩ := by
  induction k generalizing e with
  | zero => simp [tenPow_zero]
  | succ k ih =>
      rw [tenPow_succ, ← Nat.mul_assoc, nearest?_shift, ih]
      congr 2
      omega

theorem isDigit_of_mem_digitChars {d : Decimal} {c : Char} (h : c ∈ d.digitChars) :
    c.isDigit = true :=
  Nat.isDigit_of_mem_toDigits (by decide) (by decide) h

/-- Both parts together are the digits, filled up with zeros on both sides. -/
theorem split_append (d : Decimal) :
    ∃ zeros, d.split.1 ++ d.split.2
      = List.replicate zeros '0' ++ (d.digitChars ++ List.replicate d.exponent.toNat '0') :=
  ⟨_, List.take_append_drop _ _⟩

theorem length_split_snd (d : Decimal) : d.split.2.length = (-d.exponent).toNat := by
  simp only [split, List.length_drop, List.length_append, List.length_replicate]
  omega

theorem split_fst_ne_nil (d : Decimal) : d.split.1 ≠ [] := by
  apply List.ne_nil_of_length_pos
  simp only [split, List.length_take, List.length_append, List.length_replicate]
  omega

theorem isDigit_of_mem_split {d : Decimal} {c : Char} (h : c ∈ d.split.1 ++ d.split.2) :
    c.isDigit = true := by
  obtain ⟨zeros, parts⟩ := d.split_append
  rw [parts] at h
  simp only [List.mem_append, List.mem_replicate] at h
  rcases h with ⟨-, rfl⟩ | digit | ⟨-, rfl⟩
  · rfl
  · exact isDigit_of_mem_digitChars digit
  · rfl

theorem ofDigitChars_split (d : Decimal) :
    Nat.ofDigitChars 10 (d.split.1 ++ d.split.2) 0 = d.digits * tenPow d.exponent.toNat := by
  obtain ⟨zeros, parts⟩ := d.split_append
  rw [parts, Nat.ofDigitChars_append, Nat.ofDigitChars_replicate_zero, Nat.mul_zero,
    Nat.ofDigitChars_append, digitChars, Nat.ofDigitChars_ten_toDigits,
    Nat.ofDigitChars_replicate_zero, Nat.mul_comm]
  rfl

theorem split_fst_or (d : Decimal) :
    d.split.1 = ['0'] ∨ d.split.1.head? = d.digitChars.head? := by
  have nonempty : d.digitChars ≠ [] := Nat.toDigits_ne_nil
  by_cases short : d.digitChars.length + d.exponent.toNat ≤ (-d.exponent).toNat
  · left
    obtain ⟨missing, count⟩ : ∃ missing, (-d.exponent).toNat + 1
        - (d.digitChars.length + d.exponent.toNat) = missing + 1 :=
      ⟨(-d.exponent).toNat - (d.digitChars.length + d.exponent.toNat), by omega⟩
    have one : missing + 1 + (d.digitChars.length + d.exponent.toNat)
        - (-d.exponent).toNat = 1 := by omega
    simp only [split, List.length_append, List.length_replicate, count]
    rw [one, List.replicate_succ]
    rfl
  · right
    have none_missing : (-d.exponent).toNat + 1
        - (d.digitChars.length + d.exponent.toNat) = 0 := by omega
    simp only [split, List.length_append, List.length_replicate, none_missing,
      List.replicate_zero, List.nil_append]
    rw [List.head?_take, if_neg (by omega), List.head?_append_of_ne_nil _ nonempty]

theorem leading_split {d : Decimal} (zero : d.digits = 0 → d.exponent = 0)
    (h : d.split.1.head? = some '0') : d.split.1 = ['0'] := by
  rcases d.split_fst_or with single | first
  · exact single
  · by_cases nothing : d.digits = 0
    · obtain ⟨digits, exponent⟩ := d
      obtain rfl : digits = 0 := nothing
      obtain rfl : exponent = 0 := zero rfl
      rfl
    · rw [first] at h
      exact absurd h (head?_toDigits_ne_zero (Nat.pos_of_ne_zero nothing))

theorem exponent_reduce {d : Decimal} (zero : d.reduce.digits = 0) :
    d.reduce.exponent = 0 := by
  rcases d.digits_reduce with same | last
  · rw [same]
  · rw [zero] at last
    contradiction

/-! ## The numerals of decimals -/

open Json (Numeral)

def positionalNumeral (negative alwaysPoint : Bool) (d : Decimal) : Numeral where
  negative := negative
  whole := d.split.1
  fraction := if alwaysPoint && d.split.2.isEmpty then ['0'] else d.split.2
  exponent := none

def scientificNumeral (negative : Bool) (d : Decimal) : Numeral where
  negative := negative
  whole := d.digitChars.take 1
  fraction := d.digitChars.drop 1
  exponent := some d.leadingExponent

theorem chars_positionalNumeral (negative alwaysPoint : Bool) (d : Decimal) :
    (d.positionalNumeral negative alwaysPoint).chars
      = (if negative then ['-'] else []) ++ d.positional alwaysPoint := by
  unfold positionalNumeral positional Numeral.chars
  obtain ⟨whole, fraction⟩ := d.split
  cases fraction with
  | nil => cases alwaysPoint <;> simp [Numeral.fractionChars, Numeral.exponentChars]
  | cons c fraction => simp [Numeral.fractionChars, Numeral.exponentChars]

theorem chars_scientificNumeral (negative : Bool) (d : Decimal) :
    (d.scientificNumeral negative).chars
      = (if negative then ['-'] else []) ++ d.scientific := by
  simp only [scientificNumeral, scientific, Numeral.chars, Numeral.fractionChars,
    Numeral.exponentChars, List.append_assoc]
  rfl

theorem wellFormed_positionalNumeral (negative alwaysPoint : Bool) {d : Decimal}
    (zero : d.digits = 0 → d.exponent = 0) :
    (d.positionalNumeral negative alwaysPoint).WellFormed where
  whole_digits := fun c h => isDigit_of_mem_split (List.mem_append_left _ h)
  whole_ne_nil := d.split_fst_ne_nil
  leading := leading_split zero
  fraction_digits := by
    intro c h
    unfold positionalNumeral at h
    split at h
    · rw [List.mem_singleton.mp h]
      rfl
    · exact isDigit_of_mem_split (List.mem_append_right _ h)

theorem wellFormed_scientificNumeral (negative : Bool) (d : Decimal) :
    (d.scientificNumeral negative).WellFormed where
  whole_digits := fun c h => isDigit_of_mem_digitChars (List.mem_of_mem_take h)
  whole_ne_nil := by
    have nonempty : d.digitChars ≠ [] := Nat.toDigits_ne_nil
    simpa [scientificNumeral] using nonempty
  leading := by
    intro h
    simp only [scientificNumeral] at h ⊢
    cases digits : d.digitChars with
    | nil => simp [digits] at h
    | cons c others => simpa [digits] using h
  fraction_digits := fun c h => isDigit_of_mem_digitChars (List.mem_of_mem_drop h)

theorem nearest?_positionalNumeral (negative alwaysPoint : Bool) (d : Decimal) :
    (d.positionalNumeral negative alwaysPoint).decimal.nearest? = d.nearest? := by
  have value := d.ofDigitChars_split
  have places := d.length_split_snd
  have whole : nearest? ⟨d.digits * tenPow d.exponent.toNat, -(-d.exponent).toNat⟩
      = d.nearest? := by
    rw [nearest?_mul_tenPow]
    congr 2
    omega
  simp only [positionalNumeral, Numeral.decimal, Numeral.digits, Option.getD_none]
  split
  · next added =>
      have empty : d.split.2 = [] := by simp_all
      rw [empty, List.append_nil] at value
      rw [empty, List.length_nil] at places
      have tenfold : Nat.ofDigitChars 10 (d.split.1 ++ ['0']) 0
          = d.digits * tenPow d.exponent.toNat * 10 := by
        rw [Nat.ofDigitChars_append, value]
        simp [Nat.ofDigitChars_cons, Nat.mul_comm]
      rw [← places] at whole
      rw [tenfold, ← whole, nearest?_shift]
      rfl
  · rw [value, places, ← whole]
    congr 2
    omega

theorem decimal_scientificNumeral (negative : Bool) (d : Decimal) :
    (d.scientificNumeral negative).decimal = d := by
  have nonempty : 0 < d.digitChars.length := Nat.length_toDigits_pos
  simp only [scientificNumeral, Numeral.decimal, Numeral.digits, List.take_append_drop,
    Option.getD_some, leadingExponent, List.length_drop]
  have digits : Nat.ofDigitChars 10 d.digitChars 0 = d.digits :=
    Nat.ofDigitChars_ten_toDigits
  rw [digits]
  obtain ⟨n, e⟩ := d
  congr 1
  simp only at nonempty ⊢
  omega

end Decimal

namespace Layout

open Json (Numeral)

def numeral (layout : Layout) (x : Binary64) : Numeral :=
  let d := Decimal.shortest layout.tie x
  if layout.isPositional d then d.positionalNumeral x.isNegative layout.alwaysPoint
  else d.scientificNumeral x.isNegative

theorem write_eq_chars (layout : Layout) (x : Binary64) :
    layout.write x = (layout.numeral x).chars := by
  simp only [write, numeral]
  generalize Decimal.shortest layout.tie x = d
  by_cases positional : layout.isPositional d = true
  · rw [if_pos positional, if_pos positional, Decimal.chars_positionalNumeral]
  · rw [if_neg positional, if_neg positional, Decimal.chars_scientificNumeral]

theorem wellFormed_numeral (layout : Layout) (x : Binary64) :
    (layout.numeral x).WellFormed := by
  unfold numeral
  dsimp only
  split
  · exact Decimal.wellFormed_positionalNumeral _ _ Decimal.exponent_reduce
  · exact Decimal.wellFormed_scientificNumeral _ _

theorem nearest?_numeral (layout : Layout) {x : Binary64} (finite : x.isFinite = true) :
    (layout.numeral x).decimal.nearest? = some x.magnitude := by
  unfold numeral
  dsimp only
  split
  · rw [Decimal.nearest?_positionalNumeral, Decimal.nearest?_shortest _ _ finite]
  · rw [Decimal.decimal_scientificNumeral, Decimal.nearest?_shortest _ _ finite]

theorem isWhole_numeral {layout : Layout} (pointed : layout.alwaysPoint = true)
    (x : Binary64) : (layout.numeral x).isWhole = false := by
  unfold numeral
  dsimp only
  split
  · simp only [Decimal.positionalNumeral, Numeral.isWhole, pointed, Bool.true_and]
    split
    · rfl
    · next fraction => simp [fraction]
  · simp [Decimal.scientificNumeral, Numeral.isWhole]

theorem negative_numeral (layout : Layout) (x : Binary64) :
    (layout.numeral x).negative = x.isNegative := by
  unfold numeral
  dsimp only
  split <;> rfl

theorem number?_numeral {layout : Layout} (pointed : layout.alwaysPoint = true)
    {x : Binary64} (finite : x.isFinite = true) :
    (layout.numeral x).number? = some (.float x) := by
  simp only [Numeral.number?, Numeral.isNatural, Numeral.isBelowZero, isWhole_numeral pointed,
    Bool.false_and, Bool.false_eq_true, if_false, nearest?_numeral layout finite,
    Option.map_some, negative_numeral, Binary64.ofParts_magnitude]

end Layout

/-! ## Integers -/

namespace Json.Numeral

def ofInt (n : Int64) : Numeral where
  negative := n < 0
  whole := Nat.toDigits 10 n.toInt.natAbs
  fraction := []
  exponent := none

theorem chars_ofInt (n : Int64) : (ofInt n).chars = Value.intChars n := by
  simp only [ofInt, chars, Value.intChars, fractionChars, exponentChars, decide_eq_true_eq,
    List.isEmpty_nil, if_true, List.append_nil]

theorem wellFormed_ofInt (n : Int64) : (ofInt n).WellFormed where
  whole_digits := fun _ h => Nat.isDigit_of_mem_toDigits (by decide) (by decide) h
  whole_ne_nil := Nat.toDigits_ne_nil
  leading := by
    intro h
    rcases Nat.eq_zero_or_pos n.toInt.natAbs with zero | pos
    · simp [ofInt, zero]
    · exact absurd h (head?_toDigits_ne_zero pos)
  fraction_digits := fun _ h => absurd h List.not_mem_nil

theorem digits_ofInt (n : Int64) : (ofInt n).digits = n.toInt.natAbs := by
  simp only [ofInt, digits, List.append_nil, Nat.ofDigitChars_ten_toDigits]

theorem integer_ofInt (n : Int64) : (ofInt n).integer = n.toInt := by
  unfold integer
  rw [digits_ofInt]
  by_cases negative : n < 0
  · have below : n.toInt < 0 := Int64.lt_iff_toInt_lt.mp negative
    simp only [ofInt, negative, decide_true, if_true]
    omega
  · have above : ¬ n.toInt < 0 := fun h => negative (Int64.lt_iff_toInt_lt.mpr h)
    simp only [ofInt, negative, decide_false, Bool.false_eq_true, if_false]
    omega

theorem isBelowZero_ofInt {n : Int64} (below : n < 0) : (ofInt n).isBelowZero = true := by
  have negative : n.toInt < 0 := Int64.lt_iff_toInt_lt.mp below
  simp only [isBelowZero, integer_ofInt, Bool.and_eq_true, decide_eq_true_eq]
  exact ⟨⟨rfl, negative⟩, n.minValue_le_toInt⟩

theorem isNatural_ofInt (n : Int64) : (ofInt n).isNatural = !decide (n < 0) := by
  have small : n.toInt.natAbs < UInt64.size := by
    have lower := n.le_toInt
    have upper := n.toInt_lt
    simp only [UInt64.size]
    omega
  have whole : (ofInt n).isWhole = true := rfl
  simp only [isNatural, whole, digits_ofInt, small, decide_true, Bool.true_and, Bool.and_true]
  rfl

theorem ofNat_digits_ofInt {n : Int64} (above : ¬ n < 0) :
    UInt64.ofNat (ofInt n).digits = n.toUInt64 := by
  have nonneg : 0 ≤ n := Int64.not_lt.mp above
  have same : n.toInt.natAbs = n.toUInt64.toNat := by
    have cast := n.cast_toNatClampNeg nonneg
    rw [n.toNat_toUInt64_of_le nonneg]
    omega
  rw [digits_ofInt, same, UInt64.ofNat_toNat]

theorem number?_ofInt (n : Int64) : (ofInt n).number? = some (.ofInt64 n) := by
  unfold number? Number.ofInt64
  rw [isNatural_ofInt]
  by_cases below : n < 0
  · simp [below, isBelowZero_ofInt below, integer_ofInt]
  · simp [below, ofNat_digits_ofInt below]

end Json.Numeral

end BoundSql
