import BoundSql.Decimal.Basic
import BoundSql.Json.Basic

/-!
# JSON numerals

A numeral has an optional minus sign, a whole part without superfluous zeros,
and optionally a fraction and an exponent.  It denotes a decimal number.  A
numeral written without fraction and exponent is an integer if it fits into 64
bits, with a sign or without; every other one is the nearest binary64, unless
that is out of range.
-/

namespace BoundSql.Json

structure Numeral where
  negative : Bool
  whole : List Char
  fraction : List Char
  exponent : Option Int
  deriving DecidableEq, Repr

namespace Numeral

/-! ## Reading -/

def readDigits (text : List Char) : Option (List Char × List Char) :=
  match text.takeWhile Char.isDigit with
  | [] => none
  | digits => some (digits, text.dropWhile Char.isDigit)

def readWhole (text : List Char) : Option (List Char × List Char) :=
  match readDigits text with
  | some ('0' :: _ :: _, _) => none
  | found => found

/-- The digits after a point, or none if there is no point. -/
def readFraction : List Char → Option (List Char × List Char)
  | '.' :: rest => readDigits rest
  | text => some ([], text)

def readSigned : List Char → Option (Int × List Char)
  | '-' :: rest => (readDigits rest).map fun (digits, after) =>
      (-(Nat.ofDigitChars 10 digits 0 : Int), after)
  | '+' :: rest => (readDigits rest).map fun (digits, after) =>
      ((Nat.ofDigitChars 10 digits 0 : Int), after)
  | text => (readDigits text).map fun (digits, after) =>
      ((Nat.ofDigitChars 10 digits 0 : Int), after)

def readExponent : List Char → Option (Option Int × List Char)
  | [] => some (none, [])
  | c :: rest =>
      if c = 'e' ∨ c = 'E' then
        (readSigned rest).map fun (exponent, after) => (some exponent, after)
      else
        some (none, c :: rest)

def readSign : List Char → Bool × List Char
  | '-' :: rest => (true, rest)
  | text => (false, text)

def read (text : List Char) : Option (Numeral × List Char) := do
  let (negative, unsigned) := readSign text
  let (whole, afterWhole) ← readWhole unsigned
  let (fraction, afterFraction) ← readFraction afterWhole
  let (exponent, rest) ← readExponent afterFraction
  return (⟨negative, whole, fraction, exponent⟩, rest)

/-! ## Meaning -/

def isWhole (n : Numeral) : Bool :=
  n.fraction.isEmpty && n.exponent.isNone

def digits (n : Numeral) : Nat :=
  Nat.ofDigitChars 10 (n.whole ++ n.fraction) 0

def decimal (n : Numeral) : Decimal :=
  ⟨n.digits, n.exponent.getD 0 - n.fraction.length⟩

def integer (n : Numeral) : Int :=
  if n.negative then -(n.digits : Int) else n.digits

/-- Whole numerals from zero on that fit into 64 bits. -/
def isNatural (n : Numeral) : Bool :=
  n.isWhole && !n.negative && n.digits < UInt64.size

/-- Whole numerals below zero that fit into 64 bits; minus zero is none of them. -/
def isBelowZero (n : Numeral) : Bool :=
  n.isWhole && n.integer < 0 && Int64.minValue.toInt ≤ n.integer

def number? (n : Numeral) : Option Number :=
  if n.isNatural then
    some (.natural (.ofNat n.digits))
  else if n.isBelowZero then
    some (.ofInt64 (.ofInt n.integer))
  else
    n.decimal.nearest?.map fun magnitude => .float (.ofParts n.negative magnitude)

/-! ## Reading takes something off -/

theorem readDigits_eq_some {text digits rest : List Char}
    (h : readDigits text = some (digits, rest)) :
    digits ≠ [] ∧ text = digits ++ rest := by
  unfold readDigits at h
  split at h
  · simp at h
  · next nonempty =>
      simp only [Option.some.injEq, Prod.mk.injEq] at h
      obtain ⟨rfl, rfl⟩ := h
      exact ⟨nonempty, List.takeWhile_append_dropWhile.symm⟩

theorem readWhole_eq_some {text digits rest : List Char}
    (h : readWhole text = some (digits, rest)) :
    digits ≠ [] ∧ text = digits ++ rest := by
  unfold readWhole at h
  split at h
  · simp at h
  · exact readDigits_eq_some h

theorem readFraction_length {text digits rest : List Char}
    (h : readFraction text = some (digits, rest)) : rest.length ≤ text.length := by
  unfold readFraction at h
  split at h
  · obtain ⟨_, rfl⟩ := readDigits_eq_some h
    simp
    omega
  · simp only [Option.some.injEq, Prod.mk.injEq] at h
    simp [h.2]

theorem readSigned_length {text rest : List Char} {n : Int}
    (h : readSigned text = some (n, rest)) : rest.length ≤ text.length := by
  unfold readSigned at h
  split at h <;>
    (obtain ⟨⟨digits, after⟩, found, same⟩ := Option.map_eq_some_iff.mp h
     obtain ⟨_, rfl⟩ := readDigits_eq_some found
     cases same
     simp
     try omega)

theorem readExponent_length {text rest : List Char} {exponent : Option Int}
    (h : readExponent text = some (exponent, rest)) : rest.length ≤ text.length := by
  cases text with
  | nil => simp_all [readExponent]
  | cons c text =>
      simp only [readExponent] at h
      split at h
      · obtain ⟨⟨n, after⟩, found, same⟩ := Option.map_eq_some_iff.mp h
        cases same
        have := readSigned_length found
        simp only [List.length_cons]
        omega
      · cases h
        simp

theorem readSign_length (text : List Char) : (readSign text).2.length ≤ text.length := by
  unfold readSign
  split <;> simp

theorem read_length {text rest : List Char} {n : Numeral}
    (h : read text = some (n, rest)) : rest.length < text.length := by
  simp only [read, Option.bind_eq_bind, Option.bind_eq_some_iff, Option.pure_def,
    Option.some.injEq, Prod.mk.injEq, Prod.exists] at h
  obtain ⟨whole, afterWhole, hwhole, fraction, afterFraction, hfraction, exponent, after,
    hexponent, -, rfl⟩ := h
  have sign := readSign_length text
  obtain ⟨nonempty, split⟩ := readWhole_eq_some hwhole
  have := congrArg List.length split
  have := List.length_pos_iff.mpr nonempty
  have := readFraction_length hfraction
  have := readExponent_length hexponent
  simp only [List.length_append] at *
  omega

end Numeral

end BoundSql.Json
