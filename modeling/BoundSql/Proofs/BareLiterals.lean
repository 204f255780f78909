import BoundSql.Proofs.Layouts
import BoundSql.Proofs.NearestEven
import BoundSql.Proofs.QuotedText

/-!
# Bare literals are the numbers

A literal is a plain numeral, without exponent, if and only if its value is a
number.  An integer is read back from its numeral, and a finite binary64 is the
one number to which its numeral is rounded, the sign of zero included.  All other
literals are quoted, but for the keyword of null.
-/

namespace BoundSql

/-! ## Plain numerals -/

namespace Text

def IsDigits (text : List Char) : Prop :=
  text ≠ [] ∧ ∀ c ∈ text, c.isDigit = true

def IsNumeral (text : List Char) : Prop :=
  ∃ sign whole fraction, text = sign ++ (whole ++ fraction) ∧ (sign = [] ∨ sign = ['-']) ∧
    IsDigits whole ∧ (fraction = [] ∨ ∃ digits, IsDigits digits ∧ fraction = '.' :: digits)

theorem IsDigits.head?_append {text : List Char} (h : IsDigits text) (rest : List Char) :
    ∃ c, (text ++ rest).head? = some c ∧ c.isDigit = true := by
  obtain ⟨nonempty, digits⟩ := h
  cases text with
  | nil => contradiction
  | cons c text => exact ⟨c, rfl, digits c List.mem_cons_self⟩

theorem IsNumeral.head? {text : List Char} (h : IsNumeral text) :
    ∃ c, text.head? = some c ∧ (c = '-' ∨ c.isDigit = true) := by
  obtain ⟨sign, whole, fraction, rfl, rfl | rfl, digits, -⟩ := h
  · obtain ⟨c, first, digit⟩ := digits.head?_append fraction
    exact ⟨c, first, .inr digit⟩
  · exact ⟨'-', rfl, .inl rfl⟩

end Text

namespace Json.Numeral

/-- Nothing can be left out: no digits after a leading zero, no zero at the end of a fraction. -/
structure Concise (n : Numeral) : Prop where
  leading : n.whole.head? = some '0' → n.whole = ['0']
  trailing : n.fraction.getLast? ≠ some '0'

structure RoundsTo (n : Numeral) (x : Binary64) : Prop where
  finite : x.isFinite = true
  sign : x.isNegative = n.negative
  magnitude : n.decimal.RoundsTo x.magnitude

theorem WellFormed.isNumeral {n : Numeral} (wf : n.WellFormed) (plain : n.exponent = none) :
    Text.IsNumeral n.chars := by
  refine ⟨if n.negative then ['-'] else [], n.whole, fractionChars n.fraction, ?_, ?_,
    ⟨wf.whole_ne_nil, wf.whole_digits⟩, ?_⟩
  · rw [chars, plain, exponentChars, List.append_nil]
  · cases n.negative with
    | true => exact .inr rfl
    | false => exact .inl rfl
  · cases fraction : n.fraction with
    | nil => exact .inl rfl
    | cons c digits =>
        refine .inr ⟨c :: digits, ⟨List.cons_ne_nil c digits, ?_⟩, rfl⟩
        rw [← fraction]
        exact wf.fraction_digits

theorem read_chars {n : Numeral} (wf : n.WellFormed) : read n.chars = some (n, []) := by
  have taken := @read_chars_append n wf [] nofun
  rwa [List.append_nil] at taken

theorem roundsTo_iff_eq {n : Numeral} {x : Binary64} (sign : n.negative = x.isNegative)
    (value : n.decimal.nearest? = some x.magnitude) (y : Binary64) :
    n.RoundsTo y ↔ y = x := by
  obtain ⟨rounded, inside⟩ := (Decimal.nearest?_eq_some_iff _ _).mp value
  constructor
  · rintro ⟨-, sign', rounded'⟩
    rw [Decimal.roundsTo_iff] at rounded rounded'
    have magnitude : y.magnitude = x.magnitude := rounded'.symm.trans rounded
    rw [← y.ofParts_magnitude, ← x.ofParts_magnitude, magnitude, sign', sign]
  · rintro rfl
    exact ⟨decide_eq_true inside, sign.symm, rounded⟩

end Json.Numeral

/-! ## The literals of numbers -/

theorem getLast?_toDigits (n : Nat) :
    (Nat.toDigits 10 n).getLast? = some (n % 10).digitChar := by
  rw [Nat.toDigits_eq_if (by decide)]
  split
  · next small =>
      rw [Nat.mod_eq_of_lt small]
      rfl
  · exact List.getLast?_concat

namespace Decimal

theorem fraction_positionalNumeral (negative : Bool) (d : Decimal) :
    (d.positionalNumeral negative false).fraction = d.split.2 := rfl

theorem trailing_split {d : Decimal} (reduced : d = ⟨0, 0⟩ ∨ d.digits % 10 ≠ 0) :
    d.split.2.getLast? ≠ some '0' := by
  have places := d.length_split_snd
  by_cases fractional : d.exponent < 0
  · have last : d.digits % 10 ≠ 0 := by
      rcases reduced with rfl | last
      · contradiction
      · exact last
    have nonempty : d.split.2 ≠ [] := List.ne_nil_of_length_pos (by omega)
    have none_added : d.exponent.toNat = 0 := by omega
    obtain ⟨zeros, parts⟩ := d.split_append
    rw [none_added, List.replicate_zero, List.append_nil] at parts
    have same := congrArg List.getLast? parts
    rw [List.getLast?_append_of_ne_nil _ nonempty, digitChars,
      List.getLast?_append_of_ne_nil _ Nat.toDigits_ne_nil, getLast?_toDigits] at same
    rw [same]
    intro zero
    have small : d.digits % 10 < 10 := Nat.mod_lt _ (by decide)
    exact digitChar_ne_zero (Nat.pos_of_ne_zero last) small (Option.some.inj zero)
  · have empty : d.split.2 = [] := List.eq_nil_of_length_eq_zero (by omega)
    rw [empty, List.getLast?_nil]
    exact (Option.some_ne_none '0').symm

end Decimal

namespace Value

open Json (Numeral)
open Text (IsNumeral)
open Text.Quoted (IsQuoted)

theorem numeral_literalLayout (x : Binary64) :
    literalLayout.numeral x
      = (Decimal.shortest .awayFromZero x).positionalNumeral x.isNegative false := by
  simp only [Layout.numeral, literalLayout, Layout.isPositional, if_true]

theorem exponent_numeral (x : Binary64) : (literalLayout.numeral x).exponent = none := by
  rw [numeral_literalLayout]
  rfl

theorem concise_numeral (x : Binary64) : (literalLayout.numeral x).Concise where
  leading := (literalLayout.wellFormed_numeral x).leading
  trailing := by
    rw [numeral_literalLayout, Decimal.fraction_positionalNumeral]
    exact Decimal.trailing_split (Decimal.digits_reduce _)

theorem toList_literal_int (n : Int64) : (int n).literal.toList = (Numeral.ofInt n).chars := by
  rw [Numeral.chars_ofInt, literal, String.toList_ofList]
  rfl

theorem toList_literal_float {x : Binary64} (finite : x.isFinite = true) :
    (float x).literal.toList = (literalLayout.numeral x).chars := by
  rw [literal, String.toList_ofList, literalChars_float finite, Layout.write_eq_chars]

theorem isNumeral_literal {v : Value} (numeric : v.isNumeric = true) :
    IsNumeral v.literal.toList := by
  cases v with
  | null => contradiction
  | bool b => contradiction
  | int n =>
      rw [toList_literal_int]
      exact (Numeral.wellFormed_ofInt n).isNumeral rfl
  | float x =>
      rw [toList_literal_float numeric]
      exact (literalLayout.wellFormed_numeral x).isNumeral (exponent_numeral x)
  | text s => contradiction

theorem isQuoted_literal {v : Value} (other : v.isNumeric = false) (nonnull : v ≠ null) :
    IsQuoted v.literal.toList := by
  have contents : ∃ contents, v.quotedContents? = some contents := by
    cases v with
    | null => contradiction
    | bool b => exact ⟨_, rfl⟩
    | int n => contradiction
    | float x => exact ⟨nonFiniteName x, if_neg (Bool.eq_false_iff.mp other)⟩
    | text s => exact ⟨s, rfl⟩
  obtain ⟨contents, quoted⟩ := contents
  exact (Text.Quoted.isQuoted_iff _).mpr ⟨_, (toList_literal_of_quotedContents? quoted).symm⟩

theorem head?_literal (v : Value) :
    ∃ c, v.literal.toList.head? = some c ∧
      (v = null ∧ c = 'N' ∨ v.isNumeric = true ∧ (c = '-' ∨ c.isDigit = true) ∨ c = '\'') := by
  by_cases isNull : v = null
  · rw [isNull]
    exact ⟨'N', rfl, .inl ⟨rfl, rfl⟩⟩
  · cases numeric : v.isNumeric with
    | true =>
        obtain ⟨c, first, opening⟩ := (isNumeral_literal numeric).head?
        exact ⟨c, first, .inr (.inl ⟨rfl, opening⟩)⟩
    | false =>
        obtain ⟨body, -, quoted⟩ := isQuoted_literal numeric isNull
        rw [quoted]
        exact ⟨'\'', rfl, .inr (.inr rfl)⟩

def ReadsBack (v : Value) : Prop :=
  match v with
  | null => v.literal = "NULL"
  | int n => ∃ numeral, Numeral.read v.literal.toList = some (numeral, []) ∧
    numeral.isWhole = true ∧ numeral.Concise ∧ numeral.integer = n.toInt
  | float x =>
      if x.isFinite then
        ∃ numeral, Numeral.read v.literal.toList = some (numeral, []) ∧
          numeral.exponent = none ∧ numeral.Concise ∧ ∀ y, numeral.RoundsTo y ↔ y = x
      else IsQuoted v.literal.toList
  | bool _ | text _ => IsQuoted v.literal.toList

theorem readsBack_float (x : Binary64) : (float x).ReadsBack := by
  simp only [ReadsBack]
  split
  · next finite =>
      refine ⟨literalLayout.numeral x, ?_, exponent_numeral x, concise_numeral x,
        Numeral.roundsTo_iff_eq (literalLayout.negative_numeral x)
          (literalLayout.nearest?_numeral finite)⟩
      rw [toList_literal_float finite, Numeral.read_chars (literalLayout.wellFormed_numeral x)]
  · next nonfinite => exact isQuoted_literal (Bool.eq_false_iff.mpr nonfinite) nofun

theorem readsBack (v : Value) : v.ReadsBack := by
  cases v with
  | null => rfl
  | bool b => exact isQuoted_literal (v := bool b) rfl nofun
  | int n =>
      have wf := Numeral.wellFormed_ofInt n
      refine ⟨.ofInt n, ?_, rfl, ⟨wf.leading, nofun⟩, Numeral.integer_ofInt n⟩
      rw [toList_literal_int, Numeral.read_chars wf]
  | float x => exact readsBack_float x
  | text s => exact isQuoted_literal (v := text s) rfl nofun

/--
Exactly the literals of numbers are plain numerals, and only that of null is the
keyword.  The numeral of a number is concise and is read as the number.
-/
theorem literal_reads_back (v : Value) :
    (v.isNumeric = true ↔ IsNumeral v.literal.toList) ∧
      (v.literal = "NULL" ↔ v = null) ∧ v.ReadsBack := by
  obtain ⟨c, first, kind⟩ := v.head?_literal
  refine ⟨⟨isNumeral_literal, ?_⟩, ⟨?_, ?_⟩, v.readsBack⟩
  · intro numeral
    obtain ⟨c', first', opening⟩ := numeral.head?
    obtain rfl : c = c' := Option.some.inj (first.symm.trans first')
    rcases kind with ⟨-, rfl⟩ | ⟨numeric, -⟩ | rfl
    · exact absurd opening (by decide)
    · exact numeric
    · exact absurd opening (by decide)
  · intro keyword
    rw [keyword] at first
    obtain rfl : 'N' = c := Option.some.inj first
    rcases kind with ⟨isNull, -⟩ | ⟨-, opening⟩ | quote
    · exact isNull
    · exact absurd opening (by decide)
    · exact absurd quote (by decide)
  · rintro rfl
    rfl

example : (float ⟨0x444B1AE4D6E2EF50⟩).literal = "1000000000000000000000" ∧
    (float ⟨0x8000000000000000⟩).literal = "-0" ∧ (text "-0").literal = "'-0'" := by
  decide +kernel

end Value

end BoundSql
