import BoundSql.Decimal.Layout
import BoundSql.Text.Quoted
import BoundSql.Value.Basic

/-!
# SQL literals

The literal of a value, as it is written into a statement that is meant to be
read and not to be executed.  Numbers are bare numerals, null is a keyword, and
everything else is quoted text.
-/

namespace BoundSql.Value

/--
The shortest digits in positional notation, whole numbers without a point; of
two equally near decimals the greater one is taken.
-/
def literalLayout : Layout :=
  ⟨.awayFromZero, none, false⟩

def intChars (n : Int64) : List Char :=
  (if n < 0 then ['-'] else []) ++ Nat.toDigits 10 n.toInt.natAbs

def nonFiniteName (x : Binary64) : String :=
  if x.isNaN then "NaN" else if x.isNegative then "-inf" else "inf"

/-- The contents of a quoted literal, or `none` if the literal is bare. -/
def quotedContents? : Value → Option String
  | null | int _ => none
  | float x => if x.isFinite then none else some (nonFiniteName x)
  | bool b => some (if b then "1" else "0")
  | text s => some s

def literalChars (v : Value) : List Char :=
  match v.quotedContents?, v with
  | some contents, _ => Text.Quoted.write contents.toList
  | none, int n => intChars n
  | none, float x => literalLayout.write x
  | none, _ => "NULL".toList

def literal (v : Value) : String :=
  String.ofList v.literalChars

theorem literalChars_of_quotedContents? {v : Value} {contents : String}
    (h : v.quotedContents? = some contents) :
    v.literalChars = Text.Quoted.write contents.toList := by
  simp [literalChars, h]

theorem literalChars_float {x : Binary64} (finite : x.isFinite = true) :
    (float x).literalChars = literalLayout.write x := by
  simp [literalChars, quotedContents?, finite]

end BoundSql.Value
