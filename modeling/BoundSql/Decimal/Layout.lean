import BoundSql.Decimal.Shortest

/-!
# Writing decimals

A layout says how the shortest decimal of a number is laid out: which exponents
are written positionally, whether a whole number carries a point, and which way
a tie goes.
-/

namespace BoundSql

/--
`positional` holds the least and the greatest exponent of the leading digit for
which positional notation is used; without it all numbers are positional.
-/
structure Layout where
  tie : Tie
  positional : Option (Int × Int)
  alwaysPoint : Bool
  deriving DecidableEq, Repr

namespace Decimal

def digitChars (d : Decimal) : List Char :=
  Nat.toDigits 10 d.digits

def leadingExponent (d : Decimal) : Int :=
  d.digitChars.length + d.exponent - 1

/-- The digits before and after the point; at least one stands before it. -/
def split (d : Decimal) : List Char × List Char :=
  let places := (-d.exponent).toNat
  let shifted := d.digitChars ++ List.replicate d.exponent.toNat '0'
  let padded := List.replicate (places + 1 - shifted.length) '0' ++ shifted
  (padded.take (padded.length - places), padded.drop (padded.length - places))

def positional (alwaysPoint : Bool) (d : Decimal) : List Char :=
  match d.split with
  | (whole, []) => if alwaysPoint then whole ++ ['.', '0'] else whole
  | (whole, fraction) => whole ++ '.' :: fraction

def scientific (d : Decimal) : List Char :=
  let lead := d.leadingExponent
  let fraction := d.digitChars.drop 1
  d.digitChars.take 1 ++ (if fraction.isEmpty then [] else '.' :: fraction)
    ++ 'e' :: (if lead < 0 then '-' else '+') :: Nat.toDigits 10 lead.natAbs

end Decimal

namespace Layout

def isPositional (layout : Layout) (d : Decimal) : Bool :=
  match layout.positional with
  | none => true
  | some (least, greatest) =>
      least ≤ d.leadingExponent && d.leadingExponent ≤ greatest

/-- The text of a finite number; a negative zero keeps its sign. -/
def write (layout : Layout) (x : Binary64) : List Char :=
  let d := Decimal.shortest layout.tie x
  (if x.isNegative then ['-'] else [])
    ++ if layout.isPositional d then d.positional layout.alwaysPoint else d.scientific

end Layout

end BoundSql
