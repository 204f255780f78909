import BoundSql.Binary64.Basic

/-!
# Values

What a placeholder can be bound to.  The tag of a value tells a
prepared-statement interface how to pass it.
-/

namespace BoundSql

inductive Value where
  | null
  | bool (b : Bool)
  | int (n : Int64)
  | float (x : Binary64)
  | text (s : String)
  deriving DecidableEq, Repr

namespace Value

/-- Integers are tagged `i`, floats `d` and everything else `s`. -/
def tag : Value → Char
  | int _ => 'i'
  | float _ => 'd'
  | null | bool _ | text _ => 's'

def tags (values : List Value) : String :=
  String.ofList (values.map tag)

def isNumeric : Value → Bool
  | int _ => true
  | float x => x.isFinite
  | null | bool _ | text _ => false

def isNull : Value → Bool
  | null => true
  | _ => false

/--
Equality of contents.  Floats are compared as numbers, so a NaN differs from
itself and the two zeros are equal; an integer never equals a float.
-/
def eqv : Value → Value → Bool
  | null, null => true
  | bool a, bool b => a == b
  | int m, int n => m == n
  | float x, float y => x.eqv y
  | text s, text t => s == t
  | _, _ => false

def eqvList : List Value → List Value → Bool
  | [], [] => true
  | a :: as, b :: bs => a.eqv b && eqvList as bs
  | _, _ => false

end Value

end BoundSql
