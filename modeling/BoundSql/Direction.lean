import BoundSql.Fault
import BoundSql.Text.Blank

/-!
# Directions of an ordering

A direction is read from its keyword in any ASCII case, with white space around
it allowed.
-/

namespace BoundSql

inductive Direction where
  | asc
  | desc
  deriving DecidableEq, Repr, Inhabited

namespace Direction

def keyword : Direction → String
  | asc => "ASC"
  | desc => "DESC"

/-- The characters between the white space, with the letters A to Z in lower case. -/
def word (given : String) : List Char :=
  (Text.trim given.toList).map Char.toLower

def parse? (given : String) : Option Direction :=
  if word given = ['a', 's', 'c'] then some asc
  else if word given = ['d', 'e', 's', 'c'] then some desc
  else none

def parse (given : String) : Except Fault Direction :=
  match parse? given with
  | some direction => .ok direction
  | none => .error (.invalidDirection given)

theorem parse_eq_ok_iff (given : String) (direction : Direction) :
    parse given = .ok direction ↔ parse? given = some direction := by
  unfold parse
  cases parse? given <;> simp

theorem parse_eq_error_iff (given : String) (fault : Fault) :
    parse given = .error fault ↔ parse? given = none ∧ fault = .invalidDirection given := by
  unfold parse
  cases h : parse? given <;> simp [eq_comm]

end Direction

end BoundSql
