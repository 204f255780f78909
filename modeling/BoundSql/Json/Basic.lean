import BoundSql.Binary64.Nearest

/-!
# JSON values

The values of RFC 8259 as they are held after reading.  A number is an unsigned
or a negative integer of 64 bits or a binary64 number; an object keeps its
members in the order of the text, repeated names included.
-/

namespace BoundSql

namespace Json

/-- Why a text is refused: it is not JSON, or it is but has not the wanted shape. -/
inductive Refusal where
  | malformed
  | misshapen
  deriving DecidableEq, Repr

inductive Number where
  | natural (n : UInt64)
  | negative (n : Int64) (below : n < 0)
  | float (x : Binary64)
  deriving DecidableEq, Repr

namespace Number

def ofInt64 (n : Int64) : Number :=
  if below : n < 0 then .negative n below else .natural n.toUInt64

/-- The signed integer with the same value, if it is in range. -/
def signed? (n : UInt64) : Option Int64 :=
  if n.toNat < 0x8000_0000_0000_0000 then some n.toInt64 else none

def toInt64? : Number → Option Int64
  | natural n => signed? n
  | negative n _ => some n
  | float _ => none

/-- The number itself or, for an integer, the nearest one to it. -/
def toBinary64 : Number → Binary64
  | natural n => .ofInt n.toNat
  | negative n _ => .ofInt n.toInt
  | float x => x

theorem signed?_toUInt64 {n : Int64} (h : ¬ n < 0) : signed? n.toUInt64 = some n := by
  have same : n.toUInt64.toNat = n.toInt.toNat := by
    rw [Int64.toNat_toUInt64_of_le (Int64.not_lt.mp h), Int64.toNat_toInt]
  have small := n.toInt_lt
  rw [signed?, if_pos (by omega), n.toInt64_toUInt64]

theorem toInt64?_ofInt64 (n : Int64) : (ofInt64 n).toInt64? = some n := by
  unfold ofInt64
  split
  · rfl
  · next above => exact signed?_toUInt64 above

end Number

end Json

inductive Json where
  | null
  | bool (b : Bool)
  | number (n : Json.Number)
  | string (s : String)
  | array (items : List Json)
  | object (members : List (String × Json))
  deriving Repr

end BoundSql
