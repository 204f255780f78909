import BoundSql.Slots
import BoundSql.Value.Basic

/-!
# Filters

The conditions that a statement's rows have to meet.  A keyed condition compares
a column with a bound value; a raw one is SQL text that is taken as it is.  A
column has at most one keyed condition: giving another one replaces the value
and keeps the place.  Raw conditions are never replaced.
-/

namespace BoundSql

inductive Condition where
  | keyed (column : String) (value : Value)
  | raw (sql : String)
  deriving DecidableEq, Repr

namespace Condition

def column? : Condition → Option String
  | keyed column _ => some column
  | raw _ => none

def value? : Condition → Option Value
  | keyed _ value => some value
  | raw _ => none

end Condition

@[ext]
structure Filter where
  conditions : List Condition
  distinct : Slots.Distinct Condition.column? conditions
  deriving DecidableEq, Repr

namespace Filter

def empty : Filter :=
  ⟨[], by decide⟩

def put (filter : Filter) (condition : Condition) : Filter :=
  ⟨Slots.put Condition.column? condition filter.conditions, filter.distinct.put⟩

def equal (filter : Filter) (column : String) (value : Value) : Filter :=
  filter.put (.keyed column value)

def equalAll (filter : Filter) (pairs : List (String × Value)) : Filter :=
  pairs.foldl (fun filter (column, value) => filter.equal column value) filter

def raw (filter : Filter) (sql : String) : Filter :=
  filter.put (.raw sql)

end Filter

end BoundSql
