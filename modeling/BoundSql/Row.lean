import BoundSql.Slots
import BoundSql.Value.Basic

/-!
# Rows

Columns with their values, in the order in which the columns were first given.
Setting a column again replaces its value and keeps its place.
-/

namespace BoundSql

namespace Row

def key (entry : String × Value) : Option String :=
  some entry.1

end Row

@[ext]
structure Row where
  entries : List (String × Value)
  distinct : Slots.Distinct Row.key entries
  deriving DecidableEq, Repr

namespace Row

def empty : Row :=
  ⟨[], by decide⟩

def set (row : Row) (column : String) (value : Value) : Row :=
  ⟨Slots.put key (column, value) row.entries, row.distinct.put⟩

def setAll (row : Row) (pairs : List (String × Value)) : Row :=
  pairs.foldl (fun row (column, value) => row.set column value) row

def ofList (pairs : List (String × Value)) : Row :=
  empty.setAll pairs

def get? (row : Row) (column : String) : Option Value :=
  row.entries.lookup column

def columns (row : Row) : List String :=
  row.entries.map Prod.fst

def values (row : Row) : List Value :=
  row.entries.map Prod.snd

def size (row : Row) : Nat :=
  row.entries.length

def isEmpty (row : Row) : Bool :=
  row.entries.isEmpty

def eqv (a b : Row) : Bool :=
  a.columns == b.columns && Value.eqvList a.values b.values

@[simp] theorem entries_set (row : Row) (column : String) (value : Value) :
    (row.set column value).entries = Slots.put key (column, value) row.entries := rfl

theorem entries_setAll (row : Row) (pairs : List (String × Value)) :
    (row.setAll pairs).entries = Slots.putAll key pairs row.entries := by
  induction pairs generalizing row with
  | nil => rfl
  | cons pair pairs ih => exact ih (row.set pair.1 pair.2)

theorem setAll_append (row : Row) (before after : List (String × Value)) :
    row.setAll (before ++ after) = (row.setAll before).setAll after :=
  List.foldl_append

theorem columns_nodup (row : Row) : row.columns.Nodup := by
  have := row.distinct
  simp only [Slots.Distinct, show key = some ∘ Prod.fst from rfl,
    List.filterMap_eq_map] at this
  exact this

end Row

end BoundSql
