import BoundSql.Direction
import BoundSql.Filter
import BoundSql.Kind
import BoundSql.Row

/-!
# The clauses of a draft

Everything that has been said about a statement so far.  Each edit says one more
thing, and the edits may come in any order: the last choice of a kind decides
what the statement is, and what another kind would need is kept beside it.
-/

namespace BoundSql

structure Clauses where
  kind : Option Kind := none
  columns : List String := []
  counting : Bool := false
  assignments : Row := .empty
  inserted : Row := .empty
  filter : Filter := .empty
  having : List String := []
  order : Option (String × Direction) := none
  limit : Option Nat := none
  offset : Option Nat := none
  deriving DecidableEq, Repr

inductive Edit where
  | select (columns : List String)
  | insert (pairs : List (String × Value))
  | update
  | delete
  | set (column : String) (value : Value)
  | count
  | whereEqual (column : String) (value : Value)
  | whereAll (pairs : List (String × Value))
  | whereRaw (sql : String)
  | having (sql : String)
  | orderBy (column : String) (direction : Direction)
  | limit (rows : Nat)
  | offset (rows : Nat)
  deriving DecidableEq, Repr

namespace Clauses

/--
Columns, conditions and assignments accumulate; a row to insert, an ordering, a
limit and an offset replace the ones before.
-/
def edit (clauses : Clauses) : Edit → Clauses
  | .select columns =>
      { clauses with kind := some .select, columns := clauses.columns ++ columns }
  | .insert pairs => { clauses with kind := some .insert, inserted := .ofList pairs }
  | .update => { clauses with kind := some .update }
  | .delete => { clauses with kind := some .delete }
  | .set column value =>
      { clauses with assignments := clauses.assignments.set column value }
  | .count => { clauses with counting := true }
  | .whereEqual column value =>
      { clauses with filter := clauses.filter.equal column value }
  | .whereAll pairs => { clauses with filter := clauses.filter.equalAll pairs }
  | .whereRaw sql => { clauses with filter := clauses.filter.raw sql }
  | .having sql => { clauses with having := clauses.having ++ [sql] }
  | .orderBy column direction => { clauses with order := some (column, direction) }
  | .limit rows => { clauses with limit := some rows }
  | .offset rows => { clauses with offset := some rows }

end Clauses

end BoundSql
