import BoundSql.Draft.Clauses
import BoundSql.Statement

/-!
# Rendering clauses

The pieces of each kind of statement.  A kind reads its own clauses only.  An
empty list of conditions leaves its clause out, as do a blank ordering column, a
limit of zero and an offset of zero.
-/

namespace BoundSql.Clauses

open Piece (text slot joined)

def equality (column : String) (value : Value) : List Piece :=
  [text column, text " = ", slot value]

def conditionPieces : Condition → List Piece
  | .keyed column value => equality column value
  | .raw sql => [text sql]

def wherePieces (clauses : Clauses) : List Piece :=
  match clauses.filter.conditions with
  | [] => []
  | conditions => text " WHERE " :: joined " AND " (conditions.map conditionPieces)

def havingPieces (clauses : Clauses) : List Piece :=
  match clauses.having with
  | [] => []
  | fragments => [text " HAVING ", text (" AND ".intercalate fragments)]

def orderPieces (clauses : Clauses) : List Piece :=
  match clauses.order with
  | none => []
  | some (column, direction) =>
      if Text.isBlankText column then []
      else [text " ORDER BY ", text column, text " ", text direction.keyword]

/-- A keyword with a number of rows, left out for zero. -/
def rowsPieces (keyword : String) : Option Nat → List Piece
  | none | some 0 => []
  | some rows => [text keyword, text rows.repr]

def selection (clauses : Clauses) : String :=
  if clauses.counting then "COUNT(*)"
  else if clauses.columns.isEmpty then "*"
  else ", ".intercalate clauses.columns

def selectPieces (table : String) (clauses : Clauses) : List Piece :=
  [text "SELECT ", text clauses.selection, text " FROM ", text table]
    ++ clauses.wherePieces ++ clauses.havingPieces ++ clauses.orderPieces
    ++ rowsPieces " LIMIT " clauses.limit ++ rowsPieces " OFFSET " clauses.offset

def insertPieces (table : String) (clauses : Clauses) : List Piece :=
  [text "INSERT INTO ", text table, text " ("]
    ++ joined ", " (clauses.inserted.columns.map fun column => [text column])
    ++ [text ") VALUES ("]
    ++ joined ", " (clauses.inserted.values.map fun value => [slot value])
    ++ [text ")"]

def updatePieces (table : String) (clauses : Clauses) : List Piece :=
  [text "UPDATE ", text table, text " SET "]
    ++ joined ", " (clauses.assignments.entries.map fun (column, value) =>
      equality column value)
    ++ clauses.wherePieces

def deletePieces (table : String) (clauses : Clauses) : List Piece :=
  [text "DELETE FROM ", text table] ++ clauses.wherePieces

def pieces? (table : String) (clauses : Clauses) : Option (List Piece) :=
  clauses.kind.map fun
    | .select => clauses.selectPieces table
    | .insert => clauses.insertPieces table
    | .update => clauses.updatePieces table
    | .delete => clauses.deletePieces table

end BoundSql.Clauses
