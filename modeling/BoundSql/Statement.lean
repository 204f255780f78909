import BoundSql.Text.Utf8
import BoundSql.Value.Literal

/-!
# Statements

A statement is SQL text in which a question mark stands for each bound value,
with the values in order and the byte offsets of their question marks.  It is
made of pieces of text and slots for values.  Other question marks may occur in
the text, so literals are put in place by the recorded offsets alone.
-/

namespace BoundSql

inductive Piece where
  | text (sql : String)
  | slot (value : Value)
  deriving DecidableEq, Repr

namespace Piece

def sql : Piece → String
  | text sql => sql
  | slot _ => "?"

def value? : Piece → Option Value
  | text _ => none
  | slot value => some value

/-- The byte offsets of the slots when the pieces are written from offset `start` on. -/
def offsets (start : Nat) : List Piece → List Nat
  | [] => []
  | text sql :: rest => offsets (start + sql.utf8ByteSize) rest
  | slot _ :: rest => start :: offsets (start + 1) rest

def joined (separator : String) (groups : List (List Piece)) : List Piece :=
  [text separator].intercalate groups

end Piece

structure Statement where
  sql : String := ""
  bindings : List Value := []
  placeholders : List Nat := []
  deriving DecidableEq, Repr

namespace Statement

def empty : Statement := {}

def ofPieces (pieces : List Piece) : Statement where
  sql := String.join (pieces.map Piece.sql)
  bindings := pieces.filterMap Piece.value?
  placeholders := Piece.offsets 0 pieces

def types (s : Statement) : String :=
  Value.tags s.bindings

def paramCount (s : Statement) : Nat :=
  s.bindings.length

def isEmpty (s : Statement) : Bool :=
  s.sql.isEmpty

/--
Puts a literal in place of the one-byte character at each offset; `sql` is what
stands from offset `cursor` on.
-/
def splice (cursor : Nat) (sql : List Char) : List (Nat × Value) → List Char
  | [] => sql
  | (offset, value) :: rest =>
      let (before, after) := Text.Utf8.splitAt (offset - cursor) sql
      before ++ value.literalChars ++ splice (offset + 1) (after.drop 1) rest

/-- The statement with every bound value written out, for reading only. -/
def inline (s : Statement) : String :=
  String.ofList (splice 0 s.sql.toList (s.placeholders.zip s.bindings))

/-- Equality of all parts, with bound values compared by their contents. -/
def eqv (a b : Statement) : Bool :=
  a.sql == b.sql && Value.eqvList a.bindings b.bindings && a.types == b.types
    && a.placeholders == b.placeholders

end Statement

end BoundSql
