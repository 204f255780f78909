import BoundSql.Kind
import BoundSql.Settings
import BoundSql.Text.Utf8
import BoundSql.Value.Basic

/-!
# Log events

The report of one rendered statement.
-/

namespace BoundSql

structure LogEvent where
  level : LogLevel
  table : String
  kind : Option Kind
  bindings : List Value
  sql : String
  deriving DecidableEq, Repr

namespace LogEvent

def target : String :=
  "querykit.sql"

/-- SQL text beyond the limit is cut and marked with three points. -/
def shorten (limit : Option Nat) (sql : String) : String :=
  match limit with
  | none => sql
  | some n => if n < sql.utf8ByteSize then Text.Utf8.truncate n sql ++ "..." else sql

def fields (event : LogEvent) : List (String × String) :=
  [("table", event.table),
    ("kind", (event.kind.map Kind.keyword).getD "-"),
    ("param_count", event.bindings.length.repr),
    ("binding_types", Value.tags event.bindings),
    ("sql", event.sql)]

end LogEvent

end BoundSql
