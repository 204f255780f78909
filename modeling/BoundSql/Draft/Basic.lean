import BoundSql.Draft.Rendering
import BoundSql.Fault
import BoundSql.LogEvent

/-!
# Drafts

A draft is a statement in the making for one table.  Rendering it records the
bound values for a prepared-statement interface and, if the settings ask for it,
reports the statement as a log event.  Showing a draft does neither.
-/

namespace BoundSql

/-- The values bound by the last rendering are `recorded`. -/
structure Draft where
  table : String
  settings : Settings := {}
  clauses : Clauses := {}
  recorded : List Value := []
  deriving DecidableEq, Repr

structure Outcome (α : Type) where
  result : Except Fault α
  draft : Draft
  events : List LogEvent

namespace Outcome

def map {α β : Type} (f : α → β) (outcome : Outcome α) : Outcome β :=
  ⟨outcome.result.map f, outcome.draft, outcome.events⟩

end Outcome

namespace Draft

def named (table : String) : Except Fault Draft :=
  if Text.isBlankText table then .error .emptyTable else .ok { table }

def kind (d : Draft) : Option Kind :=
  d.clauses.kind

def types (d : Draft) : String :=
  Value.tags d.recorded

def edit (d : Draft) (e : Edit) : Draft :=
  { d with clauses := d.clauses.edit e }

def clear (d : Draft) : Draft :=
  { table := d.table, settings := d.settings }

def render (d : Draft) : Except Fault Statement :=
  match d.clauses.pieces? d.table with
  | some pieces => .ok (.ofPieces pieces)
  | none =>
      match d.settings.kindPolicy with
      | .required => .error (.noKind d.table)
      | .optional => .ok .empty

def events (d : Draft) (s : Statement) : List LogEvent :=
  if d.settings.logging then
    [{ level := d.settings.logLevel
       table := d.table
       kind := d.kind
       bindings := s.bindings
       sql := LogEvent.shorten d.settings.logLimit s.sql }]
  else []

/-- A statement that cannot be rendered leaves no values recorded. -/
def statement (d : Draft) : Outcome Statement :=
  match d.render with
  | .ok s => ⟨.ok s, { d with recorded := s.bindings }, d.events s⟩
  | .error fault => ⟨.error fault, { d with recorded := [] }, []⟩

def sql (d : Draft) : Outcome String :=
  d.statement.map Statement.sql

def inlined (d : Draft) : Outcome String :=
  d.statement.map Statement.inline

def display (d : Draft) : String :=
  match d.render with
  | .ok s => s.sql
  | .error _ => ""

end Draft

end BoundSql
