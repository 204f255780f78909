import BoundSql.Draft.Basic
import BoundSql.Proofs.Blank
import BoundSql.Proofs.Pieces
import Mathlib.Data.List.Basic

/-!
# The text of a draft, written in one pass

`Draft.written mark` walks over the clauses of a draft once and writes
`mark value` wherever a value is bound.  Rendering the draft and then putting
the literals in place by their offsets gives what is written with literals.
-/

namespace BoundSql

/-! ## Writing in one pass -/

def Condition.fragment : Condition → String
  | keyed column _ => column
  | raw sql => sql

namespace Clauses

def selected (clauses : Clauses) : Option (List String) :=
  if clauses.counting = true then none else some clauses.columns

def columnsText : Option (List String) → String
  | none => "COUNT(*)"
  | some [] => "*"
  | some columns => ", ".intercalate columns

def equalityText (mark : Value → String) (column : String) (value : Value) : String :=
  column ++ " = " ++ mark value

def conditionText (mark : Value → String) : Condition → String
  | .keyed column value => equalityText mark column value
  | .raw sql => sql

def conjunctionText (keyword : String) (fragments : List String) : String :=
  if fragments = [] then "" else keyword ++ " AND ".intercalate fragments

def whereText (mark : Value → String) (clauses : Clauses) : String :=
  conjunctionText " WHERE " (clauses.filter.conditions.map (conditionText mark))

def orderText : Option (String × Direction) → String
  | none => ""
  | some (column, direction) =>
      if column.toList.all Text.isBlank then ""
      else " ORDER BY " ++ column ++ " " ++ direction.keyword

def rowsText (keyword : String) (rows : Nat) : String :=
  if rows = 0 then "" else keyword ++ rows.repr

def selectText (mark : Value → String) (table : String) (clauses : Clauses) : String :=
  "SELECT " ++ columnsText clauses.selected ++ " FROM " ++ table ++ clauses.whereText mark
    ++ conjunctionText " HAVING " clauses.having ++ orderText clauses.order
    ++ rowsText " LIMIT " (clauses.limit.getD 0)
    ++ rowsText " OFFSET " (clauses.offset.getD 0)

def insertText (mark : Value → String) (table : String) (clauses : Clauses) : String :=
  "INSERT INTO " ++ table ++ " (" ++ ", ".intercalate clauses.inserted.columns
    ++ ") VALUES (" ++ ", ".intercalate (clauses.inserted.values.map mark) ++ ")"

def updateText (mark : Value → String) (table : String) (clauses : Clauses) : String :=
  "UPDATE " ++ table ++ " SET "
    ++ ", ".intercalate (clauses.assignments.entries.map fun (column, value) =>
      equalityText mark column value)
    ++ clauses.whereText mark

def deleteText (mark : Value → String) (table : String) (clauses : Clauses) : String :=
  "DELETE FROM " ++ table ++ clauses.whereText mark

def text (mark : Value → String) (table : String) (clauses : Clauses) : Kind → String
  | .select => clauses.selectText mark table
  | .insert => clauses.insertText mark table
  | .update => clauses.updateText mark table
  | .delete => clauses.deleteText mark table

def conditionValues (clauses : Clauses) : List Value :=
  clauses.filter.conditions.filterMap Condition.value?

def orderFragments : Option (String × Direction) → List String
  | none => []
  | some (column, _) => if column.toList.all Text.isBlank then [] else [column]

def fragments (table : String) (clauses : Clauses) : Kind → List String
  | .select =>
      clauses.selected.getD [] ++ table :: clauses.filter.conditions.map Condition.fragment
        ++ clauses.having ++ orderFragments clauses.order
  | .insert => table :: clauses.inserted.columns
  | .update =>
      table :: clauses.assignments.columns ++ clauses.filter.conditions.map Condition.fragment
  | .delete => table :: clauses.filter.conditions.map Condition.fragment

def values (clauses : Clauses) : Kind → List Value
  | .select | .delete => clauses.conditionValues
  | .insert => clauses.inserted.values
  | .update => clauses.assignments.values ++ clauses.conditionValues

end Clauses

def Draft.written (mark : Value → String) (d : Draft) : Except Fault String :=
  match d.kind, d.settings.kindPolicy with
  | some kind, _ => .ok (d.clauses.text mark d.table kind)
  | none, .optional => .ok ""
  | none, .required => .error (.noKind d.table)

/-! ## Pieces and text -/

namespace Piece

variable (mark : Value → String)

theorem toList_write (pieces : List Piece) :
    (write mark pieces).toList = pieces.flatMap fun piece => (piece.shown mark).toList := by
  simp only [write, String.toList_join, List.flatMap_map]

theorem write_joined (separator : String) (groups : List (List Piece)) :
    write mark (joined separator groups)
      = separator.intercalate (groups.map (write mark)) := by
  apply String.toList_injective
  rw [toList_write, flatMap_joined, String.toList_intercalate, List.map_map]
  congr 2
  funext group
  exact (toList_write mark group).symm

theorem filterMap_joined (separator : String) (groups : List (List Piece)) :
    (joined separator groups).filterMap value?
      = groups.flatMap (List.filterMap value?) := by
  induction groups with
  | nil => rfl
  | cons group rest ih =>
      cases rest with
      | nil => rw [joined, List.intercalate_singleton, List.flatMap_singleton]
      | cons next rest =>
          rw [joined_cons_cons, List.filterMap_append, List.filterMap_cons, ih,
            List.flatMap_cons]
          rfl

end Piece

namespace Clauses

open Piece (write write_nil write_cons write_append write_joined shown)

variable (mark : Value → String)

theorem selection_eq_columnsText (clauses : Clauses) :
    clauses.selection = columnsText clauses.selected := by
  unfold selection selected
  cases clauses.counting with
  | true => rfl
  | false => cases clauses.columns <;> rfl

theorem write_equality (column : String) (value : Value) :
    write mark (equality column value) = equalityText mark column value := by
  simp only [equality, write_cons, write_nil, shown, String.append_empty, equalityText,
    String.append_assoc]

theorem write_conditionPieces (condition : Condition) :
    write mark (conditionPieces condition) = conditionText mark condition := by
  cases condition with
  | keyed column value => exact write_equality mark column value
  | raw sql => simp only [conditionPieces, write_cons, write_nil, shown,
      String.append_empty, conditionText]

theorem write_wherePieces (clauses : Clauses) :
    write mark clauses.wherePieces = clauses.whereText mark := by
  unfold wherePieces whereText conjunctionText
  cases clauses.filter.conditions with
  | nil => rfl
  | cons condition rest =>
      have conditions : write mark ∘ conditionPieces = conditionText mark :=
        funext (write_conditionPieces mark)
      simp only [write_cons, shown, write_joined, List.map_map, conditions]
      rw [List.map_cons, if_neg (List.cons_ne_nil _ _)]

theorem write_havingPieces (clauses : Clauses) :
    write mark clauses.havingPieces = conjunctionText " HAVING " clauses.having := by
  unfold havingPieces conjunctionText
  cases clauses.having with
  | nil => rfl
  | cons fragment rest =>
      simp only [write_cons, write_nil, shown, String.append_empty]
      rw [if_neg (List.cons_ne_nil _ _)]

theorem write_orderPieces (clauses : Clauses) :
    write mark clauses.orderPieces = orderText clauses.order := by
  unfold orderPieces orderText
  cases clauses.order with
  | none => rfl
  | some pair =>
      simp only [Text.isBlankText_eq_all]
      split
      · rfl
      · simp only [write_cons, write_nil, shown, String.append_empty, String.append_assoc]

theorem write_rowsPieces (keyword : String) (rows : Option Nat) :
    write mark (rowsPieces keyword rows) = rowsText keyword (rows.getD 0) := by
  unfold rowsPieces rowsText
  split
  · rfl
  · rfl
  · next n positive =>
      have nonzero : n ≠ 0 := by
        rintro rfl
        exact positive rfl
      rw [Option.getD_some, if_neg nonzero]
      simp only [write_cons, write_nil, shown, String.append_empty]

theorem write_selectPieces (table : String) (clauses : Clauses) :
    write mark (clauses.selectPieces table) = clauses.selectText mark table := by
  unfold selectText
  simp only [selectPieces, write_append, write_cons, write_nil, shown,
    String.append_empty, write_wherePieces, write_havingPieces, write_orderPieces,
    write_rowsPieces, selection_eq_columnsText, String.append_assoc]

theorem write_columns (columns : List String) :
    write mark (Piece.joined ", " (columns.map fun column => [.text column]))
      = ", ".intercalate columns := by
  have each : columns.map (write mark ∘ fun column => [Piece.text column]) = columns := by
    simp only [Function.comp_def, write_cons, write_nil, shown, String.append_empty,
      List.map_id']
  rw [write_joined, List.map_map, each]

theorem write_slots (values : List Value) :
    write mark (Piece.joined ", " (values.map fun value => [.slot value]))
      = ", ".intercalate (values.map mark) := by
  have each : values.map (write mark ∘ fun value => [Piece.slot value])
      = values.map mark := by
    simp only [Function.comp_def, write_cons, write_nil, shown, String.append_empty]
  rw [write_joined, List.map_map, each]

theorem write_insertPieces (table : String) (clauses : Clauses) :
    write mark (clauses.insertPieces table) = clauses.insertText mark table := by
  unfold insertText
  simp only [insertPieces, write_append, write_cons, write_nil, shown,
    String.append_empty, write_columns, write_slots, String.append_assoc]

theorem write_updatePieces (table : String) (clauses : Clauses) :
    write mark (clauses.updatePieces table) = clauses.updateText mark table := by
  unfold updateText
  have entries : clauses.assignments.entries.map (write mark ∘ fun entry =>
      equality entry.1 entry.2)
      = clauses.assignments.entries.map fun entry => equalityText mark entry.1 entry.2 := by
    simp only [Function.comp_def, write_equality]
  simp only [updatePieces, write_append, write_cons, write_nil, shown,
    String.append_empty, write_joined, List.map_map, entries, write_wherePieces,
    String.append_assoc]

theorem write_deletePieces (table : String) (clauses : Clauses) :
    write mark (clauses.deletePieces table) = clauses.deleteText mark table := by
  unfold deleteText
  simp only [deletePieces, write_append, write_cons, write_nil, shown,
    String.append_empty, write_wherePieces, String.append_assoc]

theorem write_pieces? (table : String) (clauses : Clauses) :
    (clauses.pieces? table).map (write mark)
      = clauses.kind.map (clauses.text mark table) := by
  unfold pieces?
  rw [Option.map_map]
  congr 1
  funext kind
  cases kind with
  | select => exact write_selectPieces mark table clauses
  | insert => exact write_insertPieces mark table clauses
  | update => exact write_updatePieces mark table clauses
  | delete => exact write_deletePieces mark table clauses

/-! ## Pieces and values -/

section Values

open Piece (value? filterMap_joined)

omit mark

theorem filterMap_wherePieces (clauses : Clauses) :
    clauses.wherePieces.filterMap value? = clauses.conditionValues := by
  have each : ∀ condition : Condition,
      (conditionPieces condition).filterMap value? = condition.value?.toList := by
    intro condition
    cases condition <;> rfl
  unfold wherePieces conditionValues
  cases clauses.filter.conditions with
  | nil => rfl
  | cons condition rest =>
      simp only [List.filterMap_cons, value?, filterMap_joined, List.flatMap_map, each]
      exact (List.filterMap_eq_flatMap_toList Condition.value? (condition :: rest)).symm

theorem filterMap_havingPieces (clauses : Clauses) :
    clauses.havingPieces.filterMap value? = [] := by
  unfold havingPieces
  split <;> rfl

theorem filterMap_orderPieces (clauses : Clauses) :
    clauses.orderPieces.filterMap value? = [] := by
  unfold orderPieces
  split
  · rfl
  · split <;> rfl

theorem filterMap_rowsPieces (keyword : String) (rows : Option Nat) :
    (rowsPieces keyword rows).filterMap value? = [] := by
  unfold rowsPieces
  split <;> rfl

theorem filterMap_columns (columns : List String) :
    (Piece.joined ", " (columns.map fun column => [.text column])).filterMap value? = [] := by
  rw [filterMap_joined, List.flatMap_map]
  exact List.flatMap_eq_nil_iff.mpr fun _ _ => rfl

theorem filterMap_slots (values : List Value) :
    (Piece.joined ", " (values.map fun value => [.slot value])).filterMap value? = values := by
  rw [filterMap_joined, List.flatMap_map]
  exact List.flatMap_singleton' values

theorem filterMap_assignments (row : Row) :
    (Piece.joined ", " (row.entries.map fun (column, value) =>
      equality column value)).filterMap value? = row.values := by
  rw [filterMap_joined, List.flatMap_map]
  exact (List.map_eq_flatMap ..).symm

theorem filterMap_pieces? (table : String) (clauses : Clauses) :
    (clauses.pieces? table).map (List.filterMap value?)
      = clauses.kind.map clauses.values := by
  unfold pieces?
  rw [Option.map_map]
  congr 1
  funext kind
  cases kind with
  | select =>
      simp only [Function.comp, selectPieces, List.filterMap_append, filterMap_wherePieces,
        filterMap_havingPieces, filterMap_orderPieces, filterMap_rowsPieces, List.append_nil]
      rfl
  | insert =>
      simp only [Function.comp, insertPieces, List.filterMap_append, filterMap_columns,
        filterMap_slots, List.append_nil]
      exact List.append_nil clauses.inserted.values
  | update =>
      simp only [Function.comp, updatePieces, List.filterMap_append, filterMap_assignments,
        filterMap_wherePieces]
      rfl
  | delete =>
      simp only [Function.comp, deletePieces, List.filterMap_append, filterMap_wherePieces]
      rfl

end Values

end Clauses

/-! ## Rendered drafts -/

namespace Draft

theorem exists_pieces {d : Draft} {k : Kind} (chosen : d.kind = some k) :
    ∃ pieces, d.clauses.pieces? d.table = some pieces ∧ d.render = .ok (.ofPieces pieces) ∧
      (∀ mark, Piece.write mark pieces = d.clauses.text mark d.table k) ∧
      pieces.filterMap Piece.value? = d.clauses.values k := by
  have chosen' : d.clauses.kind = some k := chosen
  have values := Clauses.filterMap_pieces? d.table d.clauses
  rw [chosen'] at values
  obtain ⟨pieces, found, bound⟩ := Option.map_eq_some_iff.mp values
  refine ⟨pieces, found, ?_, ?_, bound⟩
  · unfold render
    rw [found]
  · intro mark
    have text := Clauses.write_pieces? mark d.table d.clauses
    rw [chosen', found] at text
    exact Option.some.inj text

/--
What is read off rendered statements as the text of their pieces is what one
pass over the draft writes.
-/
theorem map_render_eq_written (mark : Value → String) (read : Statement → String)
    (reads : ∀ pieces, read (.ofPieces pieces) = Piece.write mark pieces) (d : Draft) :
    d.render.map read = d.written mark := by
  unfold written
  cases hkind : d.kind with
  | none =>
      have none : d.clauses.pieces? d.table = none := by
        rw [Clauses.pieces?, show d.clauses.kind = none from hkind]
        rfl
      unfold render
      rw [none]
      cases d.settings.kindPolicy with
      | required => rfl
      | optional =>
          have nothing := reads []
          rw [Piece.write_nil] at nothing
          exact congrArg Except.ok nothing
  | some kind =>
      obtain ⟨pieces, -, rendered, text, -⟩ := exists_pieces hkind
      rw [rendered]
      simp only [Except.map, reads, text]

theorem result_statement (d : Draft) : d.statement.result = d.render := by
  unfold statement
  cases d.render <;> rfl

/--
The statement with its values put in place by their offsets is the draft written
with literals in one pass; it fails only as writing the draft does.
-/
theorem inlined_eq_written (d : Draft) : d.inlined.result = d.written Value.literal := by
  change d.statement.result.map Statement.inline = d.written Value.literal
  rw [result_statement]
  exact map_render_eq_written Value.literal Statement.inline Piece.inline_ofPieces d

end Draft

end BoundSql
