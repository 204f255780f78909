import BoundSql.Draft.Session
import BoundSql.Proofs.Pieces

/-!
# SQL text does not depend on bound values

Masking replaces every bound value by null and keeps everything else.  Each
edit, each rendering and each request commutes with masking, so two sessions
that are equal when masked stay equal when masked, and what is shown of them is
the same but for the values.
-/

namespace BoundSql

/-! ## Masking -/

namespace Slots

variable {α κ : Type} [DecidableEq κ] {key : α → Option κ} {f : α → α}

theorem map_put (same : ∀ a, key (f a) = key a) (a : α) (slots : List α) :
    (put key a slots).map f = put key (f a) (slots.map f) := by
  induction slots with
  | nil => rfl
  | cons b rest ih =>
      simp only [put, List.map_cons, same]
      split
      · rfl
      · simp only [List.map_cons, ih]

omit [DecidableEq κ] in
theorem Distinct.map (same : ∀ a, key (f a) = key a) {slots : List α}
    (h : Distinct key slots) : Distinct key (slots.map f) := by
  have keys : key ∘ f = key := funext same
  simpa only [Distinct, List.filterMap_map, keys] using h

end Slots

def Value.maskAll (values : List Value) : List Value :=
  values.map fun _ => .null

def Row.maskEntry (entry : String × Value) : String × Value :=
  (entry.1, .null)

theorem Row.key_maskEntry (entry : String × Value) : key (maskEntry entry) = key entry :=
  rfl

def Row.masked (row : Row) : Row :=
  ⟨row.entries.map maskEntry, row.distinct.map key_maskEntry⟩

def Condition.masked : Condition → Condition
  | keyed column _ => keyed column .null
  | raw sql => raw sql

theorem Condition.column?_masked (condition : Condition) :
    condition.masked.column? = condition.column? := by
  cases condition <;> rfl

def Filter.masked (filter : Filter) : Filter :=
  ⟨filter.conditions.map Condition.masked,
    filter.distinct.map Condition.column?_masked⟩

def Clauses.masked (clauses : Clauses) : Clauses :=
  { clauses with
    assignments := clauses.assignments.masked
    inserted := clauses.inserted.masked
    filter := clauses.filter.masked }

def Edit.masked : Edit → Edit
  | .insert pairs => .insert (pairs.map Row.maskEntry)
  | .set column _ => .set column .null
  | .whereEqual column _ => .whereEqual column .null
  | .whereAll pairs => .whereAll (pairs.map Row.maskEntry)
  | other => other

def Request.masked : Request → Request
  | .edit e => .edit e.masked
  | other => other

def Piece.masked : Piece → Piece
  | text sql => text sql
  | slot _ => slot .null

def Statement.masked (s : Statement) : Statement :=
  { s with bindings := Value.maskAll s.bindings }

def LogEvent.masked (event : LogEvent) : LogEvent :=
  { event with bindings := Value.maskAll event.bindings }

def Draft.masked (d : Draft) : Draft :=
  { d with clauses := d.clauses.masked, recorded := Value.maskAll d.recorded }

/-! ## Edits -/

theorem Row.masked_set (row : Row) (column : String) (value : Value) :
    (row.set column value).masked = row.masked.set column .null :=
  Row.ext (Slots.map_put key_maskEntry (column, value) row.entries)

theorem Row.masked_setAll (row : Row) (pairs : List (String × Value)) :
    (row.setAll pairs).masked = row.masked.setAll (pairs.map maskEntry) := by
  induction pairs generalizing row with
  | nil => rfl
  | cons pair pairs ih =>
      have tail := ih (row.set pair.1 pair.2)
      rw [masked_set] at tail
      exact tail

theorem Row.masked_ofList (pairs : List (String × Value)) :
    (ofList pairs).masked = ofList (pairs.map maskEntry) :=
  masked_setAll empty pairs

theorem Filter.masked_put (filter : Filter) (condition : Condition) :
    (filter.put condition).masked = filter.masked.put condition.masked :=
  Filter.ext (Slots.map_put Condition.column?_masked condition filter.conditions)

theorem Filter.masked_equalAll (filter : Filter) (pairs : List (String × Value)) :
    (filter.equalAll pairs).masked
      = filter.masked.equalAll (pairs.map Row.maskEntry) := by
  induction pairs generalizing filter with
  | nil => rfl
  | cons pair pairs ih =>
      have tail := ih (filter.equal pair.1 pair.2)
      rw [equal, masked_put] at tail
      exact tail

theorem Clauses.masked_edit (clauses : Clauses) (e : Edit) :
    (clauses.edit e).masked = clauses.masked.edit e.masked := by
  cases e with
  | insert pairs => simp only [edit, masked, Edit.masked, Row.masked_ofList]
  | set column value => simp only [edit, masked, Edit.masked, Row.masked_set]
  | whereEqual column value =>
      simp only [edit, masked, Edit.masked, Filter.equal, Filter.masked_put,
        Condition.masked]
  | whereAll pairs => simp only [edit, masked, Edit.masked, Filter.masked_equalAll]
  | whereRaw sql =>
      simp only [edit, masked, Edit.masked, Filter.raw, Filter.masked_put,
        Condition.masked]
  | select | update | delete | count | having | orderBy | limit | offset => rfl

/-! ## Renderings -/

theorem Piece.offsets_map_masked (start : Nat) (pieces : List Piece) :
    offsets start (pieces.map masked) = offsets start pieces := by
  induction pieces generalizing start with
  | nil => rfl
  | cons piece pieces ih => cases piece <;> simp only [List.map_cons, masked, offsets, ih]

theorem Statement.ofPieces_masked (pieces : List Piece) :
    ofPieces (pieces.map Piece.masked) = (ofPieces pieces).masked := by
  have texts : Piece.sql ∘ Piece.masked = Piece.sql := by
    funext piece
    cases piece <;> rfl
  have values : Piece.value? ∘ Piece.masked
      = fun piece => piece.value?.map fun _ => Value.null := by
    funext piece
    cases piece <;> rfl
  simp only [ofPieces, masked, Value.maskAll, List.map_map, List.filterMap_map, texts,
    values, Piece.offsets_map_masked, List.map_filterMap]

namespace Clauses

theorem conditionPieces_masked (condition : Condition) :
    conditionPieces condition.masked = (conditionPieces condition).map Piece.masked := by
  cases condition <;> rfl

theorem wherePieces_masked (clauses : Clauses) :
    clauses.masked.wherePieces = clauses.wherePieces.map Piece.masked := by
  have conditions : clauses.masked.filter.conditions
      = clauses.filter.conditions.map Condition.masked := rfl
  have pieces : conditionPieces ∘ Condition.masked
      = List.map Piece.masked ∘ conditionPieces := funext conditionPieces_masked
  unfold wherePieces
  rw [conditions]
  cases clauses.filter.conditions with
  | nil => rfl
  | cons condition rest =>
      change Piece.text " WHERE " :: Piece.joined " AND "
          (((condition :: rest).map Condition.masked).map conditionPieces)
        = Piece.text " WHERE " :: (Piece.joined " AND "
          ((condition :: rest).map conditionPieces)).map Piece.masked
      rw [Piece.map_joined Piece.masked " AND " rfl, List.map_map, List.map_map, pieces]

theorem havingPieces_masked (clauses : Clauses) :
    clauses.masked.havingPieces = clauses.havingPieces.map Piece.masked := by
  unfold havingPieces
  have fragments : clauses.masked.having = clauses.having := rfl
  rw [fragments]
  cases clauses.having <;> rfl

theorem orderPieces_masked (clauses : Clauses) :
    clauses.masked.orderPieces = clauses.orderPieces.map Piece.masked := by
  unfold orderPieces
  have order : clauses.masked.order = clauses.order := rfl
  rw [order]
  cases clauses.order with
  | none => rfl
  | some pair =>
      dsimp only
      split <;> rfl

theorem map_masked_rowsPieces (keyword : String) (rows : Option Nat) :
    (rowsPieces keyword rows).map Piece.masked = rowsPieces keyword rows := by
  unfold rowsPieces
  split <;> rfl

theorem pieces?_masked (table : String) (clauses : Clauses) :
    clauses.masked.pieces? table
      = (clauses.pieces? table).map (List.map Piece.masked) := by
  have same : clauses.masked.kind = clauses.kind := rfl
  unfold pieces?
  rw [same, Option.map_map]
  congr 1
  funext kind
  cases kind with
  | select =>
      simp only [Function.comp, selectPieces, List.map_append, wherePieces_masked,
        havingPieces_masked, orderPieces_masked, map_masked_rowsPieces]
      rfl
  | insert =>
      have columns : clauses.masked.inserted.columns = clauses.inserted.columns := by
        simp only [masked, Row.masked, Row.columns, List.map_map]
        rfl
      have values : clauses.masked.inserted.values.map (fun value => [Piece.slot value])
          = (clauses.inserted.values.map fun value => [Piece.slot value]).map
            (List.map Piece.masked) := by
        simp only [masked, Row.masked, Row.values, List.map_map]
        rfl
      simp only [Function.comp, insertPieces, List.map_append,
        Piece.map_joined Piece.masked ", " rfl, columns, values, List.map_map]
      rfl
  | update =>
      have entries : clauses.masked.assignments.entries
          = clauses.assignments.entries.map Row.maskEntry := rfl
      simp only [Function.comp, updatePieces, List.map_append, wherePieces_masked,
        Piece.map_joined Piece.masked ", " rfl, entries, List.map_map]
      rfl
  | delete =>
      simp only [Function.comp, deletePieces, List.map_append, wherePieces_masked]
      rfl

end Clauses

/-! ## Requests -/

namespace Draft

theorem render_masked (d : Draft) : d.masked.render = d.render.map Statement.masked := by
  have pieces : d.masked.clauses.pieces? d.masked.table
      = (d.clauses.pieces? d.table).map (List.map Piece.masked) :=
    Clauses.pieces?_masked d.table d.clauses
  have policy : d.masked.settings.kindPolicy = d.settings.kindPolicy := rfl
  unfold render
  rw [pieces, policy]
  cases d.clauses.pieces? d.table with
  | some pieces => simp only [Option.map_some, Except.map, Statement.ofPieces_masked]
  | none =>
      cases d.settings.kindPolicy with
      | required => rfl
      | optional => rfl

theorem events_masked (d : Draft) (s : Statement) :
    d.masked.events s.masked = (d.events s).map LogEvent.masked := by
  have logging : d.masked.settings.logging = d.settings.logging := rfl
  unfold events
  rw [logging]
  split <;> rfl

theorem statement_masked (d : Draft) :
    d.masked.statement = ⟨d.statement.result.map Statement.masked,
      d.statement.draft.masked, d.statement.events.map LogEvent.masked⟩ := by
  unfold statement
  rw [render_masked]
  cases d.render with
  | ok s => simp only [Except.map, events_masked]; rfl
  | error fault => rfl

theorem edit_masked (d : Draft) (e : Edit) :
    d.masked.edit e.masked = (d.edit e).masked := by
  simp only [edit, masked, Clauses.masked_edit]

theorem display_masked (d : Draft) : d.masked.display = d.display := by
  unfold display
  rw [render_masked]
  cases d.render <;> rfl

theorem respond_masked (d : Draft) (request : Request) :
    (d.masked.respond request.masked).draft = (d.respond request).draft.masked := by
  have rendered : d.masked.statement.draft = d.statement.draft.masked := by
    rw [statement_masked]
  cases request with
  | edit e => exact edit_masked d e
  | sql | inlined | statement =>
      simp only [Request.masked, respond, Outcome.draft_answer]
      exact rendered
  | clear | display | table | kind | settings | recorded => rfl

theorem after_masked (d : Draft) (requests : List Request) :
    d.masked.after (requests.map Request.masked) = (d.after requests).masked := by
  induction requests generalizing d with
  | nil => rfl
  | cons request rest ih =>
      change (d.masked.respond request.masked).draft.after (rest.map Request.masked)
        = ((d.respond request).draft.after rest).masked
      rw [respond_masked, ih]

end Draft

/-! ## Two sessions -/

def Statement.outline (s : Statement) : String × Nat × List Nat :=
  (s.sql, s.paramCount, s.placeholders)

structure Draft.Alike (d e : Draft) : Prop where
  kind : d.kind = e.kind
  display : d.display = e.display
  sql : d.sql.result = e.sql.result
  statement :
    d.statement.result.map Statement.outline = e.statement.result.map Statement.outline
  inlined : d.inlined.result.map (fun _ => ()) = e.inlined.result.map (fun _ => ())
  events :
    d.statement.events.map LogEvent.masked = e.statement.events.map LogEvent.masked
  recorded : d.recorded.length = e.recorded.length

theorem Statement.outline_masked (s : Statement) : s.masked.outline = s.outline := by
  simp only [outline, paramCount, masked, Value.maskAll, List.length_map]

namespace Draft

theorem alike_masked (d : Draft) : d.masked.Alike d where
  kind := rfl
  display := display_masked d
  sql := by
    simp only [sql, Outcome.map, statement_masked]
    cases d.statement.result <;> rfl
  statement := by
    simp only [statement_masked]
    cases d.statement.result with
    | ok s => simp only [Except.map, Statement.outline_masked]
    | error fault => rfl
  inlined := by
    simp only [inlined, Outcome.map, statement_masked]
    cases d.statement.result <;> rfl
  events := by
    have twice : LogEvent.masked ∘ LogEvent.masked = LogEvent.masked := by
      funext event
      simp only [Function.comp, LogEvent.masked, Value.maskAll, List.map_map]
      rfl
    simp only [statement_masked, List.map_map, twice]
  recorded := by simp only [masked, Value.maskAll, List.length_map]

theorem Alike.symm {d e : Draft} (h : d.Alike e) : e.Alike d :=
  ⟨h.kind.symm, h.display.symm, h.sql.symm, h.statement.symm, h.inlined.symm,
    h.events.symm, h.recorded.symm⟩

theorem Alike.trans {d e f : Draft} (h : d.Alike e) (k : e.Alike f) : d.Alike f :=
  ⟨h.kind.trans k.kind, h.display.trans k.display, h.sql.trans k.sql,
    h.statement.trans k.statement, h.inlined.trans k.inlined, h.events.trans k.events,
    h.recorded.trans k.recorded⟩

/--
Two sessions on a new draft that differ only in the values they bind show the
same after each number of requests.
-/
theorem alike_after_of_masked_eq (table : String) (settings : Settings)
    {first second : List Request}
    (same : first.map Request.masked = second.map Request.masked) (n : Nat) :
    (({ table, settings } : Draft).after (first.take n)).Alike
      (({ table, settings } : Draft).after (second.take n)) := by
  have requests : (first.take n).map Request.masked
      = (second.take n).map Request.masked := by
    rw [List.map_take, List.map_take, same]
  have drafts : (({ table, settings } : Draft).after (first.take n)).masked
      = (({ table, settings } : Draft).after (second.take n)).masked := by
    rw [← after_masked, ← after_masked, requests]
  have left := (alike_masked (({ table, settings } : Draft).after (first.take n))).symm
  rw [drafts] at left
  exact left.trans (alike_masked _)

theorem alike_after_of_two_values :
    let first : List Request := [.edit (.select []), .edit (.whereEqual "id" (.text "?")),
      .statement, .edit (.whereEqual "id" .null), .inlined]
    let second : List Request := [.edit (.select []), .edit (.whereEqual "id" .null),
      .statement, .edit (.whereEqual "id" (.int 7)), .inlined]
    first.map Request.masked = second.map Request.masked ∧
      (({ table := "users" } : Draft).after (first.take 4)).Alike
        (({ table := "users" } : Draft).after (second.take 4)) := by
  intro first second
  have same : first.map Request.masked = second.map Request.masked := rfl
  exact ⟨same, alike_after_of_masked_eq "users" {} same 4⟩

end Draft

end BoundSql
