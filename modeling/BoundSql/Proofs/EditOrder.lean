import BoundSql.Draft.Session
import Mathlib.Data.List.Basic

/-!
# The order of edits

An edit says something about some of the clauses and nothing about the others.
So each clause is what all edits said about it, taken in their order, and edits
that speak about different clauses may change places.  Each kind of statement
reads some of the clauses only, so what is said about the others and when the
kind is chosen make no difference.
-/

namespace BoundSql

/-! ## What edits say -/

namespace Edit

def kind? : Edit → Option Kind
  | .select _ => some .select
  | .insert _ => some .insert
  | .update => some .update
  | .delete => some .delete
  | _ => none

def columns : Edit → List String
  | .select columns => columns
  | _ => []

def conditions : Edit → List Condition
  | .whereEqual column value => [.keyed column value]
  | .whereAll pairs => pairs.map fun (column, value) => .keyed column value
  | .whereRaw sql => [.raw sql]
  | _ => []

def assignment? : Edit → Option (String × Value)
  | .set column value => some (column, value)
  | _ => none

def inserted? : Edit → Option (List (String × Value))
  | .insert pairs => some pairs
  | _ => none

def having? : Edit → Option String
  | .having sql => some sql
  | _ => none

def order? : Edit → Option (String × Direction)
  | .orderBy column direction => some (column, direction)
  | _ => none

def limit? : Edit → Option Nat
  | .limit rows => some rows
  | _ => none

def offset? : Edit → Option Nat
  | .offset rows => some rows
  | _ => none

def last {α : Type} (said : Edit → Option α) (edits : List Edit) : Option α :=
  (edits.filterMap said).getLast?

end Edit

/-- All that edits say to a statement of one kind. -/
inductive Brief where
  | select (columns : List String) (counted : Bool) (conditions : List Condition)
      (having_ : List String) (order : Option (String × Direction))
      (limit offset : Option Nat)
  | insert (pairs : Option (List (String × Value)))
  | update (assignments : List (String × Value)) (conditions : List Condition)
  | delete (conditions : List Condition)
  deriving DecidableEq, Repr

open Edit (last) in
def Edit.brief (edits : List Edit) : Kind → Brief
  | .select =>
      .select (edits.flatMap columns) (edits.contains .count) (edits.flatMap conditions)
        (edits.filterMap having?) (last order? edits) (last limit? edits) (last offset? edits)
  | .insert => .insert (last inserted? edits)
  | .update => .update (edits.filterMap assignment?) (edits.flatMap conditions)
  | .delete => .delete (edits.flatMap conditions)

/-! ## Clauses after edits -/

namespace Clauses

open Edit (last)

section Fold

variable {α β : Type}

/--
A part of the clauses on which every edit acts by what it says about it is
acted on by all that the edits say.
-/
theorem foldl_edit_of_acts {part : Clauses → α} {said : Edit → List β}
    {act : α → List β → α} (nil : ∀ a, act a [] = a)
    (append : ∀ a before after, act a (before ++ after) = act (act a before) after)
    (each : ∀ clauses e, part (clauses.edit e) = act (part clauses) (said e))
    (clauses : Clauses) (edits : List Edit) :
    part (edits.foldl edit clauses) = act (part clauses) (edits.flatMap said) := by
  induction edits generalizing clauses with
  | nil => exact (nil (part clauses)).symm
  | cons e edits ih =>
      rw [List.foldl_cons, ih, each, List.flatMap_cons, append]

theorem foldl_edit_of_appends {part : Clauses → List β} {said : Edit → List β}
    (each : ∀ clauses e, part (clauses.edit e) = part clauses ++ said e)
    (clauses : Clauses) (edits : List Edit) :
    part (edits.foldl edit clauses) = part clauses ++ edits.flatMap said :=
  foldl_edit_of_acts List.append_nil (fun _ _ _ => (List.append_assoc ..).symm)
    each clauses edits

theorem foldl_edit_of_replaces {part : Clauses → α} {said : Edit → Option β} {f : β → α}
    (each : ∀ clauses e, part (clauses.edit e) = (said e).elim (part clauses) f)
    (clauses : Clauses) (edits : List Edit) :
    part (edits.foldl edit clauses) = (last said edits).elim (part clauses) f := by
  have acts := @foldl_edit_of_acts α β part (fun e => (said e).toList)
    (fun a others => others.getLast?.elim a f) (fun _ => rfl)
    (fun a before after => by
      rw [List.getLast?_append]
      cases after.getLast? <;> rfl)
    (fun clauses e => by
      rw [each]
      cases said e <;> rfl)
  rw [acts, last, List.filterMap_eq_flatMap_toList]

end Fold

variable (clauses : Clauses) (edits : List Edit)

theorem kind_foldl_edit :
    (edits.foldl edit clauses).kind = (last Edit.kind? edits).elim clauses.kind some := by
  apply foldl_edit_of_replaces
  intro clauses e
  cases e <;> rfl

theorem inserted_foldl_edit :
    (edits.foldl edit clauses).inserted
      = (last Edit.inserted? edits).elim clauses.inserted Row.ofList := by
  apply foldl_edit_of_replaces
  intro clauses e
  cases e <;> rfl

theorem order_foldl_edit :
    (edits.foldl edit clauses).order = (last Edit.order? edits).elim clauses.order some := by
  apply foldl_edit_of_replaces
  intro clauses e
  cases e <;> rfl

theorem limit_foldl_edit :
    (edits.foldl edit clauses).limit = (last Edit.limit? edits).elim clauses.limit some := by
  apply foldl_edit_of_replaces
  intro clauses e
  cases e <;> rfl

theorem offset_foldl_edit :
    (edits.foldl edit clauses).offset
      = (last Edit.offset? edits).elim clauses.offset some := by
  apply foldl_edit_of_replaces
  intro clauses e
  cases e <;> rfl

theorem columns_foldl_edit :
    (edits.foldl edit clauses).columns = clauses.columns ++ edits.flatMap Edit.columns := by
  apply foldl_edit_of_appends
  intro clauses e
  cases e <;> first | rfl | exact (List.append_nil _).symm

theorem having_foldl_edit :
    (edits.foldl edit clauses).having = clauses.having ++ edits.filterMap Edit.having? := by
  rw [List.filterMap_eq_flatMap_toList]
  apply foldl_edit_of_appends
  intro clauses e
  cases e <;> first | rfl | exact (List.append_nil _).symm

theorem counting_foldl_edit :
    (edits.foldl edit clauses).counting
      = (clauses.counting || edits.contains .count) := by
  have acts := @foldl_edit_of_acts Bool Edit counting (fun e => [e])
    (fun counted others => counted || others.contains .count) Bool.or_false
    (fun counted before after => by rw [List.contains_append, Bool.or_assoc])
    (fun clauses e => by cases e <;> simp [edit]) clauses edits
  rw [acts, List.flatMap_singleton']

theorem assignments_foldl_edit :
    (edits.foldl edit clauses).assignments
      = clauses.assignments.setAll (edits.filterMap Edit.assignment?) := by
  rw [List.filterMap_eq_flatMap_toList]
  apply foldl_edit_of_acts (fun _ => rfl) Row.setAll_append
  intro clauses e
  cases e <;> rfl

theorem filter_foldl_edit :
    (edits.foldl edit clauses).filter
      = (edits.flatMap Edit.conditions).foldl Filter.put clauses.filter := by
  apply @foldl_edit_of_acts Filter Condition filter Edit.conditions
    (fun filter conditions => conditions.foldl Filter.put filter) (fun _ => rfl)
    (fun _ _ _ => List.foldl_append)
  intro clauses e
  cases e with
  | whereAll pairs =>
      rw [Edit.conditions, List.foldl_map]
      rfl
  | _ => rfl

/-! ## What a kind reads -/

def readBy (clauses : Clauses) : Kind → Clauses
  | .select => { clauses with assignments := .empty, inserted := .empty }
  | .insert => { kind := clauses.kind, inserted := clauses.inserted }
  | .update =>
      { kind := clauses.kind, assignments := clauses.assignments, filter := clauses.filter }
  | .delete => { kind := clauses.kind, filter := clauses.filter }

theorem pieces?_readBy {clauses : Clauses} {k : Kind} (chosen : clauses.kind = some k)
    (table : String) : (clauses.readBy k).pieces? table = clauses.pieces? table := by
  unfold pieces?
  cases k <;>
    · simp only [readBy, chosen]
      rfl

theorem pieces?_eq_of_readBy_eq {before after : Clauses} (kinds : before.kind = after.kind)
    (same : ∀ k ∈ before.kind, before.readBy k = after.readBy k) (table : String) :
    before.pieces? table = after.pieces? table := by
  cases chosen : before.kind with
  | none =>
      unfold pieces?
      rw [← kinds, chosen]
      rfl
  | some k =>
      have chosen' : after.kind = some k := kinds.symm.trans chosen
      rw [← pieces?_readBy chosen, ← pieces?_readBy chosen', same k chosen]

theorem readBy_eq_of_brief_eq {first second : List Edit} {k : Kind}
    (kinds : last Edit.kind? first = last Edit.kind? second)
    (brief : Edit.brief first k = Edit.brief second k) :
    (first.foldl edit {}).readBy k = (second.foldl edit {}).readBy k := by
  cases k with
  | select =>
      simp only [Edit.brief, Brief.select.injEq] at brief
      obtain ⟨columns, counted, conditions, fragments, order, limit, offset⟩ := brief
      simp only [readBy, kind_foldl_edit, columns_foldl_edit, counting_foldl_edit,
        filter_foldl_edit, having_foldl_edit, order_foldl_edit, limit_foldl_edit,
        offset_foldl_edit, kinds, columns, counted, conditions, fragments, order, limit,
        offset]
  | insert =>
      simp only [Edit.brief, Brief.insert.injEq] at brief
      simp only [readBy, kind_foldl_edit, inserted_foldl_edit, kinds, brief]
  | update =>
      simp only [Edit.brief, Brief.update.injEq] at brief
      obtain ⟨assignments, conditions⟩ := brief
      simp only [readBy, kind_foldl_edit, assignments_foldl_edit, filter_foldl_edit, kinds,
        assignments, conditions]
  | delete =>
      simp only [Edit.brief, Brief.delete.injEq] at brief
      simp only [readBy, kind_foldl_edit, filter_foldl_edit, kinds, brief]

end Clauses

/-! ## Drafts after edits -/

namespace Draft

open Edit (last)

theorem after_map_edit (d : Draft) (edits : List Edit) :
    d.after (edits.map .edit) = { d with clauses := edits.foldl Clauses.edit d.clauses } := by
  induction edits generalizing d with
  | nil => rfl
  | cons e edits ih => exact ih (d.edit e)

theorem statement_eq_of_pieces?_eq {d e : Draft} (tables : d.table = e.table)
    (settings : d.settings = e.settings) (kinds : d.kind = e.kind)
    (pieces : d.clauses.pieces? d.table = e.clauses.pieces? e.table) :
    d.statement.result = e.statement.result ∧ d.statement.events = e.statement.events ∧
      d.statement.draft.recorded = e.statement.draft.recorded := by
  have renders : d.render = e.render := by
    unfold render
    rw [pieces, settings, tables]
  have events : d.events = e.events := by
    funext s
    unfold events
    rw [settings, tables, kinds]
  unfold statement
  rw [renders, events]
  cases e.render with
  | ok s => exact ⟨rfl, rfl, rfl⟩
  | error fault => exact ⟨rfl, rfl, rfl⟩

/--
Two lists of edits that choose the same kind at the end and say the same to that
kind, in whatever order they say the rest, make the same statement.
-/
theorem statement_after_edits_eq (table : String) (settings : Settings)
    {first second : List Edit} (kinds : last Edit.kind? first = last Edit.kind? second)
    (briefs : ∀ k ∈ last Edit.kind? first, Edit.brief first k = Edit.brief second k) :
    let d := ({ table, settings } : Draft).after (first.map .edit)
    let e := ({ table, settings } : Draft).after (second.map .edit)
    d.statement.result = e.statement.result ∧ d.statement.events = e.statement.events ∧
      d.statement.draft.recorded = e.statement.draft.recorded := by
  have chosen : ∀ edits : List Edit,
      (edits.foldl Clauses.edit {}).kind = last Edit.kind? edits := by
    intro edits
    rw [Clauses.kind_foldl_edit]
    cases last Edit.kind? edits <;> rfl
  have same : (first.foldl Clauses.edit {}).kind = (second.foldl Clauses.edit {}).kind := by
    rw [chosen, chosen, kinds]
  have pieces : (first.foldl Clauses.edit {}).pieces? table
      = (second.foldl Clauses.edit {}).pieces? table := by
    apply Clauses.pieces?_eq_of_readBy_eq same
    intro k hk
    rw [chosen] at hk
    exact Clauses.readBy_eq_of_brief_eq kinds (briefs k hk)
  intro d e
  have hd : d = { table, settings, clauses := first.foldl Clauses.edit {} } :=
    after_map_edit { table, settings } first
  have he : e = { table, settings, clauses := second.foldl Clauses.edit {} } :=
    after_map_edit { table, settings } second
  rw [hd, he]
  exact statement_eq_of_pieces?_eq (by rfl) (by rfl) same pieces

theorem statement_after_edits_eq_of_selections :
    let first : List Edit := [.update, .whereAll [("a", .int 1), ("b", .null)], .set "x" .null,
      .select ["id"], .limit 5, .whereEqual "a" (.text "?"), .select ["name"], .limit 0]
    let second : List Edit := [.select ["id", "name"], .whereEqual "a" (.int 1), .limit 0,
      .whereAll [("b", .null), ("a", .text "?")], .insert [], .select []]
    last Edit.kind? first = last Edit.kind? second ∧
      Edit.brief first .select = Edit.brief second .select ∧
      (({ table := "t" } : Draft).after (first.map .edit)).statement.result
        = (({ table := "t" } : Draft).after (second.map .edit)).statement.result := by
  intro first second
  have kinds : last Edit.kind? first = last Edit.kind? second := by decide
  have briefs : Edit.brief first .select = Edit.brief second .select := by decide
  refine ⟨kinds, briefs, (statement_after_edits_eq "t" {} kinds ?_).1⟩
  intro k hk
  obtain rfl : Kind.select = k := Option.some.inj hk
  exact briefs

end Draft

end BoundSql
