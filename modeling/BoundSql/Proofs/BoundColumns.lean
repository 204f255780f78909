import BoundSql.Proofs.Placeholders
import BoundSql.Proofs.Rendering

/-!
# Each value is bound to its own column

The text of a rendered draft is written out of its clauses, with a question mark
for each value.  The values come in the order of the columns they belong to, and
the placeholder of a value stands right after its column, or in the place of its
column in the list of an insertion.
-/

namespace BoundSql

/-! ## Columns with their values -/

def Condition.pair? : Condition → Option (String × Value)
  | keyed column value => some (column, value)
  | raw _ => none

namespace Clauses

def bound (clauses : Clauses) : Kind → List (String × Value)
  | .select | .delete => clauses.filter.conditions.filterMap Condition.pair?
  | .insert => clauses.inserted.entries
  | .update =>
      clauses.assignments.entries ++ clauses.filter.conditions.filterMap Condition.pair?

/--
The text before a placeholder that belongs to `column`: an insertion has come to
as many values as there are columns before it, and any other statement has just
named the column.
-/
def Introduces (table : String) (clauses : Clauses) (i : Nat) (column before : String) :
    Kind → Prop
  | .insert =>
      clauses.inserted.columns[i]? = some column ∧
        before = "INSERT INTO " ++ table ++ " (" ++ ", ".intercalate clauses.inserted.columns
          ++ ") VALUES (" ++ String.join (List.replicate i "?, ")
  | .select | .update | .delete => ∃ start, before = start ++ (column ++ " = ")

theorem map_snd_bound (clauses : Clauses) (k : Kind) :
    (clauses.bound k).map Prod.snd = clauses.values k := by
  have conditions : (clauses.filter.conditions.filterMap Condition.pair?).map Prod.snd
      = clauses.conditionValues := by
    unfold conditionValues
    rw [List.map_filterMap]
    congr 1
    funext condition
    cases condition <;> rfl
  cases k with
  | select | delete => exact conditions
  | insert => rfl
  | update => rw [bound, List.map_append, conditions]; rfl

end Clauses

/-! ## Slots among pieces -/

namespace Piece

def SlotAt (pieces : List Piece) (i : Nat) (value : Value) (before : String) : Prop :=
  ∃ earlier later, pieces = earlier ++ slot value :: later ∧
    (earlier.filterMap value?).length = i ∧ write (fun _ => "?") earlier = before

theorem SlotAt.append_right {pieces : List Piece} {i : Nat} {value : Value}
    {before : String} (h : SlotAt pieces i value before) (others : List Piece) :
    SlotAt (pieces ++ others) i value before := by
  obtain ⟨earlier, later, rfl, count, text⟩ := h
  refine ⟨earlier, later ++ others, ?_, count, text⟩
  rw [List.append_assoc, List.cons_append]

theorem SlotAt.append_left {pieces : List Piece} {i : Nat} {value : Value}
    {before : String} (h : SlotAt pieces i value before) (others : List Piece) :
    SlotAt (others ++ pieces) ((others.filterMap value?).length + i) value
      (write (fun _ => "?") others ++ before) := by
  obtain ⟨earlier, later, rfl, rfl, rfl⟩ := h
  refine ⟨others ++ earlier, later, ?_, ?_, ?_⟩
  · rw [List.append_assoc]
  · rw [List.filterMap_append, List.length_append]
  · rw [write_append]

theorem SlotAt.placed {pieces : List Piece} {i : Nat} {value : Value} {before : String}
    (h : SlotAt pieces i value before) :
    ∃ after, (Statement.ofPieces pieces).sql = before ++ "?" ++ after ∧
      (Statement.ofPieces pieces).placeholders[i]? = some before.utf8ByteSize := by
  obtain ⟨earlier, later, rfl, rfl, rfl⟩ := h
  refine ⟨write (fun _ => "?") later, ?_, ?_⟩
  · rw [sql_ofPieces, write_append, write_cons, shown, String.append_assoc]
  · rw [Statement.ofPieces, offsets_eq_places, getElem?_places, Nat.zero_add]

def EqualsAt (pieces : List Piece) (i : Nat) (column : String) (value : Value) : Prop :=
  ∃ start, SlotAt pieces i value (start ++ (column ++ " = "))

theorem EqualsAt.append_right {pieces : List Piece} {i : Nat} {column : String}
    {value : Value} (h : EqualsAt pieces i column value) (others : List Piece) :
    EqualsAt (pieces ++ others) i column value := by
  obtain ⟨start, found⟩ := h
  exact ⟨start, found.append_right others⟩

theorem EqualsAt.append_left {pieces : List Piece} {i : Nat} {column : String}
    {value : Value} (h : EqualsAt pieces i column value) (others : List Piece) :
    EqualsAt (others ++ pieces) ((others.filterMap value?).length + i) column value := by
  obtain ⟨start, found⟩ := h
  have after := found.append_left others
  rw [← String.append_assoc] at after
  exact ⟨_, after⟩

theorem EqualsAt.append_texts {pieces : List Piece} {i : Nat} {column : String}
    {value : Value} (h : EqualsAt pieces i column value) {texts : List Piece}
    (unbound : texts.filterMap value? = []) : EqualsAt (texts ++ pieces) i column value := by
  have after := h.append_left texts
  rwa [unbound, List.length_nil, Nat.zero_add] at after

theorem SlotAt.joined_head {group : List Piece} {i : Nat} {value : Value} {before : String}
    (h : SlotAt group i value before) (separator : String) (groups : List (List Piece)) :
    SlotAt (joined separator (group :: groups)) i value before := by
  cases groups with
  | nil => rwa [joined, List.intercalate_singleton]
  | cons next groups =>
      rw [joined_cons_cons]
      exact h.append_right _

theorem SlotAt.joined_tail {separator : String} {groups : List (List Piece)} {i : Nat}
    {value : Value} {before : String} (h : SlotAt (joined separator groups) i value before)
    (group : List Piece) :
    SlotAt (joined separator (group :: groups)) ((group.filterMap value?).length + i) value
      (write (fun _ => "?") group ++ (separator ++ before)) := by
  cases groups with
  | nil =>
      obtain ⟨earlier, later, nothing, -⟩ := h
      exact absurd nothing.symm (by simp [joined])
  | cons next groups =>
      rw [joined_cons_cons]
      have after := (h.append_left [text separator]).append_left group
      simpa only [List.filterMap_cons, value?, List.filterMap_nil, List.length_nil,
        Nat.zero_add, List.singleton_append, write_cons, write_nil, shown,
        String.append_empty] using after

theorem slotAt_slots {values : List Value} {i : Nat} {value : Value}
    (h : values[i]? = some value) :
    SlotAt (joined ", " (values.map fun value => [slot value])) i value
      (String.join (List.replicate i "?, ")) := by
  induction values generalizing i with
  | nil => contradiction
  | cons first rest ih =>
      rw [List.map_cons]
      cases i with
      | zero =>
          obtain rfl : first = value := Option.some.inj h
          exact SlotAt.joined_head ⟨[], [], rfl, rfl, rfl⟩ ", " _
      | succ i =>
          have later := (ih h).joined_tail [slot first]
          rw [Nat.add_comm] at later
          rw [List.replicate_succ, String.join_cons]
          exact later

end Piece

namespace Clauses

open Piece (SlotAt EqualsAt joined value?)

theorem equalsAt_conditions (separator : String) {conditions : List Condition} {i : Nat}
    {column : String} {value : Value}
    (h : (conditions.filterMap Condition.pair?)[i]? = some (column, value)) :
    EqualsAt (joined separator (conditions.map conditionPieces)) i column value := by
  induction conditions generalizing i with
  | nil => contradiction
  | cons condition rest ih =>
      rw [List.map_cons]
      cases condition with
      | raw sql =>
          obtain ⟨start, found⟩ := ih h
          have later := found.joined_tail (conditionPieces (.raw sql))
          have unbound : ((conditionPieces (.raw sql)).filterMap value?).length = 0 := rfl
          rw [unbound, Nat.zero_add, ← String.append_assoc, ← String.append_assoc] at later
          exact ⟨_, later⟩
      | keyed first other =>
          cases i with
          | zero =>
              obtain ⟨rfl, rfl⟩ := Prod.mk.inj (Option.some.inj h)
              have here : SlotAt (equality first other) 0 other ("" ++ (first ++ " = ")) :=
                ⟨[.text first, .text " = "], [], rfl, rfl, String.empty_append.symm⟩
              exact ⟨"", here.joined_head separator _⟩
          | succ i =>
              obtain ⟨start, found⟩ := ih h
              have later := found.joined_tail (conditionPieces (.keyed first other))
              rw [Nat.add_comm, ← String.append_assoc, ← String.append_assoc] at later
              exact ⟨_, later⟩

theorem equalsAt_wherePieces {clauses : Clauses} {i : Nat} {column : String} {value : Value}
    (h : (clauses.filter.conditions.filterMap Condition.pair?)[i]? = some (column, value)) :
    EqualsAt clauses.wherePieces i column value := by
  have found := equalsAt_conditions " AND " h
  unfold wherePieces
  cases conditions : clauses.filter.conditions with
  | nil =>
      rw [conditions] at h
      contradiction
  | cons condition rest =>
      rw [conditions] at found
      have texts : [.text " WHERE "].filterMap value? = [] := rfl
      exact found.append_texts texts

theorem equalsAt_assignments {row : Row} {i : Nat} {column : String} {value : Value}
    (h : row.entries[i]? = some (column, value)) :
    EqualsAt (joined ", " (row.entries.map fun (column, value) =>
      equality column value)) i column value := by
  have keyed : (row.entries.map fun entry => Condition.keyed entry.1 entry.2).filterMap
      Condition.pair? = row.entries := by
    rw [List.filterMap_map]
    exact List.filterMap_some
  rw [← keyed] at h
  have found := equalsAt_conditions ", " h
  rw [List.map_map] at found
  exact found

theorem equalsAt_updatePieces {clauses : Clauses} {table : String} {i : Nat}
    {column : String} {value : Value}
    (h : (clauses.bound .update)[i]? = some (column, value)) :
    EqualsAt (clauses.updatePieces table) i column value := by
  by_cases assigned : i < clauses.assignments.entries.length
  · have found := equalsAt_assignments ((List.getElem?_append_left assigned).symm.trans h)
    exact EqualsAt.append_right (EqualsAt.append_texts found rfl) _
  · rw [Nat.not_lt] at assigned
    have found := equalsAt_wherePieces ((List.getElem?_append_right assigned).symm.trans h)
    have after := found.append_left ([.text "UPDATE ", .text table, .text " SET "]
      ++ joined ", " (clauses.assignments.entries.map fun (column, value) =>
        equality column value))
    have count : clauses.assignments.values.length = clauses.assignments.entries.length :=
      List.length_map Prod.snd
    rw [List.filterMap_append, filterMap_assignments, List.length_append, count,
      Nat.add_assoc, Nat.add_sub_cancel' assigned] at after
    exact (Nat.zero_add i ▸ after :)

theorem slotAt_insertPieces {clauses : Clauses} {table : String} {i : Nat} {value : Value}
    (h : clauses.inserted.values[i]? = some value) :
    SlotAt (clauses.insertPieces table) i value
      ("INSERT INTO " ++ table ++ " (" ++ ", ".intercalate clauses.inserted.columns
        ++ ") VALUES (" ++ String.join (List.replicate i "?, ")) := by
  have found := (Piece.slotAt_slots h).append_left ([.text "INSERT INTO ", .text table,
    .text " ("] ++ joined ", " (clauses.inserted.columns.map fun column => [.text column])
    ++ [.text ") VALUES ("])
  simp only [List.filterMap_append, filterMap_columns, List.filterMap_cons, value?,
    List.filterMap_nil, List.append_nil, List.length_nil, Nat.zero_add, Piece.write_append,
    write_columns, Piece.write_cons, Piece.write_nil, Piece.shown, String.append_empty,
    ← String.append_assoc] at found
  exact found.append_right _

theorem exists_slotAt_of_bound {clauses : Clauses} {k : Kind} {table : String}
    {pieces : List Piece} (chosen : clauses.kind = some k)
    (rendered : clauses.pieces? table = some pieces) {i : Nat} {column : String}
    {value : Value} (h : (clauses.bound k)[i]? = some (column, value)) :
    ∃ before, SlotAt pieces i value before ∧
      clauses.Introduces table i column before k := by
  unfold pieces? at rendered
  rw [chosen] at rendered
  obtain rfl := Option.some.inj rendered
  have named : ∀ {pieces : List Piece}, EqualsAt pieces i column value →
      ∃ before, SlotAt pieces i value before ∧ ∃ start, before = start ++ (column ++ " = ") :=
    fun ⟨start, found⟩ => ⟨_, found, start, rfl⟩
  cases k with
  | select =>
      have found : EqualsAt ([.text "SELECT ", .text clauses.selection, .text " FROM ",
          .text table] ++ clauses.wherePieces) i column value :=
        EqualsAt.append_texts (equalsAt_wherePieces h) rfl
      exact named ((((found.append_right _).append_right _).append_right _).append_right _)
  | insert =>
      have entry : clauses.inserted.entries[i]? = some (column, value) := h
      have its : clauses.inserted.columns[i]? = some column := by
        rw [Row.columns, List.getElem?_map, entry]
        rfl
      have binding : clauses.inserted.values[i]? = some value := by
        rw [Row.values, List.getElem?_map, entry]
        rfl
      exact ⟨_, slotAt_insertPieces binding, its, rfl⟩
  | update => exact named (equalsAt_updatePieces h)
  | delete =>
      have found : EqualsAt ([.text "DELETE FROM ", .text table] ++ clauses.wherePieces) i
          column value := EqualsAt.append_texts (equalsAt_wherePieces h) rfl
      exact named found

end Clauses

/-! ## Rendered drafts -/

namespace Draft

/--
A draft with a kind renders to the text of its clauses and to the values of the
columns it binds, in order.  Each value belongs to its own column: whatever is
filled in for the placeholders appears where the text has the column's value,
and the placeholder of each column is introduced by that column.
-/
theorem render_eq_text {d : Draft} {k : Kind} (chosen : d.kind = some k) :
    ∃ s, d.render = .ok s ∧ s.sql = d.clauses.text (fun _ => "?") d.table k ∧
      s.bindings = (d.clauses.bound k).map Prod.snd ∧
      (∀ mark, s.filled mark = d.clauses.text mark d.table k) ∧
      ∀ i column value, (d.clauses.bound k)[i]? = some (column, value) →
        ∃ before after, s.sql = before ++ "?" ++ after ∧
          s.placeholders[i]? = some before.utf8ByteSize ∧
          d.clauses.Introduces d.table i column before k := by
  obtain ⟨pieces, found, rendered, text, values⟩ := exists_pieces chosen
  refine ⟨.ofPieces pieces, rendered, ?_, ?_, ?_, ?_⟩
  · rw [Piece.sql_ofPieces, text]
  · rw [Clauses.map_snd_bound, ← values]
    rfl
  · intro mark
    rw [Piece.filled_ofPieces, text]
  · intro i column value h
    obtain ⟨before, slot, introduced⟩ := Clauses.exists_slotAt_of_bound chosen found h
    obtain ⟨after, split, place⟩ := slot.placed
    exact ⟨before, after, split, place, introduced⟩

theorem render_eq_text_of_update :
    let d : Draft := ⟨"t", {}, [.whereRaw "id = ?", .update, .set "id" (.int 2), .limit 1,
      .set "größe" .null, .whereEqual "id" (.int 1), .orderBy "id" .desc].foldl
        Clauses.edit {}, []⟩
    d.kind = some .update ∧ ∃ s, d.render = .ok s ∧
      s.sql = "UPDATE t SET id = ?, größe = ? WHERE id = ? AND id = ?" ∧
      s.bindings = [.int 2, .null, .int 1] := by
  intro d
  have chosen : d.kind = some .update := rfl
  obtain ⟨s, rendered, sql, bindings, -⟩ := render_eq_text chosen
  exact ⟨chosen, s, rendered, sql.trans (by decide), bindings⟩

end Draft

end BoundSql
