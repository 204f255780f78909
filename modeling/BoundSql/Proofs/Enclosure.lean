import BoundSql.Proofs.Lexing
import BoundSql.Proofs.Rendering

/-!
# Values stay inside their literals

A statement with its values written out alternates texts of the caller and of the
clauses with literals.  If each text of the caller is closed, the lexer comes out
of every text and of every literal, so it reads each literal from its own start
to its own end, whatever the value contains.
-/

namespace BoundSql

open Text (Closed closed_of_notMem_quote closed_intercalate)

/-! ## Pieces with closed texts -/

namespace Piece

def AllClosed (pieces : List Piece) : Prop :=
  ∀ sql, text sql ∈ pieces → Closed sql

theorem allClosed_nil : AllClosed [] := by
  intro sql h
  contradiction

theorem allClosed_text {sql : String} {pieces : List Piece} :
    AllClosed (text sql :: pieces) ↔ Closed sql ∧ AllClosed pieces := by
  simp only [AllClosed, List.mem_cons, text.injEq, or_imp, forall_and, forall_eq]

theorem allClosed_slot {value : Value} {pieces : List Piece} :
    AllClosed (slot value :: pieces) ↔ AllClosed pieces := by
  simp [AllClosed]

theorem allClosed_append {before after : List Piece} :
    AllClosed (before ++ after) ↔ AllClosed before ∧ AllClosed after := by
  simp only [AllClosed, List.mem_append, or_imp, forall_and]

theorem allClosed_joined {separator : String} (between : Closed separator)
    {groups : List (List Piece)} (each : ∀ group ∈ groups, AllClosed group) :
    AllClosed (joined separator groups) := by
  induction groups with
  | nil => exact allClosed_nil
  | cons group groups ih =>
      have here := each group List.mem_cons_self
      cases groups with
      | nil => rwa [joined, List.intercalate_singleton]
      | cons next groups =>
          have later := ih fun other h => each other (List.mem_cons_of_mem group h)
          rw [joined_cons_cons, allClosed_append, allClosed_text]
          exact ⟨here, between, later⟩

theorem closed_write {pieces : List Piece} (h : AllClosed pieces) :
    Closed (write Value.literal pieces) := by
  induction pieces with
  | nil => decide
  | cons piece pieces ih =>
      rw [write_cons]
      cases piece with
      | text sql =>
          obtain ⟨here, later⟩ := allClosed_text.mp h
          exact here.append (ih later)
      | slot value => exact value.closed_literal.append (ih (allClosed_slot.mp h))

end Piece

namespace Clauses

open Piece (AllClosed allClosed_nil allClosed_text allClosed_slot allClosed_append
  allClosed_joined)

theorem closed_repr (n : Nat) : Closed n.repr := by
  apply closed_of_notMem_quote
  rw [Nat.toList_repr]
  exact notMem_quote_toDigits n

theorem closed_keyword (direction : Direction) : Closed direction.keyword := by
  cases direction <;> decide

theorem allClosed_equality {column : String} (closed : Closed column) (value : Value) :
    AllClosed (equality column value) := by
  simp only [equality, allClosed_text, allClosed_slot]
  exact ⟨closed, by decide, allClosed_nil⟩

theorem allClosed_conditionPieces {condition : Condition} (closed : Closed condition.fragment) :
    AllClosed (conditionPieces condition) := by
  cases condition with
  | keyed column value => exact allClosed_equality closed value
  | raw sql => exact allClosed_text.mpr ⟨closed, allClosed_nil⟩

theorem allClosed_wherePieces {clauses : Clauses}
    (closed : ∀ fragment ∈ clauses.filter.conditions.map Condition.fragment,
      Closed fragment) : AllClosed clauses.wherePieces := by
  have joined : AllClosed (Piece.joined " AND "
      (clauses.filter.conditions.map conditionPieces)) := by
    apply allClosed_joined (by decide)
    intro group h
    obtain ⟨condition, found, rfl⟩ := List.mem_map.mp h
    exact allClosed_conditionPieces (closed _ (List.mem_map_of_mem found))
  unfold wherePieces
  cases conditions : clauses.filter.conditions with
  | nil => exact allClosed_nil
  | cons condition rest =>
      rw [conditions] at joined
      exact allClosed_text.mpr ⟨by decide, joined⟩

theorem allClosed_havingPieces {clauses : Clauses}
    (closed : ∀ fragment ∈ clauses.having, Closed fragment) :
    AllClosed clauses.havingPieces := by
  have joined := closed_intercalate (by decide : Closed " AND ") closed
  unfold havingPieces
  cases fragments : clauses.having with
  | nil => exact allClosed_nil
  | cons fragment rest =>
      rw [fragments] at joined
      simp only [allClosed_text]
      exact ⟨by decide, joined, allClosed_nil⟩

theorem allClosed_orderPieces {clauses : Clauses}
    (closed : ∀ fragment ∈ orderFragments clauses.order, Closed fragment) :
    AllClosed clauses.orderPieces := by
  unfold orderPieces
  unfold orderFragments at closed
  cases order : clauses.order with
  | none => exact allClosed_nil
  | some pair =>
      simp only [order, Text.isBlankText_eq_all] at closed ⊢
      split
      · exact allClosed_nil
      · next shown =>
          rw [if_neg shown] at closed
          simp only [allClosed_text]
          exact ⟨by decide, closed _ List.mem_cons_self, by decide, closed_keyword _,
            allClosed_nil⟩

theorem allClosed_rowsPieces {keyword : String} (closed : Closed keyword)
    (rows : Option Nat) : AllClosed (rowsPieces keyword rows) := by
  unfold rowsPieces
  split
  · exact allClosed_nil
  · exact allClosed_nil
  · simp only [allClosed_text]
    exact ⟨closed, closed_repr _, allClosed_nil⟩

theorem closed_selection {clauses : Clauses}
    (closed : ∀ column ∈ clauses.selected.getD [], Closed column) :
    Closed clauses.selection := by
  unfold selection
  unfold selected at closed
  split
  · decide
  · next listed =>
      rw [if_neg listed] at closed
      split
      · decide
      · exact closed_intercalate (by decide) closed

theorem allClosed_columns {columns : List String} (closed : ∀ column ∈ columns, Closed column) :
    AllClosed (Piece.joined ", " (columns.map fun column => [.text column])) := by
  apply allClosed_joined (by decide)
  intro group h
  obtain ⟨column, found, rfl⟩ := List.mem_map.mp h
  exact allClosed_text.mpr ⟨closed column found, allClosed_nil⟩

theorem allClosed_slots (values : List Value) :
    AllClosed (Piece.joined ", " (values.map fun value => [.slot value])) := by
  apply allClosed_joined (by decide)
  intro group h
  obtain ⟨value, -, rfl⟩ := List.mem_map.mp h
  exact allClosed_slot.mpr allClosed_nil

theorem allClosed_assignments {row : Row} (closed : ∀ column ∈ row.columns, Closed column) :
    AllClosed (Piece.joined ", " (row.entries.map fun (column, value) =>
      equality column value)) := by
  apply allClosed_joined (by decide)
  intro group h
  obtain ⟨entry, found, rfl⟩ := List.mem_map.mp h
  exact allClosed_equality (closed entry.1 (List.mem_map_of_mem found)) entry.2

theorem allClosed_pieces {clauses : Clauses} {k : Kind} {table : String}
    {pieces : List Piece} (chosen : clauses.kind = some k)
    (found : clauses.pieces? table = some pieces)
    (closed : ∀ fragment ∈ clauses.fragments table k, Closed fragment) :
    AllClosed pieces := by
  unfold pieces? at found
  rw [chosen] at found
  obtain rfl := Option.some.inj found
  cases k with
  | select =>
      simp only [fragments, List.mem_append, List.mem_cons, or_imp, forall_and,
        forall_eq] at closed
      obtain ⟨⟨⟨columns, named, conditions⟩, having_⟩, order⟩ := closed
      simp only [selectPieces, allClosed_append, allClosed_text]
      refine ⟨⟨⟨⟨⟨?_, allClosed_wherePieces conditions⟩, allClosed_havingPieces having_⟩,
        allClosed_orderPieces order⟩, allClosed_rowsPieces (by decide) _⟩,
        allClosed_rowsPieces (by decide) _⟩
      exact ⟨by decide, closed_selection columns, by decide, named, allClosed_nil⟩
  | insert =>
      simp only [fragments, List.mem_cons, or_imp, forall_and, forall_eq] at closed
      obtain ⟨named, columns⟩ := closed
      have listed := allClosed_columns columns
      have slots := allClosed_slots clauses.inserted.values
      simp only [insertPieces, allClosed_append, allClosed_text]
      exact ⟨⟨⟨⟨⟨by decide, named, by decide, allClosed_nil⟩, listed⟩, by decide,
        allClosed_nil⟩, slots⟩, by decide, allClosed_nil⟩
  | update =>
      simp only [fragments, List.cons_append, List.mem_append, List.mem_cons, or_imp,
        forall_and, forall_eq] at closed
      obtain ⟨named, columns, conditions⟩ := closed
      have assigned := allClosed_assignments columns
      simp only [updatePieces, allClosed_append, allClosed_text]
      exact ⟨⟨⟨by decide, named, by decide, allClosed_nil⟩, assigned⟩,
        allClosed_wherePieces conditions⟩
  | delete =>
      simp only [fragments, List.mem_cons, or_imp, forall_and, forall_eq] at closed
      obtain ⟨named, conditions⟩ := closed
      simp only [deletePieces, allClosed_append, allClosed_text]
      exact ⟨⟨by decide, named, allClosed_nil⟩, allClosed_wherePieces conditions⟩

end Clauses

/-! ## Where literals stand -/

namespace Statement

/--
The byte offsets of the literals when the values are written out; `place` is where
the text from offset `cursor` on is written.
-/
def startsFrom (cursor place : Nat) : List (Nat × Value) → List Nat
  | [] => []
  | (offset, value) :: rest =>
      let start := place + (offset - cursor)
      start :: startsFrom (offset + 1) (start + value.literal.utf8ByteSize) rest

def starts (s : Statement) : List Nat :=
  startsFrom 0 0 (s.placeholders.zip s.bindings)

end Statement

namespace Piece

/-- Since the last slot, `passed` bytes of text have been written, the same in both texts. -/
theorem startsFrom_pieces (cursor place passed : Nat) (pieces : List Piece) :
    Statement.startsFrom cursor place
        ((offsets (cursor + passed) pieces).zip (pieces.filterMap value?))
      = places Value.literal (place + passed) pieces := by
  induction pieces generalizing cursor place passed with
  | nil => rfl
  | cons piece pieces ih =>
      cases piece with
      | text sql =>
          -- no entry comes from a text: it only moves both places on
          have later := ih cursor place (passed + sql.utf8ByteSize)
          rwa [← Nat.add_assoc, ← Nat.add_assoc] at later
      | slot value =>
          have later := ih (cursor + passed + 1)
            (place + passed + value.literal.utf8ByteSize) 0
          simp only [Nat.add_zero] at later
          simp only [offsets, List.filterMap_cons, value?, List.zip_cons_cons,
            Statement.startsFrom, Nat.add_sub_cancel_left, later, places]

theorem starts_ofPieces (pieces : List Piece) :
    (Statement.ofPieces pieces).starts = places Value.literal 0 pieces :=
  startsFrom_pieces 0 0 0 pieces

end Piece

/-! ## Rendered drafts -/

namespace Draft

open Text.LexMode (lex)

/--
If each text of the caller is closed, the lexer reads what is written for each
value as the literal of this value and as nothing else: it is outside of literals
where the value's literal starts and where it ends.
-/
theorem lex_inline_of_closed {d : Draft} {k : Kind} (chosen : d.kind = some k)
    (closed : ∀ fragment ∈ d.clauses.fragments d.table k, Closed fragment) :
    ∃ s, d.render = .ok s ∧ d.inlined.result = .ok s.inline ∧ Closed s.inline ∧
      s.starts.length = s.bindings.length ∧
      ∀ (i : Nat) (value : Value), s.bindings[i]? = some value →
        ∃ before after, s.inline = before ++ value.literal ++ after ∧
          s.starts[i]? = some before.utf8ByteSize ∧
          Closed before ∧ Closed (before ++ value.literal) ∧
          (lex .outside before.toList).1.lex value.literal.toList = (.outside, value.tokens) ∧
          ((value.isNull || value.isNumeric) = true → '\'' ∉ value.literal.toList) := by
  obtain ⟨pieces, found, rendered, -, -⟩ := exists_pieces chosen
  have all := Clauses.allClosed_pieces chosen found closed
  refine ⟨.ofPieces pieces, rendered, ?_, ?_, ?_, ?_⟩
  · change d.statement.result.map Statement.inline = _
    rw [result_statement, rendered]
    rfl
  · rw [Piece.inline_ofPieces]
    exact Piece.closed_write all
  · rw [Piece.starts_ofPieces, Piece.places_length]
    rfl
  · intro i value bound
    obtain ⟨earlier, later, rfl, rfl⟩ := Piece.exists_split_of_value bound
    have before := Piece.closed_write (Piece.allClosed_append.mp all).1
    refine ⟨Piece.write Value.literal earlier, Piece.write Value.literal later, ?_, ?_,
      before, before.append value.closed_literal, ?_, ?_⟩
    · rw [Piece.inline_ofPieces, Piece.write_append, Piece.write_cons, Piece.shown,
        String.append_assoc]
    · rw [Piece.starts_ofPieces, Piece.getElem?_places, Nat.zero_add]
    · rw [before, Value.literal, String.toList_ofList, Value.lex_literalChars]
    · intro bare
      rw [Value.literal, String.toList_ofList]
      exact Value.notMem_quote_literalChars bare

theorem lex_inline_of_closed_of_selection :
    let d : Draft := ⟨"t", {}, [.select ["'it\\'s ?'"], .whereRaw "x <> '?'",
      .whereEqual "note" (.text "\\' OR '?'\x00\\"), .whereEqual "n" (.int (-7))].foldl
        Clauses.edit {}, []⟩
    (∀ fragment ∈ d.clauses.fragments "t" .select, Closed fragment) ∧
      ∃ s before after, d.inlined.result = .ok s ∧
        s = before ++ (Value.text "\\' OR '?'\x00\\").literal ++ after ∧
        (lex .outside before.toList).1.lex
          (Value.text "\\' OR '?'\x00\\").literal.toList
          = (.outside, [.literal "\\' OR '?'\x00\\"]) := by
  intro d
  have closed : ∀ fragment ∈ d.clauses.fragments "t" .select, Closed fragment := by decide
  obtain ⟨s, rendered, inlined, -, -, each⟩ := lex_inline_of_closed (d := d) rfl closed
  have bindings : s.bindings = [.text "\\' OR '?'\x00\\", .int (-7)] := by
    obtain rfl := Except.ok.inj rendered
    rfl
  obtain ⟨before, after, split, -, -, -, read, -⟩ := each 0 _ (by rw [bindings]; rfl)
  exact ⟨closed, s.inline, before, after, inlined, split, read⟩

end Draft

end BoundSql
