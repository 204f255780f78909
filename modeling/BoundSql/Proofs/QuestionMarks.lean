import BoundSql.Proofs.Rendering

/-!
# Statements for readers that look for question marks

The clauses add no question mark of their own to a statement, only one for each
bound value; all others come from texts of the caller.  If the caller uses none,
the recorded offsets are those of all question marks, and a reader that takes
the question marks one by one fills in the values just as the offsets do.
-/

namespace BoundSql

/-! ## Counting -/

namespace Text

def questionMarks (text : String) : Nat :=
  text.toList.count '?'

theorem questionMarks_eq_zero {text : String} : questionMarks text = 0 ↔ '?' ∉ text.toList :=
  List.count_eq_zero

theorem questionMarks_append (text rest : String) :
    questionMarks (text ++ rest) = questionMarks text + questionMarks rest := by
  rw [questionMarks, String.toList_append, List.count_append]
  rfl

theorem questionMarks_join_cons (text : String) (texts : List String) :
    questionMarks (String.join (text :: texts))
      = questionMarks text + questionMarks (String.join texts) := by
  rw [String.join_cons, questionMarks_append]

theorem questionMarks_join_append (texts others : List String) :
    questionMarks (String.join (texts ++ others))
      = questionMarks (String.join texts) + questionMarks (String.join others) := by
  rw [String.join_append, questionMarks_append]

theorem questionMarks_join_eq_zero {texts : List String}
    (free : ∀ text ∈ texts, '?' ∉ text.toList) : questionMarks (String.join texts) = 0 := by
  rw [questionMarks_eq_zero, String.toList_join]
  intro h
  obtain ⟨text, found, here⟩ := List.mem_flatMap.mp h
  exact free text found here

theorem questionMarks_join_map {α : Type} {f g : α → String}
    (same : ∀ a, questionMarks (f a) = questionMarks (g a)) (all : List α) :
    questionMarks (String.join (all.map f)) = questionMarks (String.join (all.map g)) := by
  induction all with
  | nil => rfl
  | cons a all ih =>
      rw [List.map_cons, List.map_cons, questionMarks_join_cons, questionMarks_join_cons,
        same, ih]

theorem questionMarks_intercalate {separator : String} (free : questionMarks separator = 0)
    (texts : List String) :
    questionMarks (separator.intercalate texts) = questionMarks (String.join texts) := by
  induction texts with
  | nil => rfl
  | cons text texts ih =>
      cases texts with
      | nil => rw [String.intercalate_singleton, String.join_cons, String.join_nil,
          String.append_empty]
      | cons next texts =>
          rw [String.intercalate_cons_cons, questionMarks_append, questionMarks_append, ih,
            free, Nat.add_zero, ← questionMarks_join_cons]

theorem questionMarks_repr (n : Nat) : questionMarks n.repr = 0 := by
  rw [questionMarks_eq_zero, Nat.toList_repr]
  intro h
  have digit := Nat.isDigit_of_mem_toDigits (by decide) (by decide) h
  contradiction

end Text

/-! ## Question marks of the clauses -/

namespace Clauses

open Text (questionMarks questionMarks_append questionMarks_join_cons
  questionMarks_join_append questionMarks_join_map questionMarks_intercalate
  questionMarks_repr)

def unmarked : Value → String :=
  fun _ => ""

theorem questionMarks_equalityText (column : String) (value : Value) :
    questionMarks (equalityText unmarked column value) = questionMarks column := by
  have equals : questionMarks " = " = 0 := rfl
  have nothing : questionMarks (unmarked value) = 0 := rfl
  simp only [equalityText, questionMarks_append]
  omega

theorem questionMarks_conditionText (condition : Condition) :
    questionMarks (conditionText unmarked condition) = questionMarks condition.fragment := by
  cases condition with
  | keyed column value => exact questionMarks_equalityText column value
  | raw sql => rfl

theorem questionMarks_columnsText (selected : Option (List String)) :
    questionMarks (columnsText selected)
      = questionMarks (String.join (selected.getD [])) := by
  cases selected with
  | none => rfl
  | some columns =>
      cases columns with
      | nil => rfl
      | cons column columns => exact questionMarks_intercalate rfl _

theorem questionMarks_conjunctionText {keyword : String} (free : questionMarks keyword = 0)
    (texts : List String) :
    questionMarks (conjunctionText keyword texts) = questionMarks (String.join texts) := by
  unfold conjunctionText
  split
  · next nothing =>
      subst nothing
      rfl
  · rw [questionMarks_append, free, Nat.zero_add, questionMarks_intercalate rfl]

theorem questionMarks_whereText (clauses : Clauses) :
    questionMarks (clauses.whereText unmarked)
      = questionMarks (String.join (clauses.filter.conditions.map Condition.fragment)) := by
  rw [whereText, questionMarks_conjunctionText rfl,
    questionMarks_join_map questionMarks_conditionText]

theorem questionMarks_orderText (order : Option (String × Direction)) :
    questionMarks (orderText order) = questionMarks (String.join (orderFragments order)) := by
  cases order with
  | none => rfl
  | some pair =>
      obtain ⟨column, direction⟩ := pair
      simp only [orderText, orderFragments]
      split
      · rfl
      · have keyword : questionMarks direction.keyword = 0 := by cases direction <;> rfl
        have opening : questionMarks " ORDER BY " = 0 := rfl
        have space : questionMarks " " = 0 := rfl
        simp only [questionMarks_append, String.join_cons, String.join_nil,
          String.append_empty]
        omega

theorem questionMarks_rowsText {keyword : String} (free : questionMarks keyword = 0)
    (rows : Nat) : questionMarks (rowsText keyword rows) = 0 := by
  unfold rowsText
  split
  · rfl
  · rw [questionMarks_append, free, questionMarks_repr]

variable (table : String) (clauses : Clauses)

theorem questionMarks_selectText :
    questionMarks (clauses.selectText unmarked table)
      = questionMarks (String.join (clauses.fragments table .select)) := by
  have opening : questionMarks "SELECT " = 0 := rfl
  have source : questionMarks " FROM " = 0 := rfl
  have limit : questionMarks (rowsText " LIMIT " (clauses.limit.getD 0)) = 0 :=
    questionMarks_rowsText rfl _
  have offset : questionMarks (rowsText " OFFSET " (clauses.offset.getD 0)) = 0 :=
    questionMarks_rowsText rfl _
  have grouped : questionMarks (conjunctionText " HAVING " clauses.having)
      = questionMarks (String.join clauses.having) := questionMarks_conjunctionText rfl _
  unfold selectText fragments
  simp only [questionMarks_append, questionMarks_join_append, questionMarks_join_cons,
    questionMarks_columnsText, questionMarks_whereText, questionMarks_orderText]
  omega

theorem questionMarks_insertText :
    questionMarks (clauses.insertText unmarked table)
      = questionMarks (String.join (clauses.fragments table .insert)) := by
  have opening : questionMarks "INSERT INTO " = 0 := rfl
  have columns : questionMarks " (" = 0 := rfl
  have values : questionMarks ") VALUES (" = 0 := rfl
  have closing : questionMarks ")" = 0 := rfl
  have nothing : questionMarks (", ".intercalate (clauses.inserted.values.map unmarked)) = 0 := by
    rw [questionMarks_intercalate rfl]
    induction clauses.inserted.values with
    | nil => rfl
    | cons value rest ih => rw [List.map_cons, questionMarks_join_cons, ih]; rfl
  have listed : questionMarks (", ".intercalate clauses.inserted.columns)
      = questionMarks (String.join clauses.inserted.columns) := questionMarks_intercalate rfl _
  unfold insertText fragments
  simp only [questionMarks_append, questionMarks_join_cons]
  omega

theorem questionMarks_updateText :
    questionMarks (clauses.updateText unmarked table)
      = questionMarks (String.join (clauses.fragments table .update)) := by
  have opening : questionMarks "UPDATE " = 0 := rfl
  have assigns : questionMarks " SET " = 0 := rfl
  have assigned := questionMarks_join_map (g := Prod.fst)
    (fun entry => questionMarks_equalityText entry.1 entry.2) clauses.assignments.entries
  have columns : clauses.assignments.columns = clauses.assignments.entries.map Prod.fst := rfl
  unfold updateText fragments
  simp only [questionMarks_append, List.cons_append, questionMarks_join_cons,
    questionMarks_join_append, questionMarks_whereText]
  rw [questionMarks_intercalate rfl, columns, ← assigned]
  omega

theorem questionMarks_deleteText :
    questionMarks (clauses.deleteText unmarked table)
      = questionMarks (String.join (clauses.fragments table .delete)) := by
  have opening : questionMarks "DELETE FROM " = 0 := rfl
  unfold deleteText fragments
  simp only [questionMarks_append, questionMarks_join_cons, questionMarks_whereText]
  omega

theorem questionMarks_text (k : Kind) :
    questionMarks (clauses.text unmarked table k)
      = questionMarks (String.join (clauses.fragments table k)) := by
  cases k with
  | select => exact questionMarks_selectText table clauses
  | insert => exact questionMarks_insertText table clauses
  | update => exact questionMarks_updateText table clauses
  | delete => exact questionMarks_deleteText table clauses

end Clauses

/-! ## Question marks of pieces -/

def Text.Utf8.offsetsOf (c : Char) (start : Nat) : List Char → List Nat
  | [] => []
  | d :: rest =>
      let later := offsetsOf c (start + d.utf8Size) rest
      if d = c then start :: later else later

namespace Statement

/--
The literals of the values are put in place of the question marks, one by one from
the left.  It fails if the values run out, and gives the values that are left over.
-/
def substitute : List Char → List Value → Option (List Char × List Value)
  | [], values => some ([], values)
  | c :: rest, values =>
      if c = '?' then
        match values with
        | [] => none
        | value :: values => (substitute rest values).map fun (filled, left) =>
            (value.literalChars ++ filled, left)
      else (substitute rest values).map fun (filled, left) => (c :: filled, left)

theorem substitute_append {text : List Char} (free : '?' ∉ text) (rest : List Char)
    (values : List Value) :
    substitute (text ++ rest) values
      = (substitute rest values).map fun (filled, left) => (text ++ filled, left) := by
  induction text with
  | nil => simp
  | cons c text ih =>
      simp only [List.mem_cons, not_or] at free
      simp only [List.cons_append, substitute, if_neg (Ne.symm free.1), ih free.2,
        Option.map_map]
      rfl

end Statement

namespace Text.Utf8

theorem offsetsOf_append {c : Char} {text : List Char} (free : c ∉ text) (start : Nat)
    (rest : List Char) :
    offsetsOf c start (text ++ rest) = offsetsOf c (start + size text) rest := by
  induction text generalizing start with
  | nil => rfl
  | cons d text ih =>
      simp only [List.mem_cons, not_or] at free
      rw [List.cons_append, offsetsOf, if_neg (Ne.symm free.1), ih free.2, size_cons,
        Nat.add_assoc]

end Text.Utf8

namespace Piece

open Clauses (unmarked)
open Text (questionMarks questionMarks_append questionMarks_eq_zero)

theorem questionMarks_write (pieces : List Piece) :
    questionMarks (write (fun _ => "?") pieces)
      = (pieces.filterMap value?).length + questionMarks (write unmarked pieces) := by
  induction pieces with
  | nil => rfl
  | cons piece pieces ih =>
      rw [write_cons, write_cons, questionMarks_append, questionMarks_append, ih]
      cases piece with
      | text sql =>
          simp only [shown, List.filterMap_cons, value?]
          omega
      | slot value =>
          have mark : questionMarks "?" = 1 := rfl
          have nothing : questionMarks (unmarked value) = 0 := rfl
          simp only [shown, List.filterMap_cons, value?, List.length_cons, mark, nothing]
          omega

theorem offsets_eq_offsetsOf {pieces : List Piece}
    (free : questionMarks (write unmarked pieces) = 0) (start : Nat) :
    offsets start pieces
      = Text.Utf8.offsetsOf '?' start (write (fun _ => "?") pieces).toList := by
  induction pieces generalizing start with
  | nil => rfl
  | cons piece pieces ih =>
      rw [write_cons, questionMarks_append, Nat.add_eq_zero_iff] at free
      rw [write_cons, String.toList_append]
      cases piece with
      | text sql =>
          have unchanged : '?' ∉ sql.toList := questionMarks_eq_zero.mp free.1
          rw [shown, Text.Utf8.offsetsOf_append unchanged, Text.Utf8.size_toList]
          exact ih free.2 _
      | slot value =>
          have mark : ("?" : String).toList = ['?'] := rfl
          have one : '?'.utf8Size = 1 := rfl
          simp only [offsets, shown, mark, List.singleton_append, Text.Utf8.offsetsOf, one,
            if_true, ih free.2]

theorem substitute_write {pieces : List Piece}
    (free : questionMarks (write unmarked pieces) = 0) :
    Statement.substitute (write (fun _ => "?") pieces).toList (pieces.filterMap value?)
      = some ((write Value.literal pieces).toList, []) := by
  induction pieces with
  | nil => rfl
  | cons piece pieces ih =>
      rw [write_cons, questionMarks_append, Nat.add_eq_zero_iff] at free
      have later := ih free.2
      rw [write_cons, write_cons, String.toList_append, String.toList_append]
      cases piece with
      | text sql =>
          have unchanged : '?' ∉ sql.toList := questionMarks_eq_zero.mp free.1
          simp only [shown, List.filterMap_cons, value?]
          rw [Statement.substitute_append unchanged, later]
          rfl
      | slot value =>
          have mark : ("?" : String).toList = ['?'] := rfl
          simp only [shown, mark, List.singleton_append, List.filterMap_cons, value?,
            Statement.substitute, if_true, later, Option.map_some, Value.literal,
            String.toList_ofList]

end Piece

/-! ## Rendered drafts -/

namespace Draft

open Text (questionMarks)

/--
A statement has a question mark for each value and those that the caller wrote.
If the caller wrote none, they can be found again without the recorded offsets:
these are the offsets of all question marks, and filling in the recorded values
one by one gives the statement with its values written out.
-/
theorem questionMarks_sql_of_kind {d : Draft} {k : Kind} (chosen : d.kind = some k) :
    ∃ s, d.render = .ok s ∧ d.sql.result = .ok s.sql ∧ d.inlined.result = .ok s.inline ∧
      d.sql.draft.recorded = s.bindings ∧
      questionMarks s.sql
        = s.paramCount + questionMarks (String.join (d.clauses.fragments d.table k)) ∧
      ((∀ fragment ∈ d.clauses.fragments d.table k, '?' ∉ fragment.toList) →
        s.placeholders = Text.Utf8.offsetsOf '?' 0 s.sql.toList ∧
          Statement.substitute s.sql.toList s.bindings = some (s.inline.toList, [])) := by
  obtain ⟨pieces, -, rendered, text, -⟩ := exists_pieces chosen
  have statement : d.statement
      = ⟨.ok (.ofPieces pieces), { d with recorded := (Statement.ofPieces pieces).bindings },
        d.events (.ofPieces pieces)⟩ := by
    unfold Draft.statement
    rw [rendered]
  have unbound : questionMarks (Piece.write Clauses.unmarked pieces)
      = questionMarks (String.join (d.clauses.fragments d.table k)) := by
    rw [text, Clauses.questionMarks_text]
  refine ⟨.ofPieces pieces, rendered, ?_, ?_, ?_, ?_, ?_⟩
  · rw [sql, statement]; rfl
  · rw [inlined, statement]; rfl
  · rw [sql, statement]; rfl
  · rw [Piece.sql_ofPieces, Piece.questionMarks_write, unbound]
    rfl
  · intro free
    have unwritten : questionMarks (Piece.write Clauses.unmarked pieces) = 0 := by
      rw [unbound, Text.questionMarks_join_eq_zero free]
    rw [Piece.inline_ofPieces, Piece.sql_ofPieces]
    exact ⟨Piece.offsets_eq_offsetsOf unwritten 0, Piece.substitute_write unwritten⟩

theorem questionMarks_sql_of_update :
    let clauses : Clauses := [.update, .set "größe" (.text "a?b"), .whereEqual "id" (.text "??"),
      .whereRaw "locked = 0"].foldl Clauses.edit {}
    let d : Draft := { table := "accounts", clauses }
    d.kind = some .update ∧
      (∀ fragment ∈ d.clauses.fragments d.table .update, '?' ∉ fragment.toList) ∧
      ∃ s, d.render = .ok s ∧ questionMarks s.sql = s.paramCount ∧
        Text.Utf8.offsetsOf '?' 0 s.sql.toList = [30, 43] ∧
        Statement.substitute s.sql.toList s.bindings = some (s.inline.toList, []) := by
  intro clauses d
  have free : ∀ fragment ∈ d.clauses.fragments d.table .update, '?' ∉ fragment.toList := by
    decide
  obtain ⟨s, rendered, -, -, -, count, found⟩ :=
    questionMarks_sql_of_kind (d := d) (k := .update) rfl
  obtain ⟨offsets, filled⟩ := found free
  refine ⟨rfl, free, s, rendered, ?_, ?_, filled⟩
  · rw [count, Text.questionMarks_join_eq_zero free, Nat.add_zero]
  · rw [← offsets]
    obtain rfl := Except.ok.inj rendered
    decide

end Draft

end BoundSql
