import BoundSql.Statement

/-!
# Pieces taken one by one

What is read off a list of pieces is read off each piece in turn.  The lemmas
carry this through lists with separators and to the text of a statement, also
when its placeholders are filled by their offsets.
-/

namespace BoundSql

namespace Piece

theorem flatMap_intercalate {α β : Type} (f : α → List β) (separator : List α)
    (groups : List (List α)) :
    (separator.intercalate groups).flatMap f
      = (separator.flatMap f).intercalate (groups.map (List.flatMap f)) := by
  induction groups with
  | nil => rfl
  | cons group rest ih =>
      cases rest with
      | nil => simp only [List.map_cons, List.map_nil, List.intercalate_singleton]
      | cons next rest =>
          simp only [List.map_cons] at ih
          simp only [List.map_cons, List.intercalate_cons_cons, List.flatMap_append, ih]

theorem flatMap_joined {β : Type} (f : Piece → List β) (separator : String)
    (groups : List (List Piece)) :
    (joined separator groups).flatMap f
      = (f (text separator)).intercalate (groups.map (List.flatMap f)) := by
  rw [joined, flatMap_intercalate, List.flatMap_singleton]

theorem map_joined (f : Piece → Piece) (separator : String)
    (same : f (text separator) = text separator) (groups : List (List Piece)) :
    (joined separator groups).map f = joined separator (groups.map (List.map f)) := by
  simp only [List.map_eq_flatMap, flatMap_joined, same]
  rfl

theorem joined_cons_cons (separator : String) (group next : List Piece)
    (groups : List (List Piece)) :
    joined separator (group :: next :: groups)
      = group ++ text separator :: joined separator (next :: groups) := by
  rw [joined, List.intercalate_cons_cons, joined, List.append_assoc, List.singleton_append]

/-! ## Writing pieces out -/

def shown (mark : Value → String) : Piece → String
  | text sql => sql
  | slot value => mark value

def write (mark : Value → String) (pieces : List Piece) : String :=
  String.join (pieces.map (shown mark))

theorem write_nil (mark : Value → String) : write mark [] = "" :=
  String.join_nil

theorem write_cons (mark : Value → String) (piece : Piece) (pieces : List Piece) :
    write mark (piece :: pieces) = piece.shown mark ++ write mark pieces :=
  String.join_cons

theorem write_append (mark : Value → String) (before after : List Piece) :
    write mark (before ++ after) = write mark before ++ write mark after := by
  simp only [write, List.map_append, String.join_append]

theorem sql_ofPieces (pieces : List Piece) :
    (Statement.ofPieces pieces).sql = write (fun _ => "?") pieces := by
  have marked : Piece.sql = shown fun _ => "?" := by
    funext piece
    cases piece <;> rfl
  rw [Statement.ofPieces, marked]
  rfl

/-! ## Where slots stand -/

/-- The byte offsets of the slots when `mark value` is written from offset `start` on. -/
def places (mark : Value → String) (start : Nat) : List Piece → List Nat
  | [] => []
  | text sql :: rest => places mark (start + sql.utf8ByteSize) rest
  | slot value :: rest => start :: places mark (start + (mark value).utf8ByteSize) rest

theorem offsets_eq_places (start : Nat) (pieces : List Piece) :
    offsets start pieces = places (fun _ => "?") start pieces := by
  induction pieces generalizing start with
  | nil => rfl
  | cons piece pieces ih =>
      cases piece with
      | text sql => exact ih _
      | slot value => exact congrArg (start :: ·) (ih _)

theorem places_length (mark : Value → String) (start : Nat) (pieces : List Piece) :
    (places mark start pieces).length = (pieces.filterMap value?).length := by
  induction pieces generalizing start with
  | nil => rfl
  | cons piece pieces ih =>
      cases piece with
      | text sql => exact ih _
      | slot value => exact congrArg (· + 1) (ih _)

theorem getElem?_places (mark : Value → String) (start : Nat) (earlier : List Piece)
    (value : Value) (later : List Piece) :
    (places mark start (earlier ++ slot value :: later))[(earlier.filterMap value?).length]?
      = some (start + (write mark earlier).utf8ByteSize) := by
  induction earlier generalizing start with
  | nil => rfl
  | cons piece earlier ih =>
      cases piece with
      | text sql =>
          rw [write_cons, shown, String.utf8ByteSize_append, ← Nat.add_assoc]
          exact ih _
      | slot first =>
          rw [write_cons, shown, String.utf8ByteSize_append, ← Nat.add_assoc]
          exact ih _

theorem exists_split_of_value {pieces : List Piece} {i : Nat} {value : Value}
    (h : (pieces.filterMap value?)[i]? = some value) :
    ∃ earlier later, pieces = earlier ++ slot value :: later ∧
      (earlier.filterMap value?).length = i := by
  induction pieces generalizing i with
  | nil => contradiction
  | cons piece pieces ih =>
      cases piece with
      | text sql =>
          obtain ⟨earlier, later, rfl, count⟩ := ih h
          exact ⟨text sql :: earlier, later, rfl, count⟩
      | slot first =>
          cases i with
          | zero =>
              obtain rfl : first = value := Option.some.inj h
              exact ⟨[], pieces, rfl, rfl⟩
          | succ i =>
              obtain ⟨earlier, later, rfl, rfl⟩ := ih h
              exact ⟨slot first :: earlier, later, rfl, rfl⟩

end Piece

/-! ## Filling placeholders -/

namespace Statement

def fill (mark : Value → String) (cursor : Nat) (sql : List Char) :
    List (Nat × Value) → List Char
  | [] => sql
  | (offset, value) :: rest =>
      let (before, after) := Text.Utf8.splitAt (offset - cursor) sql
      before ++ (mark value).toList ++ fill mark (offset + 1) (after.drop 1) rest

def filled (mark : Value → String) (s : Statement) : String :=
  String.ofList (fill mark 0 s.sql.toList (s.placeholders.zip s.bindings))

theorem splice_eq_fill (cursor : Nat) (sql : List Char) (slots : List (Nat × Value)) :
    splice cursor sql slots = fill Value.literal cursor sql slots := by
  induction slots generalizing cursor sql with
  | nil => rfl
  | cons entry slots ih =>
      simp only [splice, fill, ih, Value.literal, String.toList_ofList]

theorem inline_eq_filled (s : Statement) : s.inline = s.filled Value.literal := by
  rw [inline, splice_eq_fill, filled]

end Statement

namespace Piece

open Text.Utf8 (size size_append size_toList splitAt_size)

/--
Filling placeholders by their offsets gives the pieces with their marks.  The
text `before`, left over from pieces already passed, stands between the cursor
and the pieces to come.
-/
theorem fill_pieces (mark : Value → String) (cursor : Nat) (before : List Char)
    (pieces : List Piece) :
    Statement.fill mark cursor (before ++ (write (fun _ => "?") pieces).toList)
        ((offsets (cursor + size before) pieces).zip (pieces.filterMap value?))
      = before ++ (write mark pieces).toList := by
  induction pieces generalizing cursor before with
  | nil => simp only [write_nil, offsets, List.zip_nil_left, Statement.fill]
  | cons piece pieces ih =>
      cases piece with
      | text sql =>
          have passed := ih cursor (before ++ sql.toList)
          rw [size_append, size_toList, ← Nat.add_assoc] at passed
          simpa only [write_cons, shown, String.toList_append, offsets,
            List.filterMap_cons, value?, List.append_assoc] using passed
      | slot value =>
          have rest := ih (cursor + size before + 1) []
          simp only [Text.Utf8.size_nil, Nat.add_zero, List.nil_append] at rest
          have question : ("?" : String).toList = ['?'] := rfl
          simp only [write_cons, shown, String.toList_append, offsets,
            List.filterMap_cons, value?, List.zip_cons_cons, Statement.fill,
            Nat.add_sub_cancel_left, splitAt_size, question, List.singleton_append,
            List.drop_one, List.tail_cons, rest, List.append_assoc]

theorem filled_ofPieces (mark : Value → String) (pieces : List Piece) :
    (Statement.ofPieces pieces).filled mark = write mark pieces := by
  have written := fill_pieces mark 0 [] pieces
  simp only [Text.Utf8.size_nil, Nat.add_zero, List.nil_append] at written
  rw [Statement.filled, sql_ofPieces]
  simp only [Statement.ofPieces, written, String.ofList_toList]

theorem inline_ofPieces (pieces : List Piece) :
    (Statement.ofPieces pieces).inline = write Value.literal pieces := by
  rw [Statement.inline_eq_filled, filled_ofPieces]

end Piece

end BoundSql
