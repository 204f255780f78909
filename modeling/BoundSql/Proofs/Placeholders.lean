import BoundSql.Draft.Basic
import BoundSql.Proofs.Pieces

/-!
# Placeholders stand where they are recorded

A rendered statement records one offset, one value and one tag for each
placeholder.  The offsets increase, and each is the place of a question mark
between two characters of the SQL text.  So every slice that is taken while the
values are written out lies within the text, in order, and cuts no character.
-/

namespace BoundSql

open Text.Utf8 (size splitAt splitAt_append splitAt_size)

/-! ## Slices -/

/--
The text between two byte offsets.  It is undefined unless the offsets are in
order, lie within the text and stand between characters.
-/
def Text.Utf8.slice? (start stop : Nat) (text : List Char) : Option (List Char) :=
  let (before, rest) := splitAt start text
  let (middle, _) := splitAt (stop - start) rest
  if size before = start ∧ start + size middle = stop then some middle else none

theorem Text.Utf8.slice?_eq_some_iff {start stop : Nat} {text middle : List Char} :
    slice? start stop text = some middle ↔
      ∃ before after, text = before ++ middle ++ after ∧ size before = start ∧
        start + size middle = stop := by
  constructor
  · intro h
    unfold slice? at h
    dsimp only at h
    split at h
    · next fits =>
        obtain ⟨hstart, hstop⟩ := fits
        obtain rfl := Option.some.inj h
        refine ⟨(splitAt start text).1,
          (splitAt (stop - start) (splitAt start text).2).2, ?_, hstart, hstop⟩
        rw [List.append_assoc, splitAt_append, splitAt_append]
    · contradiction
  · rintro ⟨before, after, rfl, rfl, rfl⟩
    rw [slice?, List.append_assoc, splitAt_size]
    dsimp only
    rw [Nat.add_sub_cancel_left, splitAt_size]
    simp only [and_self, if_true]

namespace Statement

def spliceSlices? (sql : List Char) (cursor : Nat) :
    List (Nat × Value) → Option (List Char)
  | [] => Text.Utf8.slice? cursor (size sql) sql
  | (offset, value) :: rest => do
      let before ← Text.Utf8.slice? cursor offset sql
      let after ← spliceSlices? sql (offset + 1) rest
      some (before ++ value.literalChars ++ after)

def inlineSlices? (s : Statement) : Option String :=
  (spliceSlices? s.sql.toList 0 (s.placeholders.zip s.bindings)).map String.ofList

structure WellPlaced (s : Statement) : Prop where
  placeholders_length : s.placeholders.length = s.bindings.length
  types_length : s.types.toList.length = s.bindings.length
  tagged : ∀ i : Nat, s.types.toList[i]? = s.bindings[i]?.map Value.tag
  increasing : s.placeholders.Pairwise (· < ·)
  inside : ∀ offset ∈ s.placeholders, offset < s.sql.utf8ByteSize
  marked : ∀ offset ∈ s.placeholders, s.sql.toByteArray[offset]? = some '?'.toUInt8
  between : ∀ offset ∈ s.placeholders, String.Pos.Raw.IsValid s.sql ⟨offset⟩
  sliced : s.inlineSlices? = some s.inline

end Statement

/-! ## Offsets of pieces -/

namespace Piece

theorem offsets_length (start : Nat) (pieces : List Piece) :
    (offsets start pieces).length = (pieces.filterMap value?).length := by
  rw [offsets_eq_places, places_length]

theorem exists_split_of_mem_offsets {start offset : Nat} {pieces : List Piece}
    (h : offset ∈ offsets start pieces) :
    ∃ before after : String, write (fun _ => "?") pieces = before ++ "?" ++ after ∧
      start + before.utf8ByteSize = offset := by
  induction pieces generalizing start with
  | nil => contradiction
  | cons piece pieces ih =>
      cases piece with
      | text sql =>
          obtain ⟨before, after, split, place⟩ := ih h
          refine ⟨sql ++ before, after, ?_, ?_⟩
          · simp only [write_cons, shown, split, String.append_assoc]
          · rw [String.utf8ByteSize_append, ← Nat.add_assoc, place]
      | slot value =>
          rcases List.mem_cons.mp h with rfl | later
          · exact ⟨"", write (fun _ => "?") pieces, by simp only [write_cons, shown,
              String.empty_append], rfl⟩
          · obtain ⟨before, after, split, place⟩ := ih later
            refine ⟨"?" ++ before, after, ?_, ?_⟩
            · simp only [write_cons, shown, split, String.append_assoc]
            · rw [String.utf8ByteSize_append, ← Nat.add_assoc]
              exact place

theorem offsets_increasing (start : Nat) (pieces : List Piece) :
    (offsets start pieces).Pairwise (· < ·) := by
  induction pieces generalizing start with
  | nil => exact List.Pairwise.nil
  | cons piece pieces ih =>
      cases piece with
      | text sql => exact ih _
      | slot value =>
          refine List.Pairwise.cons ?_ (ih _)
          intro offset later
          obtain ⟨before, -, -, place⟩ := exists_split_of_mem_offsets later
          omega

/--
The slices taken at the offsets of the pieces.  The text `done` is written
already, and `before` stands between the cursor and the pieces to come.
-/
theorem spliceSlices?_pieces (done before : List Char) (pieces : List Piece) :
    Statement.spliceSlices? (done ++ before ++ (write (fun _ => "?") pieces).toList)
        (size done)
        ((offsets (size done + size before) pieces).zip (pieces.filterMap value?))
      = some (before ++ (write Value.literal pieces).toList) := by
  induction pieces generalizing done before with
  | nil =>
      simp only [write_nil, offsets, List.zip_nil_left, Statement.spliceSlices?]
      refine Text.Utf8.slice?_eq_some_iff.mpr ⟨done, [], ?_, rfl, ?_⟩
      · simp only [String.toList_empty, List.append_nil]
      · simp only [String.toList_empty, List.append_nil, Text.Utf8.size_append]
  | cons piece pieces ih =>
      cases piece with
      | text sql =>
          have passed := ih done (before ++ sql.toList)
          rw [Text.Utf8.size_append, Text.Utf8.size_toList, ← Nat.add_assoc] at passed
          simpa only [write_cons, shown, String.toList_append, offsets,
            List.filterMap_cons, value?, List.append_assoc] using passed
      | slot value =>
          have rest := ih (done ++ before ++ ['?']) []
          have cursor : size (done ++ before ++ ['?']) = size done + size before + 1 := by
            simp only [Text.Utf8.size_append, Text.Utf8.size_cons, Text.Utf8.size_nil]
            rfl
          have mark : ("?" : String).toList = ['?'] := rfl
          have slice : Text.Utf8.slice? (size done) (size done + size before)
              (done ++ before ++ ['?'] ++ (write (fun _ => "?") pieces).toList)
              = some before := by
            refine Text.Utf8.slice?_eq_some_iff.mpr ⟨done,
              '?' :: (write (fun _ => "?") pieces).toList, ?_, rfl, rfl⟩
            simp only [List.append_assoc, List.singleton_append]
          rw [cursor] at rest
          simp only [Text.Utf8.size_nil, Nat.add_zero, List.append_nil,
            List.nil_append] at rest
          simp only [write_cons, shown, String.toList_append, mark, offsets,
            List.filterMap_cons, value?, List.zip_cons_cons, Statement.spliceSlices?,
            ← List.append_assoc, slice, rest, Value.literal, String.toList_ofList]
          rfl

end Piece

/-! ## Rendered statements -/

theorem Text.Utf8.getElem?_toByteArray_append (before after : String) :
    (before ++ "?" ++ after).toByteArray[before.utf8ByteSize]? = some '?'.toUInt8 := by
  have bytes : (before ++ "?" ++ after).toByteArray
      = before.toByteArray ++ ("?".toByteArray ++ after.toByteArray) := by
    simp only [String.toByteArray_append, ByteArray.append_assoc]
  have length : before.utf8ByteSize = before.toByteArray.size := rfl
  rw [bytes, length]
  have inside : before.toByteArray.size
      < (before.toByteArray ++ ("?".toByteArray ++ after.toByteArray)).size := by
    have one : "?".toByteArray.size = 1 := rfl
    simp only [ByteArray.size_append, one]
    omega
  rw [getElem?_pos (before.toByteArray ++ ("?".toByteArray ++ after.toByteArray))
    before.toByteArray.size inside, ByteArray.getElem_append_right (Nat.le_refl _)]
  simp only [Nat.sub_self]
  rw [ByteArray.getElem_append_left (by decide)]
  rfl

namespace Statement

theorem wellPlaced_ofPieces (pieces : List Piece) : (ofPieces pieces).WellPlaced where
  placeholders_length := Piece.offsets_length 0 pieces
  types_length := by
    simp only [types, Value.tags, String.toList_ofList, List.length_map]
  tagged := by
    intro i
    simp only [types, Value.tags, String.toList_ofList, List.getElem?_map]
  increasing := Piece.offsets_increasing 0 pieces
  inside := by
    intro offset h
    obtain ⟨before, after, split, place⟩ := Piece.exists_split_of_mem_offsets h
    have one : "?".utf8ByteSize = 1 := rfl
    rw [Piece.sql_ofPieces, split, String.utf8ByteSize_append,
      String.utf8ByteSize_append, one]
    omega
  marked := by
    intro offset h
    obtain ⟨before, after, split, place⟩ := Piece.exists_split_of_mem_offsets h
    rw [Nat.zero_add] at place
    subst place
    rw [Piece.sql_ofPieces, split, Text.Utf8.getElem?_toByteArray_append]
  between := by
    intro offset h
    obtain ⟨before, after, split, place⟩ := Piece.exists_split_of_mem_offsets h
    rw [Nat.zero_add] at place
    subst place
    rw [Piece.sql_ofPieces, split, String.append_assoc]
    exact String.Pos.Raw.isValid_iff_exists_append.mpr ⟨before, "?" ++ after, rfl, rfl⟩
  sliced := by
    have slices := Piece.spliceSlices?_pieces [] [] pieces
    simp only [List.nil_append, Text.Utf8.size_nil, Nat.add_zero] at slices
    rw [Piece.inline_ofPieces, inlineSlices?, Piece.sql_ofPieces]
    simp only [ofPieces, slices, Option.map_some, String.ofList_toList]

theorem wellPlaced_empty : empty.WellPlaced :=
  wellPlaced_ofPieces []

end Statement

/--
Whatever a draft renders, also without a kind, has its placeholders where they
are recorded.
-/
theorem Draft.wellPlaced_of_render {d : Draft} {s : Statement} (h : d.render = .ok s) :
    s.WellPlaced := by
  unfold render at h
  split at h
  · next pieces _ =>
      cases h
      exact Statement.wellPlaced_ofPieces pieces
  · split at h
    · contradiction
    · cases h
      exact Statement.wellPlaced_empty

theorem Draft.wellPlaced_of_update :
    let d : Draft := ⟨"größe?", {}, [.update, .set "ö" (.int 7), .whereRaw "a = '?'",
      .whereEqual "é" (.text "?")].foldl Clauses.edit {}, []⟩
    ∃ s, d.render = .ok s ∧ s.placeholders = [25, 50] ∧ s.WellPlaced := by
  intro d
  exact ⟨_, rfl, by decide, wellPlaced_of_render (d := d) rfl⟩

end BoundSql
