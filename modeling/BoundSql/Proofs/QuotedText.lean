import BoundSql.Value.Literal

/-!
# Quoted text is an encoding

The literal of a text ends where its reader stops, whatever follows, and is read
as the text.  A grammar says which literals there are: between the quotes stand
escapes and characters that need none.  Each such literal is the one literal of
the text that is read from it.
-/

namespace BoundSql

namespace Text.Quoted

inductive Body : List Char → Prop
  | nil : Body []
  | escape {c : Char} {rest : List Char} (escapable : c ∈ ['\\', '\'', '"', '0']) :
      Body rest → Body ('\\' :: c :: rest)
  | plain {c : Char} {rest : List Char} (ordinary : c ∉ ['\\', '\'', '"', '\x00']) :
      Body rest → Body (c :: rest)

def IsQuoted (literal : List Char) : Prop :=
  ∃ body, Body body ∧ literal = '\'' :: body ++ ['\'']

theorem Body.escape_append {rest : List Char} (c : Char) (h : Body rest) :
    Body (Quoted.escape c ++ rest) := by
  unfold Quoted.escape
  split
  · next special =>
      apply Body.escape _ h
      rcases special with rfl | rfl | rfl <;> decide
  · next unspecial =>
      split
      · exact .escape (by decide) h
      · next nonzero =>
          refine .plain ?_ h
          simp only [List.mem_cons, List.not_mem_nil, or_false]
          rintro (rfl | rfl | rfl | rfl)
          · exact unspecial (.inl rfl)
          · exact unspecial (.inr (.inl rfl))
          · exact unspecial (.inr (.inr rfl))
          · exact nonzero rfl

theorem body_body (text : List Char) : Body (body text) := by
  induction text with
  | nil => exact .nil
  | cons c text ih => exact ih.escape_append c

theorem Body.exists_text {inside : List Char} (h : Body inside) :
    ∃ text, body text = inside := by
  induction h with
  | nil => exact ⟨[], rfl⟩
  | @escape c rest escapable _ ih =>
      obtain ⟨text, rfl⟩ := ih
      simp only [List.mem_cons, List.not_mem_nil, or_false] at escapable
      rcases escapable with rfl | rfl | rfl | rfl
      · exact ⟨'\\' :: text, rfl⟩
      · exact ⟨'\'' :: text, rfl⟩
      · exact ⟨'"' :: text, rfl⟩
      · exact ⟨'\x00' :: text, rfl⟩
  | @plain c rest ordinary _ ih =>
      obtain ⟨text, rfl⟩ := ih
      simp only [List.mem_cons, List.not_mem_nil, or_false, not_or] at ordinary
      obtain ⟨backslash, quote, double, nul⟩ := ordinary
      have itself : Quoted.escape c = [c] := by simp [Quoted.escape, *]
      refine ⟨c :: text, ?_⟩
      rw [body, List.flatMap_cons, itself]
      rfl

theorem isQuoted_iff (literal : List Char) : IsQuoted literal ↔ ∃ text, write text = literal := by
  constructor
  · rintro ⟨_, inside, rfl⟩
    obtain ⟨text, rfl⟩ := inside.exists_text
    exact ⟨text, rfl⟩
  · rintro ⟨text, rfl⟩
    exact ⟨body text, body_body text, rfl⟩

theorem read_write_append (text rest : List Char) :
    read (write text ++ rest) = some (text, rest) := by
  rw [write, List.cons_append, List.cons_append, read, List.append_assoc]
  exact readBody_body_append text rest

end Text.Quoted

namespace Value

open Text (Quoted.read Quoted.IsQuoted)

theorem toList_literal_of_quotedContents? {v : Value} {contents : String}
    (h : v.quotedContents? = some contents) :
    v.literal.toList = Text.Quoted.write contents.toList := by
  rw [literal, String.toList_ofList, literalChars_of_quotedContents? h]

theorem toList_literal_text (s : String) :
    (text s).literal.toList = Text.Quoted.write s.toList :=
  toList_literal_of_quotedContents? rfl

/--
The literal of a text is read as the text, up to its end and no further.  The
literals of texts are the quoted ones, and a quoted literal is the literal of
what is read from it.
-/
theorem read_literal_text :
    (∀ s rest : String,
      Quoted.read ((text s).literal ++ rest).toList = some (s.toList, rest.toList)) ∧
    ∀ literal : String,
      (Quoted.IsQuoted literal.toList ↔ ∃ s, (text s).literal = literal) ∧
      (Quoted.IsQuoted literal.toList ↔
        ∃ s, Quoted.read literal.toList = some (s.toList, []) ∧ (text s).literal = literal) := by
  have reads : ∀ s rest : String,
      Quoted.read ((text s).literal ++ rest).toList = some (s.toList, rest.toList) := by
    intro s rest
    rw [String.toList_append, toList_literal_text, Text.Quoted.read_write_append]
  have of_text : ∀ literal : String,
      Quoted.IsQuoted literal.toList ↔ ∃ s, (text s).literal = literal := by
    intro literal
    rw [Text.Quoted.isQuoted_iff]
    constructor
    · rintro ⟨chars, same⟩
      refine ⟨String.ofList chars, String.toList_injective ?_⟩
      rw [toList_literal_text, String.toList_ofList, same]
    · rintro ⟨s, rfl⟩
      exact ⟨s.toList, (toList_literal_text s).symm⟩
  refine ⟨reads, fun literal => ⟨of_text literal, (of_text literal).trans ?_⟩⟩
  constructor
  · rintro ⟨s, rfl⟩
    have whole := reads s ""
    rw [String.append_empty] at whole
    exact ⟨s, whole, rfl⟩
  · rintro ⟨s, -, same⟩
    exact ⟨s, same⟩

example : (text "\\0\x00'").literal = "'\\\\0\\0\\''" ∧
    Quoted.read "'\\\\'0'".toList = some (['\\'], ['0', '\'']) := by
  decide

end Value

end BoundSql
