import BoundSql.Text.Blank
import Mathlib.Data.List.DropRight

/-!
# Blank text, and what trimming leaves

Trimming leaves nothing of a text exactly when all its characters are blank.  A
word without blanks is left of a text exactly when the text is that word with
white space around it, and then there is one place only where the word stands.
-/

namespace BoundSql.Text

theorem trimStart_eq_nil_iff (text : List Char) :
    trimStart text = [] ↔ ∀ c ∈ text, isBlank c = true :=
  List.dropWhile_eq_nil_iff

theorem trimEnd_eq_nil_iff (text : List Char) :
    trimEnd text = [] ↔ ∀ c ∈ text, isBlank c = true := by
  simp only [trimEnd, List.reverse_eq_nil_iff, trimStart_eq_nil_iff, List.mem_reverse]

theorem trim_eq_nil_iff (text : List Char) :
    trim text = [] ↔ ∀ c ∈ text, isBlank c = true := by
  have once : trimStart (trimStart text) = trimStart text :=
    List.dropWhile_idempotent isBlank text
  rw [trim, trimEnd_eq_nil_iff, ← trimStart_eq_nil_iff, once, trimStart_eq_nil_iff]

theorem isBlankText_eq_all (text : String) :
    isBlankText text = text.toList.all isBlank := by
  rw [Bool.eq_iff_iff, List.all_eq_true, isBlankText, List.isEmpty_iff, trim_eq_nil_iff]

/-! ## White space, one by one -/

def whiteSpace : List Char :=
  ['\t', '\n', '\x0b', '\x0c', '\r', ' ', '\u0085', '\u00a0', '\u1680',
    '\u2000', '\u2001', '\u2002', '\u2003', '\u2004', '\u2005', '\u2006', '\u2007',
    '\u2008', '\u2009', '\u200a', '\u2028', '\u2029', '\u202f', '\u205f', '\u3000']

theorem isBlank_iff_mem_whiteSpace (c : Char) : isBlank c = true ↔ c ∈ whiteSpace := by
  have listed : whiteSpace.map Char.toNat
      = blankRanges.flatMap fun range => List.range' range.1 (range.2 + 1 - range.1) := by
    decide
  have codes : c ∈ whiteSpace ↔ c.toNat ∈ whiteSpace.map Char.toNat :=
    (List.mem_map_of_injective fun _ _ => Char.toNat_inj.mp).symm
  rw [codes, listed, isBlank, List.any_eq_true, List.mem_flatMap]
  refine exists_congr fun range => and_congr_right fun _ => ?_
  rw [Bool.and_eq_true, decide_eq_true_eq, decide_eq_true_eq, List.mem_range'_1]
  omega

/-! ## A word and the white space around it -/

theorem takeWhile_append_trimStart (text : List Char) :
    text.takeWhile isBlank ++ trimStart text = text :=
  List.takeWhile_append_dropWhile

theorem trimEnd_append_takeWhile (text : List Char) :
    trimEnd text ++ (text.reverse.takeWhile isBlank).reverse = text := by
  rw [trimEnd, ← List.reverse_append, takeWhile_append_trimStart, List.reverse_reverse]

theorem exists_blank_around (text : List Char) :
    ∃ before after, (∀ c ∈ before, isBlank c = true) ∧ (∀ c ∈ after, isBlank c = true) ∧
      text = before ++ trim text ++ after := by
  refine ⟨text.takeWhile isBlank, ((trimStart text).reverse.takeWhile isBlank).reverse,
    ?_, ?_, ?_⟩
  · exact fun c hc => List.mem_takeWhile_imp hc
  · exact fun c hc => List.mem_takeWhile_imp (List.mem_reverse.mp hc)
  · rw [trim, List.append_assoc, trimEnd_append_takeWhile, takeWhile_append_trimStart]

structure Padded (before word after : List Char) : Prop where
  leading : ∀ c ∈ before, isBlank c = true
  filled : word ≠ []
  solid : ∀ c ∈ word, isBlank c = false
  trailing : ∀ c ∈ after, isBlank c = true

theorem trimStart_append_of_solid {word : List Char} (filled : word ≠ [])
    (solid : ∀ c ∈ word, isBlank c = false) (rest : List Char) :
    trimStart (word ++ rest) = word ++ rest := by
  obtain ⟨c, word, rfl⟩ := List.exists_cons_of_ne_nil filled
  have visible : ¬ isBlank c = true := by
    rw [solid c List.mem_cons_self]
    exact Bool.false_ne_true
  exact List.dropWhile_cons_of_neg visible

namespace Padded

variable {before word after : List Char}

theorem trimStart_eq (h : Padded before word after) :
    trimStart (before ++ (word ++ after)) = word ++ after := by
  rw [trimStart_append_of_all h.leading, trimStart_append_of_solid h.filled h.solid]

theorem trim_eq (h : Padded before word after) : trim (before ++ word ++ after) = word := by
  have backwards : trimStart word.reverse = word.reverse := by
    have solid : ∀ c ∈ word.reverse, isBlank c = false :=
      fun c hc => h.solid c (List.mem_reverse.mp hc)
    have whole := trimStart_append_of_solid (List.reverse_ne_nil_iff.mpr h.filled) solid []
    rwa [List.append_nil] at whole
  calc trim (before ++ word ++ after)
      _ = trimEnd (word ++ after) := by rw [trim, List.append_assoc, h.trimStart_eq]
      _ = trimEnd word := trimEnd_append_of_all h.trailing
      _ = word := by rw [trimEnd, backwards, List.reverse_reverse]

theorem takeWhile_eq (h : Padded before word after) :
    (before ++ word ++ after).takeWhile isBlank = before := by
  have split := takeWhile_append_trimStart (before ++ (word ++ after))
  rw [h.trimStart_eq] at split
  rw [List.append_assoc]
  exact List.append_cancel_right split

theorem unique {before' word' after' : List Char} (h : Padded before word after)
    (h' : Padded before' word' after')
    (same : before ++ word ++ after = before' ++ word' ++ after') :
    before = before' ∧ word = word' ∧ after = after' := by
  have befores : before = before' := by rw [← h.takeWhile_eq, same, h'.takeWhile_eq]
  have words : word = word' := by rw [← h.trim_eq, same, h'.trim_eq]
  subst befores words
  exact ⟨rfl, rfl, List.append_cancel_left same⟩

end Padded

end BoundSql.Text
