import BoundSql.Value.Literal

/-!
# Reading SQL text with quoted literals

A lexer that knows quoted literals and nothing else of SQL.  It copies the text
outside of literals and decodes them, so that it can be told where a literal
ends.  A text is closed if the lexer is outside of literals at its end; closed
texts can be put together.  The literal of a value is closed and is decoded to
what the value contains.
-/

namespace BoundSql

namespace Text

/-- Where the lexer stands, with the characters of the literal that it has read so far. -/
inductive LexMode where
  | outside
  | inside (read : List Char)
  | escaped (read : List Char)
  deriving DecidableEq, Repr

inductive Token where
  | copied (c : Char)
  | literal (contents : String)
  deriving DecidableEq, Repr

namespace LexMode

def step : LexMode → Char → LexMode × List Token
  | outside, c => if c = '\'' then (inside [], []) else (outside, [.copied c])
  | inside read, c =>
      if c = '\'' then (outside, [.literal (String.ofList read)])
      else if c = '\\' then (escaped read, [])
      else (inside (read ++ [c]), [])
  | escaped read, c => (inside (read ++ [if c = '0' then '\x00' else c]), [])

def lex (mode : LexMode) : List Char → LexMode × List Token
  | [] => (mode, [])
  | c :: rest =>
      let (next, tokens) := mode.step c
      let (last, later) := next.lex rest
      (last, tokens ++ later)

theorem lex_append (mode : LexMode) (text rest : List Char) :
    mode.lex (text ++ rest) = (((mode.lex text).1.lex rest).1,
      (mode.lex text).2 ++ ((mode.lex text).1.lex rest).2) := by
  induction text generalizing mode with
  | nil => rfl
  | cons c text ih => simp only [List.cons_append, lex, ih, List.append_assoc]

theorem lex_of_notMem_quote {text : List Char} (quoteless : '\'' ∉ text) :
    outside.lex text = (outside, text.map .copied) := by
  induction text with
  | nil => rfl
  | cons c text ih =>
      simp only [List.mem_cons, not_or] at quoteless
      obtain ⟨here, later⟩ := quoteless
      simp only [lex, step, if_neg (Ne.symm here), ih later]
      rfl

/-! ## Quoted text -/

theorem lex_escape (read : List Char) (c : Char) :
    (inside read).lex (Quoted.escape c) = (inside (read ++ [c]), []) := by
  unfold Quoted.escape
  split
  · next special => rcases special with rfl | rfl | rfl <;> rfl
  · next ordinary =>
      simp only [not_or] at ordinary
      split
      · next nul =>
          subst nul
          rfl
      · simp only [lex, step, if_neg ordinary.1, if_neg ordinary.2.1, List.append_nil]

theorem lex_body (read text : List Char) :
    (inside read).lex (Quoted.body text) = (inside (read ++ text), []) := by
  induction text generalizing read with
  | nil => rw [List.append_nil]; rfl
  | cons c text ih =>
      simp only [Quoted.body, List.flatMap_cons] at ih ⊢
      rw [lex_append, lex_escape, ih, List.append_assoc]
      rfl

theorem lex_write (text : List Char) :
    outside.lex (Quoted.write text) = (outside, [.literal (String.ofList text)]) := by
  have opened : outside.lex (Quoted.write text)
      = (inside []).lex (Quoted.body text ++ ['\'']) := rfl
  rw [opened, lex_append, lex_body]
  rfl

end LexMode

open LexMode (lex lex_append)

/-! ## Closed texts -/

/-- The lexer has come out of all literals at the end of the text. -/
def Closed (text : String) : Prop :=
  (LexMode.outside.lex text.toList).1 = .outside

instance (text : String) : Decidable (Closed text) :=
  inferInstanceAs (Decidable (_ = _))

theorem Closed.append {text rest : String} (h : Closed text) (h' : Closed rest) :
    Closed (text ++ rest) := by
  unfold Closed at h h' ⊢
  rw [String.toList_append, lex_append, h, h']

theorem closed_of_notMem_quote {text : String} (quoteless : '\'' ∉ text.toList) :
    Closed text := by
  rw [Closed, LexMode.lex_of_notMem_quote quoteless]

theorem closed_intercalate {separator : String} (between : Closed separator)
    {texts : List String} (each : ∀ text ∈ texts, Closed text) :
    Closed (separator.intercalate texts) := by
  induction texts with
  | nil => exact closed_of_notMem_quote List.not_mem_nil
  | cons text texts ih =>
      have here := each text List.mem_cons_self
      cases texts with
      | nil => rwa [String.intercalate_singleton]
      | cons next texts =>
          rw [String.intercalate_cons_cons]
          exact (here.append between).append
            (ih fun other h => each other (List.mem_cons_of_mem text h))

end Text

/-! ## Literals of values -/

theorem notMem_quote_toDigits (n : Nat) : '\'' ∉ Nat.toDigits 10 n := by
  intro h
  have digit := Nat.isDigit_of_mem_toDigits (by decide) (by decide) h
  exact absurd digit (by decide)

namespace Decimal

theorem notMem_quote_split (d : Decimal) : '\'' ∉ d.split.1 ∧ '\'' ∉ d.split.2 := by
  have zeros : ∀ n, '\'' ∉ List.replicate n '0' := by
    intro n h
    exact absurd (List.eq_of_mem_replicate h) (by decide)
  have padded : ∀ m n, '\'' ∉ List.replicate m '0' ++ (d.digitChars ++ List.replicate n '0') := by
    intro m n h
    simp only [List.mem_append] at h
    rcases h with h | h | h
    · exact zeros m h
    · exact notMem_quote_toDigits d.digits h
    · exact zeros n h
  exact ⟨fun h => padded _ _ (List.mem_of_mem_take h),
    fun h => padded _ _ (List.mem_of_mem_drop h)⟩

theorem notMem_quote_positional (d : Decimal) : '\'' ∉ d.positional false := by
  obtain ⟨whole, fraction⟩ := d.notMem_quote_split
  unfold positional
  split
  · next parts =>
      rw [parts] at whole
      exact whole
  · next parts =>
      rw [parts] at whole fraction
      intro h
      rcases List.mem_append.mp h with h | h
      · exact whole h
      · rcases List.mem_cons.mp h with point | h
        · exact absurd point (by decide)
        · exact fraction h

end Decimal

namespace Value

open Text (Token)

def tokens (v : Value) : List Token :=
  match v with
  | null | int _ => v.literalChars.map .copied
  | bool b => [.literal (if b then "1" else "0")]
  | float x =>
      if x.isFinite then v.literalChars.map .copied
      else [.literal (if x.isNaN then "NaN" else if x.isNegative then "-inf" else "inf")]
  | text s => [.literal s]

theorem notMem_quote_sign (negative : Prop) [Decidable negative] {digits : List Char}
    (h : '\'' ∉ digits) : '\'' ∉ (if negative then ['-'] else []) ++ digits := by
  split
  · exact List.not_mem_cons_of_ne_of_not_mem (by decide) h
  · exact h

theorem notMem_quote_literalLayout (x : Binary64) : '\'' ∉ literalLayout.write x := by
  have positional : ∀ d, literalLayout.isPositional d = true := fun _ => rfl
  simp only [Layout.write, positional, if_true]
  exact notMem_quote_sign _ (Decimal.notMem_quote_positional _)

theorem notMem_quote_literalChars {v : Value} (bare : (v.isNull || v.isNumeric) = true) :
    '\'' ∉ v.literalChars := by
  cases v with
  | null => decide
  | bool b => contradiction
  | int n => exact notMem_quote_sign _ (notMem_quote_toDigits _)
  | float x =>
      have finite : x.isFinite = true := by
        simpa only [isNull, isNumeric, Bool.false_or] using bare
      rw [literalChars_float finite]
      exact notMem_quote_literalLayout x
  | text s => contradiction

theorem lex_literalChars (v : Value) :
    Text.LexMode.outside.lex v.literalChars = (.outside, v.tokens) := by
  cases v with
  | null => rfl
  | bool b => cases b <;> exact Text.LexMode.lex_write _
  | int n => exact Text.LexMode.lex_of_notMem_quote (notMem_quote_literalChars rfl)
  | float x =>
      cases finite : x.isFinite with
      | true =>
          have bare : ((float x).isNull || (float x).isNumeric) = true := by
            simpa only [isNull, isNumeric, Bool.false_or] using finite
          rw [Text.LexMode.lex_of_notMem_quote (notMem_quote_literalChars bare)]
          simp only [tokens, finite, if_true]
      | false =>
          have quoted : (float x).quotedContents? = some (nonFiniteName x) := by
            simp only [quotedContents?, finite, Bool.false_eq_true, if_false]
          rw [literalChars_of_quotedContents? quoted, Text.LexMode.lex_write,
            String.ofList_toList]
          simp only [tokens, finite, Bool.false_eq_true, if_false, nonFiniteName]
  | text s =>
      rw [literalChars_of_quotedContents? rfl, Text.LexMode.lex_write, String.ofList_toList]
      rfl

theorem closed_literal (v : Value) : Text.Closed v.literal := by
  rw [Text.Closed, literal, String.toList_ofList, lex_literalChars]

end Value

end BoundSql
