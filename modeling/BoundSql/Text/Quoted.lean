/-!
# Quoted SQL text

A text literal stands between single quotes.  A backslash precedes each
backslash, single quote and double quote of the text, NUL is written as a
backslash and a zero, and every other character stands for itself.  `read`
takes a literal off the front of a text; reading a written literal gives the
text back, whatever follows it.
-/

namespace BoundSql.Text.Quoted

def escape (c : Char) : List Char :=
  if c = '\\' ∨ c = '\'' ∨ c = '"' then ['\\', c]
  else if c = '\x00' then ['\\', '0']
  else [c]

def body (text : List Char) : List Char :=
  text.flatMap escape

def write (text : List Char) : List Char :=
  '\'' :: body text ++ ['\'']

def unescape? (c : Char) : Option Char :=
  if c = '\\' ∨ c = '\'' ∨ c = '"' then some c
  else if c = '0' then some '\x00'
  else none

/-- Reads up to the closing quote and gives what follows it. -/
def readBody : List Char → Option (List Char × List Char)
  | [] => none
  | '\'' :: rest => some ([], rest)
  | '\\' :: [] => none
  | '\\' :: c :: rest =>
      match unescape? c, readBody rest with
      | some d, some (text, after) => some (d :: text, after)
      | _, _ => none
  | c :: rest =>
      (readBody rest).map fun (text, after) => (c :: text, after)

def read : List Char → Option (List Char × List Char)
  | '\'' :: rest => readBody rest
  | _ => none

theorem readBody_escape_append (c : Char) (rest : List Char) :
    readBody (escape c ++ rest)
      = (readBody rest).map fun (text, after) => (c :: text, after) := by
  unfold escape
  split
  · next special =>
      cases h : readBody rest <;> simp [readBody, unescape?, special, h]
  · next plain =>
      split
      · next nul =>
          subst nul
          cases h : readBody rest <;> simp [readBody, unescape?, h]
      · simp only [not_or] at plain
        simp [readBody, plain]

theorem readBody_body_append (text rest : List Char) :
    readBody (body text ++ '\'' :: rest) = some (text, rest) := by
  induction text with
  | nil => simp [body, readBody]
  | cons c text ih =>
      simp only [body, List.flatMap_cons, List.append_assoc] at ih ⊢
      rw [readBody_escape_append, ih]
      rfl

end BoundSql.Text.Quoted
