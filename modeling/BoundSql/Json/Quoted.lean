import BoundSql.Json.Basic

/-!
# JSON strings

`write` escapes the quote, the backslash and the control characters below
U+0020 and leaves every other character as it is.  `readBody` is strict: it
refuses raw control characters, unknown escapes and unpaired surrogates.
-/

namespace BoundSql.Json.Quoted

/-! ## Writing -/

def escape (c : Char) : List Char :=
  if c = '"' then ['\\', '"']
  else if c = '\\' then ['\\', '\\']
  else if c = '\x08' then ['\\', 'b']
  else if c = '\x0c' then ['\\', 'f']
  else if c = '\n' then ['\\', 'n']
  else if c = '\r' then ['\\', 'r']
  else if c = '\t' then ['\\', 't']
  else if c.toNat < 0x20 then
    ['\\', 'u', '0', '0', (c.toNat / 16).digitChar, (c.toNat % 16).digitChar]
  else [c]

def write (text : List Char) : List Char :=
  '"' :: text.flatMap escape ++ ['"']

/-! ## Reading -/

def hexDigit? (c : Char) : Option Nat :=
  if '0' ≤ c ∧ c ≤ '9' then some (c.toNat - '0'.toNat)
  else if 'a' ≤ c ∧ c ≤ 'f' then some (c.toNat - 'a'.toNat + 10)
  else if 'A' ≤ c ∧ c ≤ 'F' then some (c.toNat - 'A'.toNat + 10)
  else none

def readUnit : List Char → Option (Nat × List Char)
  | a :: b :: c :: d :: rest => do
      let a ← hexDigit? a
      let b ← hexDigit? b
      let c ← hexDigit? c
      let d ← hexDigit? d
      return (((a * 16 + b) * 16 + c) * 16 + d, rest)
  | _ => none

def isLeading (unit : Nat) : Bool :=
  0xD800 ≤ unit && unit < 0xDC00

def isTrailing (unit : Nat) : Bool :=
  0xDC00 ≤ unit && unit < 0xE000

/-- The second half of a surrogate pair, with its own escape. -/
def readTrailing (leading : Nat) : List Char → Option (Char × List Char)
  | '\\' :: 'u' :: text => do
      let (trailing, rest) ← readUnit text
      if isTrailing trailing then
        return (Char.ofNat (0x10000 + (leading - 0xD800) * 0x400 + (trailing - 0xDC00)), rest)
      else none
  | _ => none

/-- The character that an escape stands for; the backslash has been taken. -/
def readEscape : List Char → Option (Char × List Char)
  | '"' :: rest => some ('"', rest)
  | '\\' :: rest => some ('\\', rest)
  | '/' :: rest => some ('/', rest)
  | 'b' :: rest => some ('\x08', rest)
  | 'f' :: rest => some ('\x0c', rest)
  | 'n' :: rest => some ('\n', rest)
  | 'r' :: rest => some ('\r', rest)
  | 't' :: rest => some ('\t', rest)
  | 'u' :: text => do
      let (unit, rest) ← readUnit text
      if isLeading unit then readTrailing unit rest
      else if isTrailing unit then none
      else return (Char.ofNat unit, rest)
  | _ => none

/-- One character of a string; the closing quote has been excluded. -/
def readChar : List Char → Option (Char × List Char)
  | [] => none
  | '\\' :: rest => readEscape rest
  | c :: rest => if c.toNat < 0x20 then none else some (c, rest)

theorem readUnit_length {text rest : List Char} {unit : Nat}
    (h : readUnit text = some (unit, rest)) : rest.length < text.length := by
  unfold readUnit at h
  split at h
  · simp only [Option.bind_eq_bind, Option.bind_eq_some_iff, Option.pure_def,
      Option.some.injEq, Prod.mk.injEq] at h
    obtain ⟨_, _, _, _, _, _, _, _, _, rfl⟩ := h
    simp
    omega
  · simp at h

theorem readTrailing_length {leading : Nat} {text rest : List Char} {c : Char}
    (h : readTrailing leading text = some (c, rest)) : rest.length < text.length := by
  unfold readTrailing at h
  split at h
  · simp only [Option.bind_eq_bind, Option.bind_eq_some_iff, Prod.exists] at h
    obtain ⟨trailing, after, found, taken⟩ := h
    split at taken
    · simp only [Option.pure_def, Option.some.injEq, Prod.mk.injEq] at taken
      obtain ⟨-, rfl⟩ := taken
      have := readUnit_length found
      simp
      omega
    · simp at taken
  · simp at h

theorem readEscape_length {text rest : List Char} {c : Char}
    (h : readEscape text = some (c, rest)) : rest.length < text.length := by
  unfold readEscape at h
  split at h
  case h_9 =>
    simp only [Option.bind_eq_bind, Option.bind_eq_some_iff, Prod.exists] at h
    obtain ⟨unit, after, found, taken⟩ := h
    have := readUnit_length found
    simp only [List.length_cons]
    split at taken
    · have := readTrailing_length taken
      omega
    · split at taken
      · simp at taken
      · simp only [Option.pure_def, Option.some.injEq, Prod.mk.injEq] at taken
        obtain ⟨-, rfl⟩ := taken
        omega
  case h_10 => simp at h
  all_goals
    cases h
    simp

theorem readChar_length {text rest : List Char} {c : Char}
    (h : readChar text = some (c, rest)) : rest.length < text.length := by
  unfold readChar at h
  split at h
  · simp at h
  · have := readEscape_length h
    simp only [List.length_cons]
    omega
  · split at h
    · simp at h
    · cases h
      simp

/-- The rest of a string after its opening quote, and what follows the closing one. -/
def readBody (text : List Char) : Option (List Char × List Char) :=
  if text.head? = some '"' then some ([], text.drop 1)
  else
    match _taken : readChar text with
    | none => none
    | some (c, after) => (readBody after).map fun (chars, rest) => (c :: chars, rest)
termination_by text.length
decreasing_by exact readChar_length _taken

theorem readBody_length {text chars rest : List Char}
    (h : readBody text = some (chars, rest)) : rest.length < text.length := by
  fun_induction readBody text generalizing chars rest with
  | case1 text quote =>
      cases h
      cases text <;> simp_all
  | case2 => simp at h
  | case3 text _ c after taken ih =>
      obtain ⟨⟨inner, last⟩, found, same⟩ := Option.map_eq_some_iff.mp h
      cases same
      have := ih found
      have := readChar_length taken
      omega

end BoundSql.Json.Quoted
