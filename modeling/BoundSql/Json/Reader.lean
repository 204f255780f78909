import BoundSql.Json.Numeral
import BoundSql.Json.Quoted

/-!
# Reading JSON

A reader takes something off the front of a text or refuses it.  Whatever it
takes is not empty, so lists of things can be read to their end.  `value` reads
one JSON value in which arrays and objects are nested at most as deep as there
is room for.
-/

namespace BoundSql.Json

structure Reader (α : Type) where
  run : List Char → Except Refusal (α × List Char)
  consumes : ∀ {text a rest}, run text = .ok (a, rest) → rest.length < text.length

def isSpace (c : Char) : Bool :=
  c = ' ' || c = '\t' || c = '\n' || c = '\r'

def skipSpace (text : List Char) : List Char :=
  text.dropWhile isSpace

theorem skipSpace_length (text : List Char) : (skipSpace text).length ≤ text.length :=
  (List.dropWhile_sublist _).length_le

theorem map_ok {α β : Type} {f : α → β} {r : Except Refusal α} {b : β} (h : r.map f = .ok b) :
    ∃ a, r = .ok a ∧ f a = b := by
  cases r with
  | error => cases h
  | ok a => exact ⟨a, rfl, Except.ok.inj h⟩

/-! ## Lists -/

/-- One or more items with commas between them, and the closing character. -/
def items {α : Type} (close : Char) (item : Reader α) (text : List Char) :
    Except Refusal (List α × List Char) :=
  match _taken : item.run (skipSpace text) with
  | .error refusal => .error refusal
  | .ok (first, afterItem) =>
      match _mark : skipSpace afterItem with
      | [] => .error .malformed
      | c :: after =>
          if c = ',' then
            (items close item after).map fun (others, rest) => (first :: others, rest)
          else if c = close then .ok ([first], after)
          else .error .malformed
termination_by text.length
decreasing_by
  have := item.consumes _taken
  have := skipSpace_length text
  have := skipSpace_length afterItem
  simp only [_mark, List.length_cons] at this
  omega

/-- Any number of items; the opening character has been taken. -/
def sequence {α : Type} (close : Char) (item : Reader α) (text : List Char) :
    Except Refusal (List α × List Char) :=
  match skipSpace text with
  | [] => .error .malformed
  | c :: rest => if c = close then .ok ([], rest) else items close item (c :: rest)

theorem items_length {α : Type} {close : Char} {item : Reader α} {text rest : List Char}
    {all : List α} (h : items close item text = .ok (all, rest)) :
    rest.length < text.length := by
  fun_induction items close item text generalizing all rest with
  | case1 => cases h
  | case2 => cases h
  | case3 text first afterItem taken after mark ih =>
      obtain ⟨⟨others, last⟩, found, same⟩ := map_ok h
      cases same
      have := ih found
      have := item.consumes taken
      have := skipSpace_length text
      have := skipSpace_length afterItem
      simp only [mark, List.length_cons] at this
      omega
  | case4 text first afterItem taken after mark =>
      cases h
      have := item.consumes taken
      have := skipSpace_length text
      have := skipSpace_length afterItem
      simp only [mark, List.length_cons] at this
      omega
  | case5 => cases h

theorem sequence_length {α : Type} {close : Char} {item : Reader α} {text rest : List Char}
    {all : List α} (h : sequence close item text = .ok (all, rest)) :
    rest.length < text.length := by
  have := skipSpace_length text
  unfold sequence at h
  split at h
  · cases h
  · next c after mark =>
      simp only [mark, List.length_cons] at this
      split at h
      · cases h
        omega
      · have := items_length h
        simp only [List.length_cons] at this
        omega

/-! ## Values -/

def readScalar : List Char → Option (Json × List Char)
  | 'n' :: 'u' :: 'l' :: 'l' :: rest => some (.null, rest)
  | 't' :: 'r' :: 'u' :: 'e' :: rest => some (.bool true, rest)
  | 'f' :: 'a' :: 'l' :: 's' :: 'e' :: rest => some (.bool false, rest)
  | '"' :: text => (Quoted.readBody text).map fun (chars, rest) =>
      (.string (String.ofList chars), rest)
  | text => do
      let (numeral, rest) ← Numeral.read text
      let number ← numeral.number?
      return (.number number, rest)

theorem readScalar_length {text rest : List Char} {j : Json}
    (h : readScalar text = some (j, rest)) : rest.length < text.length := by
  unfold readScalar at h
  split at h
  case h_4 =>
    obtain ⟨⟨chars, last⟩, found, same⟩ := Option.map_eq_some_iff.mp h
    cases same
    have := Quoted.readBody_length found
    simp only [List.length_cons]
    omega
  case h_5 =>
    simp only [Option.bind_eq_bind, Option.bind_eq_some_iff, Option.pure_def,
      Option.some.injEq, Prod.mk.injEq, Prod.exists] at h
    obtain ⟨_, _, found, _, _, _, rfl⟩ := h
    exact Numeral.read_length found
  all_goals
    cases h
    simp only [List.length_cons]
    omega

def member (value : Reader Json) : Reader (String × Json) where
  run
    | '"' :: text =>
        match Quoted.readBody text with
        | none => .error .malformed
        | some (name, afterName) =>
            match skipSpace afterName with
            | ':' :: after => (value.run (skipSpace after)).map fun (j, rest) =>
                ((String.ofList name, j), rest)
            | _ => .error .malformed
    | _ => .error .malformed
  consumes := by
    intro text a rest h
    split at h
    · split at h
      · cases h
      · next found =>
          split at h
          · next afterName _ after mark =>
              obtain ⟨⟨j, last⟩, taken, same⟩ := map_ok h
              cases same
              have := value.consumes taken
              have := skipSpace_length after
              have := Quoted.readBody_length found
              have := skipSpace_length afterName
              simp only [mark, List.length_cons] at *
              omega
          · cases h
    · cases h

/-- A value whose items, if it may have any, are read by `inner`. -/
def valueOver (inner : Option (Reader Json)) : Reader Json where
  run text :=
    match text, inner with
    | '[' :: _, none => .error .malformed
    | '{' :: _, none => .error .malformed
    | '[' :: rest, some value => (sequence ']' value rest).map fun (all, after) =>
        (.array all, after)
    | '{' :: rest, some value => (sequence '}' (member value) rest).map fun (all, after) =>
        (.object all, after)
    | _, _ =>
        match readScalar text with
        | none => .error .malformed
        | some found => .ok found
  consumes := by
    intro text a rest h
    split at h
    · cases h
    · cases h
    · obtain ⟨⟨all, last⟩, found, same⟩ := map_ok h
      cases same
      have := sequence_length found
      simp only [List.length_cons]
      omega
    · obtain ⟨⟨all, last⟩, found, same⟩ := map_ok h
      cases same
      have := sequence_length found
      simp only [List.length_cons]
      omega
    · split at h
      · cases h
      · next found =>
          cases h
          exact readScalar_length found

/-- A value with at most `room` arrays and objects inside each other. -/
def value : (room : Nat) → Reader Json
  | 0 => valueOver none
  | room + 1 => valueOver (some (value room))

def maxDepth : Nat :=
  127

def ended {α : Type} : α × List Char → Except Refusal α
  | (a, rest) => if (skipSpace rest).isEmpty then .ok a else .error .malformed

/-- The value of a whole text, white space around it allowed. -/
def parse (text : String) : Except Refusal Json :=
  (value maxDepth).run (skipSpace text.toList) >>= ended

end BoundSql.Json
