import BoundSql.Proofs.Layouts
import BoundSql.Value.Json
import Mathlib.Data.List.DropRight

/-!
# Values survive as JSON

The JSON text of a value is taken off the front of a text as that value, as long
as a comma or a bracket follows.  So a list of values is read back from its JSON
text: the same values in the same order, but for numbers that are not finite,
which JSON cannot hold.
-/

namespace BoundSql

/-! ## Strings -/

namespace Json.Quoted

theorem hexDigit?_digitChar {n : Nat} (h : n < 16) : hexDigit? n.digitChar = some n := by
  have all : ∀ n : Fin 16, hexDigit? (Nat.digitChar n) = some n.val := by decide
  exact all ⟨n, h⟩

theorem readEscape_control {c : Char} (control : c.toNat < 0x20) (rest : List Char) :
    readEscape ('u' :: '0' :: '0' :: (c.toNat / 16).digitChar :: (c.toNat % 16).digitChar
      :: rest) = some (c, rest) := by
  have high := hexDigit?_digitChar (n := c.toNat / 16) (by omega)
  have low := hexDigit?_digitChar (n := c.toNat % 16) (by omega)
  have zero : hexDigit? '0' = some 0 := rfl
  have value : c.toNat / 16 * 16 + c.toNat % 16 = c.toNat := Nat.div_add_mod' _ _
  have leading : isLeading c.toNat = false := by
    simp only [isLeading, Bool.and_eq_false_iff, decide_eq_false_iff_not]
    omega
  have trailing : isTrailing c.toNat = false := by
    simp only [isTrailing, Bool.and_eq_false_iff, decide_eq_false_iff_not]
    omega
  simp [readEscape, readUnit, high, low, zero, value, leading, trailing]

theorem readChar_escape_append (c : Char) (rest : List Char) :
    readChar (escape c ++ rest) = some (c, rest) ∧ (escape c ++ rest).head? ≠ some '"' := by
  by_cases short : c ∈ ['"', '\\', '\x08', '\x0c', '\n', '\r', '\t']
  · simp only [List.mem_cons, List.not_mem_nil, or_false] at short
    rcases short with rfl | rfl | rfl | rfl | rfl | rfl | rfl <;>
      exact ⟨rfl, by simp [escape]⟩
  · simp only [List.mem_cons, List.not_mem_nil, or_false, not_or] at short
    obtain ⟨quote, backslash, others⟩ := short
    by_cases control : c.toNat < 0x20
    · have escaped : escape c = ['\\', 'u', '0', '0', (c.toNat / 16).digitChar,
          (c.toNat % 16).digitChar] := by
        simp only [escape, quote, backslash, others, control, if_true, if_false]
      rw [escaped]
      exact ⟨readEscape_control control rest, by simp⟩
    · have plain : escape c = [c] := by
        simp only [escape, quote, backslash, others, control, if_false]
      rw [plain]
      simp [readChar, quote, control]

theorem readBody_of_readChar {text after : List Char} {c : Char}
    (inside : text.head? ≠ some '"') (taken : readChar text = some (c, after)) :
    readBody text = (readBody after).map fun found => (c :: found.1, found.2) := by
  rw [readBody, if_neg inside]
  split
  · next refused => rw [taken] at refused; contradiction
  · next same =>
      obtain ⟨rfl, rfl⟩ := Prod.mk.inj (Option.some.inj (taken.symm.trans same))
      rfl

theorem readBody_flatMap_escape_append (text rest : List Char) :
    readBody (text.flatMap escape ++ '"' :: rest) = some (text, rest) := by
  induction text with
  | nil =>
      rw [readBody]
      rfl
  | cons c text ih =>
      obtain ⟨char, inside⟩ := readChar_escape_append c (text.flatMap escape ++ '"' :: rest)
      rw [List.flatMap_cons, List.append_assoc, readBody_of_readChar inside char, ih]
      rfl

end Json.Quoted

/-! ## Scalars -/

namespace Json

open Numeral (StopsAt isPart read_chars_append)

theorem readScalar_eq_of_read {text rest : List Char} {n : Numeral}
    (found : Numeral.read text = some (n, rest)) :
    readScalar text = n.number?.map fun number => (.number number, rest) := by
  have word : ∀ c others, c.isDigit = false → c ≠ '-' → text ≠ c :: others := by
    rintro c others digit sign rfl
    simp [Numeral.read, Numeral.readSign, Numeral.readWhole, Numeral.readDigits, sign,
      digit] at found
  unfold readScalar
  split
  · exact absurd rfl (word _ _ rfl (by decide))
  · exact absurd rfl (word _ _ rfl (by decide))
  · exact absurd rfl (word _ _ rfl (by decide))
  · exact absurd rfl (word _ _ rfl (by decide))
  · cases value : n.number? <;> simp [found, value]

theorem readScalar_of_read {text rest : List Char} {n : Numeral} {number : Number}
    (found : Numeral.read text = some (n, rest)) (value : n.number? = some number) :
    readScalar text = some (.number number, rest) := by
  rw [readScalar_eq_of_read found, value]
  rfl

theorem isSpace_iff_mem {c : Char} : isSpace c = true ↔ c ∈ [' ', '\t', '\n', '\r'] := by
  simp [isSpace, or_assoc]

theorem skipSpace_of_eq_some {β : Type} {read : List Char → Option β} {text : List Char} {found : β}
    (h : read text = some found)
    (refuses : ∀ rest, ∀ c ∈ [' ', '\t', '\n', '\r'], read (c :: rest) = none) :
    skipSpace text = text := by
  cases text with
  | nil => rfl
  | cons c rest =>
      have visible : ¬ isSpace c = true := by
        intro space
        rw [refuses rest c (isSpace_iff_mem.mp space)] at h
        contradiction
      rw [skipSpace, List.dropWhile_cons, if_neg visible]

theorem skipSpace_of_readScalar {text : List Char} {found : Json × List Char}
    (read : readScalar text = some found) : skipSpace text = text :=
  skipSpace_of_eq_some read (by simp [readScalar, Numeral.read, Numeral.readSign,
    Numeral.readWhole, Numeral.readDigits])

theorem run_valueOver_of_readScalar (inner : Option (Reader Json)) {text : List Char}
    {found : Json × List Char} (read : readScalar text = some found) :
    (valueOver inner).run text = .ok found := by
  simp only [valueOver]
  split
  · contradiction
  · contradiction
  · contradiction
  · contradiction
  · rw [read]

theorem run_value_of_readScalar (room : Nat) {text : List Char} {found : Json × List Char}
    (read : readScalar text = some found) : (value room).run text = .ok found := by
  cases room with
  | zero => exact run_valueOver_of_readScalar _ read
  | succ room => exact run_valueOver_of_readScalar _ read

theorem readScalar_write_append (text rest : List Char) :
    readScalar (Quoted.write text ++ rest) = some (.string (String.ofList text), rest) := by
  have body := Quoted.readBody_flatMap_escape_append text rest
  simp only [Quoted.write, List.cons_append, List.append_assoc, List.nil_append, readScalar,
    body, Option.map_some]

end Json

namespace Value

open Json.Numeral (StopsAt isPart read_chars_append)

/-- What can be read back of a value: JSON has no numbers that are not finite. -/
def stored : Value → Value
  | float x => if x.isFinite then float x else null
  | other => other

def toJson : Value → Json
  | null => .null
  | bool b => .bool b
  | int n => .number (.ofInt64 n)
  | float x => .number (.float x)
  | text s => .string s

theorem ofShape_number (n : Json.Number) : ofShape (.number n) = .ok (ofNumber n) := by
  cases n with
  | negative n below => rfl
  | float x => rfl
  | natural n =>
      simp only [ofShape, List.findSome?, null?, bool?, int?, float?, ofNumber,
        Json.Number.toInt64?, Json.Number.toBinary64]
      cases Json.Number.signed? n <;> rfl

theorem ofShape_toJson (v : Value) : ofShape v.toJson = .ok v := by
  cases v with
  | null => rfl
  | bool b => rfl
  | float x => rfl
  | text s => rfl
  | int n => rw [toJson, ofShape_number, ofNumber_ofInt64]

theorem readScalar_jsonChars_append (v : Value) {rest : List Char}
    (stops : StopsAt isPart rest) :
    Json.readScalar (v.jsonChars ++ rest) = some (v.stored.toJson, rest) := by
  cases v with
  | null => rfl
  | bool b => cases b <;> rfl
  | int n =>
      rw [jsonChars, ← Json.Numeral.chars_ofInt]
      exact Json.readScalar_of_read
        (read_chars_append (Json.Numeral.wellFormed_ofInt n) stops)
        (Json.Numeral.number?_ofInt n)
  | float x =>
      by_cases finite : x.isFinite = true
      · rw [jsonChars, stored, if_pos finite, if_pos finite, Layout.write_eq_chars]
        exact Json.readScalar_of_read
          (read_chars_append (jsonLayout.wellFormed_numeral x) stops)
          (Layout.number?_numeral rfl finite)
      · rw [jsonChars, stored, if_neg finite, if_neg finite]
        rfl
  | text s =>
      rw [jsonChars, Json.readScalar_write_append, String.ofList_toList]
      rfl

end Value

/-! ## Lists -/

namespace Json

section Lists

variable {α : Type} {close : Char} {item : Reader α}

theorem skipSpace_skipSpace (text : List Char) : skipSpace (skipSpace text) = skipSpace text :=
  List.dropWhile_idempotent isSpace text

theorem items_of_run {text between after : List Char} {a : α} {mark : Char}
    (taken : item.run (skipSpace text) = .ok (a, between))
    (left : skipSpace between = mark :: after) :
    items close item text
      = if mark = ',' then (items close item after).map fun (others, rest) => (a :: others, rest)
        else if mark = close then .ok ([a], after) else .error .malformed := by
  rw [items]
  split
  · next refused => rw [taken] at refused; contradiction
  · next found =>
      obtain ⟨rfl, rfl⟩ := Prod.mk.inj (Except.ok.inj (taken.symm.trans found))
      split
      · next nothing => rw [left] at nothing; contradiction
      · next same =>
          obtain ⟨rfl, rfl⟩ := List.cons.inj (left.symm.trans same)
          rfl

theorem items_of_run_to_end {text between : List Char} {a : α}
    (taken : item.run (skipSpace text) = .ok (a, between)) (left : skipSpace between = []) :
    items close item text = .error .malformed := by
  rw [items]
  split
  · next refused => rw [taken] at refused; contradiction
  · next found =>
      obtain ⟨rfl, rfl⟩ := Prod.mk.inj (Except.ok.inj (taken.symm.trans found))
      split
      · rfl
      · next mark => rw [left] at mark; contradiction

theorem items_skipSpace (text : List Char) :
    items close item (skipSpace text) = items close item text := by
  conv_lhs => rw [items, skipSpace_skipSpace]
  conv_rhs => rw [items]

def RefusesClose (close : Char) (item : Reader α) : Prop :=
  ∀ text : List Char, (∀ c ∈ text.head?, c = close) → item.run text = .error .malformed

theorem items_of_refused {text : List Char} {refusal : Refusal}
    (refused : item.run (skipSpace text) = .error refusal) :
    items close item text = .error refusal := by
  rw [items]
  split
  · next same =>
      obtain rfl := Except.error.inj (same.symm.trans refused)
      rfl
  · next taken => rw [refused] at taken; contradiction

theorem run_of_items {text : List Char} {found : List α × List Char}
    (read : items close item text = .ok found) :
    ∃ a between, item.run (skipSpace text) = .ok (a, between) := by
  rw [items] at read
  split at read
  · contradiction
  · next taken => exact ⟨_, _, taken⟩

theorem sequence_of_items (refuses : RefusesClose close item) {text : List Char}
    (read : items close item text ≠ .error .malformed) :
    sequence close item text = items close item text := by
  have opens : ¬ ∀ c ∈ (skipSpace text).head?, c = close := fun first =>
    read (items_of_refused (refuses _ first))
  unfold sequence
  cases visible : skipSpace text with
  | nil => simp [visible] at opens
  | cons c others =>
      have inside : c ≠ close := by simpa [visible] using opens
      dsimp only
      rw [if_neg inside, ← visible, items_skipSpace]

/-- The item is read off the text, up to white space, if the list goes on or ends there. -/
def Reads (close : Char) (item : Reader α) (text : List Char) (a : α) : Prop :=
  ∀ mark after, mark = ',' ∨ mark = close →
    ∃ between, item.run (skipSpace (text ++ mark :: after)) = .ok (a, between) ∧
      skipSpace between = mark :: after

theorem items_intercalate {texts : List (List Char)} {all : List α}
    (each : List.Forall₂ (Reads close item) texts all) (nonempty : texts ≠ [])
    (distinct : close ≠ ',') (rest : List Char) :
    items close item ([','].intercalate texts ++ close :: rest) = .ok (all, rest) := by
  induction each with
  | nil => contradiction
  | @cons text a texts all reads others ih =>
      cases others with
      | nil =>
          obtain ⟨between, taken, left⟩ := reads close rest (.inr rfl)
          rw [List.intercalate_singleton, items_of_run taken left, if_neg distinct, if_pos rfl]
      | cons next others =>
          have later := ih (List.cons_ne_nil _ _)
          obtain ⟨between, taken, left⟩ := reads ',' _ (.inl rfl)
          rw [List.intercalate_cons_cons, List.append_assoc, List.append_assoc,
            List.singleton_append, items_of_run taken left, if_pos rfl, later]
          rfl

theorem sequence_intercalate {texts : List (List Char)} {all : List α}
    (each : List.Forall₂ (Reads close item) texts all)
    (refuses : RefusesClose close item)
    (visible : isSpace close = false) (distinct : close ≠ ',') (rest : List Char) :
    sequence close item ([','].intercalate texts ++ close :: rest) = .ok (all, rest) := by
  cases each with
  | nil =>
      have mark : skipSpace (close :: rest) = close :: rest := by
        rw [skipSpace, List.dropWhile_cons, if_neg (by simp [visible])]
      simp only [List.intercalate_nil, List.nil_append, sequence, mark, if_true]
  | cons first others =>
      have read := items_intercalate (.cons first others) (List.cons_ne_nil _ _) distinct rest
      rw [sequence_of_items refuses (by simp [read]), read]

end Lists

end Json

namespace Value

open Json.Numeral (StopsAt isPart)

theorem run_shaped_of_run {room : Nat} {text rest : List Char} {j : Json}
    (read : (Json.value room).run text = .ok (j, rest)) :
    (shaped room).run text = (ofShape j).map fun v => (v, rest) := by
  simp only [shaped, read]

theorem run_shaped_of_refused {room : Nat} {text : List Char} {refusal : Json.Refusal}
    (refused : (Json.value room).run text = .error refusal) :
    (shaped room).run text = .error refusal := by
  simp only [shaped, refused]

theorem run_element_of_run {text rest : List Char} {j : Json}
    (read : (Json.value (Json.maxDepth - 1)).run text = .ok (j, rest)) :
    element.run text = (ofShape j).map fun v => (v, rest) :=
  run_shaped_of_run read

theorem element_refusesClose : Json.RefusesClose ']' element := by
  intro text first
  cases text with
  | nil => rfl
  | cons c text =>
      obtain rfl : c = ']' := first c rfl
      rfl

theorem reads_jsonChars (v : Value) : Json.Reads ']' element v.jsonChars v.stored := by
  intro mark after follows
  have stops : StopsAt isPart (mark :: after) := by
    apply Json.Numeral.stopsAt_cons.mpr
    rcases follows with rfl | rfl <;> rfl
  have read := readScalar_jsonChars_append v stops
  have run := Json.run_value_of_readScalar (Json.maxDepth - 1) read
  refine ⟨mark :: after, ?_, ?_⟩
  · rw [Json.skipSpace_of_readScalar read, run_element_of_run run, ofShape_toJson]
    rfl
  · rcases follows with rfl | rfl <;> rfl

/--
A list of values is read back from its JSON text, each value as far as JSON can
hold it.
-/
theorem decodeList_jsonList (values : List Value) :
    decodeList (jsonList values) = .ok (values.map stored) := by
  have each : List.Forall₂ (Json.Reads ']' element) (values.map jsonChars)
      (values.map stored) := by
    induction values with
    | nil => exact .nil
    | cons v values ih => exact .cons (reads_jsonChars v) ih
  have read := Json.sequence_intercalate each element_refusesClose rfl (by decide) []
  have opened : Json.skipSpace (jsonList values).toList
      = '[' :: ([','].intercalate (values.map jsonChars) ++ [']']) := by
    rw [jsonList, String.toList_ofList]
    rfl
  rw [decodeList, opened]
  simp only [read]
  rfl

example : decodeList (jsonList [.float ⟨0x8000000000000000⟩, .float ⟨0x3FF0000000000000⟩,
      .float ⟨0x7FF0000000000000⟩, .int Int64.minValue, .text "[1]\x00\"\\"])
    = .ok [.float ⟨0x8000000000000000⟩, .float ⟨0x3FF0000000000000⟩, .null,
      .int Int64.minValue, .text "[1]\x00\"\\"] := by
  decide +kernel

end Value

end BoundSql
