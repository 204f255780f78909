import BoundSql.Fault
import BoundSql.Json.Reader
import BoundSql.Value.Literal

/-!
# Values as JSON

A value is written as the JSON scalar with its contents.  In the other direction
there are two readers of one value: `ofJson` goes by the kind of the JSON value,
while `decode` tries the kinds of values one after the other, and looks at what
follows the value only then; and `decodeList` reads an array of values element by
element.  In these two the first thing wrong in the text decides.
-/

namespace BoundSql.Value

open Json (Refusal Reader)

/-! ## Writing -/

/--
The shortest digits, positional if the leading one stands for 10 ^ (-5) to
10 ^ 15, and whole numbers with a point and a zero; of two equally near decimals
the even one is taken.
-/
def jsonLayout : Layout :=
  ⟨.toEven, some (-5, 15), true⟩

/-- Numbers that are not finite are written as null. -/
def jsonChars : Value → List Char
  | null => "null".toList
  | bool b => (if b then "true" else "false").toList
  | int n => intChars n
  | float x => if x.isFinite then jsonLayout.write x else "null".toList
  | text s => Json.Quoted.write s.toList

def jsonListChars (values : List Value) : List Char :=
  '[' :: [','].intercalate (values.map jsonChars) ++ [']']

def json (v : Value) : String :=
  String.ofList v.jsonChars

def jsonList (values : List Value) : String :=
  String.ofList (jsonListChars values)

/-! ## Reading by kind -/

def ofNumber (n : Json.Number) : Value :=
  match n.toInt64? with
  | some i => int i
  | none => float n.toBinary64

theorem ofNumber_ofInt64 (n : Int64) : ofNumber (.ofInt64 n) = int n := by
  rw [ofNumber, Json.Number.toInt64?_ofInt64]

def ofJson : Json → Except Fault Value
  | .null => .ok null
  | .bool b => .ok (bool b)
  | .number n => .ok (ofNumber n)
  | .string s => .ok (text s)
  | .array _ => .error (.unsupported "JSON array cannot be bound")
  | .object _ => .error (.unsupported "JSON object cannot be bound")

/-! ## Reading by trial -/

def null? : Json → Option Value
  | .null => some null
  | _ => none

def bool? : Json → Option Value
  | .bool b => some (bool b)
  | _ => none

/-- Any integer that fits. -/
def int? : Json → Option Value
  | .number (.natural n) => (Json.Number.signed? n).map int
  | .number (.negative n _) => some (int n)
  | _ => none

/-- Any number; an integer becomes the nearest float. -/
def float? : Json → Option Value
  | .number (.natural n) => some (float (.ofInt n.toNat))
  | .number (.negative n _) => some (float (.ofInt n.toInt))
  | .number (.float x) => some (float x)
  | _ => none

def text? : Json → Option Value
  | .string s => some (text s)
  | _ => none

/-- The first kind of value that the JSON value can be read as. -/
def ofShape (j : Json) : Except Refusal Value :=
  match [null?, bool?, int?, float?, text?].findSome? fun shape => shape j with
  | some v => .ok v
  | none => .error .misshapen

/-- A value that is read whole before its shape is looked at. -/
def shaped (room : Nat) : Reader Value where
  run source :=
    match (Json.value room).run source with
    | .error refusal => .error refusal
    | .ok (j, rest) => (ofShape j).map fun v => (v, rest)
  consumes := by
    intro source v rest h
    split at h
    · cases h
    · next found =>
        obtain ⟨_, _, same⟩ := Json.map_ok h
        cases same
        exact Reader.consumes _ found

/-- The value of a whole text, white space around it allowed. -/
def decode (source : String) : Except Refusal Value :=
  (shaped Json.maxDepth).run (Json.skipSpace source.toList) >>= Json.ended

/-! ## Reading a list -/

/-- The list around an element is one level. -/
def element : Reader Value :=
  shaped (Json.maxDepth - 1)

/--
The values of a JSON array.  A text that opens with anything else has the wrong
shape as soon as that is certain: at once for an object, and for a scalar when
it has been read.
-/
def decodeList (source : String) : Except Refusal (List Value) :=
  match Json.skipSpace source.toList with
  | '[' :: rest => Json.sequence ']' element rest >>= Json.ended
  | '{' :: _ => .error .misshapen
  | other =>
      match Json.readScalar other with
      | none => .error .malformed
      | some _ => .error .misshapen

end BoundSql.Value
