import BoundSql.Proofs.NumberValues
import BoundSql.Proofs.Readers

/-!
# Two readers of one value

Reading by kind and reading by trial accept the same texts and give the same
value.  Arrays and objects both refuse, each in its own way.  They differ in one
thing: reading by kind starts with the whole text, so that what follows an array
or an object makes it malformed, while the trial looks at the shape first.
What they give for a number is a matter of its token alone.  An integer token is
that integer, and every other one is the closest float, as long as there is one
in range.
-/

namespace BoundSql

namespace Json

open Numeral (StopsAt isPart)

theorem skipSpace_of_blank {text : List Char} (blank : ∀ c ∈ text, isSpace c = true) :
    skipSpace text = [] :=
  List.dropWhile_eq_nil_iff.mpr blank

theorem isPart_of_isSpace {c : Char} (space : isSpace c = true) : isPart c = false := by
  have blank := isSpace_iff_mem.mp space
  simp only [List.mem_cons, List.not_mem_nil, or_false] at blank
  rcases blank with rfl | rfl | rfl | rfl <;> rfl

theorem stopsAt_of_blank {text : List Char} (blank : ∀ c ∈ text, isSpace c = true) :
    StopsAt isPart text := fun c first =>
  isPart_of_isSpace (blank c (List.mem_of_mem_head? first))

theorem skipSpace_of_read {text : List Char} {found : Numeral × List Char}
    (read : Numeral.read text = some found) : skipSpace text = text :=
  skipSpace_of_eq_some read (by simp [Numeral.read, Numeral.readSign, Numeral.readWhole,
    Numeral.readDigits])

theorem run_valueOver_of_read (inner : Option (Reader Json)) {text rest : List Char} {n : Numeral}
    (found : Numeral.read text = some (n, rest)) :
    (valueOver inner).run text
      = n.number?.elim (.error .malformed) fun number => .ok (.number number, rest) := by
  simp only [valueOver]
  split
  · contradiction
  · contradiction
  · contradiction
  · contradiction
  · rw [readScalar_eq_of_read found]
    cases n.number? <;> rfl

theorem run_token {n : Numeral} {token before after : List Char} (spelled : n.Spells token)
    (leading : ∀ c ∈ before, isSpace c = true) (trailing : ∀ c ∈ after, isSpace c = true) :
    (value maxDepth).run (skipSpace (before ++ token ++ after))
      = n.number?.elim (.error .malformed) fun number => .ok (.number number, after) := by
  have found : Numeral.read (token ++ after) = some (n, after) :=
    Numeral.read_eq_some_iff.mpr
      ⟨token, spelled, rfl, (stopsAt_of_blank trailing).mono n.isPart_of_goesOn⟩
  have start : skipSpace (before ++ token ++ after) = token ++ after := by
    rw [List.append_assoc, skipSpace_append_of_blank (skipSpace_of_blank leading),
      skipSpace_of_read found]
  rw [start]
  exact run_valueOver_of_read _ found

/-! ## Texts with something after a value -/

theorem exists_parse_of_run {t : String} {j : Json} {rest : List Char}
    (run : (value maxDepth).run (skipSpace t.toList) = .ok (j, rest)) :
    ∃ u r, t = u ++ r ∧ parse u = .ok j := by
  obtain ⟨used, split, again⟩ := (value_stands maxDepth).run_skipSpace run
  refine ⟨String.ofList used, String.ofList rest, ?_, ?_⟩
  · apply String.toList_injective
    simpa using split
  · refine parse_eq_ok_iff.mpr ⟨[], ?_, rfl⟩
    simpa using again [] Numeral.followsAs_nil

theorem run_of_parse_nested {u : String} {j : Json} (parsed : parse u = .ok j)
    (nested : 0 < j.depth) (r : String) :
    ∃ rest, (value maxDepth).run (skipSpace (u ++ r).toList) = .ok (j, rest) := by
  obtain ⟨rest, run, -⟩ := parse_eq_ok_iff.mp parsed
  refine ⟨rest ++ r.toList, ?_⟩
  rw [String.toList_append, skipSpace_append (Reader.run_ne_nil run)]
  exact run_value_append run r.toList fun _ scalar => absurd scalar nested.ne'

theorem parse_of_run {t : String} {j : Json} {rest : List Char}
    (run : (value maxDepth).run (skipSpace t.toList) = .ok (j, rest)) :
    parse t = if (skipSpace rest).isEmpty then .ok j else .error .malformed := by
  rw [parse, run]
  rfl

end Json

namespace Value

open Json (Refusal Numeral isSpace maxDepth skipSpace)
open Binary64 (limit)

/-! ## Both readers on one text -/

/-- The text starts with a whole array or object. -/
def StartsNested (t : String) : Prop :=
  ∃ u r j, t = u ++ r ∧ Json.parse u = .ok j ∧ 0 < j.depth

inductive AgreeOn (t : String) : Prop
  | malformed (parsed : Json.parse t = .error .malformed) (other : ¬ StartsNested t)
      (tried : decode t = .error .malformed)
  | shapeFirst (parsed : Json.parse t = .error .malformed) (starts : StartsNested t)
      (tried : decode t = .error .misshapen)
  | scalar (j : Json) (v : Value) (parsed : Json.parse t = .ok j) (byKind : ofJson j = .ok v)
      (tried : decode t = .ok v)
  | array (items : List Json) (parsed : Json.parse t = .ok (.array items))
      (byKind : ofJson (.array items) = .error (.unsupported "JSON array cannot be bound"))
      (tried : decode t = .error .misshapen)
  | object (members : List (String × Json)) (parsed : Json.parse t = .ok (.object members))
      (byKind : ofJson (.object members) = .error (.unsupported "JSON object cannot be bound"))
      (tried : decode t = .error .misshapen)

theorem StartsNested.exists_run {t : String} (h : StartsNested t) : ∃ j rest,
    (Json.value maxDepth).run (skipSpace t.toList) = .ok (j, rest) ∧ 0 < j.depth := by
  obtain ⟨u, r, j, rfl, parsed, nested⟩ := h
  obtain ⟨rest, run⟩ := Json.run_of_parse_nested parsed nested r
  exact ⟨j, rest, run, nested⟩

theorem agreeOn_of_refused {t : String} {refusal : Refusal}
    (refused : (Json.value maxDepth).run (skipSpace t.toList) = .error refusal) :
    AgreeOn t := by
  obtain rfl := Json.value_strict _ refused
  refine .malformed (by rw [Json.parse, refused]; rfl) (fun starts => ?_)
    (decode_of_refused refused)
  obtain ⟨j, rest, run, -⟩ := starts.exists_run
  rw [run] at refused
  contradiction

theorem agreeOn_of_more {t : String} {j : Json} {rest : List Char}
    (run : (Json.value maxDepth).run (skipSpace t.toList) = .ok (j, rest))
    (more : skipSpace rest ≠ []) : AgreeOn t := by
  have parsed : Json.parse t = .error .malformed := by
    rw [Json.parse_of_run run, if_neg (by simpa using more)]
  have tried := decode_of_run run
  rcases Nat.eq_zero_or_pos j.depth with single | nested
  · obtain ⟨v, shape⟩ := exists_ofShape single
    refine .malformed parsed (fun starts => ?_) ?_
    · obtain ⟨other, _, again, nested⟩ := starts.exists_run
      obtain ⟨rfl, -⟩ := Prod.mk.inj (Except.ok.inj (run.symm.trans again))
      exact absurd single nested.ne'
    · rw [tried, shape]
      exact if_neg (by simpa using more)
  · obtain ⟨u, r, split, front⟩ := Json.exists_parse_of_run run
    refine .shapeFirst parsed ⟨u, r, j, split, front, nested⟩ ?_
    rw [tried, ofShape_of_depth_pos nested]
    rfl

theorem agreeOn_of_ended {t : String} {j : Json} {rest : List Char}
    (run : (Json.value maxDepth).run (skipSpace t.toList) = .ok (j, rest))
    (blank : skipSpace rest = []) : AgreeOn t := by
  have parsed : Json.parse t = .ok j := Json.parse_eq_ok_iff.mpr ⟨rest, run, blank⟩
  have tried : decode t = ofShape j := by
    rw [decode_of_run run, blank]
    cases ofShape j <;> rfl
  cases j with
  | null => exact .scalar _ null parsed rfl tried
  | bool b => exact .scalar _ (bool b) parsed rfl tried
  | string s => exact .scalar _ (text s) parsed rfl tried
  | number n => exact .scalar _ (ofNumber n) parsed rfl (tried.trans (ofShape_number n))
  | array items => exact .array items parsed rfl tried
  | object members => exact .object members parsed rfl tried

theorem agreeOn (t : String) : AgreeOn t := by
  cases run : (Json.value maxDepth).run (skipSpace t.toList) with
  | error refusal => exact agreeOn_of_refused run
  | ok found =>
      obtain ⟨j, rest⟩ := found
      by_cases blank : skipSpace rest = []
      · exact agreeOn_of_ended run blank
      · exact agreeOn_of_more run blank

/-! ## Numbers -/

/-- What may be read from a text that holds one token of a numeral. -/
def OfToken (n : Numeral) (token : List Char) : Except Refusal Value → Prop
  | .ok (int i) => n.IsIntegerToken token ∧ (i.toInt : ℚ) = n.value
  | .ok (float x) => ¬ n.IsIntegerToken token ∧ n.Denotes x
  | .error .malformed => ¬ n.IsIntegerToken token ∧ limit ≤ |n.value|
  | .ok null | .ok (bool _) | .ok (text _) | .error .misshapen => False

theorem ofNumber_cases (n : Json.Number) :
    (∃ i, ofNumber n = int i) ∨ ∃ x, ofNumber n = float x := by
  unfold ofNumber
  split
  · exact .inl ⟨_, rfl⟩
  · exact .inr ⟨_, rfl⟩

theorem ofToken_iff {n : Numeral} {token : List Char} (spelled : n.Spells token)
    (result : Except Refusal Value) : OfToken n token result ↔
      (n.number?.map ofNumber).elim (.error .malformed) .ok = result := by
  have integers := spelled.number?_integer_iff
  have floats := spelled.number?_float_iff
  have none_left := spelled.number?_none_iff
  cases result with
  | error refusal =>
      cases refusal with
      | misshapen => cases n.number? <;> simp [OfToken]
      | malformed =>
          rw [OfToken, ← none_left]
          cases n.number? <;> simp
  | ok v =>
      cases v with
      | int i =>
          rw [OfToken, ← integers]
          cases n.number? <;> simp
      | float x =>
          rw [OfToken, ← floats]
          cases n.number? <;> simp
      | null | bool b | text s =>
          cases n.number? with
          | none => simp [OfToken]
          | some number =>
              rcases ofNumber_cases number with ⟨i, same⟩ | ⟨x, same⟩ <;> simp [OfToken, same]

theorem decode_token {n : Numeral} {token before after : List Char} (spelled : n.Spells token)
    (leading : ∀ c ∈ before, isSpace c = true) (trailing : ∀ c ∈ after, isSpace c = true) :
    decode (String.ofList (before ++ token ++ after))
      = (n.number?.map ofNumber).elim (.error .malformed) .ok := by
  have run := Json.run_token spelled leading trailing
  rw [← String.toList_ofList (l := before ++ token ++ after)] at run
  cases number : n.number? with
  | none =>
      rw [number] at run
      exact decode_of_refused run
  | some found =>
      rw [number] at run
      rw [decode_of_run run, ofShape_number, Json.skipSpace_of_blank trailing]
      rfl

/--
The two readers agree on every text, but for the order in which they look at
shape and end; and what is read of a number token between blanks is the one thing
that its characters and its exact value allow.
-/
theorem readers_agree :
    (∀ t, AgreeOn t) ∧
    ∀ (n : Numeral) (token before after : List Char), n.Spells token →
      (∀ c ∈ before, isSpace c = true) → (∀ c ∈ after, isSpace c = true) →
      ∀ result, decode (String.ofList (before ++ token ++ after)) = result ↔
        OfToken n token result := by
  refine ⟨agreeOn, fun n token before after spelled leading trailing result => ?_⟩
  rw [decode_token spelled leading trailing, ofToken_iff spelled]

theorem not_malformed_alike_after_array :
    Json.parse "[1] x" = .error .malformed ∧ decode "[1] x" = .error .misshapen ∧
    ¬ ∀ t, Json.parse t = .error .malformed ↔ decode t = .error .malformed := by
  have refused : (Json.parse "[1] x").isOk = false := by decide +kernel
  have parsed : Json.parse "[1] x" = .error .malformed := by
    cases found : Json.parse "[1] x" with
    | error refusal => rw [Json.parse_strict found]
    | ok j => rw [found] at refused; cases refused
  have tried : decode "[1] x" = .error .misshapen := by decide +kernel
  refine ⟨parsed, tried, fun alike => ?_⟩
  have other := (alike "[1] x").mp parsed
  rw [tried] at other
  cases other

theorem readers_agree_minus_zero :
    Numeral.Spells ⟨true, ['0'], [], none⟩ ['-', '0'] ∧
    (∀ c ∈ [' ', '\t'], isSpace c = true) ∧ (∀ c ∈ ['\n'], isSpace c = true) ∧
    decode " \t-0\n" = .ok (float ⟨0x8000000000000000⟩) := by
  have spelled : Numeral.Spells ⟨true, ['0'], [], none⟩ ['-', '0'] :=
    ⟨⟨by simp, by simp, by simp, by simp⟩, [], .absent, rfl⟩
  have denotes : Numeral.Denotes ⟨true, ['0'], [], none⟩ ⟨0x8000000000000000⟩ :=
    (Numeral.denotes_iff _ _).mpr ⟨by decide, by decide⟩
  have ofToken : OfToken ⟨true, ['0'], [], none⟩ ['-', '0'] (.ok (float ⟨0x8000000000000000⟩)) :=
    ⟨fun integer => integer.nonzero rfl, denotes⟩
  have leading : ∀ c ∈ [' ', '\t'], isSpace c = true := by simp [isSpace]
  have trailing : ∀ c ∈ ['\n'], isSpace c = true := by simp [isSpace]
  exact ⟨spelled, leading, trailing,
    (readers_agree.2 _ _ _ _ spelled leading trailing _).mpr ofToken⟩

example : decode "9223372036854775807" = .ok (int Int64.maxValue) ∧
    decode "9223372036854775808" = .ok (float ⟨0x43E0000000000000⟩) ∧
    decode "1E0" = .ok (float ⟨0x3FF0000000000000⟩) ∧ decode "1e309" = .error .malformed := by
  decide +kernel

end Value

end BoundSql
