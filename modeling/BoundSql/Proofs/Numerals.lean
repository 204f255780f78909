import BoundSql.Json.Numeral
import Mathlib.Data.List.Basic
import Mathlib.Data.List.TakeWhile

/-!
# What numerals are read from

A numeral may be spelled in several ways, as the exponent has a mark in either
case, a sign or none and zeros in front or not.  Its spellings are what is taken
off the front of a text as this numeral, if the text goes on with a character with
which the numeral could not go on.  One of them is the way in which it is written.
-/

namespace BoundSql

namespace Json.Numeral

/-! ## Writing numerals -/

def fractionChars (digits : List Char) : List Char :=
  if digits.isEmpty then [] else '.' :: digits

def exponentChars : Option Int → List Char
  | none => []
  | some e => 'e' :: (if e < 0 then '-' else '+') :: Nat.toDigits 10 e.natAbs

def chars (n : Numeral) : List Char :=
  (if n.negative then ['-'] else [])
    ++ (n.whole ++ (fractionChars n.fraction ++ exponentChars n.exponent))

structure WellFormed (n : Numeral) : Prop where
  whole_digits : ∀ c ∈ n.whole, c.isDigit = true
  whole_ne_nil : n.whole ≠ []
  leading : n.whole.head? = some '0' → n.whole = ['0']
  fraction_digits : ∀ c ∈ n.fraction, c.isDigit = true

/-! ## Spelling numerals -/

inductive SpellsSigned : Int → List Char → Prop
  | unsigned {digits : List Char} (nonempty : digits ≠ [])
      (all : ∀ c ∈ digits, c.isDigit = true) :
      SpellsSigned (Nat.ofDigitChars 10 digits 0) digits
  | plus {digits : List Char} (nonempty : digits ≠ [])
      (all : ∀ c ∈ digits, c.isDigit = true) :
      SpellsSigned (Nat.ofDigitChars 10 digits 0) ('+' :: digits)
  | minus {digits : List Char} (nonempty : digits ≠ [])
      (all : ∀ c ∈ digits, c.isDigit = true) :
      SpellsSigned (-(Nat.ofDigitChars 10 digits 0 : Int)) ('-' :: digits)

inductive SpellsExponent : Option Int → List Char → Prop
  | absent : SpellsExponent none []
  | marked {mark : Char} {e : Int} {signed : List Char} (isMark : mark = 'e' ∨ mark = 'E') :
      SpellsSigned e signed → SpellsExponent (some e) (mark :: signed)

structure Spells (n : Numeral) (token : List Char) : Prop where
  wellFormed : n.WellFormed
  parts : ∃ exponent, SpellsExponent n.exponent exponent ∧
    token = (if n.negative then ['-'] else [])
      ++ (n.whole ++ (fractionChars n.fraction ++ exponent))

theorem spellsSigned_chars (e : Int) :
    SpellsSigned e ((if e < 0 then '-' else '+') :: Nat.toDigits 10 e.natAbs) := by
  have nonempty : Nat.toDigits 10 e.natAbs ≠ [] := Nat.toDigits_ne_nil
  have all : ∀ c ∈ Nat.toDigits 10 e.natAbs, c.isDigit = true := fun _ h =>
    Nat.isDigit_of_mem_toDigits (by decide) (by decide) h
  have minus := SpellsSigned.minus nonempty all
  have plus := SpellsSigned.plus nonempty all
  rw [Nat.ofDigitChars_ten_toDigits] at minus plus
  split
  · convert minus
    omega
  · convert plus
    omega

theorem spellsExponent_chars (exponent : Option Int) :
    SpellsExponent exponent (exponentChars exponent) := by
  cases exponent with
  | none => exact .absent
  | some e => exact .marked (.inl rfl) (spellsSigned_chars e)

theorem WellFormed.spells_chars {n : Numeral} (wf : n.WellFormed) : n.Spells n.chars :=
  ⟨wf, exponentChars n.exponent, spellsExponent_chars n.exponent, rfl⟩

/-! ## Where a numeral ends -/

def StopsAt (p : Char → Bool) (rest : List Char) : Prop :=
  ∀ c ∈ rest.head?, p c = false

def isPart (c : Char) : Bool :=
  c.isDigit || c == '.' || c == 'e' || c == 'E'

def isMark (c : Char) : Bool :=
  c == 'e' || c == 'E'

/-- Whether a numeral that has been read so far would go on with the character. -/
def goesOn (n : Numeral) (c : Char) : Bool :=
  c.isDigit || n.exponent.isNone && (isMark c || n.fraction.isEmpty && c == '.')

theorem stopsAt_nil {p : Char → Bool} : StopsAt p [] := by
  simp [StopsAt]

theorem stopsAt_cons {p : Char → Bool} {c : Char} {rest : List Char} :
    StopsAt p (c :: rest) ↔ p c = false := by
  simp [StopsAt]

theorem StopsAt.mono {p q : Char → Bool} {rest : List Char} (h : StopsAt p rest)
    (weaker : ∀ c, q c = true → p c = true) : StopsAt q rest := by
  intro c hc
  have stops := h c hc
  cases hq : q c with
  | false => rfl
  | true => rw [weaker c hq] at stops; contradiction

theorem isPart_of_goesOn (n : Numeral) (c : Char) (h : n.goesOn c = true) :
    isPart c = true := by
  simp only [goesOn, isMark, isPart, Bool.or_eq_true, Bool.and_eq_true] at h ⊢
  tauto

/-- One text begins as the other one does, or not as a numeral goes on. -/
def FollowsAs (rest more : List Char) : Prop :=
  more.head? = rest.head? ∨ StopsAt isPart more

theorem FollowsAs.stopsAt {n : Numeral} {rest more : List Char} (h : FollowsAs rest more)
    (stops : StopsAt n.goesOn rest) : StopsAt n.goesOn more := by
  rcases h with same | stopped
  · intro c first
    exact stops c (same ▸ first)
  · exact stopped.mono n.isPart_of_goesOn

theorem followsAs_nil {rest : List Char} : FollowsAs rest [] :=
  .inr stopsAt_nil

theorem followsAs_append {rest more : List Char} (ends : rest = [] → StopsAt isPart more) :
    FollowsAs rest (rest ++ more) := by
  cases rest with
  | nil => exact .inr (ends rfl)
  | cons c rest => exact .inl rfl

theorem stopsAt_goesOn_iff {n : Numeral} {rest : List Char} :
    StopsAt n.goesOn rest ↔ StopsAt Char.isDigit rest ∧
      (n.exponent = none → StopsAt isMark rest) ∧
      (n.exponent = none → n.fraction = [] → StopsAt (· == '.') rest) := by
  cases rest with
  | nil => simp [stopsAt_nil]
  | cons c rest =>
      simp only [stopsAt_cons, goesOn, Bool.or_eq_false_iff, Bool.and_eq_false_iff]
      cases n.exponent <;> cases n.fraction <;> simp

theorem stopsAt_exponent_append {p : Char → Bool} {exponent : Option Int}
    {text rest : List Char} (spelled : SpellsExponent exponent text)
    (mark : ∀ c, isMark c = true → p c = false)
    (stops : exponent = none → StopsAt p rest) : StopsAt p (text ++ rest) := by
  cases spelled with
  | absent => exact stops rfl
  | marked isMark signed =>
      refine stopsAt_cons.mpr (mark _ ?_)
      rcases isMark with rfl | rfl <;> rfl

theorem stopsAt_fraction_append {p : Char → Bool} {fraction rest : List Char}
    (point : p '.' = false) (stops : fraction = [] → StopsAt p rest) :
    StopsAt p (fractionChars fraction ++ rest) := by
  cases fraction with
  | nil => exact stops rfl
  | cons c fraction => exact stopsAt_cons.mpr point

theorem WellFormed.unsigned {n : Numeral} (wf : n.WellFormed) (rest : List Char) :
    StopsAt (· == '-') (n.whole ++ rest) := by
  intro c hc
  rw [List.head?_append_of_ne_nil _ wf.whole_ne_nil] at hc
  have digit := wf.whole_digits c (List.mem_of_mem_head? hc)
  rw [beq_eq_false_iff_ne]
  rintro rfl
  contradiction

/-! ## Reading numerals -/

theorem readDigits_eq_some_iff {text digits rest : List Char} :
    readDigits text = some (digits, rest) ↔
      (digits ≠ [] ∧ ∀ c ∈ digits, c.isDigit = true) ∧ text = digits ++ rest ∧
        StopsAt Char.isDigit rest := by
  constructor
  · intro h
    obtain ⟨nonempty, split⟩ := readDigits_eq_some h
    unfold readDigits at h
    split at h
    · contradiction
    · obtain ⟨rfl, rfl⟩ := Prod.mk.inj (Option.some.inj h)
      refine ⟨⟨nonempty, fun c hc => List.mem_takeWhile_imp hc⟩, split, ?_⟩
      intro c hc
      have first := List.head?_dropWhile_not Char.isDigit text
      rw [Option.mem_def.mp hc] at first
      exact first
  · rintro ⟨⟨nonempty, all⟩, rfl, stops⟩
    have none_taken : rest.takeWhile Char.isDigit = [] ∧ rest.dropWhile Char.isDigit = rest := by
      cases rest with
      | nil => exact ⟨rfl, rfl⟩
      | cons c rest =>
          have other : c.isDigit = false := stopsAt_cons.mp stops
          simp [other]
    unfold readDigits
    rw [List.takeWhile_append_of_pos all, List.dropWhile_append_of_pos all, none_taken.1,
      none_taken.2, List.append_nil]
    cases digits with
    | nil => contradiction
    | cons c digits => rfl

theorem readWhole_eq_some_iff {text digits rest : List Char} :
    readWhole text = some (digits, rest) ↔
      readDigits text = some (digits, rest) ∧ (digits.head? = some '0' → digits = ['0']) := by
  unfold readWhole
  constructor
  · intro h
    split at h
    · contradiction
    · next other =>
        refine ⟨h, fun zero => ?_⟩
        cases digits with
        | nil => contradiction
        | cons c digits =>
            obtain rfl : c = '0' := Option.some.inj zero
            cases digits with
            | nil => rfl
            | cons d digits => exact absurd h (other d digits rest)
  · rintro ⟨h, leading⟩
    split
    · next zero =>
        rw [h] at zero
        simp_all
    · exact h

theorem readFraction_eq_some_iff {text digits rest : List Char} :
    readFraction text = some (digits, rest) ↔
      (∀ c ∈ digits, c.isDigit = true) ∧ text = fractionChars digits ++ rest ∧
        (digits = [] → StopsAt (· == '.') rest) ∧
        (digits ≠ [] → StopsAt Char.isDigit rest) := by
  constructor
  · intro h
    unfold readFraction at h
    split at h
    · obtain ⟨⟨nonempty, all⟩, rfl, stops⟩ := readDigits_eq_some_iff.mp h
      have point : fractionChars digits = '.' :: digits := by simp [fractionChars, nonempty]
      exact ⟨all, by rw [point]; rfl, fun empty => absurd empty nonempty, fun _ => stops⟩
    · next other =>
        obtain ⟨rfl, rfl⟩ := Prod.mk.inj (Option.some.inj h)
        refine ⟨by simp, rfl, fun _ => ?_, by simp⟩
        cases text with
        | nil => exact stopsAt_nil
        | cons c text =>
            rw [stopsAt_cons, beq_eq_false_iff_ne]
            rintro rfl
            exact other text rfl
  · rintro ⟨all, rfl, point, digit⟩
    cases digits with
    | nil =>
        cases rest with
        | nil => rfl
        | cons c rest =>
            have other := stopsAt_cons.mp (point rfl)
            rw [beq_eq_false_iff_ne] at other
            simp [fractionChars, readFraction, other]
    | cons c digits =>
        have nonempty := List.cons_ne_nil c digits
        exact readDigits_eq_some_iff.mpr ⟨⟨nonempty, all⟩, rfl, digit nonempty⟩

theorem readSigned_eq_some_iff {text rest : List Char} {e : Int} :
    readSigned text = some (e, rest) ↔
      ∃ signed, SpellsSigned e signed ∧ text = signed ++ rest ∧ StopsAt Char.isDigit rest := by
  constructor
  · intro h
    unfold readSigned at h
    split at h <;> obtain ⟨⟨digits, after⟩, found, same⟩ := Option.map_eq_some_iff.mp h <;>
      obtain ⟨rfl, rfl⟩ := Prod.mk.inj same <;>
      obtain ⟨⟨nonempty, all⟩, rfl, stops⟩ := readDigits_eq_some_iff.mp found
    · exact ⟨_, .minus nonempty all, rfl, stops⟩
    · exact ⟨_, .plus nonempty all, rfl, stops⟩
    · exact ⟨_, .unsigned nonempty all, rfl, stops⟩
  · rintro ⟨signed, spelled, rfl, stops⟩
    cases spelled with
    | plus nonempty all | minus nonempty all =>
        have found := readDigits_eq_some_iff.mpr ⟨⟨nonempty, all⟩, rfl, stops⟩
        simp [readSigned, found]
    | unsigned nonempty all =>
        have found := readDigits_eq_some_iff.mpr ⟨⟨nonempty, all⟩, rfl, stops⟩
        obtain ⟨c, digits, rfl⟩ := List.exists_cons_of_ne_nil nonempty
        have digit := all c List.mem_cons_self
        have unsigned : c ≠ '-' ∧ c ≠ '+' := by
          constructor <;>
            · rintro rfl
              contradiction
        rw [List.cons_append] at found
        simp [readSigned, unsigned, found]

theorem readExponent_eq_some_iff {text rest : List Char} {exponent : Option Int} :
    readExponent text = some (exponent, rest) ↔
      ∃ spelling, SpellsExponent exponent spelling ∧ text = spelling ++ rest ∧
        (exponent = none → StopsAt isMark rest) ∧
        (exponent ≠ none → StopsAt Char.isDigit rest) := by
  constructor
  · intro h
    cases text with
    | nil =>
        obtain ⟨rfl, rfl⟩ := Prod.mk.inj (Option.some.inj h)
        exact ⟨[], .absent, rfl, fun _ => stopsAt_nil, by simp⟩
    | cons c text =>
        simp only [readExponent] at h
        split at h
        · next mark =>
            obtain ⟨⟨e, after⟩, found, same⟩ := Option.map_eq_some_iff.mp h
            obtain ⟨rfl, rfl⟩ := Prod.mk.inj same
            obtain ⟨signed, spelled, rfl, stops⟩ := readSigned_eq_some_iff.mp found
            exact ⟨c :: signed, .marked mark spelled, rfl, by simp, fun _ => stops⟩
        · next other =>
            obtain ⟨rfl, rfl⟩ := Prod.mk.inj (Option.some.inj h)
            refine ⟨[], .absent, rfl, fun _ => ?_, by simp⟩
            simpa [stopsAt_cons, isMark] using other
  · rintro ⟨spelling, spelled, rfl, mark, digit⟩
    cases spelled with
    | absent =>
        cases rest with
        | nil => rfl
        | cons c rest =>
            have other := stopsAt_cons.mp (mark rfl)
            simp only [isMark, Bool.or_eq_false_iff, beq_eq_false_iff_ne] at other
            simp [readExponent, other.1, other.2]
    | marked isMark signed =>
        have found := readSigned_eq_some_iff.mpr ⟨_, signed, rfl, digit (by simp)⟩
        simp [readExponent, isMark, found]

theorem readSign_append (negative : Bool) {text : List Char}
    (stops : StopsAt (· == '-') text) :
    readSign ((if negative then ['-'] else []) ++ text) = (negative, text) := by
  cases negative with
  | true => rfl
  | false =>
      cases text with
      | nil => rfl
      | cons c text =>
          have other := stopsAt_cons.mp stops
          simp only [beq_eq_false_iff_ne] at other
          simp [readSign, other]

theorem readSign_eq (text : List Char) :
    text = (if (readSign text).1 then ['-'] else []) ++ (readSign text).2 := by
  unfold readSign
  split <;> rfl

/-- The spellings of a numeral are taken off, and nothing else is. -/
theorem read_eq_some_iff {text rest : List Char} {n : Numeral} :
    read text = some (n, rest) ↔
      ∃ token, n.Spells token ∧ text = token ++ rest ∧ StopsAt n.goesOn rest := by
  constructor
  · intro h
    simp only [read, Option.bind_eq_bind, Option.bind_eq_some_iff, Option.pure_def,
      Option.some.injEq, Prod.mk.injEq, Prod.exists] at h
    obtain ⟨whole, afterWhole, hwhole, fraction, afterFraction, hfraction, exponent, after,
      hexponent, rfl, rfl⟩ := h
    obtain ⟨hdigits, leading⟩ := readWhole_eq_some_iff.mp hwhole
    obtain ⟨⟨nonempty, all⟩, unsigned, stops⟩ := readDigits_eq_some_iff.mp hdigits
    obtain ⟨all', rfl, point, digit⟩ := readFraction_eq_some_iff.mp hfraction
    obtain ⟨spelling, spelled, rfl, mark, digit'⟩ := readExponent_eq_some_iff.mp hexponent
    refine ⟨_, ⟨⟨all, nonempty, leading, all'⟩, spelling, spelled, rfl⟩, ?_, ?_⟩
    · conv_lhs => rw [readSign_eq text, unsigned]
      simp only [List.append_assoc]
    · refine stopsAt_goesOn_iff.mpr ⟨?_, mark, ?_⟩
      · cases spelled with
        | marked => exact digit' (by simp)
        | absent =>
            cases fraction with
            | nil => exact stops
            | cons c fraction => exact digit (by simp)
      · rintro rfl rfl
        cases spelled
        exact point rfl
  · rintro ⟨token, ⟨wf, spelling, spelled, rfl⟩, rfl, stops⟩
    obtain ⟨digit, mark, point⟩ := stopsAt_goesOn_iff.mp stops
    have afterFraction : n.fraction = [] → StopsAt (· == '.') (spelling ++ rest) := fun empty =>
      stopsAt_exponent_append spelled (by simp [isMark]) fun absent => point absent empty
    have afterDigits : StopsAt Char.isDigit (spelling ++ rest) :=
      stopsAt_exponent_append spelled (by simp [isMark]) fun _ => digit
    have afterWhole : StopsAt Char.isDigit (fractionChars n.fraction ++ (spelling ++ rest)) :=
      stopsAt_fraction_append rfl fun _ => afterDigits
    have sign := readSign_append n.negative
      (wf.unsigned (fractionChars n.fraction ++ (spelling ++ rest)))
    have whole := readWhole_eq_some_iff.mpr ⟨readDigits_eq_some_iff.mpr
      ⟨⟨wf.whole_ne_nil, wf.whole_digits⟩, rfl, afterWhole⟩, wf.leading⟩
    have fraction := readFraction_eq_some_iff.mpr
      ⟨wf.fraction_digits, rfl, afterFraction, fun _ => afterDigits⟩
    have exponent := readExponent_eq_some_iff.mpr
      ⟨spelling, spelled, rfl, mark, fun _ => digit⟩
    simp only [read, List.append_assoc, sign, whole, fraction, exponent, Option.bind_eq_bind,
      Option.bind_some]
    rfl

theorem read_chars_append {n : Numeral} (wf : n.WellFormed) {rest : List Char}
    (stops : StopsAt isPart rest) : read (n.chars ++ rest) = some (n, rest) :=
  read_eq_some_iff.mpr ⟨n.chars, wf.spells_chars, rfl, stops.mono (isPart_of_goesOn n)⟩

theorem read_split {text rest : List Char} {n : Numeral} (found : read text = some (n, rest)) :
    ∃ used, text = used ++ rest ∧
      ∀ more, FollowsAs rest more → read (used ++ more) = some (n, more) := by
  obtain ⟨token, spelled, split, stops⟩ := read_eq_some_iff.mp found
  exact ⟨token, split, fun more follows =>
    read_eq_some_iff.mpr ⟨token, spelled, rfl, follows.stopsAt stops⟩⟩

end Json.Numeral

end BoundSql
