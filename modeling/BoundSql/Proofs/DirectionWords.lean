import BoundSql.Direction
import BoundSql.Proofs.Blank
import Mathlib.Data.List.Forall2

/-!
# The words for directions

A direction is written as its word with white space around it.  Each letter of
the word is a capital or a small one, and no other character stands for it, also
none that Unicode would fold to the same letter.  Reading accepts what is written
in this way and refuses all else.
-/

namespace BoundSql

namespace Text

/-! ## Letters in either case -/

def AreCases (letter : Char × Char) : Prop :=
  0x61 ≤ letter.2.toNat ∧ letter.2.toNat ≤ 0x7A ∧ letter.1.toNat + 0x20 = letter.2.toNat

theorem toNat_toLower (c : Char) :
    c.toLower.toNat
      = if 0x41 ≤ c.toNat ∧ c.toNat ≤ 0x5A then c.toNat + 0x20 else c.toNat := by
  have codes : (c.val ≥ 'A'.val ∧ c.val ≤ 'Z'.val) ↔ 0x41 ≤ c.toNat ∧ c.toNat ≤ 0x5A := Iff.rfl
  unfold Char.toLower
  split
  · next capital =>
      have code := codes.mp capital
      have step : ('a'.val - 'A'.val).toNat = 0x20 := rfl
      rw [if_pos code, ← Char.toNat_val, UInt32.toNat_add, Char.toNat_val, step]
      exact Nat.mod_eq_of_lt (by omega)
  · next other => rw [if_neg (mt codes.mpr other)]

theorem toLower_eq_iff {letter : Char × Char} (h : AreCases letter) (c : Char) :
    c.toLower = letter.2 ↔ c = letter.1 ∨ c = letter.2 := by
  obtain ⟨first, last, pair⟩ := h
  rw [← Char.toNat_inj, ← Char.toNat_inj, ← Char.toNat_inj, toNat_toLower]
  split <;> omega

def Spells (letters : List (Char × Char)) (word : List Char) : Prop :=
  List.Forall₂ (fun letter c => c = letter.1 ∨ c = letter.2) letters word

theorem spells_iff {letters : List (Char × Char)} (paired : ∀ letter ∈ letters, AreCases letter)
    (word : List Char) :
    Spells letters word ↔ word.map Char.toLower = letters.map Prod.snd := by
  induction letters generalizing word with
  | nil => simp [Spells]
  | cons letter letters ih =>
      obtain ⟨here, others⟩ := List.forall_mem_cons.mp paired
      cases word with
      | nil => simp [Spells]
      | cons c word =>
          rw [Spells, List.forall₂_cons, List.map_cons, List.map_cons, List.cons.injEq,
            toLower_eq_iff here, ← ih others]
          rfl

theorem Spells.solid {letters : List (Char × Char)} {word : List Char}
    (paired : ∀ letter ∈ letters, AreCases letter) (h : Spells letters word) :
    ∀ c ∈ word, isBlank c = false := by
  unfold Spells at h
  induction h with
  | nil => simp
  | @cons letter c letters word spelled _ ih =>
      obtain ⟨⟨first, last, pair⟩, others⟩ := List.forall_mem_cons.mp paired
      have visible : isBlank c = false := by
        rcases spelled with rfl | rfl <;> exact isBlank_of_visible (by omega)
      exact List.forall_mem_cons.mpr ⟨visible, ih others⟩

end Text

namespace Direction

/-! ## Words with white space around them -/

def letters : Direction → List (Char × Char)
  | asc => [('A', 'a'), ('S', 's'), ('C', 'c')]
  | desc => [('D', 'd'), ('E', 'e'), ('S', 's'), ('C', 'c')]

@[ext]
structure Parts where
  before : String
  word : String
  after : String

/-- The text is the word of the direction, with nothing but white space around it. -/
structure Written (direction : Direction) (given : String) (parts : Parts) : Prop where
  whole : given = parts.before ++ parts.word ++ parts.after
  leading : ∀ c ∈ parts.before.toList, c ∈ Text.whiteSpace
  spelled : Text.Spells direction.letters parts.word.toList
  trailing : ∀ c ∈ parts.after.toList, c ∈ Text.whiteSpace

theorem areCases_letters (direction : Direction) :
    ∀ letter ∈ direction.letters, Text.AreCases letter := by
  cases direction <;> simp [letters, Text.AreCases]

theorem parse?_eq_some_iff (given : String) (direction : Direction) :
    parse? given = some direction ↔ Text.Spells direction.letters (Text.trim given.toList) := by
  have read : parse? given = some direction ↔ word given = direction.letters.map Prod.snd := by
    by_cases ascending : word given = ['a', 's', 'c']
    · cases direction <;> simp [parse?, letters, ascending]
    · by_cases descending : word given = ['d', 'e', 's', 'c']
      · cases direction <;> simp [parse?, letters, descending]
      · cases direction <;> simp [parse?, letters, ascending, descending]
  rw [read, Text.spells_iff direction.areCases_letters, word]

namespace Written

variable {direction : Direction} {given : String} {parts : Parts}

theorem padded (h : direction.Written given parts) :
    Text.Padded parts.before.toList parts.word.toList parts.after.toList where
  leading c hc := (Text.isBlank_iff_mem_whiteSpace c).mpr (h.leading c hc)
  filled := by
    intro nothing
    have length := h.spelled.length_eq
    rw [nothing] at length
    cases direction <;> contradiction
  solid := h.spelled.solid direction.areCases_letters
  trailing c hc := (Text.isBlank_iff_mem_whiteSpace c).mpr (h.trailing c hc)

theorem toList_eq (h : direction.Written given parts) :
    given.toList = parts.before.toList ++ parts.word.toList ++ parts.after.toList := by
  rw [h.whole, String.toList_append, String.toList_append]

theorem parse_eq (h : direction.Written given parts) : parse given = .ok direction := by
  rw [parse_eq_ok_iff, parse?_eq_some_iff, h.toList_eq, h.padded.trim_eq]
  exact h.spelled

theorem unique {other : Direction} {others : Parts} (h : direction.Written given parts)
    (h' : other.Written given others) : direction = other ∧ parts = others := by
  have directions : direction = other := Except.ok.inj (h.parse_eq.symm.trans h'.parse_eq)
  obtain ⟨befores, words, afters⟩ :=
    h.padded.unique h'.padded (h.toList_eq.symm.trans h'.toList_eq)
  refine ⟨directions, Parts.ext ?_ ?_ ?_⟩
  · exact String.toList_injective befores
  · exact String.toList_injective words
  · exact String.toList_injective afters

end Written

theorem exists_written {given : String} {direction : Direction}
    (h : parse given = .ok direction) : ∃ parts, direction.Written given parts := by
  rw [parse_eq_ok_iff, parse?_eq_some_iff] at h
  obtain ⟨before, after, leading, trailing, whole⟩ := Text.exists_blank_around given.toList
  refine ⟨⟨.ofList before, .ofList (Text.trim given.toList), .ofList after⟩, ?_, ?_, ?_, ?_⟩
  · rw [← String.ofList_append, ← String.ofList_append, ← whole, String.ofList_toList]
  · simpa only [String.toList_ofList, ← Text.isBlank_iff_mem_whiteSpace] using leading
  · rwa [String.toList_ofList]
  · simpa only [String.toList_ofList, ← Text.isBlank_iff_mem_whiteSpace] using trailing

theorem parse_eq_ok_iff_written (given : String) (direction : Direction) :
    parse given = .ok direction ↔ ∃ parts, direction.Written given parts :=
  ⟨exists_written, fun ⟨_, written⟩ => written.parse_eq⟩

theorem parse_eq_error_iff_written (given : String) (fault : Fault) :
    parse given = .error fault ↔
      fault = .invalidDirection given ∧
        ∀ (direction : Direction) (parts : Parts), ¬ direction.Written given parts := by
  constructor
  · intro refused
    refine ⟨((parse_eq_error_iff given fault).mp refused).2, fun direction parts written => ?_⟩
    rw [written.parse_eq] at refused
    contradiction
  · rintro ⟨rfl, unwritten⟩
    refine (parse_eq_error_iff given _).mpr ⟨?_, rfl⟩
    refine Option.eq_none_iff_forall_ne_some.mpr fun direction found => ?_
    obtain ⟨parts, written⟩ := exists_written ((parse_eq_ok_iff given direction).mpr found)
    exact unwritten direction parts written

theorem spells_of_keyword {direction : Direction} {word : List Char}
    (same : word.map Char.toLower = direction.keyword.toList.map Char.toLower) :
    Text.Spells direction.letters word := by
  rw [Text.spells_iff direction.areCases_letters, same]
  cases direction <;> rfl

/--
A text is read as a direction exactly when it is the word of that direction with
white space around it.  It is so for one direction and in one way at most; every
other text is refused, and reported as it was given.  So the keyword of a
direction is read back in any case of its letters and between any white space.
-/
theorem reads_written_directions :
    (∀ given direction, parse given = .ok direction ↔ ∃ parts, direction.Written given parts) ∧
    (∀ (given : String) (direction other : Direction) (parts others : Parts),
      direction.Written given parts → other.Written given others →
        direction = other ∧ parts = others) ∧
    (∀ given fault, parse given = .error fault ↔
      fault = .invalidDirection given ∧
        ∀ (direction : Direction) (parts : Parts), ¬ direction.Written given parts) ∧
    ∀ (direction : Direction) (before word after : String),
      (∀ c ∈ before.toList, c ∈ Text.whiteSpace) → (∀ c ∈ after.toList, c ∈ Text.whiteSpace) →
      word.toList.map Char.toLower = direction.keyword.toList.map Char.toLower →
        parse (before ++ word ++ after) = .ok direction := by
  refine ⟨parse_eq_ok_iff_written, fun _ _ _ _ _ h h' => h.unique h',
    parse_eq_error_iff_written, ?_⟩
  intro direction before word after leading trailing same
  have written : direction.Written (before ++ word ++ after) ⟨before, word, after⟩ :=
    ⟨rfl, leading, spells_of_keyword same, trailing⟩
  exact written.parse_eq

theorem reads_written_directions_mixed :
    desc.Written ("\u3000" ++ "dEsC" ++ "\t\n") ⟨"\u3000", "dEsC", "\t\n"⟩ ∧
    parse ("\u3000" ++ "dEsC" ++ "\t\n") = .ok desc ∧
    ¬ asc.Written ("\u3000" ++ "dEsC" ++ "\t\n") ⟨"\u3000", "dEsC", "\t\n"⟩ ∧
    (∀ c ∈ "\u2028".toList, c ∈ Text.whiteSpace) ∧ (∀ c ∈ "".toList, c ∈ Text.whiteSpace) ∧
    "aSc".toList.map Char.toLower = asc.keyword.toList.map Char.toLower ∧
    parse ("\u2028" ++ "aSc" ++ "") = .ok asc := by
  obtain ⟨reads, alone, -, keywords⟩ := reads_written_directions
  have written : desc.Written ("\u3000" ++ "dEsC" ++ "\t\n") ⟨"\u3000", "dEsC", "\t\n"⟩ := by
    refine ⟨rfl, by simp [Text.whiteSpace], ?_, by simp [Text.whiteSpace]⟩
    simp [letters, Text.Spells]
  have leading : ∀ c ∈ "\u2028".toList, c ∈ Text.whiteSpace := by simp [Text.whiteSpace]
  have trailing : ∀ c ∈ "".toList, c ∈ Text.whiteSpace := by simp
  have same : "aSc".toList.map Char.toLower = asc.keyword.toList.map Char.toLower := by decide
  refine ⟨written, (reads _ _).mpr ⟨_, written⟩, ?_, leading, trailing, same, ?_⟩
  · intro ascending
    have directions : desc = asc := (alone _ _ _ _ _ written ascending).1
    cases directions
  · exact keywords asc "\u2028" "aSc" "" leading trailing same

example : ["aſc", " a sc", "asc\u200b", "descc "].map parse? = [none, none, none, none] := by
  decide

end Direction

end BoundSql
