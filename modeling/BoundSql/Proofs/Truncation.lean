import BoundSql.Proofs.Logging
import BoundSql.Proofs.Placeholders

/-!
# Cutting to a byte limit

The cut of a text is its longest prefix of whole characters that fits.  A cut can
also be found in the bytes: from the limit one steps back to the next offset that
stands between characters, which is never more than three bytes away.  Cutting
twice is cutting to the smaller limit.
-/

namespace BoundSql.Text.Utf8

open String.Pos.Raw (IsValid)

/-! ## Cutting bytes -/

/-- The last offset up to `n` that stands between two characters or at an end of the text. -/
def stepBack (text : String) : Nat → Nat
  | 0 => 0
  | n + 1 => if IsValid text ⟨n + 1⟩ then n + 1 else stepBack text n

def cutBytes? (limit : Nat) (text : String) : Option String :=
  if text.utf8ByteSize ≤ limit then some text
  else (slice? 0 (stepBack text limit) text.toList).map String.ofList

theorem stepBack_le (text : String) (n : Nat) : stepBack text n ≤ n := by
  induction n with
  | zero => exact Nat.le_refl 0
  | succ n ih =>
      unfold stepBack
      split
      · exact Nat.le_refl _
      · omega

theorem isValid_stepBack (text : String) (n : Nat) : IsValid text ⟨stepBack text n⟩ := by
  induction n with
  | zero => exact String.Pos.Raw.isValid_zero
  | succ n ih =>
      unfold stepBack
      split
      · assumption
      · exact ih

theorem le_stepBack {text : String} {k n : Nat} (valid : IsValid text ⟨k⟩) (le : k ≤ n) :
    k ≤ stepBack text n := by
  induction n with
  | zero => omega
  | succ n ih =>
      unfold stepBack
      split
      · exact le
      · next inside =>
          have other : k ≠ n + 1 := by
            rintro rfl
            exact inside valid
          exact ih (by omega)

/-! ## Longest prefixes -/

theorem isValid_size_iff {text : String} {n : Nat} :
    IsValid text ⟨n⟩ ↔ ∃ chars, chars <+: text.toList ∧ size chars = n := by
  rw [String.Pos.Raw.isValid_iff_exists_append]
  constructor
  · rintro ⟨before, after, rfl, same⟩
    refine ⟨before.toList, ⟨after.toList, String.toList_append.symm⟩, ?_⟩
    rw [size_toList]
    exact (congrArg String.Pos.Raw.byteIdx same).symm
  · rintro ⟨chars, ⟨rest, whole⟩, rfl⟩
    refine ⟨String.ofList chars, String.ofList rest, ?_, ?_⟩
    · rw [← String.ofList_append, whole, String.ofList_toList]
    · rw [← utf8ByteSize_ofList]
      rfl

theorem size_le_of_prefix {before text : List Char} (h : before <+: text) :
    size before ≤ size text := by
  obtain ⟨rest, rfl⟩ := h
  simp

theorem IsLongestPrefix.unique {limit : Nat} {text a b : List Char}
    (ha : IsLongestPrefix limit text a) (hb : IsLongestPrefix limit text b) : a = b := by
  have ab := hb.longest a ha.isPrefix ha.fits
  have ba := ha.longest b hb.isPrefix hb.fits
  exact ab.eq_of_length_le ba.length_le

theorem IsLongestPrefix.trans {m n : Nat} {text a b : List Char}
    (ha : IsLongestPrefix m text a) (hb : IsLongestPrefix n a b) :
    IsLongestPrefix (min m n) text b where
  isPrefix := hb.isPrefix.trans ha.isPrefix
  fits := by
    have := size_le_of_prefix hb.isPrefix
    have := ha.fits
    have := hb.fits
    omega
  longest := by
    intro other isPrefix fits
    have first := ha.longest other isPrefix (by omega)
    exact hb.longest other first (by omega)

theorem IsLongestPrefix.size_eq_stepBack {limit : Nat} {text : String} {cut : List Char}
    (h : IsLongestPrefix limit text.toList cut) : size cut = stepBack text limit := by
  apply Nat.le_antisymm
  · exact le_stepBack (isValid_size_iff.mpr ⟨cut, h.isPrefix, rfl⟩) h.fits
  · obtain ⟨chars, isPrefix, same⟩ := isValid_size_iff.mp (isValid_stepBack text limit)
    have fits : size chars ≤ limit := same ▸ stepBack_le text limit
    have := size_le_of_prefix (h.longest chars isPrefix fits)
    omega

theorem IsLongestPrefix.slice?_stepBack {limit : Nat} {text : String} {cut : List Char}
    (h : IsLongestPrefix limit text.toList cut) :
    slice? 0 (stepBack text limit) text.toList = some cut := by
  have ends := h.size_eq_stepBack
  obtain ⟨rest, whole⟩ := h.isPrefix
  refine slice?_eq_some_iff.mpr ⟨[], rest, ?_, rfl, ?_⟩
  · rw [List.nil_append, whole]
  · rw [Nat.zero_add, ends]

theorem IsLongestPrefix.eq_self_iff {limit : Nat} {text cut : List Char}
    (h : IsLongestPrefix limit text cut) : cut = text ↔ size text ≤ limit := by
  constructor
  · rintro rfl
    exact h.fits
  · intro fits
    have whole := h.longest text (List.prefix_refl text) fits
    exact h.isPrefix.eq_of_length_le whole.length_le

theorem le_size_splitAt_add_three {limit : Nat} {text : List Char} (long : limit < size text) :
    limit ≤ size (splitAt limit text).1 + 3 := by
  have whole := splitAt_append limit text
  have fits := size_splitAt_le limit text
  cases rest : (splitAt limit text).2 with
  | nil =>
      rw [rest, List.append_nil] at whole
      rw [whole] at fits
      omega
  | cons c after =>
      have cut : splitAt limit text = ((splitAt limit text).1, c :: after) := Prod.ext rfl rest
      have short := lt_of_splitAt_eq_cons cut
      have := c.utf8Size_le_four
      omega

/-! ## Texts -/

theorem isLongestPrefix_truncate (limit : Nat) (text : String) :
    IsLongestPrefix limit text.toList (truncate limit text).toList := by
  rw [truncate, String.toList_ofList]
  exact isLongestPrefix_splitAt limit text.toList

theorem truncate_eq_self_iff (limit : Nat) (text : String) :
    truncate limit text = text ↔ text.utf8ByteSize ≤ limit := by
  rw [← String.toList_inj, (isLongestPrefix_truncate limit text).eq_self_iff, size_toList]

theorem cutBytes?_eq_truncate (limit : Nat) (text : String) :
    cutBytes? limit text = some (truncate limit text) := by
  unfold cutBytes?
  split
  · next fits => rw [(truncate_eq_self_iff limit text).mpr fits]
  · rw [(isLongestPrefix_truncate limit text).slice?_stepBack, Option.map_some,
      String.ofList_toList]

theorem truncate_truncate (m n : Nat) (text : String) :
    truncate n (truncate m text) = truncate (min m n) text := by
  have twice := (isLongestPrefix_truncate m text).trans
    (isLongestPrefix_truncate n (truncate m text))
  exact String.toList_injective (twice.unique (isLongestPrefix_truncate (min m n) text))

/--
A text is cut to the longest prefix of whole characters that fits, which is also
what is found by stepping back from the limit.  A text that fits stays whole, any
other one fills the limit but for three bytes, and cutting again composes.
-/
theorem truncate_cuts (text : String) (m : Nat) :
    IsLongestPrefix m text.toList (truncate m text).toList ∧
      (truncate m text).utf8ByteSize ≤ m ∧
      IsValid text ⟨(truncate m text).utf8ByteSize⟩ ∧
      cutBytes? m text = some (truncate m text) ∧
      (truncate m text = text ↔ text.utf8ByteSize ≤ m) ∧
      (text.utf8ByteSize ≤ m ∨ m - 3 ≤ (truncate m text).utf8ByteSize) ∧
      ∀ n, truncate n (truncate m text) = truncate (min m n) text := by
  have cut := isLongestPrefix_truncate m text
  have bytes := size_toList (truncate m text)
  refine ⟨cut, bytes ▸ cut.fits, ?_, cutBytes?_eq_truncate m text,
    truncate_eq_self_iff m text, ?_, fun n => truncate_truncate m n text⟩
  · exact isValid_size_iff.mpr ⟨_, cut.isPrefix, bytes⟩
  · rcases Nat.lt_or_ge m text.utf8ByteSize with long | fits
    · right
      have lost := le_size_splitAt_add_three (long.trans_eq (size_toList text).symm)
      rw [truncate, utf8ByteSize_ofList]
      omega
    · exact .inl fits

example : (truncate 4 "café", truncate 5 "a€€", truncate 4 "a😀") = ("caf", "a€", "a") := by
  decide

end BoundSql.Text.Utf8
