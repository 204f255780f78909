/-!
# Cutting text by its UTF-8 size

A text is measured in the bytes of its UTF-8 form but is only ever cut between
characters.  `splitAt n` gives the longest whole-character prefix of at most
`n` bytes together with what follows it.  The lemmas say that nothing is lost,
that the prefix fits, and that one more character would not have fitted.
-/

namespace BoundSql.Text.Utf8

def size : List Char → Nat
  | [] => 0
  | c :: rest => c.utf8Size + size rest

def splitAt : Nat → List Char → List Char × List Char
  | _, [] => ([], [])
  | n, c :: rest =>
      if c.utf8Size ≤ n then
        let (before, after) := splitAt (n - c.utf8Size) rest
        (c :: before, after)
      else
        ([], c :: rest)

/-- The longest whole-character prefix of at most `limit` bytes. -/
def truncate (limit : Nat) (text : String) : String :=
  String.ofList (splitAt limit text.toList).1

/-! ## Sizes -/

@[simp] theorem size_nil : size [] = 0 := rfl

@[simp] theorem size_cons (c : Char) (text : List Char) :
    size (c :: text) = c.utf8Size + size text := rfl

@[simp] theorem size_append (s t : List Char) : size (s ++ t) = size s + size t := by
  induction s with
  | nil => simp
  | cons c s ih => simp [ih, Nat.add_assoc]

theorem utf8ByteSize_ofList (text : List Char) :
    (String.ofList text).utf8ByteSize = size text := by
  induction text with
  | nil => simp
  | cons c text ih =>
      have split : String.ofList (c :: text) = String.singleton c ++ String.ofList text := by
        apply String.toList_injective
        simp
      rw [split, String.utf8ByteSize_append, ih, size_cons]
      simp

theorem size_toList (text : String) : size text.toList = text.utf8ByteSize := by
  rw [← utf8ByteSize_ofList, String.ofList_toList]

/-! ## Cuts -/

theorem splitAt_append (n : Nat) (text : List Char) :
    (splitAt n text).1 ++ (splitAt n text).2 = text := by
  induction text generalizing n with
  | nil => rfl
  | cons c rest ih =>
      by_cases fits : c.utf8Size ≤ n
      · simp [splitAt, fits, ih]
      · simp [splitAt, fits]

theorem size_splitAt_le (n : Nat) (text : List Char) :
    size (splitAt n text).1 ≤ n := by
  induction text generalizing n with
  | nil => simp [splitAt]
  | cons c rest ih =>
      by_cases fits : c.utf8Size ≤ n
      · have := ih (n - c.utf8Size)
        simp only [splitAt, fits, if_true, size_cons]
        omega
      · simp [splitAt, fits]

theorem lt_of_splitAt_eq_cons {n : Nat} {text before after : List Char} {c : Char}
    (cut : splitAt n text = (before, c :: after)) : n < size before + c.utf8Size := by
  induction text generalizing n before with
  | nil => simp [splitAt] at cut
  | cons d rest ih =>
      by_cases fits : d.utf8Size ≤ n
      · simp only [splitAt, fits, if_true, Prod.mk.injEq] at cut
        obtain ⟨rfl, hafter⟩ := cut
        have := @ih (n - d.utf8Size) (splitAt (n - d.utf8Size) rest).1
          (Prod.ext rfl hafter)
        simp only [size_cons]
        omega
      · simp only [splitAt, fits, if_false, Prod.mk.injEq, List.cons.injEq] at cut
        obtain ⟨rfl, rfl, rfl⟩ := cut
        simp only [size_nil]
        omega

theorem splitAt_size (s t : List Char) : splitAt (size s) (s ++ t) = (s, t) := by
  induction s with
  | nil =>
      cases t with
      | nil => rfl
      | cons c t =>
          have : 0 < c.utf8Size := c.utf8Size_pos
          simp [splitAt, Nat.not_le.mpr this]
  | cons c s ih => simp [splitAt, ih]

end BoundSql.Text.Utf8
