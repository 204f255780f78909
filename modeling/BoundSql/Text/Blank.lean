/-!
# White space

The characters with the Unicode property White_Space, and trimming them from
both ends of a text.
-/

namespace BoundSql.Text

/-- The code points with the property White_Space, as closed ranges. -/
def blankRanges : List (Nat × Nat) :=
  [(0x09, 0x0D), (0x20, 0x20), (0x85, 0x85), (0xA0, 0xA0), (0x1680, 0x1680),
    (0x2000, 0x200A), (0x2028, 0x2029), (0x202F, 0x202F), (0x205F, 0x205F),
    (0x3000, 0x3000)]

def isBlank (c : Char) : Bool :=
  blankRanges.any fun (first, last) => first ≤ c.toNat && c.toNat ≤ last

def trimStart (text : List Char) : List Char :=
  text.dropWhile isBlank

def trimEnd (text : List Char) : List Char :=
  (trimStart text.reverse).reverse

def trim (text : List Char) : List Char :=
  trimEnd (trimStart text)

/-- A text is blank if nothing remains of it when it is trimmed. -/
def isBlankText (text : String) : Bool :=
  (trim text.toList).isEmpty

/-! ## What trimming leaves -/

/-- No visible character of ASCII is white space. -/
theorem isBlank_of_visible {c : Char} (h : 0x21 ≤ c.toNat ∧ c.toNat ≤ 0x7E) :
    isBlank c = false := by
  simp only [isBlank, blankRanges, List.any_cons, List.any_nil, Bool.or_false,
    Bool.or_eq_false_iff, Bool.and_eq_false_iff, decide_eq_false_iff_not]
  omega

example : (blankRanges.map fun (first, last) => last + 1 - first).sum = 25 := by decide

theorem trimStart_append_of_all {pad text : List Char} (h : ∀ c ∈ pad, isBlank c = true) :
    trimStart (pad ++ text) = trimStart text := by
  induction pad with
  | nil => rfl
  | cons c pad ih =>
      have hc : isBlank c = true := h c (by simp)
      simp only [trimStart, List.cons_append, List.dropWhile_cons, hc, if_true]
      exact ih fun d hd => h d (by simp [hd])

theorem trimEnd_append_of_all {pad text : List Char} (h : ∀ c ∈ pad, isBlank c = true) :
    trimEnd (text ++ pad) = trimEnd text := by
  simp only [trimEnd, List.reverse_append]
  rw [trimStart_append_of_all (fun c hc => h c (by simpa using hc))]

end BoundSql.Text
