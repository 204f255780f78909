import BoundSql.Proofs.SelfDelimiting
import BoundSql.Text.Blank

/-!
# Words, and the keywords that end them

A plain word ends where a character that is no part of a word stands.  Clauses
open with such a character, and their keywords can be told apart.  So a clause
that is left out is not mistaken for one that follows it.
-/

namespace BoundSql.Text

def isWordChar (c : Char) : Bool :=
  c.isAlphanum || c == '_'

def Plain (text : String) : Prop :=
  text ≠ "" ∧ ∀ c ∈ text.toList, isWordChar c = true

instance (text : String) : Decidable (Plain text) :=
  decidable_of_iff (text ≠ "" ∧ text.toList.all isWordChar = true) <| by
    rw [List.all_eq_true]
    rfl

/-- A word before this text ends where the text starts. -/
def EndsWord (rest : String) : Prop :=
  ∀ c ∈ rest.toList.head?, isWordChar c = false

theorem takeWhile_plain_append {word rest : String} (plain : Plain word)
    (ends : EndsWord rest) :
    (word ++ rest).toList.takeWhile isWordChar = word.toList := by
  rw [String.toList_append, List.takeWhile_append_of_pos plain.2]
  have nothing : rest.toList.takeWhile isWordChar = [] := by
    unfold EndsWord at ends
    cases h : rest.toList with
    | nil => rfl
    | cons c tail =>
        rw [h] at ends
        have outside : isWordChar c = false := ends c rfl
        rw [List.takeWhile_cons, outside]
        rfl
  rw [nothing, List.append_nil]

theorem plain_selfDelimiting : SelfDelimiting id id Plain EndsWord := by
  intro word word' r s hword hword' hr hs same
  have words : word = word' := by
    apply String.toList_injective
    rw [← takeWhile_plain_append hword hr, ← takeWhile_plain_append hword' hs]
    exact congrArg (fun text : String => text.toList.takeWhile isWordChar) same
  subst words
  exact ⟨rfl, (String.append_right_inj word).mp same⟩

theorem isBlank_of_isWordChar {c : Char} (h : isWordChar c = true) :
    isBlank c = false := by
  have code : (48 ≤ c.toNat ∧ c.toNat ≤ 57) ∨ (65 ≤ c.toNat ∧ c.toNat ≤ 95) ∨
      (97 ≤ c.toNat ∧ c.toNat ≤ 122) := by
    change ((decide (c.val ≥ 'A'.val ∧ c.val ≤ 'Z'.val) || c.val ≥ 'a'.val && c.val ≤ 'z'.val)
      || c.val ≥ '0'.val && c.val ≤ '9'.val || c == '_') = true at h
    simp only [Bool.or_eq_true, Bool.and_eq_true, decide_eq_true_eq,
      UInt32.le_iff_toNat_le, ge_iff_le, beq_iff_eq] at h
    rcases h with ((h | h) | h) | rfl
    · exact .inr (.inl ⟨h.1, Nat.le_trans h.2 (by decide)⟩)
    · exact .inr (.inr h)
    · exact .inl h
    · decide
  exact isBlank_of_visible (by omega)

theorem ne_plain_append {word rest tail : String} (plain : Plain word)
    (ends : EndsWord rest) : rest ≠ word ++ tail := by
  rintro rfl
  obtain ⟨filled, inWord⟩ := plain
  cases h : word.toList with
  | nil => exact filled (String.toList_eq_nil_iff.mp h)
  | cons c letters =>
      rw [h] at inWord
      have outside : isWordChar c = false := by
        apply ends
        rw [String.toList_append, h]
        rfl
      exact Bool.false_ne_true (outside.symm.trans (inWord c List.mem_cons_self))

/-! ## Keywords -/

def isOpener (keyword : String) : Bool :=
  keyword.toList.head?.any fun c => !isWordChar c

theorem endsWord_append {keyword : String} (opener : isOpener keyword = true)
    (tail : String) : EndsWord (keyword ++ tail) := by
  intro c hc
  unfold isOpener at opener
  rw [String.toList_append] at hc
  cases letters : keyword.toList with
  | nil => rw [letters] at opener; contradiction
  | cons d more =>
      rw [letters] at opener hc
      obtain rfl : d = c := Option.some.inj hc
      exact (Bool.not_eq_true' _).mp opener

def areApart (k l : String) : Bool :=
  !k.toList.isPrefixOf l.toList && !l.toList.isPrefixOf k.toList

theorem append_ne_append {k l : String} (apart : areApart k l = true) (r s : String) :
    k ++ r ≠ l ++ s := by
  intro same
  have left : k.toList <+: (k ++ r).toList := by
    rw [String.toList_append]
    exact List.prefix_append _ _
  have right : l.toList <+: (k ++ r).toList := by
    rw [same, String.toList_append]
    exact List.prefix_append _ _
  simp only [areApart, Bool.and_eq_true, Bool.not_eq_true', ← Bool.not_eq_true,
    List.isPrefixOf_iff_prefix] at apart
  rcases List.prefix_or_prefix_of_prefix left right with h | h
  · exact apart.1 h
  · exact apart.2 h

def isFresh (keyword : String) (keywords : List String) : Bool :=
  keyword != "" && keywords.all fun k => areApart k keyword

def Opens (keywords : List String) (rest : String) : Prop :=
  rest = "" ∨ ∃ keyword ∈ keywords, ∃ tail, rest = keyword ++ tail

namespace Opens

variable {keywords : List String} {rest : String}

theorem append_keyword {keyword : String} (h : keyword ∈ keywords) (tail : String) :
    Opens keywords (keyword ++ tail) :=
  .inr ⟨keyword, h, tail, rfl⟩

theorem mono {keywords' : List String} (h : Opens keywords rest)
    (more : ∀ keyword ∈ keywords, keyword ∈ keywords') : Opens keywords' rest := by
  rcases h with rfl | ⟨keyword, found, tail, rfl⟩
  · exact .inl rfl
  · exact append_keyword (more keyword found) tail

theorem endsWord (h : Opens keywords rest)
    (openers : ∀ keyword ∈ keywords, isOpener keyword = true) : EndsWord rest := by
  rcases h with rfl | ⟨keyword, found, tail, rfl⟩
  · intro c hc
    contradiction
  · exact endsWord_append (openers keyword found) tail

theorem ne_append {keyword : String} (h : Opens keywords rest)
    (fresh : isFresh keyword keywords = true) (tail : String) :
    rest ≠ keyword ++ tail := by
  simp only [isFresh, Bool.and_eq_true, bne_iff_ne, List.all_eq_true] at fresh
  rcases h with rfl | ⟨k, found, more, rfl⟩
  · intro same
    exact fresh.1 (String.append_eq_empty_iff.mp same.symm).1
  · exact append_ne_append (fresh.2 k found) more tail

end Opens

theorem plain_selfDelimiting_opens {keywords : List String}
    (openers : ∀ keyword ∈ keywords, isOpener keyword = true) :
    SelfDelimiting id id Plain (Opens keywords) :=
  plain_selfDelimiting.mono (fun _ plain => plain) fun _ h => h.endsWord openers

variable {α β γ δ : Type}

/-! ## Lists -/

theorem Opens.goingOn {separator : String} {keywords : List String} {rest : String}
    (h : Opens keywords rest) (items : List String) :
    Opens (separator :: keywords) (goingOn separator items rest) := by
  cases items with
  | nil => exact h.mono fun _ => List.mem_cons_of_mem separator
  | cons item items => exact Opens.append_keyword List.mem_cons_self _

section Lists

variable {write : α → String} {read : α → γ} {valid : α → Prop}
  {separator : String} {keywords : List String}

theorem selfDelimiting_list
    (item : SelfDelimiting write read valid (Opens (separator :: keywords)))
    (fresh : isFresh separator keywords = true) :
    SelfDelimiting (fun items => separator.intercalate (items.map write)) (List.map read)
      (fun items => (∀ a ∈ items, valid a) ∧ items ≠ []) (Opens keywords) := by
  apply SelfDelimiting.intercalate separator item
  · exact Opens.append_keyword List.mem_cons_self
  · exact fun r h => h.mono fun _ => List.mem_cons_of_mem separator
  · exact fun r s h => h.ne_append fresh s

theorem words_selfDelimiting (openers : ∀ k ∈ separator :: keywords, isOpener k = true)
    (fresh : isFresh separator keywords = true) :
    SelfDelimiting separator.intercalate id
      (fun words => (∀ word ∈ words, Plain word) ∧ words ≠ []) (Opens keywords) := by
  have words := selfDelimiting_list (plain_selfDelimiting_opens openers) fresh
  simpa only [List.map_id_fun, id] using words

theorem selfDelimiting_list_of_word
    (item : SelfDelimiting write read valid (Opens (separator :: keywords)))
    (fresh : isFresh separator keywords = true)
    (word : ∀ a, valid a → ∃ name tail, Plain name ∧ write a = name ++ tail)
    (openers : ∀ k ∈ keywords, isOpener k = true) :
    SelfDelimiting (fun items => separator.intercalate (items.map write)) (List.map read)
      (fun items => ∀ a ∈ items, valid a) (Opens keywords) := by
  refine SelfDelimiting.optional [] String.intercalate_nil
    (selfDelimiting_list item fresh) ?_
  intro items r s all shown follows
  obtain ⟨a, items, rfl⟩ := List.exists_cons_of_ne_nil shown
  obtain ⟨name, tail, plain, starts⟩ := word a (all a List.mem_cons_self)
  rw [List.map_cons, intercalate_cons, starts, String.append_assoc]
  exact ne_plain_append plain (follows.endsWord openers)

end Lists

/-! ## Clauses at the end of a statement -/

/-- A way of writing that leaves `absent` out and opens all else with a keyword. -/
structure IsClause (keyword : String) (absent : α) (valid : α → Prop)
    (write body : α → String) : Prop where
  skipped : write absent = ""
  opened : ∀ a, valid a → a ≠ absent → write a = keyword ++ body a

structure IsTail (keywords : List String) (write : α → String) (read : α → γ)
    (valid : α → Prop) : Prop where
  reads : ∀ ⦃a b : α⦄, valid a → valid b → write a = write b → read a = read b
  opens : ∀ a, valid a → Opens keywords (write a)

section Clauses

variable {keyword : String} {absent : α} {valid : α → Prop} {write body : α → String}
  {read : α → γ} {keywords : List String}

theorem IsClause.selfDelimiting (clause : IsClause keyword absent valid write body)
    (reads : SelfDelimiting body read (fun a => valid a ∧ a ≠ absent) (Opens keywords))
    (fresh : isFresh keyword keywords = true) :
    SelfDelimiting write read valid (Opens keywords) := by
  apply SelfDelimiting.optional absent clause.skipped
  · intro a b r s ha hb hr hs same
    rw [clause.opened a ha.1 ha.2, clause.opened b hb.1 hb.2] at same
    exact reads.prepend keyword ha hb hr hs same
  · intro a r s ha shown follows
    rw [clause.opened a ha shown, String.append_assoc]
    exact follows.ne_append fresh _

theorem IsClause.opens (clause : IsClause keyword absent valid write body) {a : α}
    (ha : valid a) {rest : String} (follows : Opens keywords rest) :
    Opens (keyword :: keywords) (write a ++ rest) := by
  by_cases left : a = absent
  · rw [left, clause.skipped, String.empty_append]
    exact follows.mono fun _ => List.mem_cons_of_mem keyword
  · rw [clause.opened a ha left, String.append_assoc]
    exact Opens.append_keyword List.mem_cons_self _

theorem IsClause.isTail (clause : IsClause keyword absent valid write body)
    (reads : SelfDelimiting body read (fun a => valid a ∧ a ≠ absent) (Opens []))
    (fresh : isFresh keyword [] = true) : IsTail [keyword] write read valid where
  reads := by
    intro a b ha hb same
    have last := clause.selfDelimiting reads fresh
    exact (last ha hb (.inl rfl) (.inl rfl) (congrArg (· ++ "") same)).1
  opens := by
    intro a ha
    have opens := clause.opens ha (.inl rfl : Opens [] "")
    rwa [String.append_empty] at opens

theorem IsTail.cons {write' : β → String} {read' : β → δ} {valid' : β → Prop}
    (tail : IsTail keywords write' read' valid')
    (clause : IsClause keyword absent valid write body)
    (reads : SelfDelimiting body read (fun a => valid a ∧ a ≠ absent) (Opens keywords))
    (fresh : isFresh keyword keywords = true) :
    IsTail (keyword :: keywords) (fun p : α × β => write p.1 ++ write' p.2)
      (fun p => (read p.1, read' p.2)) (fun p => valid p.1 ∧ valid' p.2) where
  reads := by
    rintro ⟨a, a'⟩ ⟨b, b'⟩ ⟨ha, ha'⟩ ⟨hb, hb'⟩ same
    obtain ⟨firsts, rest⟩ := clause.selfDelimiting reads fresh ha hb
      (tail.opens a' ha') (tail.opens b' hb') same
    exact Prod.ext firsts (tail.reads ha' hb' rest)
  opens := by
    rintro ⟨a, a'⟩ ⟨ha, ha'⟩
    exact clause.opens ha (tail.opens a' ha')

end Clauses

end BoundSql.Text
