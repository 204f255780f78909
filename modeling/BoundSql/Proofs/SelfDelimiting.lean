/-!
# Texts that end where they can be seen to end

A way of writing is self-delimiting if two writings, each with some text after
it, agree only when what is read off them agrees and the texts after them do.
Lists with separators and optional clauses of such writings are self-delimiting
as well when what may follow does not look like more of the same.
-/

namespace BoundSql

variable {α γ : Type}

/-- `read a` and the text after it can be recovered from `write a` with that text. -/
def SelfDelimiting (write : α → String) (read : α → γ) (valid : α → Prop)
    (follow : String → Prop) : Prop :=
  ∀ ⦃a b : α⦄ ⦃r s : String⦄, valid a → valid b → follow r → follow s →
    write a ++ r = write b ++ s → read a = read b ∧ r = s

def goingOn (separator : String) : List String → String → String
  | [], rest => rest
  | item :: items, rest => separator ++ (separator.intercalate (item :: items) ++ rest)

theorem intercalate_cons (separator item : String) (items : List String) (rest : String) :
    separator.intercalate (item :: items) ++ rest
      = item ++ goingOn separator items rest := by
  cases items with
  | nil => rw [String.intercalate_singleton, goingOn]
  | cons next items =>
      rw [String.intercalate_cons_cons, goingOn, String.append_assoc, String.append_assoc]

namespace SelfDelimiting

variable {write : α → String} {read : α → γ} {valid : α → Prop}
  {follow : String → Prop}

theorem mono {valid' : α → Prop} {follow' : String → Prop}
    (h : SelfDelimiting write read valid follow) (fewer : ∀ a, valid' a → valid a)
    (less : ∀ r, follow' r → follow r) : SelfDelimiting write read valid' follow' := by
  intro a b r s ha hb hr hs same
  exact h (fewer a ha) (fewer b hb) (less r hr) (less s hs) same

theorem prepend (h : SelfDelimiting write read valid follow) (opener : String) :
    SelfDelimiting (fun a => opener ++ write a) read valid follow := by
  intro a b r s ha hb hr hs same
  rw [String.append_assoc, String.append_assoc, String.append_right_inj] at same
  exact h ha hb hr hs same

theorem intercalate {follow' : String → Prop} (separator : String)
    (item : SelfDelimiting write read valid follow)
    (inner : ∀ r, follow (separator ++ r)) (outer : ∀ r, follow' r → follow r)
    (fresh : ∀ r s, follow' r → r ≠ separator ++ s) :
    SelfDelimiting (fun items => separator.intercalate (items.map write))
      (List.map read) (fun items => (∀ a ∈ items, valid a) ∧ items ≠ []) follow' := by
  intro as bs r s has hbs hr hs same
  induction as generalizing bs with
  | nil => exact absurd rfl has.2
  | cons a as ih =>
      obtain ⟨b, bs, rfl⟩ := List.exists_cons_of_ne_nil hbs.2
      have follows : ∀ {items : List α} {t : String}, follow' t →
          follow (goingOn separator (items.map write) t) := by
        intro items t ht
        cases items with
        | nil => exact outer t ht
        | cons item items => exact inner _
      simp only [List.map_cons, intercalate_cons] at same ⊢
      obtain ⟨items, rest⟩ := item (has.1 a List.mem_cons_self)
        (hbs.1 b List.mem_cons_self) (follows hr) (follows hs) same
      cases as with
      | nil =>
          cases bs with
          | nil => exact ⟨by rw [items], rest⟩
          | cons b' bs => exact absurd rest (fresh r _ hr)
      | cons a' as =>
          cases bs with
          | nil => exact absurd rest.symm (fresh s _ hs)
          | cons b' bs =>
              obtain ⟨others, rest⟩ := ih
                ⟨fun x hx => has.1 x (List.mem_cons_of_mem a hx), List.cons_ne_nil a' as⟩
                ⟨fun x hx => hbs.1 x (List.mem_cons_of_mem b hx), List.cons_ne_nil b' bs⟩
                ((String.append_right_inj separator).mp rest)
              exact ⟨by rw [items, others], rest⟩

theorem optional (absent : α) (skipped : write absent = "")
    (shown : SelfDelimiting write read (fun a => valid a ∧ a ≠ absent) follow)
    (fresh : ∀ a r s, valid a → a ≠ absent → follow r → r ≠ write a ++ s) :
    SelfDelimiting write read valid follow := by
  intro a b r s ha hb hr hs same
  by_cases left : a = absent
  · by_cases right : b = absent
    · subst left right
      exact ⟨rfl, (String.append_right_inj _).mp same⟩
    · subst left
      rw [skipped, String.empty_append] at same
      exact absurd same (fresh b r s hb right hr)
  · by_cases right : b = absent
    · subst right
      rw [skipped, String.empty_append] at same
      exact absurd same.symm (fresh a s r ha left hs)
    · exact shown ⟨ha, left⟩ ⟨hb, right⟩ hr hs same

end SelfDelimiting

end BoundSql
