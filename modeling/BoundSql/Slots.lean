/-!
# Slots

A list in which some entries have a key.  Putting an entry whose key is already
there replaces the entry in its slot; every other entry is put at the end.  So
each key keeps the slot of its first entry and holds its last one.
-/

namespace BoundSql.Slots

variable {α κ : Type} [DecidableEq κ]

def put (key : α → Option κ) (a : α) : List α → List α
  | [] => [a]
  | b :: rest =>
      if (key a).isSome ∧ key b = key a then a :: rest else b :: put key a rest

def putAll (key : α → Option κ) (added slots : List α) : List α :=
  added.foldl (fun slots a => put key a slots) slots

def Distinct (key : α → Option κ) (slots : List α) : Prop :=
  (slots.filterMap key).Nodup

instance (key : α → Option κ) (slots : List α) : Decidable (Distinct key slots) :=
  inferInstanceAs (Decidable (List.Nodup _))

variable {key : α → Option κ} {a : α} {k : κ}

theorem put_of_key_eq_none (h : key a = none) (slots : List α) :
    put key a slots = slots ++ [a] := by
  induction slots with
  | nil => rfl
  | cons b rest ih => simp [put, h, ih]

theorem filterMap_put (h : key a = some k) (slots : List α) :
    (put key a slots).filterMap key
      = if k ∈ slots.filterMap key then slots.filterMap key
        else slots.filterMap key ++ [k] := by
  induction slots with
  | nil => simp [put, h]
  | cons b rest ih =>
      by_cases hit : key b = some k
      · simp [put, h, hit]
      · cases hb : key b with
        | none => simp [put, h, hb, ih]
        | some j =>
            have miss : k ≠ j := fun same => hit (same ▸ hb)
            have miss' : j ≠ k := miss.symm
            by_cases there : k ∈ rest.filterMap key
            · simp only [List.mem_filterMap] at there
              simp [put, h, hb, ih, miss, miss', there]
            · simp only [List.mem_filterMap] at there
              simp [put, h, hb, ih, miss, miss', there]

theorem Distinct.put {slots : List α} (h : Distinct key slots) :
    Distinct key (put key a slots) := by
  cases hk : key a with
  | none =>
      rw [put_of_key_eq_none hk]
      simpa [Distinct, hk] using h
  | some k =>
      unfold Distinct
      rw [filterMap_put hk]
      split
      · exact h
      · next fresh =>
          refine List.nodup_append.mpr ⟨h, by simp, ?_⟩
          rintro j hj _ hk rfl
          simp only [List.mem_singleton] at hk
          exact fresh (hk ▸ hj)

end BoundSql.Slots
