import BoundSql.Row
import Mathlib.Data.Finset.Card
import Mathlib.Data.List.Forall2

/-!
# Rows are maps that keep an order

A row has been given pairs, many at once or one after the other.  It has each
column once, in the order in which the columns were first given, and with the
value that was given last.  Rows are compared in this order, so two rows that
hold the same values may differ.
-/

namespace BoundSql

/-! ## Keys in slots -/

namespace Slots

variable {α κ : Type} [DecidableEq κ] {key : α → Option κ}

theorem putAll_concat (added : List α) (a : α) (slots : List α) :
    putAll key (added ++ [a]) slots = put key a (putAll key added slots) :=
  List.foldl_append

theorem eraseDups_concat (keys : List κ) (k : κ) :
    (keys ++ [k]).eraseDups = if k ∈ keys then keys.eraseDups else keys.eraseDups ++ [k] := by
  rw [List.eraseDups_append]
  by_cases known : k ∈ keys
  · simp [List.removeAll, known]
  · simp [List.removeAll, known, List.eraseDups_cons]

theorem filterMap_putAll (added : List α) :
    (putAll key added []).filterMap key = (added.filterMap key).eraseDups := by
  induction added using List.reverseRecOn with
  | nil => rfl
  | append_singleton added a ih =>
      rw [putAll_concat, List.filterMap_append]
      cases hk : key a with
      | none =>
          have keyless : [a].filterMap key = [] := by simp [hk]
          rw [put_of_key_eq_none hk, List.filterMap_append, ih, keyless, List.append_nil,
            List.append_nil]
      | some k =>
          have single : [a].filterMap key = [k] := by simp [hk]
          rw [filterMap_put hk, ih, single, eraseDups_concat]
          simp only [List.mem_eraseDups]

end Slots

theorem Value.eqvList_iff (as bs : List Value) :
    eqvList as bs = true ↔ List.Forall₂ (fun a b => a.eqv b = true) as bs := by
  induction as generalizing bs with
  | nil => cases bs <;> simp [eqvList]
  | cons a as ih => cases bs <;> simp [eqvList, ih]

namespace Row

/-! ## What a row has been given -/

def lastOf (pairs : List (String × Value)) (column : String) : Option Value :=
  (pairs.filter fun pair => pair.1 == column).getLast?.map Prod.snd

theorem lastOf_concat (pairs : List (String × Value)) (pair : String × Value)
    (column : String) :
    lastOf (pairs ++ [pair]) column
      = if pair.1 = column then some pair.2 else lastOf pairs column := by
  unfold lastOf
  rw [List.filter_append]
  by_cases same : pair.1 = column
  · simp [same]
  · simp [same]

theorem lastOf_eq_none_iff (pairs : List (String × Value)) (column : String) :
    lastOf pairs column = none ↔ column ∉ pairs.map Prod.fst := by
  rw [lastOf, Option.map_eq_none_iff, List.getLast?_eq_none_iff, List.filter_eq_nil_iff,
    List.mem_map]
  constructor
  · rintro none_has_it ⟨pair, there, same⟩
    exact none_has_it pair there (beq_iff_eq.mpr same)
  · intro absent pair there same
    exact absent ⟨pair, there, beq_iff_eq.mp same⟩

theorem setAll_concat (row : Row) (pairs : List (String × Value)) (pair : String × Value) :
    row.setAll (pairs ++ [pair]) = (row.setAll pairs).set pair.1 pair.2 :=
  List.foldl_append

theorem get?_set (row : Row) (column other : String) (value : Value) :
    (row.set column value).get? other
      = if column = other then some value else row.get? other := by
  simp only [get?, entries_set]
  induction row.entries with
  | nil =>
      rw [Slots.put, List.lookup_cons]
      by_cases same : column = other
      · simp [same]
      · simp [same, beq_false_of_ne (Ne.symm same)]
  | cons entry rest ih =>
      simp only [Slots.put, key, Option.isSome_some, Option.some.injEq, true_and]
      by_cases hit : entry.1 = column
      · rw [if_pos hit, List.lookup_cons, List.lookup_cons, hit]
        by_cases same : column = other
        · simp [same]
        · simp [same, beq_false_of_ne (Ne.symm same)]
      · rw [if_neg hit, List.lookup_cons, List.lookup_cons, ih]
        by_cases same : column = other
        · have miss : (other == entry.1) = false := beq_false_of_ne (same ▸ Ne.symm hit)
          simp [same, miss]
        · simp [same]

theorem get?_ofList (pairs : List (String × Value)) (column : String) :
    (ofList pairs).get? column = lastOf pairs column := by
  unfold ofList
  induction pairs using List.reverseRecOn with
  | nil => rfl
  | append_singleton pairs pair ih => rw [setAll_concat, get?_set, lastOf_concat, ih]

theorem columns_ofList (pairs : List (String × Value)) :
    (ofList pairs).columns = (pairs.map Prod.fst).eraseDups := by
  have keys : ∀ entries : List (String × Value),
      entries.filterMap key = entries.map Prod.fst := fun _ =>
    congrFun List.filterMap_eq_map _
  rw [columns, ofList, entries_setAll, ← keys, ← keys]
  exact Slots.filterMap_putAll pairs

theorem mem_entries_iff (row : Row) (column : String) (value : Value) :
    (column, value) ∈ row.entries ↔ row.get? column = some value := by
  rw [get?, List.lookup_eq_some_iff]
  constructor
  · intro there
    obtain ⟨before, after, split⟩ := List.append_of_mem there
    refine ⟨before, after, split, ?_⟩
    have distinct := row.columns_nodup
    rw [columns, split, List.map_append, List.map_cons] at distinct
    intro other earlier
    have differ := (List.nodup_append.mp distinct).2.2 other.1 (List.mem_map_of_mem earlier)
      column List.mem_cons_self
    exact bne_iff_ne.mpr (Ne.symm differ)
  · rintro ⟨before, after, split, -⟩
    rw [split]
    exact List.mem_append_right _ List.mem_cons_self

theorem map_entries (row : Row) :
    row.entries.map (fun entry => (entry.1, some entry.2))
      = row.columns.map fun column => (column, row.get? column) := by
  rw [columns, List.map_map]
  exact List.map_congr_left fun entry h =>
    Prod.ext rfl ((row.mem_entries_iff entry.1 entry.2).mp h).symm

theorem map_some_values (row : Row) : row.values.map some = row.columns.map row.get? := by
  have pairs := congrArg (List.map Prod.snd) row.map_entries
  rw [List.map_map, List.map_map] at pairs
  rw [values, List.map_map]
  exact pairs

/-! ## Histories -/

structure Keeps (row : Row) (given : List (String × Value)) : Prop where
  nodup : row.columns.Nodup
  /-- The columns keep the order in which they were first given. -/
  columns : row.columns = (given.map Prod.fst).eraseDups
  get? : ∀ column, row.get? column = lastOf given column
  absent : ∀ column, row.get? column = none ↔ column ∉ given.map Prod.fst
  entries : row.entries.map (fun entry => (entry.1, some entry.2))
    = row.columns.map fun column => (column, row.get? column)
  size : row.size = (given.map Prod.fst).toFinset.card
  isEmpty : row.isEmpty = true ↔ given = []

theorem keeps_ofList (given : List (String × Value)) : Keeps (ofList given) given where
  nodup := columns_nodup _
  columns := columns_ofList given
  get? := get?_ofList given
  absent := by
    intro column
    rw [get?_ofList, lastOf_eq_none_iff]
  entries := map_entries _
  size := by
    have same : (given.map Prod.fst).toFinset = (ofList given).columns.toFinset := by
      ext column
      rw [columns_ofList, List.mem_toFinset, List.mem_toFinset, List.mem_eraseDups]
    rw [same, List.toFinset_card_of_nodup (columns_nodup _)]
    exact (List.length_map Prod.fst).symm
  isEmpty := by
    have none_given : (ofList given).columns = [] ↔ given = [] := by
      rw [List.eq_nil_iff_forall_not_mem, columns_ofList]
      simp only [List.mem_eraseDups, ← List.eq_nil_iff_forall_not_mem, List.map_eq_nil_iff]
    rw [← none_given, columns, List.map_eq_nil_iff, Row.isEmpty, List.isEmpty_iff]

theorem eqv_iff (a b : Row) :
    a.eqv b = true ↔ a.columns = b.columns ∧
      ∀ column, Option.Rel (fun v w => v.eqv w = true) (a.get? column) (b.get? column) := by
  have absent : ∀ row : Row, ∀ column ∉ row.columns, row.get? column = none := by
    intro row column h
    refine List.lookup_eq_none_iff.mpr fun entry there => bne_iff_ne.mpr ?_
    rintro rfl
    exact h (List.mem_map_of_mem there)
  rw [eqv, Bool.and_eq_true, beq_iff_eq, Value.eqvList_iff]
  refine and_congr_right fun columns => ?_
  have found : List.Forall₂ (fun v w => v.eqv w = true) a.values b.values ↔
      ∀ column ∈ a.columns,
        Option.Rel (fun v w => v.eqv w = true) (a.get? column) (b.get? column) := by
    calc List.Forall₂ (fun v w => v.eqv w = true) a.values b.values
      _ ↔ List.Forall₂ (Option.Rel fun v w => v.eqv w = true) (a.values.map some)
            (b.values.map some) := by
          simp only [List.forall₂_map_left_iff, List.forall₂_map_right_iff,
            Option.rel_some_some]
      _ ↔ List.Forall₂ (fun column other =>
            Option.Rel (fun v w => v.eqv w = true) (a.get? column) (b.get? other))
            a.columns a.columns := by
          rw [map_some_values, map_some_values, ← columns, List.forall₂_map_left_iff,
            List.forall₂_map_right_iff]
      _ ↔ _ := List.forall₂_same
  rw [found]
  constructor
  · intro same column
    by_cases there : column ∈ a.columns
    · exact same column there
    · rw [absent a column there, absent b column (columns ▸ there)]
      exact .none
  · exact fun same column _ => same column

structure Compares (a b : Row) (given others : List (String × Value)) : Prop where
  eqv_iff : a.eqv b = true ↔
    (given.map Prod.fst).eraseDups = (others.map Prod.fst).eraseDups ∧
      ∀ column, Option.Rel (fun v w => v.eqv w = true) (lastOf given column)
        (lastOf others column)
  /-- The same columns with the same values are another row in another order. -/
  reordered : (∀ column, lastOf given column = lastOf others column) →
    (given.map Prod.fst).eraseDups ≠ (others.map Prod.fst).eraseDups → a.eqv b = false

theorem compares_ofList (given others : List (String × Value)) :
    Compares (ofList given) (ofList others) given others := by
  have iff := eqv_iff (ofList given) (ofList others)
  simp only [columns_ofList, get?_ofList] at iff
  refine ⟨iff, fun _ order => ?_⟩
  rw [← Bool.not_eq_true, iff]
  exact fun same => order same.1

/--
A row that collects some pairs and is given others later keeps of them what it
would keep if it had collected them all: the columns in the order in which they
came first, each with its last value.
-/
theorem keeps_setAll_ofList (collected later : List (String × Value)) :
    (ofList collected).setAll later = ofList (collected ++ later) ∧
      Keeps ((ofList collected).setAll later) (collected ++ later) ∧
      ∀ otherCollected otherLater,
        Compares ((ofList collected).setAll later) ((ofList otherCollected).setAll otherLater)
          (collected ++ later) (otherCollected ++ otherLater) := by
  have whole : ∀ first second, (ofList first).setAll second = ofList (first ++ second) :=
    fun first second => (setAll_append empty first second).symm
  refine ⟨whole collected later, ?_, ?_⟩
  · rw [whole]
    exact keeps_ofList _
  · intro otherCollected otherLater
    rw [whole, whole]
    exact compares_ofList _ _

example :
    let row := (ofList [("a", .null), ("b", .text "x")]).setAll [("a", .int 1)]
    row.entries = [("a", .int 1), ("b", .text "x")] ∧
      row.eqv (ofList [("b", .text "x"), ("a", .int 1)]) = false := by
  decide

end Row

end BoundSql
