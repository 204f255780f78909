import BoundSql.Proofs.BoundColumns
import BoundSql.Proofs.OrderedRows
import BoundSql.Proofs.Recorded

/-!
# Conditions are kept as columns of a row are

However keyed and raw conditions are mixed, the keyed ones are kept as a row
keeps its columns, and the raw ones are all kept.  Each condition has the place
at which it was put in first.  So the same pairs bind the same values, whether
they are inserted, assigned or compared.
-/

namespace BoundSql

namespace Slots

variable {α β κ : Type} [DecidableEq κ] {key : α → Option κ}

/-! ## A part of the entries -/

/-- If keys belong to what is viewed, the view of the slots is kept like slots of its own. -/
theorem filterMap_put_view {key' : β → Option κ} {view : α → Option β}
    (keys : ∀ a, key a = (view a).bind key') (a : α) (slots : List α) :
    (put key a slots).filterMap view
      = (view a).elim (slots.filterMap view) fun b => put key' b (slots.filterMap view) := by
  induction slots with
  | nil => cases seen : view a <;> simp [put, seen]
  | cons first rest ih =>
      rw [put]
      cases seen : view a with
      | none =>
          have keyless : ¬ ((key a).isSome = true ∧ key first = key a) := by
            simp [keys a, seen]
          rw [seen] at ih
          rw [if_neg keyless, List.filterMap_cons, List.filterMap_cons, ih]
          rfl
      | some b =>
          have key_a : key a = key' b := by rw [keys a, seen]; rfl
          rw [seen] at ih
          cases met : view first with
          | none =>
              have other : ¬ ((key a).isSome = true ∧ key first = key a) := by
                rintro ⟨keyed, same⟩
                rw [← same, keys first, met] at keyed
                contradiction
              rw [if_neg other, List.filterMap_cons, List.filterMap_cons, met, ih]
          | some b' =>
              have key_first : key first = key' b' := by rw [keys first, met]; rfl
              rw [key_a, key_first, List.filterMap_cons, met, Option.elim_some, put]
              split
              · rw [List.filterMap_cons, seen]
              · rw [List.filterMap_cons, met, ih]
                rfl

theorem filterMap_putAll_view {key' : β → Option κ} {view : α → Option β}
    (keys : ∀ a, key a = (view a).bind key') (added slots : List α) :
    (putAll key added slots).filterMap view
      = putAll key' (added.filterMap view) (slots.filterMap view) := by
  induction added generalizing slots with
  | nil => rfl
  | cons a added ih =>
      rw [putAll, List.foldl_cons]
      refine (ih _).trans ?_
      rw [filterMap_put_view keys, List.filterMap_cons]
      cases view a <;> rfl

theorem filterMap_put_of_keyless {view : α → Option β}
    (keyless : ∀ a b, view a = some b → key a = none) (a : α) (slots : List α) :
    (put key a slots).filterMap view = slots.filterMap view ++ [a].filterMap view := by
  cases seen : view a with
  | some b => rw [put_of_key_eq_none (keyless a b seen), List.filterMap_append]
  | none =>
      have nothing : [a].filterMap view = [] := by simp [seen]
      rw [nothing, List.append_nil]
      induction slots with
      | nil => exact nothing
      | cons first rest ih =>
          rw [put]
          split
          · next hit =>
              cases met : view first with
              | none => rw [List.filterMap_cons, List.filterMap_cons, seen, met]
              | some b =>
                  rw [← hit.2, keyless first b met] at hit
                  exact absurd hit.1 Bool.false_ne_true
          · rw [List.filterMap_cons, List.filterMap_cons, ih]

theorem filterMap_putAll_of_keyless {view : α → Option β}
    (keyless : ∀ a b, view a = some b → key a = none) (added : List α) :
    (putAll key added []).filterMap view = added.filterMap view := by
  induction added using List.reverseRecOn with
  | nil => rfl
  | append_singleton added a ih =>
      rw [putAll_concat, filterMap_put_of_keyless keyless, ih, List.filterMap_append]

/-! ## Where slots are opened -/

def Opens (key : α → Option κ) (added : List α) (i : Nat) (a : α) : Prop :=
  added[i]? = some a ∧ ∀ k, key a = some k → k ∉ (added.take i).filterMap key

omit [DecidableEq κ] in
theorem opens_concat_iff {added : List α} {last a : α} {i : Nat} :
    Opens key (added ++ [last]) i a ↔
      Opens key added i a ∨
        i = added.length ∧ a = last ∧ ∀ k, key last = some k → k ∉ added.filterMap key := by
  unfold Opens
  rcases Nat.lt_trichotomy i added.length with inside | rfl | outside
  · rw [List.getElem?_append_left inside, List.take_append_of_le_length (Nat.le_of_lt inside)]
    simp only [Nat.ne_of_lt inside, false_and, or_false]
  · rw [List.getElem?_concat_length, List.take_left, List.getElem?_eq_none (Nat.le_refl _)]
    constructor
    · rintro ⟨same, new⟩
      obtain rfl := Option.some.inj same
      exact .inr ⟨rfl, rfl, new⟩
    · rintro (⟨nothing, -⟩ | ⟨-, rfl, new⟩)
      · contradiction
      · exact ⟨rfl, new⟩
  · have past : (added ++ [last]).length ≤ i := by
      rw [List.length_append, List.length_singleton]
      exact outside
    rw [List.getElem?_eq_none past, List.getElem?_eq_none (Nat.le_of_lt outside)]
    simp only [reduceCtorEq, false_and, Nat.ne_of_gt outside, or_self]

theorem put_of_notMem {a : α} {k : κ} (hk : key a = some k) {slots : List α}
    (fresh : k ∉ slots.filterMap key) : put key a slots = slots ++ [a] := by
  induction slots with
  | nil => rfl
  | cons first rest ih =>
      have other : key first ≠ some k := by
        intro same
        exact fresh (List.mem_filterMap.mpr ⟨first, List.mem_cons_self, same⟩)
      have later : k ∉ rest.filterMap key := by
        intro there
        obtain ⟨b, hb, same⟩ := List.mem_filterMap.mp there
        exact fresh (List.mem_filterMap.mpr ⟨b, List.mem_cons_of_mem _ hb, same⟩)
      rw [put, hk, if_neg (fun hit => other hit.2), ih later]
      rfl

theorem forall₂_put {R S : Nat → α → Prop} {a : α} {k : κ} (hk : key a = some k)
    (kept : ∀ i b, R i b → S i b) (replaced : ∀ i b, R i b → key b = some k → S i a)
    {places : List Nat} {slots : List α} (placed : List.Forall₂ R places slots)
    (known : k ∈ slots.filterMap key) : List.Forall₂ S places (put key a slots) := by
  induction placed with
  | nil => contradiction
  | @cons i b places slots here there ih =>
      rw [put, hk]
      by_cases hit : key b = some k
      · rw [if_pos ⟨rfl, hit⟩]
        exact .cons (replaced i b here hit) (there.imp kept)
      · rw [if_neg (fun both => hit both.2)]
        refine .cons (kept i b here) (ih ?_)
        obtain ⟨other, member, same⟩ := List.mem_filterMap.mp known
        rcases List.mem_cons.mp member with rfl | member
        · exact absurd same hit
        · exact List.mem_filterMap.mpr ⟨other, member, same⟩

/-- The places at which the slots have been opened, in order. -/
structure OpenedAt (key : α → Option κ) (added : List α) (places : List Nat)
    (slots : List α) : Prop where
  increasing : places.Pairwise (· < ·)
  all : ∀ i, i ∈ places ↔ ∃ a, Opens key added i a
  each : List.Forall₂ (fun i b => ∃ a, Opens key added i a ∧ key a = key b ∧
    (key a = none → a = b)) places slots

namespace OpenedAt

variable {added : List α} {last : α} {places : List Nat} {slots : List α}

omit [DecidableEq κ] in
theorem concat_new (opened : OpenedAt key added places slots)
    (new : ∀ k, key last = some k → k ∉ added.filterMap key) :
    OpenedAt key (added ++ [last]) (places ++ [added.length]) (slots ++ [last]) where
  increasing := by
    refine List.pairwise_append.mpr ⟨opened.increasing, List.pairwise_singleton _ _, ?_⟩
    intro i earlier j here
    obtain ⟨a, inside, -⟩ := (opened.all i).mp earlier
    rw [List.mem_singleton.mp here]
    exact (List.getElem?_eq_some_iff.mp inside).1
  all := by
    intro i
    simp only [List.mem_append, List.mem_singleton, opened.all, opens_concat_iff, exists_or]
    refine or_congr_right ⟨fun place => ⟨last, place, rfl, new⟩, ?_⟩
    exact fun ⟨_, place, _⟩ => place
  each := by
    have opens : Opens key (added ++ [last]) added.length last :=
      opens_concat_iff.mpr (.inr ⟨rfl, rfl, new⟩)
    refine List.rel_append (opened.each.imp ?_) (.cons ⟨last, opens, rfl, fun _ => rfl⟩ .nil)
    rintro i b ⟨a, opens, same⟩
    exact ⟨a, opens_concat_iff.mpr (.inl opens), same⟩

theorem concat_known (opened : OpenedAt key added places slots) {k : κ}
    (hk : key last = some k) (known : k ∈ added.filterMap key)
    (there : k ∈ slots.filterMap key) :
    OpenedAt key (added ++ [last]) places (put key last slots) where
  increasing := opened.increasing
  all := by
    intro i
    rw [opened.all]
    constructor
    · exact fun ⟨a, opens⟩ => ⟨a, opens_concat_iff.mpr (.inl opens)⟩
    · rintro ⟨a, opens⟩
      rcases opens_concat_iff.mp opens with before | ⟨-, -, new⟩
      · exact ⟨a, before⟩
      · exact absurd known (new k hk)
  each := by
    refine forall₂_put hk ?_ ?_ opened.each there
    · rintro i b ⟨a, opens, same⟩
      exact ⟨a, opens_concat_iff.mpr (.inl opens), same⟩
    · rintro i b ⟨a, opens, keys, -⟩ hit
      have keyed : key a = some k := keys.trans hit
      refine ⟨a, opens_concat_iff.mpr (.inl opens), keyed.trans hk.symm, fun none => ?_⟩
      rw [keyed] at none
      contradiction

end OpenedAt

theorem exists_openedAt (added : List α) :
    ∃ places, OpenedAt key added places (putAll key added []) := by
  induction added using List.reverseRecOn with
  | nil => exact ⟨[], .nil, by simp [Opens], .nil⟩
  | append_singleton added last ih =>
      obtain ⟨places, opened⟩ := ih
      rw [putAll_concat]
      cases hk : key last with
      | none =>
          rw [put_of_key_eq_none hk]
          exact ⟨_, opened.concat_new (by simp [hk])⟩
      | some k =>
          have keys := @filterMap_putAll _ _ _ key added
          by_cases known : k ∈ added.filterMap key
          · refine ⟨_, opened.concat_known hk known ?_⟩
            rwa [keys, List.mem_eraseDups]
          · rw [put_of_notMem hk (by rwa [keys, List.mem_eraseDups])]
            refine ⟨_, opened.concat_new ?_⟩
            rintro k' hk'
            obtain rfl := Option.some.inj (hk.symm.trans hk')
            exact known

theorem exists_place (added : List α) :
    ∃ place : Nat → Nat,
      (∀ slot b, (putAll key added [])[slot]? = some b →
        ∃ a, Opens key added (place slot) a ∧ key a = key b ∧ (key a = none → a = b)) ∧
      (∀ i a, Opens key added i a → ∃ slot < (putAll key added []).length, place slot = i) ∧
      ∀ slot < (putAll key added []).length, ∀ other < (putAll key added []).length,
        (slot < other ↔ place slot < place other) := by
  obtain ⟨places, increasing, all, opened⟩ := @exists_openedAt _ _ _ key added
  obtain ⟨lengths, each⟩ := List.forall₂_iff_get.mp opened
  have at_slot : ∀ slot, ∀ h : slot < places.length, places.getD slot 0 = places[slot] :=
    fun slot h => by rw [List.getD_eq_getElem?_getD, List.getElem?_eq_getElem h]; rfl
  have before : ∀ slot other, slot < other → other < places.length →
      places.getD slot 0 < places.getD other 0 := by
    intro slot other lt inside
    rw [at_slot slot (Nat.lt_trans lt inside), at_slot other inside]
    exact List.pairwise_iff_getElem.mp increasing slot other _ inside lt
  refine ⟨fun slot => places.getD slot 0, ?_, ?_, ?_⟩
  · intro slot b there
    obtain ⟨inside, rfl⟩ := List.getElem?_eq_some_iff.mp there
    have inside' : slot < places.length := lengths ▸ inside
    dsimp only
    rw [at_slot slot inside']
    exact each slot inside' inside
  · intro i a opens
    obtain ⟨slot, inside, rfl⟩ := List.mem_iff_getElem.mp ((all i).mpr ⟨a, opens⟩)
    exact ⟨slot, lengths ▸ inside, at_slot slot inside⟩
  · intro slot inside other inside'
    rw [← lengths] at inside inside'
    constructor
    · exact fun lt => before slot other lt inside'
    · intro lt
      rcases Nat.lt_trichotomy slot other with less | rfl | greater
      · exact less
      · exact absurd lt (Nat.lt_irrefl _)
      · exact absurd lt (Nat.lt_asymm (before other slot greater inside))

end Slots

/-! ## Conditions -/

namespace Condition

def raw? : Condition → Option String
  | keyed _ _ => none
  | raw sql => some sql

theorem column?_eq_bind (condition : Condition) :
    condition.column? = condition.pair?.bind Row.key := by
  cases condition <;> rfl

theorem column?_of_raw? {condition : Condition} {sql : String}
    (h : condition.raw? = some sql) : condition.column? = none := by
  cases condition with
  | keyed column value => contradiction
  | raw sql => rfl

theorem eq_map_keyed {conditions : List Condition} (no_raw : conditions.filterMap raw? = []) :
    conditions = (conditions.filterMap pair?).map fun pair => keyed pair.1 pair.2 := by
  induction conditions with
  | nil => rfl
  | cons condition conditions ih =>
      cases condition with
      | keyed column value => exact congrArg _ (ih no_raw)
      | raw sql => contradiction

end Condition

namespace Filter

theorem conditions_foldl_put (filter : Filter) (said : List Condition) :
    (said.foldl put filter).conditions
      = Slots.putAll Condition.column? said filter.conditions := by
  induction said generalizing filter with
  | nil => rfl
  | cons condition said ih => exact ih (filter.put condition)

structure Keeps (filter : Filter) (said : List Condition) : Prop where
  /-- The keyed conditions are those of a row that has been given the same pairs. -/
  pairs : filter.conditions.filterMap Condition.pair?
    = (Row.ofList (said.filterMap Condition.pair?)).entries
  nodup : (filter.conditions.filterMap Condition.column?).Nodup
  last : ∀ column value, .keyed column value ∈ filter.conditions ↔
    Row.lastOf (said.filterMap Condition.pair?) column = some value
  raw : filter.conditions.filterMap Condition.raw? = said.filterMap Condition.raw?
  /-- A condition stands before another one if and only if it was first put in earlier. -/
  order : ∃ place : Nat → Nat,
    (∀ slot condition, filter.conditions[slot]? = some condition →
      ∃ first, Slots.Opens Condition.column? said (place slot) first ∧
        first.column? = condition.column? ∧ first.raw? = condition.raw?) ∧
    (∀ i first, Slots.Opens Condition.column? said i first →
      ∃ slot < filter.conditions.length, place slot = i) ∧
    ∀ slot < filter.conditions.length, ∀ other < filter.conditions.length,
      (slot < other ↔ place slot < place other)

theorem mem_iff_mem_pairs {conditions : List Condition} (column : String) (value : Value) :
    .keyed column value ∈ conditions ↔
      (column, value) ∈ conditions.filterMap Condition.pair? := by
  rw [List.mem_filterMap]
  constructor
  · exact fun there => ⟨_, there, rfl⟩
  · rintro ⟨condition, there, same⟩
    cases condition with
    | keyed column' value' =>
        obtain ⟨rfl, rfl⟩ := Prod.mk.inj (Option.some.inj same)
        exact there
    | raw sql => contradiction

theorem keeps_foldl_put (said : List Condition) : Keeps (said.foldl put empty) said := by
  have pairs : (said.foldl put empty).conditions.filterMap Condition.pair?
      = (Row.ofList (said.filterMap Condition.pair?)).entries := by
    rw [conditions_foldl_put, Slots.filterMap_putAll_view Condition.column?_eq_bind,
      Row.ofList, Row.entries_setAll]
    rfl
  refine ⟨pairs, (said.foldl put empty).distinct, ?_, ?_, ?_⟩
  · intro column value
    rw [mem_iff_mem_pairs, pairs, Row.mem_entries_iff, Row.get?_ofList]
  · rw [conditions_foldl_put]
    exact Slots.filterMap_putAll_of_keyless (fun _ _ => Condition.column?_of_raw?) said
  · rw [conditions_foldl_put]
    obtain ⟨place, opened, all, increasing⟩ := @Slots.exists_place _ _ _ Condition.column? said
    refine ⟨place, ?_, all, increasing⟩
    intro slot condition there
    obtain ⟨first, opens, columns, same⟩ := opened slot condition there
    refine ⟨first, opens, columns, ?_⟩
    cases first with
    | raw sql => rw [same rfl]
    | keyed column value =>
        cases condition with
        | raw sql => contradiction
        | keyed _ _ => rfl

theorem conditions_equalAll (pairs : List (String × Value)) :
    (empty.equalAll pairs).conditions
      = (Row.ofList pairs).entries.map fun pair => .keyed pair.1 pair.2 := by
  let said : List Condition := pairs.map fun pair => .keyed pair.1 pair.2
  have put : empty.equalAll pairs = said.foldl Filter.put empty := by
    rw [List.foldl_map]
    rfl
  have given : said.filterMap Condition.pair? = pairs := by
    rw [List.filterMap_map]
    exact List.filterMap_some
  have no_raw : said.filterMap Condition.raw? = [] := by
    rw [List.filterMap_map, List.filterMap_eq_nil_iff]
    exact fun _ _ => rfl
  have keeps := keeps_foldl_put said
  rw [put, Condition.eq_map_keyed (keeps.raw.trans no_raw), keeps.pairs, given]

end Filter

/-! ## Drafts -/

def Request.edit? : Request → Option Edit
  | .edit e => some e
  | _ => none

namespace Draft

theorem clauses_respond (d : Draft) (request : Request) :
    (d.respond request).draft.clauses
      = if request = .clear then {} else request.edit?.elim d.clauses d.clauses.edit := by
  have looks : request.changes = false → (d.respond request).draft.clauses = d.clauses :=
    fun looks => (congrArg Draft.clauses (unrendered_respond_of_looks d looks) :)
  cases request with
  | edit | clear => rfl
  | sql | inlined | statement | display | table | kind | settings | recorded =>
      exact looks rfl

theorem clauses_after (table : String) (settings : Settings) (requests : List Request) :
    (({ table, settings } : Draft).after requests).clauses
      = ((Request.sinceClear requests).filterMap Request.edit?).foldl Clauses.edit {} := by
  induction requests using List.reverseRecOn with
  | nil => rfl
  | append_singleton requests request ih =>
      rw [after_concat, clauses_respond, Request.sinceClear_concat, ih]
      by_cases clears : request = .clear
      · rw [if_pos clears, if_pos clears]
        rfl
      · rw [if_neg clears, if_neg clears, List.filterMap_append, List.foldl_append]
        cases edit : request.edit? with
        | none => simp [edit]
        | some e => simp [edit]

def Binds (d : Draft) (row : Row) (sql : String) : Prop :=
  ∃ s, (d.respond .statement).reply = .statement s ∧ s.sql = sql ∧
    s.bindings = row.values ∧ s.types = Value.tags row.values

theorem binds_of_text {d : Draft} {k : Kind} {row : Row} {sql : String}
    (chosen : d.kind = some k) (values : d.clauses.values k = row.values)
    (text : d.clauses.text (fun _ => "?") d.table k = sql) : d.Binds row sql := by
  obtain ⟨pieces, -, rendered, written, bound⟩ := exists_pieces chosen
  have reply := @reply_respond_of_renders d .statement rfl
  have bindings : (Statement.ofPieces pieces).bindings = row.values := bound.trans values
  rw [rendered] at reply
  refine ⟨.ofPieces pieces, reply, ?_, bindings, ?_⟩
  · rw [Piece.sql_ofPieces, written, text]
  · rw [Statement.types, bindings]

def equations (row : Row) : List String :=
  row.columns.map (· ++ " = ?")

def assigning (pairs : List (String × Value)) : List Edit :=
  pairs.map (fun pair => .set pair.1 pair.2) ++ [.update]

theorem map_equalityText (row : Row) :
    row.entries.map (fun entry => Clauses.equalityText (fun _ => "?") entry.1 entry.2)
      = equations row := by
  have each : ∀ entry : String × Value,
      Clauses.equalityText (fun _ => "?") entry.1 entry.2 = entry.1 ++ " = ?" := by
    intro entry
    rw [Clauses.equalityText, String.append_assoc]
    rfl
  rw [equations, Row.columns, List.map_map]
  exact List.map_congr_left fun entry _ => each entry

variable (table : String) (settings : Settings) (pairs : List (String × Value))

theorem binds_insert :
    (({ table, settings } : Draft).after [.edit (.insert pairs)]).Binds (.ofList pairs)
      ("INSERT INTO " ++ table ++ " (" ++ ", ".intercalate (Row.ofList pairs).columns
        ++ ") VALUES (" ++ ", ".intercalate ((Row.ofList pairs).values.map fun _ => "?")
        ++ ")") :=
  binds_of_text (k := .insert) rfl rfl rfl

theorem binds_update :
    (({ table, settings } : Draft).after ((assigning pairs).map .edit)).Binds (.ofList pairs)
      ("UPDATE " ++ table ++ " SET " ++ ", ".intercalate (equations (.ofList pairs))) := by
  have given : (assigning pairs).filterMap Edit.assignment? = pairs := by
    have each : pairs.filterMap (Edit.assignment? ∘ fun pair => .set pair.1 pair.2) = pairs :=
      List.filterMap_some
    rw [assigning, List.filterMap_append, List.filterMap_map, each]
    exact List.append_nil pairs
  have silent : (assigning pairs).flatMap Edit.conditions = [] := by
    rw [List.flatMap_eq_nil_iff]
    intro e there
    rcases List.mem_append.mp there with there | there
    · obtain ⟨pair, -, rfl⟩ := List.mem_map.mp there
      rfl
    · rw [List.mem_singleton.mp there]
      rfl
  have chosen : ((assigning pairs).foldl Clauses.edit {}).kind = some .update := by
    rw [Clauses.kind_foldl_edit, Edit.last, assigning, List.filterMap_append]
    have last : [Edit.update].filterMap Edit.kind? = [.update] := rfl
    rw [last, List.getLast?_concat]
    rfl
  have assignments := Clauses.assignments_foldl_edit {} (assigning pairs)
  have filter := Clauses.filter_foldl_edit {} (assigning pairs)
  rw [given] at assignments
  rw [silent] at filter
  rw [after_map_edit]
  refine binds_of_text (k := .update) chosen ?_ ?_
  · simp only [Clauses.values, Clauses.conditionValues, assignments, filter]
    exact List.append_nil _
  · simp only [Clauses.text, Clauses.updateText, Clauses.whereText, assignments, filter]
    rw [← map_equalityText]
    exact String.append_empty

theorem binds_delete :
    (({ table, settings } : Draft).after [.edit (.whereAll pairs), .edit .delete]).Binds
      (.ofList pairs)
      ("DELETE FROM " ++ table ++ Clauses.conjunctionText " WHERE "
        (equations (.ofList pairs))) := by
  have conditions := Filter.conditions_equalAll pairs
  refine binds_of_text (k := .delete) rfl ?_ ?_
  · change (Filter.empty.equalAll pairs).conditions.filterMap Condition.value? = _
    rw [conditions, List.filterMap_map]
    exact congrFun List.filterMap_eq_map _
  · change "DELETE FROM " ++ table ++ Clauses.conjunctionText " WHERE "
      ((Filter.empty.equalAll pairs).conditions.map
        (Clauses.conditionText fun _ => "?")) = _
    rw [conditions, List.map_map, ← map_equalityText]
    rfl

/--
Whatever the history of a draft, its conditions are kept as the columns of a row
are, with all raw conditions among them in their places.  The same pairs
come to the same bound values in an insertion, an update and a deletion.
-/
theorem keeps_conditions (table : String) (settings : Settings) :
    (∀ history : List Request,
      (({ table, settings } : Draft).after history).clauses.filter.Keeps
        (((Request.sinceClear history).filterMap Request.edit?).flatMap Edit.conditions)) ∧
    ∀ pairs : List (String × Value),
      let fresh : Draft := { table, settings }
      let row := Row.ofList pairs
      (fresh.after [.edit (.insert pairs)]).Binds row
        ("INSERT INTO " ++ table ++ " (" ++ ", ".intercalate row.columns ++ ") VALUES ("
          ++ ", ".intercalate (row.values.map fun _ => "?") ++ ")") ∧
      (fresh.after ((assigning pairs).map .edit)).Binds row
        ("UPDATE " ++ table ++ " SET " ++ ", ".intercalate (equations row)) ∧
      (fresh.after [.edit (.whereAll pairs), .edit .delete]).Binds row
        ("DELETE FROM " ++ table ++ Clauses.conjunctionText " WHERE " (equations row)) := by
  refine ⟨fun history => ?_, fun pairs => ?_⟩
  · rw [clauses_after, Clauses.filter_foldl_edit]
    exact Filter.keeps_foldl_put _
  · exact ⟨binds_insert table settings pairs, binds_update table settings pairs,
      binds_delete table settings pairs⟩

example :
    (([.whereEqual "a" .null, .whereRaw "b", .whereAll [("b", .int 1), ("a", .int 2)],
        .whereRaw "b"] : List Edit).foldl Clauses.edit {}).filter.conditions
      = [.keyed "a" (.int 2), .raw "b", .keyed "b" (.int 1), .raw "b"] := by
  decide

end Draft

end BoundSql
