import BoundSql.Proofs.KeptConditions
import BoundSql.Proofs.Lexing
import BoundSql.Proofs.Placeholders

/-!
# Statements that compare equal

Statements are compared with their values as numbers, so a NaN that is bound
makes a statement differ from itself, and the two zeros are not told apart.
Otherwise comparing is an equivalence.  Equal statements have the same SQL text
in the same slots, and their inlined texts differ where, and only where, one has
a zero and the other the zero of the other sign.
-/

namespace BoundSql

/-! ## Numbers -/

namespace Binary64

def zero : Binary64 :=
  ⟨0⟩

def negativeZero : Binary64 :=
  ⟨0x8000000000000000⟩

theorem eqv_iff (x y : Binary64) :
    x.eqv y = true ↔ x.isNaN = false ∧ y.isNaN = false ∧
      (x = y ∨ x.magnitude = 0 ∧ y.magnitude = 0) := by
  simp [eqv, and_assoc]

theorem eqv_self_iff (x : Binary64) : x.eqv x = true ↔ x.isNaN = false := by
  simp [eqv_iff]

theorem eqv_symm {x y : Binary64} (h : x.eqv y = true) : y.eqv x = true := by
  obtain ⟨hx, hy, same⟩ := (eqv_iff x y).mp h
  exact (eqv_iff y x).mpr ⟨hy, hx, same.imp Eq.symm And.symm⟩

theorem eqv_trans {x y z : Binary64} (h : x.eqv y = true) (h' : y.eqv z = true) :
    x.eqv z = true := by
  obtain ⟨hx, -, same⟩ := (eqv_iff x y).mp h
  obtain ⟨-, hz, same'⟩ := (eqv_iff y z).mp h'
  refine (eqv_iff x z).mpr ⟨hx, hz, ?_⟩
  rcases same with rfl | zeros
  · exact same'
  · rcases same' with rfl | zeros'
    · exact .inr zeros
    · exact .inr ⟨zeros.1, zeros'.2⟩

theorem eq_zero_or_of_magnitude {x : Binary64} (h : x.magnitude = 0) :
    x = zero ∨ x = negativeZero := by
  rw [← x.ofParts_magnitude, h]
  cases x.isNegative with
  | true => exact .inr rfl
  | false => exact .inl rfl

end Binary64

/-! ## Values -/

namespace Value

open Binary64 (zero negativeZero)

def isNaN : Value → Bool
  | float x => x.isNaN
  | _ => false

def OppositeZeros (v w : Value) : Prop :=
  v = float zero ∧ w = float negativeZero ∨ v = float negativeZero ∧ w = float zero

theorem eqv_self_iff (v : Value) : v.eqv v = true ↔ v.isNaN = false := by
  cases v with
  | float x => exact x.eqv_self_iff
  | null | bool | int | text => simp [eqv, isNaN]

theorem eqv_symm {v w : Value} (h : v.eqv w = true) : w.eqv v = true := by
  cases v <;> cases w <;> first
    | exact Binary64.eqv_symm h
    | simp_all [eqv]

theorem eqv_trans {u v w : Value} (h : u.eqv v = true) (h' : v.eqv w = true) :
    u.eqv w = true := by
  cases u <;> cases v <;> cases w <;> first
    | exact Binary64.eqv_trans h h'
    | simp_all [eqv]

theorem eq_or_oppositeZeros {v w : Value} (h : v.eqv w = true) :
    v = w ∨ OppositeZeros v w := by
  cases v <;> cases w <;> try simp_all [eqv, OppositeZeros]
  next x y =>
    obtain ⟨-, -, same | ⟨hx, hy⟩⟩ := (Binary64.eqv_iff x y).mp h
    · exact .inl same
    · rcases Binary64.eq_zero_or_of_magnitude hx with rfl | rfl <;>
        rcases Binary64.eq_zero_or_of_magnitude hy with rfl | rfl <;> simp

theorem not_oppositeZeros_self (v : Value) : ¬ OppositeZeros v v := by
  have distinct : float zero ≠ float negativeZero := by decide
  rintro (⟨first, second⟩ | ⟨first, second⟩)
  · exact distinct (first.symm.trans second)
  · exact distinct (second.symm.trans first)

theorem literalChars_zero : (float zero).literalChars = ['0'] := by decide +kernel

theorem literalChars_negativeZero : (float negativeZero).literalChars = ['-', '0'] := by
  decide +kernel

theorem literalChars_append_ne {v w : Value} (h : OppositeZeros v w) (s t : List Char) :
    v.literalChars ++ s ≠ w.literalChars ++ t := by
  rcases h with ⟨rfl, rfl⟩ | ⟨rfl, rfl⟩ <;>
    simp [literalChars_zero, literalChars_negativeZero]

end Value

/-! ## Lists of values -/

namespace Value

theorem eqvList_self_iff (values : List Value) :
    eqvList values values = true ↔ ∀ v ∈ values, v.isNaN = false := by
  simp only [eqvList_iff, List.forall₂_same, eqv_self_iff]

theorem eqvList_symm {vs ws : List Value} (h : eqvList vs ws = true) :
    eqvList ws vs = true := by
  rw [eqvList_iff] at h ⊢
  exact (h.imp fun _ _ => eqv_symm).flip

theorem eqvList_trans {us vs ws : List Value} (h : eqvList us vs = true)
    (h' : eqvList vs ws = true) : eqvList us ws = true := by
  rw [eqvList_iff] at h h' ⊢
  induction h generalizing ws with
  | nil => exact h'
  | cons first _ ih =>
      cases h' with
      | cons first' others => exact .cons (eqv_trans first first') (ih others)

end Value

/-! ## Statements -/

namespace Statement

theorem eqv_iff (a b : Statement) :
    a.eqv b = true ↔ a.sql = b.sql ∧ Value.eqvList a.bindings b.bindings = true ∧
      a.types = b.types ∧ a.placeholders = b.placeholders := by
  simp [eqv, and_assoc]

theorem eqv_self_iff (a : Statement) :
    a.eqv a = true ↔ ∀ v ∈ a.bindings, v.isNaN = false := by
  simp [eqv_iff, Value.eqvList_self_iff]

theorem eqv_symm {a b : Statement} (h : a.eqv b = true) : b.eqv a = true := by
  obtain ⟨sql, values, types, placeholders⟩ := (eqv_iff a b).mp h
  exact (eqv_iff b a).mpr
    ⟨sql.symm, Value.eqvList_symm values, types.symm, placeholders.symm⟩

theorem eqv_trans {a b c : Statement} (h : a.eqv b = true) (h' : b.eqv c = true) :
    a.eqv c = true := by
  obtain ⟨sql, values, types, placeholders⟩ := (eqv_iff a b).mp h
  obtain ⟨sql', values', types', placeholders'⟩ := (eqv_iff b c).mp h'
  exact (eqv_iff a c).mpr ⟨sql.trans sql', Value.eqvList_trans values values',
    types.trans types', placeholders.trans placeholders'⟩

/--
Up to the first slot with different zeros both texts are the same, and there they
part; so nothing that comes later can make up for it.
-/
theorem splice_eq_iff {vs ws : List Value}
    (equal : List.Forall₂ (fun v w => v.eqv w = true) vs ws) {offsets : List Nat}
    (lengths : offsets.length = vs.length) (cursor : Nat) (sql : List Char) :
    splice cursor sql (offsets.zip vs) = splice cursor sql (offsets.zip ws) ↔
      List.Forall₂ (fun v w => ¬ Value.OppositeZeros v w) vs ws := by
  induction equal generalizing offsets cursor sql with
  | nil => simp
  | @cons v w vs ws first _ ih =>
      cases offsets with
      | nil => contradiction
      | cons offset offsets =>
          have later := ih (Nat.succ.inj lengths) (offset + 1)
            ((Text.Utf8.splitAt (offset - cursor) sql).2.drop 1)
          simp only [List.zip_cons_cons, splice, List.append_assoc, List.append_right_inj,
            List.forall₂_cons]
          rcases Value.eq_or_oppositeZeros first with rfl | opposite
          · rw [List.append_right_inj, later]
            simp [Value.not_oppositeZeros_self]
          · simp [Value.literalChars_append_ne opposite, opposite]

def IsRendered (s : Statement) : Prop :=
  ∃ d : Draft, d.render = .ok s

theorem IsRendered.placeholders_length {s : Statement} (h : s.IsRendered) :
    s.placeholders.length = s.bindings.length := by
  obtain ⟨pieces, rendered⟩ := h
  exact (Draft.wellPlaced_of_render rendered).placeholders_length

/-- In no slot does one statement bind zero and the other minus zero. -/
def SameZeros (a b : Statement) : Prop :=
  ∀ (i : Nat) (v w : Value), a.bindings[i]? = some v → b.bindings[i]? = some w →
    ¬ v.OppositeZeros w

theorem sameZeros_iff {a b : Statement} (lengths : a.bindings.length = b.bindings.length) :
    a.SameZeros b ↔
      List.Forall₂ (fun v w => ¬ Value.OppositeZeros v w) a.bindings b.bindings := by
  rw [List.forall₂_iff_get]
  constructor
  · intro same
    refine ⟨lengths, fun i inside inside' => ?_⟩
    exact same i _ _ (List.getElem?_eq_getElem inside) (List.getElem?_eq_getElem inside')
  · rintro ⟨-, each⟩ i v w here there
    obtain ⟨inside, rfl⟩ := List.getElem?_eq_some_iff.mp here
    obtain ⟨inside', rfl⟩ := List.getElem?_eq_some_iff.mp there
    exact each i inside inside'

theorem inline_eq_iff {a b : Statement} (rendered : a.IsRendered) (h : a.eqv b = true) :
    a.inline = b.inline ↔ a.SameZeros b := by
  obtain ⟨sql, values, -, placeholders⟩ := (eqv_iff a b).mp h
  have equal := (Value.eqvList_iff _ _).mp values
  rw [sameZeros_iff equal.length_eq, inline, inline, String.ofList_inj, ← sql, ← placeholders]
  exact splice_eq_iff equal rendered.placeholders_length 0 a.sql.toList

end Statement

/-! ## What a history binds -/

def Request.edits (history : List Request) : List Edit :=
  (sinceClear history).filterMap edit?

def Edit.given (edits : List Edit) : Kind → List (List (String × Value))
  | .select | .delete => [(edits.flatMap conditions).filterMap Condition.pair?]
  | .insert => [(last inserted? edits).getD []]
  | .update =>
      [edits.filterMap assignment?, (edits.flatMap conditions).filterMap Condition.pair?]

namespace Clauses

theorem mem_entries_ofList (pairs : List (String × Value)) (entry : String × Value) :
    entry ∈ (Row.ofList pairs).entries ↔ Row.lastOf pairs entry.1 = some entry.2 := by
  rw [← Row.get?_ofList]
  exact Row.mem_entries_iff _ entry.1 entry.2

theorem mem_bound_foldl_edit (edits : List Edit) (k : Kind) (entry : String × Value) :
    entry ∈ (edits.foldl edit {}).bound k ↔
      ∃ pairs ∈ Edit.given edits k, Row.lastOf pairs entry.1 = some entry.2 := by
  have compared : (edits.foldl edit {}).filter.conditions.filterMap Condition.pair?
      = (Row.ofList ((edits.flatMap Edit.conditions).filterMap Condition.pair?)).entries := by
    rw [filter_foldl_edit]
    exact (Filter.keeps_foldl_put _).pairs
  have assigned : (edits.foldl edit {}).assignments
      = Row.ofList (edits.filterMap Edit.assignment?) := assignments_foldl_edit {} edits
  have inserted : (edits.foldl edit {}).inserted
      = Row.ofList ((Edit.last Edit.inserted? edits).getD []) := by
    rw [inserted_foldl_edit]
    cases Edit.last Edit.inserted? edits <;> rfl
  cases k with
  | select | delete => simp [bound, Edit.given, compared, mem_entries_ofList]
  | insert => simp [bound, Edit.given, inserted, mem_entries_ofList]
  | update => simp [bound, Edit.given, compared, assigned, mem_entries_ofList]

end Clauses

/-! ## Renderings of one draft -/

namespace Draft

theorem unrendered_after_of_looks (d : Draft) {between : List Request}
    (looks : ∀ request ∈ between, request.changes = false) :
    (d.after between).unrendered = d.unrendered := by
  induction between generalizing d with
  | nil => rfl
  | cons request between ih =>
      have here := unrendered_respond_of_looks d (looks request List.mem_cons_self)
      have later := ih (d.respond request).draft
        fun other there => looks other (List.mem_cons_of_mem request there)
      exact later.trans here

theorem result_statement_after_of_looks (d : Draft) {between : List Request}
    (looks : ∀ request ∈ between, request.changes = false) :
    (d.statement.draft.after between).statement.result = d.statement.result := by
  rw [← statement_unrendered, unrendered_after_of_looks _ looks, unrendered_statement,
    statement_unrendered]

theorem bindings_of_render {d : Draft} {s : Statement} (rendered : d.render = .ok s) :
    s.bindings = (d.kind.elim [] d.clauses.bound).map Prod.snd := by
  cases chosen : d.kind with
  | some k =>
      obtain ⟨pieces, -, same, -, bound⟩ := exists_pieces chosen
      rw [rendered] at same
      obtain rfl := Except.ok.inj same
      rw [Option.elim_some, Clauses.map_snd_bound]
      exact bound
  | none =>
      have none : d.clauses.pieces? d.table = none := by
        rw [Clauses.pieces?, show d.clauses.kind = none from chosen]
        rfl
      unfold render at rendered
      rw [none] at rendered
      cases policy : d.settings.kindPolicy with
      | required => rw [policy] at rendered; contradiction
      | optional =>
          rw [policy] at rendered
          obtain rfl := Except.ok.inj rendered
          rfl

/--
A draft with a history of requests renders `a` and, with nothing changed in
between, once more; the two compare equal if and only if no NaN is bound.  What
is bound is the last value of each column among the edits that the kind reads.
-/
structure RendersAgain (fresh : Draft) (history between : List Request)
    (a : Statement) : Prop where
  eqv_iff : ∃ b, ((fresh.after history).statement.draft.after between).statement.result = .ok b ∧
    (a.eqv b = true ↔ ∀ v ∈ a.bindings, v.isNaN = false)
  bound : ∀ v, v ∈ a.bindings ↔
    ∃ k ∈ Edit.last Edit.kind? (Request.edits history),
      ∃ pairs ∈ Edit.given (Request.edits history) k,
        ∃ column, Row.lastOf pairs column = some v

theorem rendersAgain (table : String) (settings : Settings) {history between : List Request}
    (looks : ∀ request ∈ between, request.changes = false) {a : Statement}
    (rendered : (({ table, settings } : Draft).after history).statement.result = .ok a) :
    RendersAgain { table, settings } history between a where
  eqv_iff := by
    refine ⟨a, ?_, a.eqv_self_iff⟩
    rw [result_statement_after_of_looks _ looks, rendered]
  bound := by
    intro v
    have clauses : (({ table, settings } : Draft).after history).clauses
        = (Request.edits history).foldl Clauses.edit {} := clauses_after table settings history
    have kind : (({ table, settings } : Draft).after history).kind
        = Edit.last Edit.kind? (Request.edits history) := by
      rw [Draft.kind, clauses, Clauses.kind_foldl_edit]
      cases Edit.last Edit.kind? (Request.edits history) <;> rfl
    rw [result_statement] at rendered
    rw [bindings_of_render rendered, kind, clauses]
    cases Edit.last Edit.kind? (Request.edits history) with
    | none => simp
    | some k =>
        simp only [Option.elim_some, List.mem_map, Clauses.mem_bound_foldl_edit,
          Option.mem_def, Option.some.injEq, exists_eq_left', Prod.exists, exists_eq_right]
        exact ⟨fun ⟨column, pairs, there, last⟩ => ⟨pairs, there, column, last⟩,
          fun ⟨pairs, there, column, last⟩ => ⟨column, pairs, there, last⟩⟩

end Draft

namespace Statement

/--
Comparing rendered statements is symmetric and transitive, and a rendering equals
itself unless it binds a NaN.  Equal statements have the same text and slots;
they are inlined to the same text unless a zero differs in its sign.
-/
theorem eqv_of_rendered :
    (∀ (table : String) (settings : Settings) (history between : List Request) (a : Statement),
      (∀ request ∈ between, request.changes = false) →
      (({ table, settings } : Draft).after history).statement.result = .ok a →
        Draft.RendersAgain { table, settings } history between a) ∧
    (∀ a b : Statement, a.eqv b = true → b.eqv a = true) ∧
    (∀ a b c : Statement, a.eqv b = true → b.eqv c = true → a.eqv c = true) ∧
    ∀ a b : Statement, a.IsRendered → a.eqv b = true →
      a.sql = b.sql ∧ a.types = b.types ∧ a.placeholders = b.placeholders ∧
        (a.inline = b.inline ↔ a.SameZeros b) := by
  refine ⟨?_, fun _ _ => eqv_symm, fun _ _ _ => eqv_trans, ?_⟩
  · intro table settings history between a looks rendered
    exact Draft.rendersAgain table settings looks rendered
  · intro a b rendered equal
    obtain ⟨sql, -, types, placeholders⟩ := (eqv_iff a b).mp equal
    exact ⟨sql, types, placeholders, inline_eq_iff rendered equal⟩

theorem eqv_of_rendered_exchanged_zeros :
    let nan : Value := .float ⟨0x7FF8000000000000⟩
    let zero : Value := .float .zero
    let minus : Value := .float .negativeZero
    let history : List Request := [.edit (.insert [("n", nan)]), .edit (.set "a" nan),
      .edit .update, .edit (.set "a" zero), .edit (.whereEqual "b" minus)]
    let a : Statement := ⟨"UPDATE t SET a = ? WHERE b = ?", [zero, minus], [17, 29]⟩
    let b : Statement := ⟨"UPDATE t SET a = ? WHERE b = ?", [minus, zero], [17, 29]⟩
    let d := ({ table := "t" } : Draft).after history
    (d.statement.result = .ok a ∧
      (∃ again, (d.statement.draft.after [.sql, .display]).statement.result = .ok again ∧
        a.eqv again = true)) ∧
      a.eqv b = true ∧ b.eqv a = true ∧ a.inline ≠ b.inline := by
  intro nan zero minus history a b d
  have rendered : d.statement.result = .ok a := by decide
  have equal : a.eqv b = true := by decide
  obtain ⟨again, symm, -, parts⟩ := eqv_of_rendered
  obtain ⟨⟨second, result, iff⟩, -⟩ := again "t" {} history [.sql, .display] a (by decide) rendered
  have numbers : ∀ v ∈ a.bindings, v.isNaN = false := by decide
  refine ⟨⟨rendered, second, result, iff.mpr numbers⟩, equal, symm a b equal, ?_⟩
  obtain ⟨-, -, -, texts⟩ := parts a b ⟨d, by decide⟩ equal
  intro same
  exact texts.mp same 0 zero minus rfl rfl (.inl ⟨rfl, rfl⟩)

end Statement

end BoundSql
