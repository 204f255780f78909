import BoundSql.Proofs.RoundTrip

/-!
# How far a value goes

What a reader takes off a text is settled by that part of it: strings, arrays and
objects have a closing mark, and a number ends where the text does not go on as a
number would.  So the part can be read alone and before other texts.  A text is
refused only as malformed, and a value is read with any room that its depth fits
into.
-/

namespace BoundSql

namespace Json

/-! ## Strings -/

namespace Quoted

theorem readUnit_split {text rest : List Char} {unit : Nat}
    (h : readUnit text = some (unit, rest)) :
    ∃ used, text = used ++ rest ∧ ∀ more, readUnit (used ++ more) = some (unit, more) := by
  unfold readUnit at h
  split at h
  · next a b c d after =>
      simp only [Option.bind_eq_bind, Option.bind_eq_some_iff, Option.pure_def,
        Option.some.injEq, Prod.mk.injEq] at h
      obtain ⟨_, ha, _, hb, _, hc, _, hd, rfl, rfl⟩ := h
      exact ⟨[a, b, c, d], rfl, fun more => by simp [readUnit, ha, hb, hc, hd]⟩
  · contradiction

theorem readTrailing_split {leading : Nat} {text rest : List Char} {c : Char}
    (h : readTrailing leading text = some (c, rest)) :
    ∃ used, text = used ++ rest ∧
      ∀ more, readTrailing leading (used ++ more) = some (c, more) := by
  unfold readTrailing at h
  split at h
  · simp only [Option.bind_eq_bind, Option.bind_eq_some_iff, Prod.exists] at h
    obtain ⟨trailing, after, found, taken⟩ := h
    obtain ⟨used, rfl, unit⟩ := readUnit_split found
    split at taken
    · next second =>
        simp only [Option.pure_def, Option.some.injEq, Prod.mk.injEq] at taken
        obtain ⟨rfl, rfl⟩ := taken
        exact ⟨'\\' :: 'u' :: used, rfl, fun more => by simp [readTrailing, unit, second]⟩
    · contradiction
  · contradiction

theorem readEscape_split {text rest : List Char} {c : Char}
    (h : readEscape text = some (c, rest)) :
    ∃ used, text = used ++ rest ∧ ∀ more, readEscape (used ++ more) = some (c, more) := by
  unfold readEscape at h
  split at h
  case h_9 =>
    simp only [Option.bind_eq_bind, Option.bind_eq_some_iff, Prod.exists] at h
    obtain ⟨unit, after, found, taken⟩ := h
    obtain ⟨used, rfl, escaped⟩ := readUnit_split found
    split at taken
    · next leading =>
        obtain ⟨second, rfl, pair⟩ := readTrailing_split taken
        exact ⟨'u' :: (used ++ second), by simp, fun more => by
          simp [readEscape, escaped, leading, pair]⟩
    · next single =>
        split at taken
        · contradiction
        · next unpaired =>
            cases taken
            exact ⟨'u' :: used, rfl, fun more => by simp [readEscape, escaped, single, unpaired]⟩
  case h_10 => contradiction
  all_goals
    cases h
    exact ⟨[_], rfl, fun more => rfl⟩

theorem readChar_split {text rest : List Char} {c : Char}
    (h : readChar text = some (c, rest)) :
    ∃ used, text = used ++ rest ∧ ∀ more, readChar (used ++ more) = some (c, more) := by
  unfold readChar at h
  split at h
  · contradiction
  · obtain ⟨used, rfl, again⟩ := readEscape_split h
    exact ⟨'\\' :: used, rfl, again⟩
  · split at h
    · contradiction
    · next printable =>
        cases h
        exact ⟨[c], rfl, fun more => by simp [readChar, printable]⟩

theorem readBody_split {text chars rest : List Char}
    (h : readBody text = some (chars, rest)) :
    ∃ used, text = used ++ rest ∧ ∀ more, readBody (used ++ more) = some (chars, more) := by
  fun_induction readBody text generalizing chars rest with
  | case1 text quote =>
      cases h
      obtain ⟨others, rfl⟩ := List.head?_eq_some_iff.mp quote
      refine ⟨['"'], rfl, fun more => ?_⟩
      rw [readBody]
      rfl
  | case2 => contradiction
  | case3 text inside c after taken ih =>
      obtain ⟨⟨chars, last⟩, found, same⟩ := Option.map_eq_some_iff.mp h
      cases same
      obtain ⟨later, rfl, body⟩ := ih found
      obtain ⟨used, rfl, char⟩ := readChar_split taken
      refine ⟨used ++ later, by simp, fun more => ?_⟩
      have head : (used ++ (later ++ more)).head? ≠ some '"' := by
        cases used with
        | nil => exact absurd (readChar_length (char [])) (Nat.lt_irrefl 0)
        | cons d used => exact inside
      rw [List.append_assoc, readBody_of_readChar head (char _), body]
      rfl

end Quoted

/-! ## Scalars -/

open Numeral (StopsAt FollowsAs followsAs_nil followsAs_append isPart)

theorem readScalar_split {text rest : List Char} {j : Json}
    (h : readScalar text = some (j, rest)) :
    ∃ used, text = used ++ rest ∧
      ∀ more, FollowsAs rest more → readScalar (used ++ more) = some (j, more) := by
  unfold readScalar at h
  split at h
  case h_4 =>
    obtain ⟨⟨chars, last⟩, found, same⟩ := Option.map_eq_some_iff.mp h
    cases same
    obtain ⟨used, rfl, body⟩ := Quoted.readBody_split found
    exact ⟨'"' :: used, rfl, fun more _ => by simp [readScalar, body]⟩
  case h_5 =>
    simp only [Option.bind_eq_bind, Option.bind_eq_some_iff, Option.pure_def,
      Option.some.injEq, Prod.mk.injEq, Prod.exists] at h
    obtain ⟨n, last, found, number, value, rfl, rfl⟩ := h
    obtain ⟨used, rfl, again⟩ := Numeral.read_split found
    exact ⟨used, rfl, fun more follows => readScalar_of_read (again more follows) value⟩
  case h_1 =>
    cases h
    exact ⟨"null".toList, rfl, fun more _ => rfl⟩
  case h_2 =>
    cases h
    exact ⟨"true".toList, rfl, fun more _ => rfl⟩
  case h_3 =>
    cases h
    exact ⟨"false".toList, rfl, fun more _ => rfl⟩

/-! ## Lists -/

theorem skipSpace_append {text : List Char} (visible : skipSpace text ≠ []) (more : List Char) :
    skipSpace (text ++ more) = skipSpace text ++ more := by
  rw [skipSpace, List.dropWhile_append, if_neg (by simpa [skipSpace] using visible)]
  rfl

theorem skipSpace_append_of_blank {text : List Char} (blank : skipSpace text = [])
    (more : List Char) : skipSpace (text ++ more) = skipSpace more := by
  rw [skipSpace, List.dropWhile_append, if_pos (by simpa [skipSpace] using blank)]
  rfl

theorem skipSpace_split {text rest : List Char} {c : Char} (left : skipSpace text = c :: rest) :
    ∃ pad, text = pad ++ c :: rest ∧ ∀ more, skipSpace (pad ++ c :: more) = c :: more := by
  have visible : isSpace c = false := by
    have first := List.head?_dropWhile_not isSpace text
    rw [← skipSpace, left] at first
    simpa using first
  refine ⟨text.takeWhile isSpace, ?_, fun more => ?_⟩
  · rw [← left]
    exact List.takeWhile_append_dropWhile.symm
  · rw [skipSpace, List.dropWhile_append_of_pos fun d there => List.mem_takeWhile_imp there,
      List.dropWhile_cons, if_neg (by simp [visible])]

theorem map_error {α β : Type} {f : α → β} {r : Except Refusal α} {refusal : Refusal}
    (h : r.map f = .error refusal) : r = .error refusal := by
  cases r with
  | error => exact congrArg Except.error (Except.error.inj h)
  | ok a => contradiction

section Lists

variable {α : Type} {close : Char} {item other : Reader α}

def Strict (item : Reader α) : Prop :=
  ∀ ⦃text refusal⦄, item.run text = .error refusal → refusal = .malformed

/-- What the reader takes is settled by itself and, for numerals, by how the rest begins. -/
def Stands (item : Reader α) : Prop :=
  ∀ ⦃text a rest⦄, item.run text = .ok (a, rest) → ∃ used, text = used ++ rest ∧
    ∀ more, FollowsAs rest more → item.run (used ++ more) = .ok (a, more)

def ReadAlso (p : α → Prop) (item other : Reader α) : Prop :=
  ∀ ⦃text a rest⦄, item.run text = .ok (a, rest) → p a → other.run text = .ok (a, rest)

theorem Reader.run_ne_nil {text rest : List Char} {a : α}
    (h : item.run text = .ok (a, rest)) : text ≠ [] := by
  rintro rfl
  exact absurd (item.consumes h) (Nat.not_lt_zero _)

theorem items_strict (strict : Strict item) {text : List Char} {refusal : Refusal}
    (h : items close item text = .error refusal) : refusal = .malformed := by
  fun_induction items close item text generalizing refusal with
  | case1 text _ refused =>
      cases h
      exact strict refused
  | case2 => cases h; rfl
  | case3 text first afterItem taken after mark ih => exact ih (map_error h)
  | case4 => contradiction
  | case5 => cases h; rfl

theorem sequence_strict (strict : Strict item) {text : List Char} {refusal : Refusal}
    (h : sequence close item text = .error refusal) : refusal = .malformed := by
  unfold sequence at h
  split at h
  · cases h; rfl
  · split at h
    · contradiction
    · exact items_strict strict h

theorem Stands.run_skipSpace (stands : Stands item) {text rest : List Char} {a : α}
    (taken : item.run (skipSpace text) = .ok (a, rest)) : ∃ used, text = used ++ rest ∧
      ∀ more, FollowsAs rest more → item.run (skipSpace (used ++ more)) = .ok (a, more) := by
  obtain ⟨used, split, again⟩ := stands taken
  cases used with
  | nil => exact absurd rfl (Reader.run_ne_nil (again [] followsAs_nil))
  | cons c used =>
      obtain ⟨pad, rfl, visible⟩ := skipSpace_split split
      refine ⟨pad ++ c :: used, by simp, fun more follows => ?_⟩
      rw [List.append_assoc, List.cons_append, visible]
      exact again more follows

theorem Stands.run_to_mark (stands : Stands item) {text between after : List Char} {a : α}
    {mark : Char} (taken : item.run (skipSpace text) = .ok (a, between))
    (left : skipSpace between = mark :: after) : ∃ used, text = used ++ mark :: after ∧
      ∀ more, ∃ between, item.run (skipSpace (used ++ mark :: more)) = .ok (a, between) ∧
        skipSpace between = mark :: more := by
  obtain ⟨used, rfl, again⟩ := stands.run_skipSpace taken
  obtain ⟨pad, rfl, visible⟩ := skipSpace_split left
  refine ⟨used ++ pad, by simp, fun more => ⟨pad ++ mark :: more, ?_, visible more⟩⟩
  rw [List.append_assoc]
  exact again _ (.inl (by cases pad <;> rfl))

theorem items_split (stands : Stands item) {text rest : List Char} {all : List α}
    (h : items close item text = .ok (all, rest)) :
    ∃ used, text = used ++ rest ∧ ∀ more, items close item (used ++ more) = .ok (all, more) := by
  fun_induction items close item text generalizing all rest with
  | case1 => contradiction
  | case2 => contradiction
  | case3 text first between taken after left ih =>
      obtain ⟨⟨others, last⟩, found, same⟩ := map_ok h
      cases same
      obtain ⟨later, rfl, rest_again⟩ := ih found
      obtain ⟨used, rfl, item_again⟩ := stands.run_to_mark taken left
      refine ⟨used ++ ',' :: later, by simp, fun more => ?_⟩
      obtain ⟨between, taken, left⟩ := item_again (later ++ more)
      rw [List.append_assoc, List.cons_append, items_of_run taken left, if_pos rfl, rest_again]
      rfl
  | case4 text first between taken after left comma =>
      cases h
      obtain ⟨used, rfl, item_again⟩ := stands.run_to_mark taken left
      refine ⟨used ++ [close], by simp, fun more => ?_⟩
      obtain ⟨between, taken, left⟩ := item_again more
      rw [List.append_assoc, List.singleton_append, items_of_run taken left, if_neg comma,
        if_pos rfl]
  | case5 => contradiction

theorem sequence_split (stands : Stands item) {text rest : List Char} {all : List α}
    (h : sequence close item text = .ok (all, rest)) :
    ∃ used, text = used ++ rest ∧
      ∀ more, sequence close item (used ++ more) = .ok (all, more) := by
  unfold sequence at h
  split at h
  · contradiction
  · next c after left =>
      obtain ⟨pad, rfl, visible⟩ := skipSpace_split left
      split at h
      · next closed =>
          cases h
          refine ⟨pad ++ [c], by simp, fun more => ?_⟩
          rw [sequence, List.append_assoc, List.singleton_append, visible]
          exact if_pos closed
      · next inside =>
          obtain ⟨used, split, again⟩ := items_split stands h
          cases used with
          | nil => exact absurd (items_length (again [])) (Nat.lt_irrefl 0)
          | cons d used =>
              obtain ⟨rfl, rfl⟩ := List.cons.inj split
              refine ⟨pad ++ c :: used, by simp, fun more => ?_⟩
              rw [sequence, List.append_assoc, List.cons_append, visible]
              exact (if_neg inside).trans (again more)

theorem items_readAlso {p : α → Prop} (also : ReadAlso p item other) {text rest : List Char}
    {all : List α} (h : items close item text = .ok (all, rest)) (fits : ∀ a ∈ all, p a) :
    items close other text = .ok (all, rest) := by
  fun_induction items close item text generalizing all rest with
  | case1 => contradiction
  | case2 => contradiction
  | case3 text first between taken after left ih =>
      obtain ⟨⟨others, last⟩, found, same⟩ := map_ok h
      cases same
      have taken := also taken (fits first List.mem_cons_self)
      have later := ih found fun a there => fits a (List.mem_cons_of_mem first there)
      rw [items_of_run taken left, if_pos rfl, later]
      rfl
  | case4 text first between taken after left comma =>
      cases h
      have taken := also taken (fits first List.mem_cons_self)
      rw [items_of_run taken left, if_neg comma, if_pos rfl]
  | case5 => contradiction

theorem sequence_readAlso {p : α → Prop} (also : ReadAlso p item other) {text rest : List Char}
    {all : List α} (h : sequence close item text = .ok (all, rest)) (fits : ∀ a ∈ all, p a) :
    sequence close other text = .ok (all, rest) := by
  unfold sequence at h ⊢
  split at h
  · contradiction
  · split at h
    · next closed =>
        rw [if_pos closed]
        exact h
    · next inside =>
        rw [if_neg inside]
        exact items_readAlso also h fits

end Lists

/-! ## Values -/

mutual

def depth : Json → Nat
  | .array items => depthOfItems items + 1
  | .object members => depthOfMembers members + 1
  | .null | .bool _ | .number _ | .string _ => 0

def depthOfItems : List Json → Nat
  | [] => 0
  | j :: items => max j.depth (depthOfItems items)

def depthOfMembers : List (String × Json) → Nat
  | [] => 0
  | m :: members => max (depthOfMember m) (depthOfMembers members)

def depthOfMember : String × Json → Nat
  | (_, j) => j.depth

end

theorem depthOfItems_le_iff {items : List Json} {n : Nat} :
    depthOfItems items ≤ n ↔ ∀ j ∈ items, j.depth ≤ n := by
  induction items with
  | nil => simp [depthOfItems]
  | cons j items ih => rw [depthOfItems, Nat.max_le, ih, List.forall_mem_cons]

theorem depthOfMembers_le_iff {members : List (String × Json)} {n : Nat} :
    depthOfMembers members ≤ n ↔ ∀ m ∈ members, m.2.depth ≤ n := by
  induction members with
  | nil => simp [depthOfMembers]
  | cons m members ih => rw [depthOfMembers, Nat.max_le, ih, List.forall_mem_cons, depthOfMember]

theorem depth_of_readScalar {text rest : List Char} {j : Json}
    (h : readScalar text = some (j, rest)) : j.depth = 0 := by
  unfold readScalar at h
  split at h
  case h_4 =>
    obtain ⟨⟨chars, last⟩, -, same⟩ := Option.map_eq_some_iff.mp h
    cases same
    rfl
  case h_5 =>
    simp only [Option.bind_eq_bind, Option.bind_eq_some_iff, Option.pure_def,
      Option.some.injEq, Prod.mk.injEq, Prod.exists] at h
    obtain ⟨_, _, _, _, _, rfl, _⟩ := h
    rfl
  all_goals
    cases h
    rfl

inductive Takes (inner : Option (Reader Json)) : List Char → Json → List Char → Prop
  | scalar {text rest : List Char} {j : Json} (found : readScalar text = some (j, rest)) :
      Takes inner text j rest
  | array {item : Reader Json} {body rest : List Char} {all : List Json}
      (room : inner = some item) (found : sequence ']' item body = .ok (all, rest)) :
      Takes inner ('[' :: body) (.array all) rest
  | object {item : Reader Json} {body rest : List Char} {all : List (String × Json)}
      (room : inner = some item) (found : sequence '}' (member item) body = .ok (all, rest)) :
      Takes inner ('{' :: body) (.object all) rest

theorem run_valueOver_iff {inner : Option (Reader Json)} {text rest : List Char} {j : Json} :
    (valueOver inner).run text = .ok (j, rest) ↔ Takes inner text j rest := by
  constructor
  · intro h
    simp only [valueOver] at h
    split at h
    · contradiction
    · contradiction
    · obtain ⟨⟨all, last⟩, found, same⟩ := map_ok h
      cases same
      exact .array rfl found
    · obtain ⟨⟨all, last⟩, found, same⟩ := map_ok h
      cases same
      exact .object rfl found
    · split at h
      · contradiction
      · next found =>
          cases h
          exact .scalar found
  · intro h
    cases h with
    | scalar found => exact run_valueOver_of_readScalar inner found
    | array room found =>
        subst room
        simp only [valueOver, found]
        rfl
    | object room found =>
        subst room
        simp only [valueOver, found]
        rfl

theorem run_member_iff {value : Reader Json} {text rest : List Char} {m : String × Json} :
    (member value).run text = .ok (m, rest) ↔
      ∃ body name afterName after, text = '"' :: body ∧
        Quoted.readBody body = some (name, afterName) ∧ skipSpace afterName = ':' :: after ∧
        value.run (skipSpace after) = .ok (m.2, rest) ∧ m.1 = String.ofList name := by
  constructor
  · intro h
    simp only [member] at h
    split at h
    · split at h
      · contradiction
      · next found =>
          split at h
          · next colon =>
              obtain ⟨⟨j, last⟩, taken, same⟩ := map_ok h
              cases same
              exact ⟨_, _, _, _, rfl, found, colon, taken, rfl⟩
          · contradiction
    · contradiction
  · obtain ⟨name, j⟩ := m
    rintro ⟨body, chars, afterName, after, rfl, found, colon, taken, rfl⟩
    simp only [member, found, colon, taken]
    rfl

theorem member_strict {value : Reader Json} (strict : Strict value) :
    Strict (member value) := by
  intro text refusal h
  simp only [member] at h
  split at h
  · split at h
    · cases h; rfl
    · split at h
      · exact strict (map_error h)
      · cases h; rfl
  · cases h; rfl

theorem member_stands {value : Reader Json} (stands : Stands value) :
    Stands (member value) := by
  intro text m rest h
  obtain ⟨body, name, afterName, after, rfl, found, colon, taken, same⟩ := run_member_iff.mp h
  obtain ⟨quoted, rfl, name_again⟩ := Quoted.readBody_split found
  obtain ⟨pad, rfl, visible⟩ := skipSpace_split colon
  obtain ⟨used, rfl, value_again⟩ := stands.run_skipSpace taken
  refine ⟨'"' :: (quoted ++ (pad ++ ':' :: used)), by simp, fun more follows => ?_⟩
  refine run_member_iff.mpr ⟨quoted ++ (pad ++ ':' :: (used ++ more)), name,
    pad ++ ':' :: (used ++ more), used ++ more, by simp, name_again _, visible _,
    value_again more follows, same⟩

theorem member_readAlso {p : Json → Prop} {value other : Reader Json}
    (also : ReadAlso p value other) :
    ReadAlso (fun m => p m.2) (member value) (member other) := by
  intro text m rest h fits
  obtain ⟨body, name, afterName, after, opens, found, colon, taken, same⟩ := run_member_iff.mp h
  exact run_member_iff.mpr
    ⟨body, name, afterName, after, opens, found, colon, also taken fits, same⟩

theorem valueOver_strict {inner : Option (Reader Json)}
    (strict : ∀ item, inner = some item → Strict item) : Strict (valueOver inner) := by
  intro text refusal h
  simp only [valueOver] at h
  split at h
  · cases h; rfl
  · cases h; rfl
  · exact sequence_strict (strict _ rfl) (map_error h)
  · exact sequence_strict (member_strict (strict _ rfl)) (map_error h)
  · split at h
    · cases h; rfl
    · contradiction

theorem value_strict (room : Nat) : Strict (value room) := by
  induction room with
  | zero => exact valueOver_strict (by simp)
  | succ room ih => exact valueOver_strict (by simpa using ih)

theorem run_valueOver_split {inner : Option (Reader Json)}
    (stands : ∀ item, inner = some item → Stands item) {text rest : List Char} {j : Json}
    (h : (valueOver inner).run text = .ok (j, rest)) : ∃ used, text = used ++ rest ∧
      ∀ more, (j.depth = 0 → FollowsAs rest more) →
        (valueOver inner).run (used ++ more) = .ok (j, more) := by
  cases run_valueOver_iff.mp h with
  | scalar found =>
      obtain ⟨used, rfl, again⟩ := readScalar_split found
      exact ⟨used, rfl, fun more follows => run_valueOver_iff.mpr
        (.scalar (again more (follows (depth_of_readScalar found))))⟩
  | array room found =>
      obtain ⟨used, rfl, again⟩ := sequence_split (stands _ room) found
      exact ⟨'[' :: used, rfl, fun more _ => run_valueOver_iff.mpr (.array room (again more))⟩
  | object room found =>
      obtain ⟨used, rfl, again⟩ := sequence_split (member_stands (stands _ room)) found
      exact ⟨'{' :: used, rfl, fun more _ => run_valueOver_iff.mpr (.object room (again more))⟩

theorem valueOver_stands {inner : Option (Reader Json)}
    (stands : ∀ item, inner = some item → Stands item) : Stands (valueOver inner) := by
  intro text j rest h
  obtain ⟨used, split, again⟩ := run_valueOver_split stands h
  exact ⟨used, split, fun more follows => again more fun _ => follows⟩

theorem value_stands (room : Nat) : Stands (value room) := by
  induction room with
  | zero => exact valueOver_stands (by simp)
  | succ room ih => exact valueOver_stands (by simpa using ih)

/-- Only a number at the very end of a text may be another one if the text goes on. -/
theorem run_value_append {room : Nat} {text rest : List Char} {j : Json}
    (h : (value room).run text = .ok (j, rest)) (more : List Char)
    (ends : rest = [] → j.depth = 0 → StopsAt isPart more) :
    (value room).run (text ++ more) = .ok (j, rest ++ more) := by
  have split : ∃ used, text = used ++ rest ∧ ∀ more, (j.depth = 0 → FollowsAs rest more) →
      (value room).run (used ++ more) = .ok (j, more) := by
    cases room with
    | zero => exact run_valueOver_split (by simp) h
    | succ room => exact run_valueOver_split (by simpa using value_stands room) h
  obtain ⟨used, rfl, again⟩ := split
  rw [List.append_assoc]
  exact again _ fun scalar => followsAs_append fun nothing => ends nothing scalar

theorem readScalar_of_run {room : Nat} {text rest : List Char} {j : Json}
    (h : (value room).run text = .ok (j, rest)) (scalar : j.depth = 0) :
    readScalar text = some (j, rest) := by
  have takes : ∃ inner, Takes inner text j rest := by
    cases room with
    | zero => exact ⟨_, run_valueOver_iff.mp h⟩
    | succ room => exact ⟨_, run_valueOver_iff.mp h⟩
  obtain ⟨inner, found | found | found⟩ := takes
  · exact found
  · contradiction
  · contradiction

/-- Whatever the room was in which a value has been read, its depth is room enough. -/
theorem value_readAlso (room enough : Nat) :
    ReadAlso (fun j => j.depth ≤ enough) (value room) (value enough) := by
  induction room generalizing enough with
  | zero =>
      intro text j rest h fits
      cases run_valueOver_iff.mp h with
      | scalar found => exact run_value_of_readScalar enough found
      | array room | object room => contradiction
  | succ room ih =>
      intro text j rest h fits
      cases run_valueOver_iff.mp h with
      | scalar found => exact run_value_of_readScalar enough found
      | @array item body rest all same found =>
          cases same
          cases enough with
          | zero => contradiction
          | succ enough =>
              have each := depthOfItems_le_iff.mp (Nat.le_of_succ_le_succ fits)
              exact run_valueOver_iff.mpr (.array rfl (sequence_readAlso (ih enough) found each))
      | @object item body rest all same found =>
          cases same
          cases enough with
          | zero => contradiction
          | succ enough =>
              have each := depthOfMembers_le_iff.mp (Nat.le_of_succ_le_succ fits)
              exact run_valueOver_iff.mpr
                (.object rfl (sequence_readAlso (member_readAlso (ih enough)) found each))

/-! ## Whole texts -/

theorem parse_strict {t : String} {refusal : Refusal} (h : parse t = .error refusal) :
    refusal = .malformed := by
  unfold parse at h
  cases found : (value maxDepth).run (skipSpace t.toList) with
  | error =>
      rw [found] at h
      cases h
      exact value_strict maxDepth found
  | ok taken =>
      simp only [found, bind, Except.bind, ended] at h
      split at h
      · contradiction
      · cases h; rfl

theorem parse_eq_ok_iff {t : String} {j : Json} :
    parse t = .ok j ↔ ∃ rest, (value maxDepth).run (skipSpace t.toList) = .ok (j, rest) ∧
      skipSpace rest = [] := by
  unfold parse
  cases (value maxDepth).run (skipSpace t.toList) with
  | error => simp [bind, Except.bind]
  | ok taken =>
      obtain ⟨first, rest⟩ := taken
      by_cases blank : skipSpace rest = [] <;> simp [bind, Except.bind, ended, blank]

end Json

namespace Value

open Json (maxDepth skipSpace)

theorem exists_ofShape {j : Json} (scalar : j.depth = 0) : ∃ v, ofShape j = .ok v := by
  cases j with
  | null => exact ⟨null, rfl⟩
  | bool b => exact ⟨bool b, rfl⟩
  | string s => exact ⟨text s, rfl⟩
  | number n => exact ⟨ofNumber n, ofShape_number n⟩
  | array items | object members => contradiction

theorem ofShape_of_depth_pos {j : Json} (nested : 0 < j.depth) :
    ofShape j = .error .misshapen := by
  cases j with
  | array items | object members => rfl
  | null | bool b | string s | number n => exact absurd nested (Nat.lt_irrefl 0)

theorem decode_of_refused {t : String} {refusal : Json.Refusal}
    (refused : (Json.value maxDepth).run (skipSpace t.toList) = .error refusal) :
    decode t = .error refusal := by
  rw [decode, run_shaped_of_refused refused]
  rfl

theorem decode_of_run {t : String} {j : Json} {rest : List Char}
    (run : (Json.value maxDepth).run (skipSpace t.toList) = .ok (j, rest)) :
    decode t = ofShape j >>= fun v =>
      if (skipSpace rest).isEmpty then .ok v else .error .malformed := by
  rw [decode, run_shaped_of_run run]
  cases ofShape j <;> rfl

theorem decode_eq_ok_iff {t : String} {v : Value} : decode t = .ok v ↔
    ∃ j rest, (Json.value maxDepth).run (skipSpace t.toList) = .ok (j, rest) ∧
      ofShape j = .ok v ∧ skipSpace rest = [] := by
  cases run : (Json.value maxDepth).run (skipSpace t.toList) with
  | error refusal => simp [decode_of_refused run]
  | ok found =>
      obtain ⟨j, rest⟩ := found
      rw [decode_of_run run]
      by_cases blank : skipSpace rest = [] <;> cases shape : ofShape j <;>
        simp [blank, shape, bind, Except.bind]

end Value

end BoundSql
