import BoundSql.Proofs.Readers
import Mathlib.Data.List.Forall2

/-!
# Lists of values element by element

A list is read as the values that its elements are read as on their own.  The
first array or object among the elements makes the reader give up when it has
been read, so nothing that follows matters.  A list of scalars that breaks off
before its closing bracket is no JSON, wherever it does.
-/

namespace BoundSql

/-! ## Lists that break off -/

namespace Json

theorem skipSpace_eq_nil_of_append {text more : List Char} (blank : skipSpace (text ++ more) = []) :
    skipSpace text = [] :=
  List.dropWhile_eq_nil_iff.mpr fun c there =>
    List.dropWhile_eq_nil_iff.mp blank c (List.mem_append_left more there)

section Lists

variable {α : Type} {close : Char} {item : Reader α} {texts : List (List Char)} {all : List α}

def EndsIn (item : Reader α) (text : List Char) : Prop :=
  ∀ front, front <+: text → item.run (skipSpace front) = .error .malformed ∨
    ∃ a rest, item.run (skipSpace front) = .ok (a, rest) ∧ skipSpace rest = []

theorem EndsIn.items_malformed {text front : List Char} (h : EndsIn item text)
    (front_of : front <+: text) : items close item front = .error .malformed := by
  rcases h front front_of with refused | ⟨a, rest, taken, left⟩
  · exact items_of_refused refused
  · exact items_of_run_to_end taken left

theorem items_front (each : List.Forall₂ (Reads close item) texts all)
    (ends : ∀ text ∈ texts, EndsIn item text) (nonempty : texts ≠ []) {front : List Char}
    (front_of : front <+: [','].intercalate texts) :
    items close item front = .error .malformed := by
  induction each generalizing front with
  | nil => contradiction
  | @cons text a texts all reads others ih =>
      have first := ends text List.mem_cons_self
      cases others with
      | nil =>
          rw [List.intercalate_singleton] at front_of
          exact first.items_malformed front_of
      | cons next others =>
          obtain ⟨back, split⟩ := front_of
          rw [List.intercalate_cons_cons, List.append_assoc, List.singleton_append,
            List.append_eq_append_iff] at split
          rcases split with ⟨middle, whole, -⟩ | ⟨_ | ⟨mark, middle⟩, rfl, follows⟩
          · exact first.items_malformed ⟨middle, whole.symm⟩
          · exact first.items_malformed (by simp)
          · -- the front part goes on after the comma
            obtain ⟨rfl, following⟩ := List.cons.inj follows
            have later := ih (fun text there => ends text (List.mem_cons_of_mem _ there))
              (List.cons_ne_nil _ _) ⟨back, following.symm⟩
            obtain ⟨between, taken, left⟩ := reads ',' middle (.inl rfl)
            rw [items_of_run taken left, if_pos rfl, later]
            rfl

theorem sequence_front (each : List.Forall₂ (Reads close item) texts all)
    (ends : ∀ text ∈ texts, EndsIn item text) (refuses : RefusesClose close item)
    (distinct : close ≠ ',') {front : List Char} (front_of : front <+: [','].intercalate texts) :
    sequence close item front = .error .malformed := by
  unfold sequence
  cases visible : skipSpace front with
  | nil => rfl
  | cons c after =>
      have something : skipSpace front ≠ [] := by rw [visible]; exact List.cons_ne_nil _ _
      have nonempty : texts ≠ [] := by
        rintro rfl
        rw [List.intercalate_nil, List.prefix_nil] at front_of
        rw [front_of] at something
        contradiction
      have inside : c ≠ close := by
        rintro rfl
        obtain ⟨back, split⟩ := front_of
        have whole := items_intercalate each nonempty distinct []
        obtain ⟨a, between, taken⟩ := run_of_items whole
        rw [← split, List.append_assoc, skipSpace_append something, visible,
          refuses _ (by simp)] at taken
        contradiction
      dsimp only
      rw [if_neg inside, ← visible, items_skipSpace]
      exact items_front each ends nonempty front_of

theorem items_after (each : List.Forall₂ (Reads close item) texts all) {rest : List Char}
    {refusal : Refusal} (refused : items close item rest = .error refusal) :
    items close item (texts.flatMap (· ++ [',']) ++ rest) = .error refusal := by
  induction each with
  | nil => exact refused
  | @cons text a texts all reads others ih =>
      obtain ⟨between, taken, left⟩ := reads ',' (texts.flatMap (· ++ [',']) ++ rest) (.inl rfl)
      rw [List.flatMap_cons, List.append_assoc, List.append_assoc, List.singleton_append,
        items_of_run taken left, if_pos rfl, ih]
      rfl

end Lists

end Json

namespace Value

open Json (EndsIn Reads maxDepth readScalar skipSpace)
open Json.Numeral (StopsAt isPart)

/-! ## Elements -/

theorem readScalar_of_decode {t : String} {v : Value} (h : decode t = .ok v) :
    ∃ j rest, readScalar (skipSpace t.toList) = some (j, rest) ∧ ofShape j = .ok v ∧
      skipSpace rest = [] := by
  obtain ⟨j, rest, run, shape, blank⟩ := decode_eq_ok_iff.mp h
  rcases Nat.eq_zero_or_pos j.depth with scalar | nested
  · exact ⟨j, rest, Json.readScalar_of_run run scalar, shape, blank⟩
  · rw [ofShape_of_depth_pos nested] at shape
    contradiction

theorem reads_of_decode {t : String} {v : Value} (h : decode t = .ok v) :
    Reads ']' element t.toList v := by
  obtain ⟨j, rest, read, shape, blank⟩ := readScalar_of_decode h
  intro mark after follows
  have stops : StopsAt isPart (mark :: after) := by
    apply Json.Numeral.stopsAt_cons.mpr
    rcases follows with rfl | rfl <;> rfl
  have run := Json.run_value_of_readScalar (maxDepth - 1) read
  have followed := Json.run_value_append run (mark :: after) fun _ _ => stops
  refine ⟨rest ++ mark :: after, ?_, ?_⟩
  · rw [Json.skipSpace_append (Json.Reader.run_ne_nil run), run_element_of_run followed, shape]
    rfl
  · rw [Json.skipSpace_append_of_blank blank]
    rcases follows with rfl | rfl <;> rfl

theorem endsIn_of_decode {t : String} {v : Value} (h : decode t = .ok v) :
    EndsIn element t.toList := by
  obtain ⟨j, rest, read, shape, blank⟩ := readScalar_of_decode h
  rintro front ⟨back, split⟩
  by_cases visible : skipSpace front = []
  · left
    rw [visible]
    rfl
  · rw [← split, Json.skipSpace_append visible] at read
    cases run : (Json.value (maxDepth - 1)).run (skipSpace front) with
    | error refusal =>
        left
        obtain rfl := Json.value_strict _ run
        exact run_shaped_of_refused run
    | ok found =>
        right
        obtain ⟨first, left⟩ := found
        by_cases last : left = [] ∧ first.depth = 0
        · obtain ⟨w, single⟩ := exists_ofShape last.2
          refine ⟨w, left, ?_, ?_⟩
          · rw [run_element_of_run run, single]
            rfl
          · rw [last.1]
            rfl
        · have whole := Json.run_value_append run back fun ends scalar =>
            absurd ⟨ends, scalar⟩ last
          have same := (Json.run_value_of_readScalar _ read).symm.trans whole
          obtain ⟨rfl, rfl⟩ := Prod.mk.inj (Except.ok.inj same)
          refine ⟨v, left, ?_, Json.skipSpace_eq_nil_of_append blank⟩
          rw [run_element_of_run run, shape]
          rfl

theorem run_element_of_nested {u : String} {j : Json} (parsed : Json.parse u = .ok j)
    (nested : 0 < j.depth) (fits : j.depth ≤ maxDepth - 1) (more : List Char) :
    element.run (skipSpace (u.toList ++ more)) = .error .misshapen := by
  obtain ⟨rest, run, -⟩ := Json.parse_eq_ok_iff.mp parsed
  have inside := Json.value_readAlso _ (maxDepth - 1) run fits
  have whole := Json.run_value_append inside more fun _ scalar =>
    absurd scalar nested.ne'
  rw [Json.skipSpace_append (Json.Reader.run_ne_nil run), run_element_of_run whole,
    ofShape_of_depth_pos nested]
  rfl

/-! ## Lists -/

theorem decodeList_of_bracket {source : String} {rest : List Char}
    (opens : source.toList = '[' :: rest) :
    decodeList source = Json.sequence ']' element rest >>= Json.ended := by
  have bracket : skipSpace source.toList = '[' :: rest := by rw [opens]; rfl
  simp only [decodeList, bracket]

theorem forall₂_reads {texts : List String} {values : List Value}
    (each : List.Forall₂ (fun t v => decode t = .ok v) texts values) :
    List.Forall₂ (Reads ']' element) (texts.map String.toList) values := by
  rw [List.forall₂_map_left_iff]
  exact each.imp fun t v decoded => reads_of_decode decoded

theorem forall_endsIn {texts : List String} {values : List Value}
    (each : List.Forall₂ (fun t v => decode t = .ok v) texts values) :
    ∀ text ∈ texts.map String.toList, EndsIn element text := by
  induction each with
  | nil => simp
  | cons decoded others ih => exact List.forall_mem_cons.mpr ⟨endsIn_of_decode decoded, ih⟩

theorem toList_list (texts : List String) :
    ("[" ++ ",".intercalate texts ++ "]").toList
      = '[' :: ([','].intercalate (texts.map String.toList) ++ [']']) := by
  simp [String.toList_intercalate]

theorem toList_started (texts : List String) (u r : String) :
    ("[" ++ String.join (texts.map (· ++ ",")) ++ u ++ r).toList
      = '[' :: ((texts.map String.toList).flatMap (· ++ [',']) ++ (u.toList ++ r.toList)) := by
  simp [String.toList_join, List.flatMap_map]

/--
Texts that decode to values on their own decode to these values in a list.  If an
array or an object comes among them, not too deep, the list is refused for its
shape, whatever else there is; and no front part of the list is JSON.
-/
theorem decodeList_elements {texts : List String} {values : List Value}
    (each : List.Forall₂ (fun t v => decode t = .ok v) texts values) :
    decodeList ("[" ++ ",".intercalate texts ++ "]") = .ok values ∧
    (∀ (u r : String) (j : Json), Json.parse u = .ok j → 0 < j.depth → j.depth ≤ 126 →
      decodeList ("[" ++ String.join (texts.map (· ++ ",")) ++ u ++ r) = .error .misshapen) ∧
    ∀ p q : String, p ++ q = "[" ++ ",".intercalate texts ++ "]" → q ≠ "" →
      decodeList p = .error .malformed := by
  have reads := forall₂_reads each
  refine ⟨?_, ?_, ?_⟩
  · have whole := Json.sequence_intercalate reads element_refusesClose rfl (by decide) []
    rw [decodeList_of_bracket (toList_list texts), whole]
    rfl
  · intro u r j parsed nested fits
    have refused := run_element_of_nested parsed nested fits r.toList
    have reached := Json.items_after reads (Json.items_of_refused refused)
    rw [decodeList_of_bracket (toList_started texts u r),
      Json.sequence_of_items element_refusesClose (by simp [reached]), reached]
    rfl
  · intro p q whole proper
    have chars : p.toList ++ q.toList
        = '[' :: ([','].intercalate (texts.map String.toList) ++ [']']) := by
      rw [← String.toList_append, whole, toList_list]
    cases opened : p.toList with
    | nil =>
        obtain rfl : p = "" := String.toList_eq_nil_iff.mp opened
        rfl
    | cons c front =>
        rw [opened, List.cons_append, List.cons.injEq] at chars
        obtain ⟨rfl, rest⟩ := chars
        have front_of : front <+: [','].intercalate (texts.map String.toList) := by
          refine (List.prefix_concat_iff.mp ⟨q.toList, rest⟩).resolve_left fun same => ?_
          rw [same, List.append_right_eq_self] at rest
          exact proper (String.toList_eq_nil_iff.mp rest)
        rw [decodeList_of_bracket opened, Json.sequence_front reads (forall_endsIn each)
          element_refusesClose (by decide) front_of]
        rfl

theorem decodeList_elements_two :
    List.Forall₂ (fun t v => decode t = .ok v) [" 1", "\"a,]\""] [int 1, text "a,]"] ∧
    Json.parse "[ ]" = .ok (.array []) ∧
    decodeList "[ 1,\"a,]\"]" = .ok [int 1, text "a,]"] ∧
    decodeList "[ 1,\"a,]\",[ ],," = .error .misshapen ∧
    decodeList "[ 1,\"a,]" = .error .malformed := by
  have each : List.Forall₂ (fun t v => decode t = .ok v)
      [" 1", "\"a,]\""] [int 1, text "a,]"] :=
    .cons (by decide +kernel) (.cons (by decide +kernel) .nil)
  have parsed : Json.parse "[ ]" = .ok (.array []) := rfl
  obtain ⟨whole, shape, front⟩ := decodeList_elements each
  exact ⟨each, parsed, whole, shape "[ ]" ",," _ parsed (by decide) (by decide),
    front "[ 1,\"a,]" "\"]" (by decide) (by decide)⟩

example : decodeList "[0,[1],nul]" = .error .misshapen ∧
    decodeList "[0,nul,[1]]" = .error .malformed := by
  decide +kernel

end Value

end BoundSql
