import BoundSql.Proofs.Rendering
import BoundSql.Proofs.ValueIndependence
import BoundSql.Proofs.Words

/-!
# A statement tells what it was rendered from

While names and fragments are plain words, the SQL text of a statement can be
read back: its kind, its table, and each list and clause end where their text
shows it.  The values are then told apart by how many of them each list binds.
-/

namespace BoundSql

open Text (Plain EndsWord Opens append_ne_append ne_plain_append plain_selfDelimiting
  selfDelimiting_list selfDelimiting_list_of_word IsClause IsTail)

namespace Clauses

/-! ## Conditions and assignments -/

def afterWhere : List String :=
  [" HAVING ", " ORDER BY ", " LIMIT ", " OFFSET "]

theorem endsWord_of_opens_afterWhere {rest : String}
    (h : Opens (" AND " :: afterWhere) rest) : EndsWord rest :=
  h.endsWord (by decide)

theorem endsWord_sign_append (tail : String) : EndsWord (" = " ++ tail) :=
  Text.endsWord_append (by decide) tail

theorem ne_sign_append {rest : String} (h : Opens (" AND " :: afterWhere) rest)
    (tail : String) : rest ≠ " = " ++ tail :=
  h.ne_append (by decide) tail

theorem equalityText_selfDelimiting :
    SelfDelimiting (fun entry : String × Value =>
      equalityText (fun _ => "?") entry.1 entry.2) Prod.fst (fun entry => Plain entry.1)
      (fun _ => True) := by
  intro a b r s ha hb _ _ same
  simp only [equalityText, String.append_assoc] at same
  obtain ⟨columns, rest⟩ := plain_selfDelimiting ha hb (endsWord_sign_append _)
    (endsWord_sign_append _) same
  simp only [String.append_right_inj] at rest
  exact ⟨columns, rest⟩

theorem conditionText_selfDelimiting :
    SelfDelimiting (conditionText fun _ => "?") Condition.masked
      (fun condition => Plain condition.fragment) (Opens (" AND " :: afterWhere)) := by
  intro a b r s ha hb hr hs same
  cases a with
  | keyed column value =>
      cases b with
      | keyed column' value' =>
          obtain ⟨columns, rest⟩ := @equalityText_selfDelimiting (column, value)
            (column', value') r s ha hb trivial trivial same
          obtain rfl : column = column' := columns
          exact ⟨rfl, rest⟩
      | raw sql =>
          simp only [conditionText, equalityText, String.append_assoc] at same
          obtain ⟨-, rest⟩ := plain_selfDelimiting ha hb (endsWord_sign_append _)
            (endsWord_of_opens_afterWhere hs) same
          exact absurd rest.symm (ne_sign_append hs _)
  | raw sql =>
      cases b with
      | keyed column value =>
          simp only [conditionText, equalityText, String.append_assoc] at same
          obtain ⟨-, rest⟩ := plain_selfDelimiting ha hb (endsWord_of_opens_afterWhere hr)
            (endsWord_sign_append _) same
          exact absurd rest (ne_sign_append hr _)
      | raw sql' =>
          obtain ⟨texts, rest⟩ := plain_selfDelimiting ha hb
            (endsWord_of_opens_afterWhere hr) (endsWord_of_opens_afterWhere hs) same
          obtain rfl : sql = sql' := texts
          exact ⟨rfl, rest⟩

/-! ## The clauses after the table -/

theorem isClause_conjunction (keyword : String) (valid : List String → Prop) :
    IsClause keyword [] valid (conjunctionText keyword) " AND ".intercalate where
  skipped := rfl
  opened := by
    intro fragments _ shown
    rw [conjunctionText, if_neg shown]

theorem isClause_where :
    IsClause " WHERE " []
      (fun conditions => ∀ condition ∈ conditions, Plain condition.fragment)
      (fun conditions =>
        conjunctionText " WHERE " (conditions.map (conditionText fun _ => "?")))
      (fun conditions => " AND ".intercalate (conditions.map (conditionText fun _ => "?")))
    where
  skipped := rfl
  opened := by
    intro conditions _ shown
    rw [conjunctionText, if_neg (mt List.map_eq_nil_iff.mp shown)]

theorem isClause_rows (keyword : String) :
    IsClause keyword 0 (fun _ => True) (rowsText keyword) Nat.repr where
  skipped := rfl
  opened := by
    intro rows _ shown
    rw [rowsText, if_neg shown]

def orderBody : Option (String × Direction) → String
  | none => ""
  | some (column, direction) => column ++ (" " ++ direction.keyword)

theorem not_all_isBlank_of_plain {text : String} :
    Plain text → ¬ text.toList.all Text.isBlank = true := by
  rintro ⟨filled, inWord⟩ all
  obtain ⟨c, letters, start⟩ := List.exists_cons_of_ne_nil
    (mt String.toList_eq_nil_iff.mp filled)
  have here : c ∈ text.toList := by
    rw [start]
    exact List.mem_cons_self
  have blank := List.all_eq_true.mp all c here
  exact Bool.false_ne_true ((Text.isBlank_of_isWordChar (inWord c here)).symm.trans blank)

theorem isClause_order :
    IsClause " ORDER BY " none (fun order => ∀ pair ∈ order, Plain pair.1) orderText
      orderBody where
  skipped := rfl
  opened := by
    intro order plain shown
    obtain ⟨pair, rfl⟩ := Option.ne_none_iff_exists'.mp shown
    rw [orderText, if_neg (not_all_isBlank_of_plain (plain pair rfl)), orderBody,
      String.append_assoc, String.append_assoc]

/-! ## Reading the clauses -/

theorem conditions_selfDelimiting :
    SelfDelimiting (fun conditions =>
      " AND ".intercalate (conditions.map (conditionText fun _ => "?")))
      (List.map Condition.masked)
      (fun conditions => (∀ condition ∈ conditions, Plain condition.fragment) ∧
        conditions ≠ []) (Opens afterWhere) :=
  selfDelimiting_list conditionText_selfDelimiting (by decide)

theorem having_selfDelimiting :
    SelfDelimiting " AND ".intercalate id
      (fun fragments => (∀ fragment ∈ fragments, Plain fragment) ∧ fragments ≠ [])
      (Opens [" ORDER BY ", " LIMIT ", " OFFSET "]) :=
  Text.words_selfDelimiting (by decide) (by decide)

theorem plain_keyword (direction : Direction) : Plain direction.keyword := by
  cases direction <;> decide

theorem keyword_injective {a b : Direction} (h : a.keyword = b.keyword) : a = b := by
  revert h
  cases a <;> cases b <;> decide

theorem orderBody_selfDelimiting :
    SelfDelimiting orderBody id
      (fun order => (∀ pair ∈ order, Plain pair.1) ∧ order ≠ none)
      (Opens [" LIMIT ", " OFFSET "]) := by
  intro a b r s ha hb hr hs same
  obtain ⟨⟨column, direction⟩, rfl⟩ := Option.ne_none_iff_exists'.mp ha.2
  obtain ⟨⟨column', direction'⟩, rfl⟩ := Option.ne_none_iff_exists'.mp hb.2
  simp only [orderBody, String.append_assoc] at same
  have ends : ∀ tail, EndsWord (" " ++ tail) := Text.endsWord_append (by decide)
  obtain ⟨columns, rest⟩ := plain_selfDelimiting (ha.1 _ rfl) (hb.1 _ rfl) (ends _)
    (ends _) same
  rw [String.append_right_inj] at rest
  obtain ⟨directions, after⟩ := Text.plain_selfDelimiting_opens (by decide)
    (plain_keyword direction) (plain_keyword direction') hr hs rest
  obtain rfl : column = column' := columns
  obtain rfl : direction = direction' := keyword_injective directions
  exact ⟨rfl, after⟩

theorem plain_repr (n : Nat) : Plain n.repr := by
  constructor
  · exact Nat.repr_ne_empty
  · intro c digit
    rw [Nat.toList_repr] at digit
    have isDigit := Nat.isDigit_of_mem_toDigits (by decide) (by decide) digit
    simp only [Text.isWordChar, Char.isAlphanum, isDigit, Bool.or_true, Bool.true_or]

theorem repr_injective {m n : Nat} (h : m.repr = n.repr) : m = n := by
  have digits : Nat.toDigits 10 m = Nat.toDigits 10 n := by
    rw [← Nat.toList_repr, ← Nat.toList_repr, h]
  have read := congrArg (fun digits => Nat.ofDigitChars 10 digits 0) digits
  simpa only [Nat.ofDigitChars_toDigits (b := 10) (by decide) (by decide)] using read

theorem repr_selfDelimiting {keywords : List String}
    (openers : ∀ k ∈ keywords, Text.isOpener k = true) :
    SelfDelimiting Nat.repr id (fun n => True ∧ n ≠ 0) (Opens keywords) := by
  intro m n r s _ _ hr hs same
  obtain ⟨reprs, rest⟩ := Text.plain_selfDelimiting_opens openers (plain_repr m)
    (plain_repr n) hr hs same
  exact ⟨repr_injective reprs, rest⟩

def tail (clauses : Clauses) :
    List Condition × List String × Option (String × Direction) × Nat × Nat :=
  (clauses.filter.conditions, clauses.having, clauses.order, clauses.limit.getD 0,
    clauses.offset.getD 0)

theorem isTail_clauses :
    IsTail (" WHERE " :: afterWhere)
      (fun p : List Condition × List String × Option (String × Direction) × Nat × Nat =>
        conjunctionText " WHERE " (p.1.map (conditionText fun _ => "?"))
          ++ (conjunctionText " HAVING " p.2.1 ++ (orderText p.2.2.1
            ++ (rowsText " LIMIT " p.2.2.2.1 ++ rowsText " OFFSET " p.2.2.2.2))))
      (fun p => (p.1.map Condition.masked, p.2))
      (fun p => (∀ condition ∈ p.1, Plain condition.fragment) ∧
        (∀ fragment ∈ p.2.1, Plain fragment) ∧ (∀ pair ∈ p.2.2.1, Plain pair.1) ∧
        True ∧ True) := by
  have offset := (isClause_rows " OFFSET ").isTail (repr_selfDelimiting (by decide))
    (by decide)
  have limit := offset.cons (isClause_rows " LIMIT ") (repr_selfDelimiting (by decide))
    (by decide)
  have order := limit.cons isClause_order orderBody_selfDelimiting (by decide)
  have having_ := order.cons (isClause_conjunction " HAVING " _) having_selfDelimiting
    (by decide)
  exact having_.cons isClause_where conditions_selfDelimiting (by decide)

/-! ## Reading the lists before them -/

theorem columns_selfDelimiting :
    SelfDelimiting ", ".intercalate id
      (fun columns => (∀ column ∈ columns, Plain column) ∧ columns ≠ [])
      (Opens [" FROM "]) :=
  Text.words_selfDelimiting (by decide) (by decide)

theorem columnsText_ne_append {column : String} {columns : List String} {r s : String}
    (plain : Plain column) (follows : Opens [" FROM "] s) :
    "*" ++ r ≠ ", ".intercalate (column :: columns) ++ s ∧
      "COUNT(*)" ++ r ≠ ", ".intercalate (column :: columns) ++ s := by
  rw [intercalate_cons]
  constructor
  · exact ne_plain_append plain (Text.endsWord_append (by decide) r)
  · intro same
    -- a column may itself be called COUNT, so the parenthesis has to tell
    have count : "COUNT(*)" ++ r = "COUNT" ++ ("(*)" ++ r) := by
      rw [← String.append_assoc]
      rfl
    rw [count] at same
    have goesOn : Opens [", ", " FROM "] (goingOn ", " columns s) := follows.goingOn columns
    obtain ⟨-, rest⟩ := plain_selfDelimiting (by decide : Plain "COUNT") plain
      (Text.endsWord_append (by decide) r) (goesOn.endsWord (by decide)) same
    exact goesOn.ne_append (by decide) r rest.symm

theorem columnsText_selfDelimiting :
    SelfDelimiting columnsText id
      (fun selected => ∀ columns ∈ selected, ∀ column ∈ columns, Plain column)
      (Opens [" FROM "]) := by
  intro a b r s ha hb hr hs same
  match a, b with
  | none, none => exact ⟨rfl, (String.append_right_inj _).mp same⟩
  | none, some [] => exact absurd same (append_ne_append (by decide) r s)
  | some [], none => exact absurd same (append_ne_append (by decide) r s)
  | some [], some [] => exact ⟨rfl, (String.append_right_inj _).mp same⟩
  | none, some (column :: columns) =>
      exact absurd same (columnsText_ne_append (hb _ rfl column List.mem_cons_self) hs).2
  | some [], some (column :: columns) =>
      exact absurd same (columnsText_ne_append (hb _ rfl column List.mem_cons_self) hs).1
  | some (column :: columns), none =>
      exact absurd same.symm
        (columnsText_ne_append (ha _ rfl column List.mem_cons_self) hr).2
  | some (column :: columns), some [] =>
      exact absurd same.symm
        (columnsText_ne_append (ha _ rfl column List.mem_cons_self) hr).1
  | some (column :: columns), some (column' :: columns') =>
      obtain ⟨lists, rest⟩ := columns_selfDelimiting
        ⟨ha _ rfl, List.cons_ne_nil column columns⟩
        ⟨hb _ rfl, List.cons_ne_nil column' columns'⟩ hr hs same
      exact ⟨congrArg some lists, rest⟩

theorem where_selfDelimiting :
    SelfDelimiting (fun conditions =>
      conjunctionText " WHERE " (conditions.map (conditionText fun _ => "?")))
      (List.map Condition.masked)
      (fun conditions => ∀ condition ∈ conditions, Plain condition.fragment)
      (Opens afterWhere) :=
  isClause_where.selfDelimiting conditions_selfDelimiting (by decide)

theorem assignments_selfDelimiting :
    SelfDelimiting (fun entries : List (String × Value) =>
      ", ".intercalate (entries.map fun entry =>
        equalityText (fun _ => "?") entry.1 entry.2))
      (List.map Prod.fst) (fun entries => ∀ entry ∈ entries, Plain entry.1)
      (Opens (" WHERE " :: afterWhere)) := by
  apply selfDelimiting_list_of_word (equalityText_selfDelimiting.mono (fun _ plain => plain)
    fun _ _ => trivial) (by decide)
  · intro entry plain
    exact ⟨entry.1, " = " ++ "?", plain, String.append_assoc⟩
  · decide

theorem inserted_selfDelimiting :
    SelfDelimiting ", ".intercalate id (fun columns => ∀ column ∈ columns, Plain column)
      (Opens [") VALUES ("]) := by
  have columns := @selfDelimiting_list_of_word _ _ id id Plain ", " [") VALUES ("]
    (Text.plain_selfDelimiting_opens (by decide)) (by decide)
    (fun column plain => ⟨column, "", plain, String.append_empty.symm⟩) (by decide)
  simpa only [List.map_id_fun, id] using columns

end Clauses

/-! ## Statements -/

/-- What is rendered of the clauses for each kind; no limit and a limit of zero are one. -/
inductive Content where
  | select (columns : Option (List String)) (conditions : List Condition)
      (having_ : List String) (order : Option (String × Direction)) (limit offset : Nat)
  | insert (entries : List (String × Value))
  | update (entries : List (String × Value)) (conditions : List Condition)
  | delete (conditions : List Condition)
  deriving DecidableEq, Repr

def Clauses.content (clauses : Clauses) : Kind → Content
  | .select => .select clauses.selected clauses.filter.conditions clauses.having
      clauses.order (clauses.limit.getD 0) (clauses.offset.getD 0)
  | .insert => .insert clauses.inserted.entries
  | .update => .update clauses.assignments.entries clauses.filter.conditions
  | .delete => .delete clauses.filter.conditions

structure Draft.IsPlain (d : Draft) : Prop where
  table : Plain d.table
  columns : ∀ column ∈ d.clauses.columns, Plain column
  assigned : ∀ entry ∈ d.clauses.assignments.entries, Plain entry.1
  inserted : ∀ column ∈ d.clauses.inserted.columns, Plain column
  conditions : ∀ condition ∈ d.clauses.filter.conditions, Plain condition.fragment
  having_ : ∀ fragment ∈ d.clauses.having, Plain fragment
  order : ∀ pair ∈ d.clauses.order, Plain pair.1

instance (d : Draft) : Decidable d.IsPlain :=
  decidable_of_iff
    (Plain d.table ∧ (∀ column ∈ d.clauses.columns, Plain column) ∧
      (∀ entry ∈ d.clauses.assignments.entries, Plain entry.1) ∧
      (∀ column ∈ d.clauses.inserted.columns, Plain column) ∧
      (∀ condition ∈ d.clauses.filter.conditions, Plain condition.fragment) ∧
      (∀ fragment ∈ d.clauses.having, Plain fragment) ∧
      ∀ pair ∈ d.clauses.order, Plain pair.1)
    ⟨fun ⟨table, columns, assigned, inserted, conditions, having_, order⟩ =>
        ⟨table, columns, assigned, inserted, conditions, having_, order⟩,
      fun plain => ⟨plain.table, plain.columns, plain.assigned, plain.inserted,
        plain.conditions, plain.having_, plain.order⟩⟩

theorem Condition.eq_of_masked_eq {as bs : List Condition}
    (masked : as.map masked = bs.map masked)
    (values : as.filterMap value? = bs.filterMap value?) : as = bs := by
  induction as generalizing bs with
  | nil => exact (List.map_eq_nil_iff.mp masked.symm).symm
  | cons a as ih =>
      cases bs with
      | nil => contradiction
      | cons b bs =>
          obtain ⟨same, others⟩ := List.cons_eq_cons.mp masked
          cases a with
          | keyed column value =>
              cases b with
              | keyed column' value' =>
                  obtain ⟨here, later⟩ := List.cons_eq_cons.mp values
                  obtain ⟨rfl, -⟩ := Condition.keyed.inj same
                  rw [here, ih others later]
              | raw sql => contradiction
          | raw sql =>
              cases b with
              | keyed column value => contradiction
              | raw sql' =>
                  obtain rfl := Condition.raw.inj same
                  rw [ih others values]

theorem entries_eq_of_map_eq {as bs : List (String × Value)}
    (columns : as.map Prod.fst = bs.map Prod.fst)
    (values : as.map Prod.snd = bs.map Prod.snd) : as = bs := by
  rw [List.zip_of_prod columns values, ← List.zip_of_prod rfl rfl]

namespace Clauses

def opener : Kind → String
  | .select => "SELECT "
  | .insert => "INSERT INTO "
  | .update => "UPDATE "
  | .delete => "DELETE FROM "

theorem text_eq_opener_append (mark : Value → String) (table : String) (clauses : Clauses)
    (kind : Kind) : ∃ rest, clauses.text mark table kind = opener kind ++ rest := by
  cases kind with
  | select =>
      unfold text selectText
      simp only [String.append_assoc]
      exact ⟨_, rfl⟩
  | insert =>
      unfold text insertText
      simp only [String.append_assoc]
      exact ⟨_, rfl⟩
  | update =>
      unfold text updateText
      simp only [String.append_assoc]
      exact ⟨_, rfl⟩
  | delete => exact ⟨_, String.append_assoc⟩

theorem kind_eq_of_text_eq {mark : Value → String} {table table' : String}
    {clauses clauses' : Clauses} {k l : Kind}
    (same : clauses.text mark table k = clauses'.text mark table' l) : k = l := by
  obtain ⟨rest, starts⟩ := text_eq_opener_append mark table clauses k
  obtain ⟨rest', starts'⟩ := text_eq_opener_append mark table' clauses' l
  by_contra different
  have apart : Text.areApart (opener k) (opener l) = true := by
    revert different
    cases k <;> cases l <;> decide
  exact append_ne_append apart rest rest' (starts.symm.trans (same.trans starts'))

end Clauses

namespace Draft

open Clauses

variable {d e : Draft}

theorem IsPlain.selected (hd : d.IsPlain) :
    ∀ columns ∈ d.clauses.selected, ∀ column ∈ columns, Plain column := by
  intro columns shown
  unfold Clauses.selected at shown
  split at shown
  · contradiction
  · obtain rfl := Option.some.inj shown
    exact hd.columns

theorem IsPlain.opens_whereText (hd : d.IsPlain) :
    Opens (" WHERE " :: afterWhere) (d.clauses.whereText fun _ => "?") := by
  have opens := isClause_where.opens hd.conditions (.inl rfl : Opens afterWhere "")
  rwa [String.append_empty] at opens

theorem conditions_inj (hd : d.IsPlain) (he : e.IsPlain)
    (sql : (d.clauses.whereText fun _ => "?") = e.clauses.whereText fun _ => "?")
    (values : d.clauses.conditionValues = e.clauses.conditionValues) :
    d.clauses.filter.conditions = e.clauses.filter.conditions := by
  obtain ⟨masked, -⟩ := where_selfDelimiting hd.conditions he.conditions (.inl rfl)
    (.inl rfl) (congrArg (· ++ "") sql)
  exact Condition.eq_of_masked_eq masked values

theorem IsPlain.tail (hd : d.IsPlain) :
    (∀ condition ∈ d.clauses.tail.1, Plain condition.fragment) ∧
      (∀ fragment ∈ d.clauses.tail.2.1, Plain fragment) ∧
      (∀ pair ∈ d.clauses.tail.2.2.1, Plain pair.1) ∧ True ∧ True :=
  ⟨hd.conditions, hd.having_, hd.order, trivial, trivial⟩

theorem select_inj (hd : d.IsPlain) (he : e.IsPlain)
    (sql : d.clauses.selectText (fun _ => "?") d.table
      = e.clauses.selectText (fun _ => "?") e.table)
    (values : d.clauses.conditionValues = e.clauses.conditionValues) :
    d.table = e.table ∧ d.clauses.content .select = e.clauses.content .select := by
  have opens := fun (x : Draft) (hx : x.IsPlain) => isTail_clauses.opens x.clauses.tail
    hx.tail
  have reads := isTail_clauses.reads hd.tail he.tail
  simp only [tail] at opens reads
  unfold selectText whereText at sql
  simp only [String.append_assoc, String.append_right_inj] at sql
  obtain ⟨selected, rest⟩ := columnsText_selfDelimiting hd.selected he.selected
    (Opens.append_keyword List.mem_cons_self _) (Opens.append_keyword List.mem_cons_self _)
    sql
  rw [String.append_right_inj] at rest
  obtain ⟨tables, tail⟩ := Text.plain_selfDelimiting_opens (by decide) hd.table he.table
    (opens d hd) (opens e he) rest
  have clauses := reads tail
  simp only [Prod.mk.injEq] at clauses
  obtain ⟨masked, fragments, order, limit, offset⟩ := clauses
  constructor
  · exact tables
  · rw [content, content, show d.clauses.selected = e.clauses.selected from selected,
      Condition.eq_of_masked_eq masked values, fragments, order, limit, offset]

theorem insert_inj (hd : d.IsPlain) (he : e.IsPlain)
    (sql : d.clauses.insertText (fun _ => "?") d.table
      = e.clauses.insertText (fun _ => "?") e.table)
    (values : d.clauses.inserted.values = e.clauses.inserted.values) :
    d.table = e.table ∧ d.clauses.content .insert = e.clauses.content .insert := by
  unfold insertText at sql
  simp only [String.append_assoc, String.append_right_inj] at sql
  have ends : ∀ tail, EndsWord (" (" ++ tail) := Text.endsWord_append (by decide)
  obtain ⟨tables, rest⟩ := plain_selfDelimiting hd.table he.table (ends _) (ends _) sql
  rw [String.append_right_inj] at rest
  obtain ⟨columns, -⟩ := inserted_selfDelimiting hd.inserted he.inserted
    (Opens.append_keyword List.mem_cons_self _) (Opens.append_keyword List.mem_cons_self _)
    rest
  constructor
  · exact tables
  · rw [content, content, entries_eq_of_map_eq columns values]

theorem update_inj (hd : d.IsPlain) (he : e.IsPlain)
    (sql : d.clauses.updateText (fun _ => "?") d.table
      = e.clauses.updateText (fun _ => "?") e.table)
    (values : d.clauses.assignments.values ++ d.clauses.conditionValues
      = e.clauses.assignments.values ++ e.clauses.conditionValues) :
    d.table = e.table ∧ d.clauses.content .update = e.clauses.content .update := by
  unfold updateText at sql
  simp only [String.append_assoc, String.append_right_inj] at sql
  have ends : ∀ tail, EndsWord (" SET " ++ tail) := Text.endsWord_append (by decide)
  obtain ⟨tables, rest⟩ := plain_selfDelimiting hd.table he.table (ends _) (ends _) sql
  rw [String.append_right_inj] at rest
  obtain ⟨columns, rest⟩ := assignments_selfDelimiting hd.assigned he.assigned
    hd.opens_whereText he.opens_whereText rest
  have lengths := congrArg List.length columns
  rw [List.length_map, List.length_map] at lengths
  obtain ⟨assigned, bound⟩ := List.append_inj values (by
    rw [Row.values, Row.values, List.length_map, List.length_map, lengths])
  constructor
  · exact tables
  · rw [content, content, entries_eq_of_map_eq columns assigned,
      conditions_inj hd he rest bound]

theorem delete_inj (hd : d.IsPlain) (he : e.IsPlain)
    (sql : d.clauses.deleteText (fun _ => "?") d.table
      = e.clauses.deleteText (fun _ => "?") e.table)
    (values : d.clauses.conditionValues = e.clauses.conditionValues) :
    d.table = e.table ∧ d.clauses.content .delete = e.clauses.content .delete := by
  unfold deleteText at sql
  simp only [String.append_assoc, String.append_right_inj] at sql
  obtain ⟨tables, rest⟩ := Text.plain_selfDelimiting_opens (by decide) hd.table he.table
    hd.opens_whereText he.opens_whereText sql
  constructor
  · exact tables
  · rw [content, content, conditions_inj hd he rest values]

theorem sql_and_bindings {s : Statement} {k : Kind} (chosen : d.kind = some k)
    (rendered : d.render = .ok s) :
    s.sql = d.clauses.text (fun _ => "?") d.table k ∧ s.bindings = d.clauses.values k := by
  obtain ⟨pieces, -, rendered', text, values⟩ := exists_pieces chosen
  obtain rfl := Except.ok.inj (rendered.symm.trans rendered')
  exact ⟨(Piece.sql_ofPieces pieces).trans (text _), values⟩

/--
While all names and fragments are plain words, the SQL text and the bound values
of a statement determine its kind, its table and all that its kind renders.
-/
theorem content_eq_of_render_eq {s t : Statement} {k l : Kind} (hd : d.IsPlain)
    (he : e.IsPlain) (chosen : d.kind = some k) (chosen' : e.kind = some l)
    (rendered : d.render = .ok s) (rendered' : e.render = .ok t) (sql : s.sql = t.sql)
    (bindings : s.bindings = t.bindings) :
    k = l ∧ d.table = e.table ∧ d.clauses.content k = e.clauses.content l := by
  obtain ⟨text, values⟩ := sql_and_bindings chosen rendered
  obtain ⟨text', values'⟩ := sql_and_bindings chosen' rendered'
  rw [text, text'] at sql
  rw [values, values'] at bindings
  obtain rfl : k = l := kind_eq_of_text_eq sql
  refine ⟨rfl, ?_⟩
  cases k with
  | select => exact select_inj hd he sql bindings
  | insert => exact insert_inj hd he sql bindings
  | update => exact update_inj hd he sql bindings
  | delete => exact delete_inj hd he sql bindings

theorem content_eq_of_selections :
    let d : Draft := ⟨"from", {}, [.select ["id"], .whereEqual "and" (.text "?"),
      .limit 0].foldl Clauses.edit {}, []⟩
    let e : Draft := ⟨"from", {}, [.whereEqual "and" (.text "?"), .set "x" .null,
      .select ["id"]].foldl Clauses.edit {}, []⟩
    d ≠ e ∧ d.IsPlain ∧ e.IsPlain ∧
      d.clauses.content .select = e.clauses.content .select := by
  intro d e
  have hd : d.IsPlain := by decide
  have he : e.IsPlain := by decide
  refine ⟨by decide, hd, he, ?_⟩
  exact (content_eq_of_render_eq hd he rfl rfl rfl rfl (by decide) (by decide)).2.2

end Draft

end BoundSql
