import BoundSql.Proofs.EditOrder
import Mathlib.Data.List.DropRight

/-!
# What renderings leave behind

A rendering records the values it binds and changes nothing else.  So at each
point of a session the recorded values are those of the last rendering, and
requests that only look at a draft may be left out of its history without a
change in what the draft says and how it renders.
-/

namespace BoundSql

/-! ## Kinds of requests -/

namespace Request

def renders : Request → Bool
  | .sql | .inlined | .statement => true
  | _ => false

def shown : Request → Statement → Reply
  | .sql, s => .text s.sql
  | .inlined, s => .text s.inline
  | _, s => .statement s

def changes : Request → Bool
  | .edit _ | .clear => true
  | _ => false

def kind? : Request → Option Kind
  | .edit e => e.kind?
  | _ => none

def sinceClear (requests : List Request) : List Request :=
  requests.rtakeWhile (· != .clear)

def settles (request : Request) : Bool :=
  request.renders || request == .clear

/-- The requests before the last rendering, if there is one since the last clearing. -/
def beforeRendering? (requests : List Request) : Option (List Request) :=
  let upTo := requests.rdropWhile fun request => !request.settles
  if upTo.getLast?.any renders then some upTo.dropLast else none

theorem sinceClear_concat (requests : List Request) (request : Request) :
    sinceClear (requests ++ [request])
      = if request = .clear then [] else sinceClear requests ++ [request] := by
  unfold sinceClear
  rw [List.rtakeWhile_concat]
  by_cases clears : request = .clear
  · rw [if_pos clears, if_neg (by simp [clears])]
  · rw [if_neg clears, if_pos (by simp [clears])]

theorem beforeRendering?_concat (requests : List Request) (request : Request) :
    beforeRendering? (requests ++ [request])
      = if request.renders then some requests
        else if request = .clear then none else beforeRendering? requests := by
  unfold beforeRendering?
  by_cases settled : request.settles = true
  · rw [List.rdropWhile_concat_neg _ _ _ (by simp [settled])]
    simp only [List.getLast?_concat, Option.any_some, List.dropLast_concat]
    by_cases rendering : request.renders = true
    · rw [if_pos rendering, if_pos rendering]
    · have clears : request = .clear := by simpa [settles, rendering] using settled
      rw [if_neg rendering, if_neg rendering, if_pos clears]
  · rw [List.rdropWhile_concat_pos _ _ _ (by simp [settled])]
    simp only [settles, Bool.or_eq_true, beq_iff_eq, not_or] at settled
    rw [if_neg settled.1, if_neg settled.2]

end Request

def Draft.unrendered (d : Draft) : Draft :=
  { d with recorded := [] }

/-! ## One request -/

namespace Draft

theorem statement_unrendered (d : Draft) : d.unrendered.statement = d.statement := by
  have renders : d.unrendered.render = d.render := rfl
  unfold statement
  rw [renders]
  cases d.render <;> rfl

theorem unrendered_statement (d : Draft) : d.statement.draft.unrendered = d.unrendered := by
  unfold statement
  cases d.render <;> rfl

theorem unrendered_respond_of_looks (d : Draft) {request : Request}
    (looks : request.changes = false) :
    (d.respond request).draft.unrendered = d.unrendered := by
  cases request with
  | edit | clear => contradiction
  | sql | inlined | statement =>
      simp only [respond, Outcome.draft_answer]
      exact unrendered_statement d
  | display | table | kind | settings | recorded => rfl

theorem recorded_respond (d : Draft) (request : Request) :
    (d.respond request).draft.recorded
      = if request.renders then (d.render.map Statement.bindings).toOption.getD []
        else if request = .clear then [] else d.recorded := by
  have rendered : d.statement.draft.recorded
      = (d.render.map Statement.bindings).toOption.getD [] := by
    unfold statement
    cases d.render <;> rfl
  cases request with
  | sql | inlined | statement =>
      simp only [respond, Outcome.draft_answer]
      exact rendered
  | edit | clear | display | table | kind | settings | recorded => rfl

theorem kind_respond (d : Draft) (request : Request) :
    (d.respond request).draft.kind
      = if request = .clear then none else request.kind?.elim d.kind some := by
  have rendered := congrArg Draft.kind (unrendered_statement d)
  cases request with
  | edit e => cases e <;> rfl
  | sql | inlined | statement =>
      simp only [respond, Outcome.draft_answer]
      exact rendered
  | clear | display | table | kind | settings | recorded => rfl

theorem reply_respond_of_renders (d : Draft) {request : Request}
    (renders : request.renders = true) :
    (d.respond request).reply = match d.render with
      | .ok s => request.shown s
      | .error fault => .refused fault := by
  cases request with
  | sql | inlined | statement =>
      simp only [respond, sql, inlined, statement]
      cases d.render <;> rfl
  | edit | clear | display | table | kind | settings | recorded => contradiction

theorem render_eq_error_iff (d : Draft) (fault : Fault) :
    d.render = .error fault ↔
      d.kind = none ∧ d.settings.kindPolicy = .required ∧ fault = .noKind d.table := by
  unfold render Clauses.pieces? kind
  cases d.clauses.kind with
  | some k => simp
  | none =>
      cases d.settings.kindPolicy with
      | required => simp [eq_comm]
      | optional => simp

/--
Two answers to a request differ at most in what an earlier rendering recorded:
nothing but asking for it shows a difference.
-/
structure SameAnswer (request : Request) (a b : Answer) : Prop where
  reply : request ≠ .recorded → a.reply = b.reply
  events : a.events = b.events
  draft : a.draft.unrendered = b.draft.unrendered
  recorded : request.renders = true → a.draft.recorded = b.draft.recorded

namespace SameAnswer

variable {request : Request} {a b c : Answer}

theorem refl (a : Answer) : SameAnswer request a a :=
  ⟨fun _ => rfl, rfl, rfl, fun _ => rfl⟩

theorem symm (h : SameAnswer request a b) : SameAnswer request b a :=
  ⟨fun other => (h.reply other).symm, h.events.symm, h.draft.symm,
    fun renders => (h.recorded renders).symm⟩

theorem trans (h : SameAnswer request a b) (h' : SameAnswer request b c) :
    SameAnswer request a c :=
  ⟨fun other => (h.reply other).trans (h'.reply other), h.events.trans h'.events,
    h.draft.trans h'.draft, fun renders => (h.recorded renders).trans (h'.recorded renders)⟩

end SameAnswer

theorem sameAnswer_unrendered (d : Draft) (request : Request) :
    SameAnswer request (d.unrendered.respond request) (d.respond request) := by
  cases request with
  | sql | inlined | statement =>
      simp only [respond, sql, inlined, statement_unrendered]
      exact .refl _
  | recorded => exact ⟨fun other => absurd rfl other, rfl, rfl, fun renders => nomatch renders⟩
  | edit | clear | display | table | kind | settings =>
      exact ⟨fun _ => rfl, rfl, rfl, fun renders => nomatch renders⟩

theorem sameAnswer_respond {d e : Draft} (same : d.unrendered = e.unrendered)
    (request : Request) : SameAnswer request (d.respond request) (e.respond request) := by
  have middle : SameAnswer request (d.respond request) (e.unrendered.respond request) :=
    same ▸ (sameAnswer_unrendered d request).symm
  exact middle.trans (sameAnswer_unrendered e request)

/-! ## Histories -/

theorem after_concat (d : Draft) (requests : List Request) (request : Request) :
    d.after (requests ++ [request]) = ((d.after requests).respond request).draft := by
  unfold after
  rw [List.foldl_append]
  rfl

variable (table : String) (settings : Settings)

theorem recorded_after (requests : List Request) :
    (({ table, settings } : Draft).after requests).recorded
      = ((Request.beforeRendering? requests).bind fun earlier =>
        ((({ table, settings } : Draft).after earlier).render.map
          Statement.bindings).toOption).getD [] := by
  -- on the last request: it decides what is recorded, or leaves the matter to those before
  induction requests using List.reverseRecOn with
  | nil => rfl
  | append_singleton requests request ih =>
      rw [after_concat, recorded_respond, Request.beforeRendering?_concat, ih]
      by_cases renders : request.renders = true
      · rw [if_pos renders, if_pos renders]
        rfl
      · rw [if_neg renders, if_neg renders]
        by_cases clears : request = .clear
        · rw [if_pos clears, if_pos clears]
          rfl
        · rw [if_neg clears, if_neg clears]

theorem kind_after_eq_none_iff (requests : List Request) :
    (({ table, settings } : Draft).after requests).kind = none
      ↔ ∀ request ∈ Request.sinceClear requests, request.kind? = none := by
  induction requests using List.reverseRecOn with
  | nil => exact ⟨fun _ _ h => absurd h List.not_mem_nil, fun _ => rfl⟩
  | append_singleton requests request ih =>
      rw [after_concat, kind_respond, Request.sinceClear_concat]
      by_cases clears : request = .clear
      · rw [if_pos clears, if_pos clears]
        exact ⟨fun _ _ h => absurd h List.not_mem_nil, fun _ => rfl⟩
      · rw [if_neg clears, if_neg clears]
        simp only [List.mem_append, List.mem_singleton, or_imp, forall_and, forall_eq, ← ih]
        cases request.kind? <;> simp

theorem table_and_settings_after (d : Draft) (requests : List Request) :
    (d.after requests).table = d.table ∧ (d.after requests).settings = d.settings := by
  induction requests generalizing d with
  | nil => exact ⟨rfl, rfl⟩
  | cons request rest ih =>
      have step : (d.respond request).draft.table = d.table ∧
          (d.respond request).draft.settings = d.settings := by
        have table := congrArg Draft.table (unrendered_statement d)
        have settings := congrArg Draft.settings (unrendered_statement d)
        cases request with
        | sql | inlined | statement =>
            simp only [respond, Outcome.draft_answer]
            exact ⟨table, settings⟩
        | edit | clear | display | table | kind | settings | recorded => exact ⟨rfl, rfl⟩
      rw [← step.1, ← step.2]
      exact ih (d.respond request).draft

/-! ## Sessions -/

def keptAnswers (d : Draft) (steps : List (Request × Bool)) : List (Request × Answer) :=
  ((steps.zip (d.session (steps.map Prod.fst))).filter fun full => full.1.2).map
    fun full => (full.1.1, full.2)

theorem keptAnswers_sameAnswer {d e : Draft} (same : d.unrendered = e.unrendered)
    {steps : List (Request × Bool)}
    (looks : ∀ step ∈ steps, step.2 = false → step.1.changes = false) :
    List.Forall₂ (fun full answer => SameAnswer full.1 full.2 answer) (d.keptAnswers steps)
      (e.session ((steps.filter Prod.snd).map Prod.fst)) := by
  induction steps generalizing d e with
  | nil => exact .nil
  | cons step steps ih =>
      obtain ⟨request, kept⟩ := step
      have later := fun step h => looks step (List.mem_cons_of_mem _ h)
      cases kept with
      | true =>
          have answers := sameAnswer_respond same request
          exact .cons answers (ih answers.draft later)
      | false =>
          have unchanged := unrendered_respond_of_looks d
            (looks (request, false) List.mem_cons_self rfl)
          exact ih (unchanged.trans same) later

structure RendersPurely (fresh : Draft) : Prop where
  /-- The last rendering since the last clearing decides what is recorded. -/
  recorded : ∀ requests, ((fresh.after requests).respond .recorded).reply
    = match (Request.beforeRendering? requests).map fun earlier =>
        (fresh.after earlier).render with
      | some (.ok s) => .recorded s.bindings s.types
      | some (.error _) | none => .recorded [] ""
  /-- Requests that only look may be left out: the ones that are kept do not notice. -/
  unnoticed : ∀ steps : List (Request × Bool),
    (∀ step ∈ steps, step.2 = false → step.1.changes = false) →
      List.Forall₂ (fun full answer => SameAnswer full.1 full.2 answer)
        (fresh.keptAnswers steps) (fresh.session ((steps.filter Prod.snd).map Prod.fst))
  /-- A rendering that is refused leaves the draft as it is, too. -/
  untouched : ∀ requests request, request.changes = false →
    ((fresh.after requests).respond request).draft.unrendered
      = (fresh.after requests).unrendered
  fixed : ∀ requests, (fresh.after requests).table = fresh.table ∧
    (fresh.after requests).settings = fresh.settings
  /-- All ways of rendering show one statement, and so does displaying. -/
  agreed : ∀ requests,
    let d := fresh.after requests
    match (d.respond .statement).reply with
    | .statement s => (d.respond .sql).reply = .text s.sql ∧
        (d.respond .inlined).reply = .text s.inline ∧
        (d.respond .display).reply = .text s.sql
    | refusal => (d.respond .sql).reply = refusal ∧ (d.respond .inlined).reply = refusal ∧
        (d.respond .display).reply = .text ""
  refused_iff : ∀ requests request fault, request.renders = true →
    (((fresh.after requests).respond request).reply = .refused fault ↔
      (∀ earlier ∈ Request.sinceClear requests, earlier.kind? = none) ∧
        fresh.settings.kindPolicy = .required ∧ fault = .noKind fresh.table)

theorem agreed_replies (d : Draft) :
    match (d.respond .statement).reply with
    | .statement s => (d.respond .sql).reply = .text s.sql ∧
        (d.respond .inlined).reply = .text s.inline ∧
        (d.respond .display).reply = .text s.sql
    | refusal => (d.respond .sql).reply = refusal ∧ (d.respond .inlined).reply = refusal ∧
        (d.respond .display).reply = .text "" := by
  rw [reply_respond_of_renders d rfl, reply_respond_of_renders d rfl,
    reply_respond_of_renders d rfl]
  simp only [respond, display]
  cases d.render with
  | ok s => exact ⟨rfl, rfl, rfl⟩
  | error fault => exact ⟨rfl, rfl, rfl⟩

theorem refused_iff (d : Draft) {request : Request} (renders : request.renders = true)
    (fault : Fault) :
    (d.respond request).reply = .refused fault ↔
      d.kind = none ∧ d.settings.kindPolicy = .required ∧ fault = .noKind d.table := by
  rw [reply_respond_of_renders d renders, ← render_eq_error_iff]
  cases d.render with
  | ok s =>
      have shown : request.shown s ≠ .refused fault := by cases request <;> simp [Request.shown]
      simp [shown]
  | error other => simp

/-- In every session on a new draft, renderings record their values and do nothing else. -/
theorem rendersPurely (table : String) (settings : Settings) :
    RendersPurely { table, settings } where
  recorded := by
    intro requests
    have values := recorded_after table settings requests
    simp only [respond, types, values]
    cases Request.beforeRendering? requests with
    | none => rfl
    | some earlier =>
        simp only [Option.bind_some, Option.map_some]
        cases (({ table, settings } : Draft).after earlier).render <;> rfl
  unnoticed := fun _ looks => keptAnswers_sameAnswer rfl looks
  untouched := fun requests _ looks => unrendered_respond_of_looks _ looks
  fixed := table_and_settings_after _
  agreed := fun requests => agreed_replies _
  refused_iff := by
    intro requests request fault renders
    have fixed := table_and_settings_after { table, settings } requests
    rw [refused_iff _ renders, kind_after_eq_none_iff, fixed.1, fixed.2]

end Draft

end BoundSql
