import BoundSql.Proofs.Sessions

/-!
# What is logged

With logging on, each rendering that succeeds causes one event, which tells the
draft's table and kind, what has been recorded and the SQL text as far as it fits;
nothing else causes an event.  How a draft logs changes none of its replies and
nothing of what it records.
-/

namespace BoundSql

/-! ## Texts that are cut -/

namespace Text.Utf8

structure IsLongestPrefix (limit : Nat) (text cut : List Char) : Prop where
  isPrefix : cut <+: text
  fits : size cut ≤ limit
  longest : ∀ other, other <+: text → size other ≤ limit → other <+: cut

theorem prefix_splitAt {limit : Nat} {text other : List Char} (isPrefix : other <+: text)
    (fits : size other ≤ limit) : other <+: (splitAt limit text).1 := by
  induction text generalizing limit other with
  | nil =>
      rw [List.prefix_nil.mp isPrefix]
      exact List.nil_prefix
  | cons c text ih =>
      cases other with
      | nil => exact List.nil_prefix
      | cons d other =>
          obtain ⟨rfl, rest⟩ := List.cons_prefix_cons.mp isPrefix
          rw [size_cons] at fits
          have first : d.utf8Size ≤ limit := by omega
          simp only [splitAt, first, if_true]
          exact List.cons_prefix_cons.mpr ⟨rfl, ih rest (by omega)⟩

theorem isLongestPrefix_splitAt (limit : Nat) (text : List Char) :
    IsLongestPrefix limit text (splitAt limit text).1 where
  isPrefix := ⟨(splitAt limit text).2, splitAt_append limit text⟩
  fits := size_splitAt_le limit text
  longest := fun _ => prefix_splitAt

end Text.Utf8

/-! ## Events -/

namespace LogEvent

/-- SQL text is told whole if it fits; what is left of a longer text is marked with points. -/
def Tells (limit : Option Nat) (sql told : String) : Prop :=
  match limit with
  | none => told = sql
  | some n =>
      if sql.utf8ByteSize ≤ n then told = sql
      else ∃ cut, Text.Utf8.IsLongestPrefix n sql.toList cut ∧
        told = String.ofList cut ++ "..."

theorem tells_shorten (limit : Option Nat) (sql : String) :
    Tells limit sql (shorten limit sql) := by
  cases limit with
  | none => rfl
  | some n =>
      unfold Tells shorten
      dsimp only
      by_cases fits : sql.utf8ByteSize ≤ n
      · rw [if_pos fits, if_neg (Nat.not_lt.mpr fits)]
      · rw [if_neg fits, if_pos (Nat.not_le.mp fits)]
        exact ⟨_, Text.Utf8.isLongestPrefix_splitAt n sql.toList, rfl⟩

structure Reports (table : String) (settings : Settings) (d : Draft) (s : Statement)
    (event : LogEvent) : Prop where
  rendered : d.render = .ok s
  recorded : d.recorded = s.bindings
  level : event.level = settings.logLevel
  fields : ∃ kind told,
    event.fields = [("table", table), ("kind", kind),
      ("param_count", d.recorded.length.repr), ("binding_types", d.types), ("sql", told)] ∧
    (∀ k, d.kind = some k → kind = k.keyword) ∧ (d.kind = none ↔ kind = "-") ∧
    Tells settings.logLimit s.sql told
  kindless : d.kind = none → settings.kindPolicy = .optional

end LogEvent

def Reply.isRefusal : Reply → Bool
  | .refused _ => true
  | _ => false

theorem Request.isRefusal_shown (request : Request) (s : Statement) :
    (request.shown s).isRefusal = false := by
  cases request <;> rfl

namespace Draft

inductive Logged (table : String) (settings : Settings) (request : Request)
    (answer : Answer) : Prop
  | reported {s : Statement} {event : LogEvent} (renders : request.renders = true)
      (reply : answer.reply = request.shown s) (events : answer.events = [event])
      (reports : LogEvent.Reports table settings answer.draft s event)
  | silent (refused : request.renders = true → ∃ fault, answer.reply = .refused fault)
      (events : answer.events = [])

def log (d : Draft) (requests : List Request) : List LogEvent :=
  (d.session requests).flatMap Answer.events

def isRendering (step : Request × Answer) : Bool :=
  step.1.renders && !step.2.reply.isRefusal

def renderings (d : Draft) (requests : List Request) : List Answer :=
  ((requests.zip (d.session requests)).filter isRendering).map Prod.snd

def unlogged (d : Draft) : Draft :=
  { d with settings := { kindPolicy := d.settings.kindPolicy } }

/-! ## One request -/

theorem draft_respond_of_render {d : Draft} {request : Request}
    (renders : request.renders = true) {s : Statement} (rendered : d.render = .ok s) :
    (d.respond request).draft = { d with recorded := s.bindings } := by
  have statement : d.statement.draft = { d with recorded := s.bindings } := by
    unfold Draft.statement
    rw [rendered]
  cases request with
  | sql | inlined | statement =>
      simp only [respond, Outcome.draft_answer]
      exact statement
  | edit | clear | display | table | kind | settings | recorded => contradiction

theorem events_respond (d : Draft) (request : Request) :
    (d.respond request).events = if request.renders then
      match d.render with
      | .ok s => d.events s
      | .error _ => []
    else [] := by
  cases request with
  | sql | inlined | statement =>
      simp only [respond, sql, inlined, statement]
      cases d.render <;> rfl
  | edit | clear | display | table | kind | settings | recorded => rfl

theorem reports_of_render {d : Draft} {s : Statement} (rendered : d.render = .ok s) :
    LogEvent.Reports d.table d.settings { d with recorded := s.bindings } s
      { level := d.settings.logLevel, table := d.table, kind := d.kind,
        bindings := s.bindings, sql := LogEvent.shorten d.settings.logLimit s.sql } where
  rendered := rendered
  recorded := rfl
  level := rfl
  fields := by
    have keyword : ∀ kind : Option Kind,
        (∀ k, kind = some k → (kind.map Kind.keyword).getD "-" = k.keyword) ∧
          (kind = none ↔ (kind.map Kind.keyword).getD "-" = "-") := by
      intro kind
      cases kind with
      | none => exact ⟨nofun, by decide⟩
      | some k => cases k <;> decide
    exact ⟨_, _, rfl, (keyword d.kind).1, (keyword d.kind).2, LogEvent.tells_shorten _ _⟩
  kindless := by
    intro kindless
    cases policy : d.settings.kindPolicy with
    | optional => rfl
    | required =>
        have refused := (render_eq_error_iff d (.noKind d.table)).mpr ⟨kindless, policy, rfl⟩
        rw [rendered] at refused
        contradiction

theorem logged_respond {d : Draft} (on : d.settings.logging = true) (request : Request) :
    Logged d.table d.settings request (d.respond request) := by
  by_cases renders : request.renders = true
  · have events := events_respond d request
    have reply := reply_respond_of_renders d renders
    cases rendered : d.render with
    | ok s =>
        have left := draft_respond_of_render renders rendered
        rw [rendered] at events reply
        rw [if_pos renders] at events
        simp only [Draft.events, on, if_true] at events
        refine .reported renders reply events ?_
        rw [left]
        exact reports_of_render rendered
    | error fault =>
        rw [rendered] at events reply
        exact .silent (fun _ => ⟨fault, reply⟩) (events.trans (if_pos renders))
  · exact .silent (fun h => absurd h renders)
      ((events_respond d request).trans (if_neg renders))

theorem events_respond_of_off {d : Draft} (off : d.settings.logging = false)
    (request : Request) : (d.respond request).events = [] := by
  rw [events_respond]
  split
  · cases d.render with
    | ok s => exact if_neg (by rw [off]; decide)
    | error fault => rfl
  · rfl

theorem reply_unlogged (d : Draft) {request : Request} (other : request ≠ .settings) :
    (d.unlogged.respond request).reply = (d.respond request).reply := by
  cases request with
  | settings => exact absurd rfl other
  | sql | inlined | statement =>
      rw [reply_respond_of_renders d.unlogged rfl, reply_respond_of_renders d rfl]
      rfl
  | edit | clear | display | table | kind | recorded => rfl

theorem draft_unlogged (d : Draft) (request : Request) :
    (d.unlogged.respond request).draft = (d.respond request).draft.unlogged := by
  have rendered : d.unlogged.statement.draft = d.statement.draft.unlogged := by
    have renders : d.unlogged.render = d.render := rfl
    unfold Draft.statement
    rw [renders]
    cases d.render <;> rfl
  cases request with
  | sql | inlined | statement =>
      simp only [respond, Outcome.draft_answer]
      exact rendered
  | edit | clear | display | table | kind | settings | recorded => rfl

/-! ## Sessions -/

theorem logged_session {table : String} {settings : Settings} (on : settings.logging = true)
    (requests : List Request) :
    List.Forall₂ (Logged table settings) requests
      (({ table, settings } : Draft).session requests) := by
  have step (d : Draft) (fixed : d.table = table ∧ d.settings = settings) (request : Request) :
      Logged table settings request (d.respond request) ∧
        (d.respond request).draft.table = table ∧
        (d.respond request).draft.settings = settings := by
    obtain ⟨rfl, rfl⟩ := fixed
    exact ⟨logged_respond on request, table_and_settings_respond d request⟩
  exact forall₂_session step ⟨rfl, rfl⟩ requests

theorem reports_log {table : String} {settings : Settings} {d : Draft}
    {requests : List Request}
    (logged : List.Forall₂ (Logged table settings) requests (d.session requests)) :
    List.Forall₂ (fun answer event => ∃ s, LogEvent.Reports table settings answer.draft s event)
      (d.renderings requests) (d.log requests) := by
  unfold renderings log
  generalize d.session requests = answers at logged ⊢
  induction logged with
  | nil => exact .nil
  | @cons request answer requests answers here _ ih =>
      rw [List.zip_cons_cons, List.flatMap_cons]
      cases here with
      | @reported s event renders reply events reports =>
          have kept : isRendering (request, answer) = true := by
            rw [isRendering, renders, reply, Request.isRefusal_shown]
            rfl
          rw [List.filter_cons_of_pos kept, events]
          exact .cons ⟨s, reports⟩ ih
      | silent refused events =>
          have dropped : ¬ isRendering (request, answer) = true := by
            intro kept
            rw [isRendering, Bool.and_eq_true] at kept
            obtain ⟨fault, reply⟩ := refused kept.1
            rw [reply] at kept
            exact Bool.false_ne_true kept.2
          rw [List.filter_cons_of_neg dropped, events]
          exact ih

theorem log_eq_nil {d : Draft} (off : d.settings.logging = false) (requests : List Request) :
    d.log requests = [] := by
  unfold log
  induction requests generalizing d with
  | nil => rfl
  | cons request requests ih =>
      have later : (d.respond request).draft.settings.logging = false := by
        rw [(table_and_settings_respond d request).2]
        exact off
      rw [session, List.flatMap_cons, events_respond_of_off off, ih later]
      rfl

theorem after_unlogged (d : Draft) (requests : List Request) :
    d.unlogged.after requests = (d.after requests).unlogged :=
  List.foldl_hom unlogged draft_unlogged

structure LogsRenderings (table : String) (settings : Settings) : Prop where
  logged : settings.logging = true → ∀ requests,
    List.Forall₂ (Logged table settings) requests
      (({ table, settings } : Draft).session requests)
  /-- The log consists of one event for each rendering, in their order. -/
  listed : settings.logging = true → ∀ requests,
    List.Forall₂ (fun answer event => ∃ s, LogEvent.Reports table settings answer.draft s event)
      (({ table, settings } : Draft).renderings requests)
      (({ table, settings } : Draft).log requests)
  silent : settings.logging = false → ∀ requests,
    ({ table, settings } : Draft).log requests = []
  /-- Other settings for logging are noticed by asking for the settings only. -/
  unnoticed : ∀ logging logLevel logLimit requests request,
    let other : Settings := { settings with logging, logLevel, logLimit }
    let a := (({ table, settings } : Draft).after requests).respond request
    let b := (({ table, settings := other } : Draft).after requests).respond request
    (request ≠ .settings → a.reply = b.reply) ∧
      a.draft.recorded = b.draft.recorded ∧ a.draft.types = b.draft.types

/-- Each rendering is reported once, and nothing else notices how a draft logs. -/
theorem logsRenderings (table : String) (settings : Settings) :
    LogsRenderings table settings where
  logged := fun on requests => logged_session on requests
  listed := fun on requests => reports_log (logged_session on requests)
  silent := fun off requests => log_eq_nil off requests
  unnoticed := by
    intro logging logLevel logLimit requests request other
    have same : (({ table, settings } : Draft).after requests).unlogged
        = (({ table, settings := other } : Draft).after requests).unlogged := by
      rw [← after_unlogged, ← after_unlogged]
      rfl
    have drafts := congrArg (fun d => (d.respond request).draft) same
    simp only [draft_unlogged] at drafts
    have recorded := congrArg Draft.recorded drafts
    have types := congrArg Draft.types drafts
    refine ⟨fun asked => ?_, recorded, types⟩
    rw [← reply_unlogged _ asked, same, reply_unlogged _ asked]

example :
    let settings : Settings := { logging := true, logLimit := some 15 }
    (({ table := "é", settings } : Draft).log [.sql, .edit (.select []), .sql, .display]).map
        LogEvent.fields
      = [[("table", "é"), ("kind", "SELECT"), ("param_count", "0"), ("binding_types", ""),
          ("sql", "SELECT * FROM ...")]] := by
  decide +kernel

end Draft

end BoundSql
