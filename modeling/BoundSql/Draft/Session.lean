import BoundSql.Draft.Basic

/-!
# Sessions

A session is a list of requests put to one draft.  Each request is answered by a
reply, by the log events it causes and by the draft as it is afterwards.
-/

namespace BoundSql

inductive Request where
  | edit (e : Edit)
  | clear
  | sql
  | inlined
  | statement
  | display
  | table
  | kind
  | settings
  | recorded
  deriving DecidableEq, Repr

inductive Reply where
  | done
  | refused (fault : Fault)
  | text (s : String)
  | statement (s : Statement)
  | kind (kind : Option Kind)
  | settings (settings : Settings)
  | recorded (values : List Value) (types : String)
  deriving DecidableEq, Repr

structure Answer where
  reply : Reply
  events : List LogEvent
  draft : Draft
  deriving DecidableEq, Repr

namespace Outcome

/-- A result is passed on as `reply` says, a fault as a refusal. -/
def answer {α : Type} (reply : α → Reply) (outcome : Outcome α) : Answer :=
  match outcome.result with
  | .ok a => ⟨reply a, outcome.events, outcome.draft⟩
  | .error fault => ⟨.refused fault, outcome.events, outcome.draft⟩

@[simp] theorem draft_answer {α : Type} (reply : α → Reply) (outcome : Outcome α) :
    (outcome.answer reply).draft = outcome.draft := by
  unfold answer
  cases outcome.result <;> rfl

end Outcome

namespace Draft

def respond (d : Draft) : Request → Answer
  | .edit e => ⟨.done, [], d.edit e⟩
  | .clear => ⟨.done, [], d.clear⟩
  | .sql => d.sql.answer .text
  | .inlined => d.inlined.answer .text
  | .statement => d.statement.answer .statement
  | .display => ⟨.text d.display, [], d⟩
  | .table => ⟨.text d.table, [], d⟩
  | .kind => ⟨.kind d.kind, [], d⟩
  | .settings => ⟨.settings d.settings, [], d⟩
  | .recorded => ⟨.recorded d.recorded d.types, [], d⟩

def session (d : Draft) : List Request → List Answer
  | [] => []
  | request :: rest =>
      let answer := d.respond request
      answer :: answer.draft.session rest

def after (d : Draft) (requests : List Request) : Draft :=
  requests.foldl (fun d request => (d.respond request).draft) d

end Draft

end BoundSql
