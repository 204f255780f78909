import BoundSql.Proofs.Recorded

/-!
# Sessions go on from what they left behind

A session of two parts is the session of the first part, followed by one of the
second that starts where the first has ended.  No request changes the table or
the settings, and clearing leaves nothing else, so a cleared draft answers all
further requests as a new one does.
-/

namespace BoundSql.Draft

theorem session_append (d : Draft) (first second : List Request) :
    d.session (first ++ second) = d.session first ++ (d.after first).session second := by
  induction first generalizing d with
  | nil => rfl
  | cons request first ih => exact congrArg (d.respond request :: ·) (ih _)

theorem forall₂_session {kept : Draft → Prop} {answered : Request → Answer → Prop}
    (step : ∀ d, kept d → ∀ request,
      answered request (d.respond request) ∧ kept (d.respond request).draft)
    {d : Draft} (h : kept d) (requests : List Request) :
    List.Forall₂ answered requests (d.session requests) := by
  induction requests generalizing d with
  | nil => exact .nil
  | cons request requests ih =>
      obtain ⟨here, later⟩ := step d h request
      exact .cons here (ih later)

theorem table_and_settings_respond (d : Draft) (request : Request) :
    (d.respond request).draft.table = d.table ∧
      (d.respond request).draft.settings = d.settings :=
  table_and_settings_after d [request]

/--
Whatever the history of a draft, clearing it makes it a new draft for the same
table with the same settings: the rest of the session is a session of its own.
-/
theorem session_clear (table : String) (settings : Settings)
    (history continuation : List Request) :
    let fresh : Draft := { table, settings }
    fresh.session (history ++ .clear :: continuation)
        = fresh.session history ++ ⟨.done, [], fresh⟩ :: fresh.session continuation ∧
      (fresh.after history).table = table ∧ (fresh.after history).settings = settings := by
  intro fresh
  have fixed := table_and_settings_after fresh history
  have cleared : (fresh.after history).clear = fresh := by
    rw [clear, fixed.1, fixed.2]
  have answer : (fresh.after history).respond .clear = ⟨.done, [], fresh⟩ := by
    rw [respond, cleared]
  refine ⟨?_, fixed⟩
  rw [session_append, session, answer]

end BoundSql.Draft
