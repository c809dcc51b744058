import ApprovalWorkflow.Proofs.Moves

/-!
# Refused requests

Most requests are served as a whole or refused, and a refusal changes nothing
(`Request.perform_wholly`). Starting an instance, trying again and carrying a task through are the
exceptions: they may stop when they have stored something.

A completion consists of two parts. The first one may be refused; when it has stored the task, the
completion succeeds with the stored task, whether the instance could be moved on or not
(`Tasks.complete_stands`).
-/

set_option autoImplicit false

namespace ApprovalWorkflow

open Operation Engine

/-- The operation succeeds, or it leaves the environment alone, the log aside. -/
def Operation.ActsWholly {α : Type} (x : Operation α) (env : Environment) : Prop :=
  ∃ r env', x.Yields env r env' ∧ ∀ error, r = .error error → env' = env

namespace Operation.ActsWholly

variable {α : Type} {x : Operation α} {env env' : Environment}

/-- An operation that succeeds has acted wholly. -/
theorem of_ok {a : α} (h : x.Yields env (.ok a) env') : x.ActsWholly env :=
  ⟨_, _, h, fun _ herror => by cases herror⟩

/-- An operation that changes nothing has acted wholly, whether or not it has failed. -/
theorem of_unchanged {r : Except EngineError α} (h : x.Yields env r env) : x.ActsWholly env :=
  ⟨_, _, h, fun _ _ => rfl⟩

/-- Work on a task is stored or refused. -/
theorem of_worked {x : Operation Task} {e : Engine} {entry : Task → Uuid → HistoryEntry}
    {notice : Task → Notice} {r : Except EngineError Task}
    (h : x.Yields env r (env.worked e entry notice r)) : x.ActsWholly env := by
  cases r with
  | ok t => exact .of_ok h
  | error error => exact .of_unchanged h

/-- A change of a workflow is stored or refused. -/
theorem of_ruled {x : Operation Workflow} {r : Except EngineError Workflow}
    (h : x.Yields env r (Workflows.ruled env r)) : x.ActsWholly env := by
  cases r with
  | ok w => exact .of_ok h
  | error error => exact .of_unchanged h

/-- Whether an operation acts wholly does not depend on what is made of its result. -/
theorem discard (h : x.ActsWholly env) : (do let _ ← x : Operation Unit).ActsWholly env := by
  obtain ⟨r, env', hyields, hunchanged⟩ := h
  refine ⟨_, env', hyields.discard, ?_⟩
  intro error herror
  cases r with
  | ok a => cases herror
  | error error => exact hunchanged error rfl

end Operation.ActsWholly

/-- Requests that are served as a whole or refused. -/
def Request.IsWhollyServed : Request → Prop
  | .startInstance _ _ => False
  | .retry _ => False
  | .progress _ => False
  | _ => True

variable {e : Engine} {env : Environment}

namespace Workflows

/-- Creating a workflow happens wholly or not at all. -/
theorem create_wholly (henv : env.Orderly) (name description definition : String) :
    (create name description definition).ActsWholly env := by
  rcases create_yields henv name description definition with ⟨error, h⟩ | ⟨w, -, -, h⟩
  · exact .of_unchanged h
  · exact .of_ok h

/-- Deleting a workflow happens wholly or not at all. -/
theorem delete_wholly (henv : env.Orderly) (id : Uuid) : (delete id).ActsWholly env := by
  have hdelete : (∃ error, (delete id).Yields env (.error error) env) ∨ _ := delete_yields henv
  rcases hdelete with ⟨error, h⟩ | ⟨w, -, -, h⟩
  · exact .of_unchanged h
  · exact .of_ok h

/-- Cancelling an instance happens wholly or not at all. -/
theorem cancelInstance_wholly (henv : env.Orderly) (id : Uuid) :
    (cancelInstance id).ActsWholly env := by
  have hcancel : (∃ error, (cancelInstance id).Yields env (.error error) env) ∨ _ :=
    cancelInstance_yields henv
  rcases hcancel with ⟨error, h⟩ | ⟨i, j, -, -, h⟩
  · exact .of_unchanged h
  · exact .of_ok h

end Workflows

namespace Tasks

/-- Carrying a finished task through has an outcome. It is written down on the task, and what
follows the end of the task succeeds with that. -/
theorem follow_stands (henv : env.Orderly) {u : Task} (hu : u ∈ env.store.tasks)
    (hpending : u.progression ≠ .advanced) (hended : u.status.isOpen = false)
    (hrange : (follow e u).StaysInRange env) :
    ∃ outcome env', (e.progress u.id).Yields env (outcome.map fun _ => u.marked outcome) env' ∧
      (follow e u).Yields env (.ok (u.marked outcome)) env' ∧
      env'.store.task? u.id = some (u.marked outcome) := by
  obtain ⟨σ, hσ, -⟩ := situation_of_task henv.store hu
  have hfound := henv.store.task?_eq_some_iff.mpr ⟨hu, rfl⟩
  have hprogress := progress_yields henv hfound hpending hended hσ (hrange.first fun outcome => by
    cases outcome with
    | ok t => exact .pure t
    | error error => exact .bind (.say _ _) fun _ => Repository.task_onlyDraws _)
  obtain ⟨hfollow, horderly⟩ := follow_yields henv hu hpending hended hσ hrange
  obtain ⟨p, hmarked⟩ := marked_eq u ((σ.course e env.now u).outcome e)
  refine ⟨_, _, hprogress.1, hfollow, horderly.store.task?_eq_some_iff.mpr ⟨?_, by rw [hmarked]⟩⟩
  exact mem_put_self Task.id (List.mem_append_left _ hu) (by rw [hmarked])

/-- When the first part of a completion has stored the task, the completion succeeds with the task
as it is stored at the end: with the outcome of the second part written down on it. -/
theorem complete_stands (henv : env.Orderly) {id : Uuid} {a : Actor} {c : Completion} {u : Task}
    (hrange : (complete e id a c).StaysInRange env)
    (hu : ((finish e id a c).runIn env).1 = .ok u) :
    let stored := (finish e id a c).leaves env
    let t := u.marked (((e.progress id).runIn stored).1.map fun _ => ())
    stored.store.task? id = some u ∧ ∃ env', (complete e id a c).Yields env (.ok t) env' ∧
      env'.store.task? id = some t := by
  intro stored t
  have hfinish : (finish e id a c).Yields env _ _ := finish_yields henv a c
  have htry : (env.store.tryTask id fun t => t.finishedBy a c env.now) = .ok u :=
    hfinish.outcome.symm.trans hu
  rw [htry] at hfinish
  obtain ⟨t₀, ht₀, hfinished⟩ := Store.tryTask_eq_ok.mp htry
  obtain ⟨hmem₀, rfl⟩ := henv.store.task?_eq_some_iff.mp ht₀
  obtain ⟨-, hended⟩ := Task.of_finishedBy hfinished
  obtain ⟨hid, howner, hprogression⟩ := hended.place
  have hpending : u.progression ≠ .advanced := by
    rw [hprogression]
    exact nofun
  -- The second part begins where the first one has stopped.
  have hrest := hrange.second hfinish
  have horderly := orderly_worked henv hmem₀ hid howner (hrest.before (follow_onlyDraws u))
  have hmem := mem_put_self Task.id hmem₀ hid
  obtain ⟨outcome, env', hprogress, hfollow, hlast⟩ :=
    follow_stands horderly hmem hpending hended.isOpen_eq hrest
  obtain ⟨log, hleaves⟩ := hfinish.leaves_eq
  rw [hid] at hprogress hlast
  have houtcome : ((e.progress t₀.id).runIn stored).1.map (fun _ => ()) = outcome := by
    obtain ⟨log', hrun⟩ := hprogress log
    rw [show stored = _ from hleaves, hrun]
    cases outcome <;> rfl
  have ht : t = u.marked outcome := congrArg u.marked houtcome
  rw [ht]
  refine ⟨?_, env', .bind hfinish hfollow, hlast⟩
  rw [show stored = _ from hleaves]
  exact horderly.store.task?_eq_some_iff.mpr ⟨hmem, hid⟩

/-- A completion happens wholly or not at all, since a completion that is stored succeeds whatever
comes of the progression. -/
theorem complete_wholly (henv : env.Orderly) (id : Uuid) (a : Actor) (c : Completion)
    (hrange : (complete e id a c).StaysInRange env) : (complete e id a c).ActsWholly env := by
  have hfinish : (finish e id a c).Yields env _ _ := finish_yields henv a c
  cases htry : env.store.tryTask id fun t => t.finishedBy a c env.now with
  | error error => exact .of_unchanged (complete_refused henv htry)
  | ok u =>
    obtain ⟨-, env', hcomplete, -⟩ :=
      complete_stands henv hrange (hfinish.outcome.trans htry)
    exact .of_ok hcomplete

end Tasks

/-- A request of these kinds succeeds or changes nothing. -/
theorem Request.perform_wholly (henv : env.Orderly) {r : Request} (hr : r.IsWhollyServed)
    (hrange : (r.perform e).StaysInRange env) : (r.perform e).ActsWholly env := by
  cases r with
  | createWorkflow name description definition =>
    exact (Workflows.create_wholly henv name description definition).discard
  | applyAction action workflow => exact .discard (.of_ruled (Workflows.apply_yields henv action))
  | deleteWorkflow workflow => exact Workflows.delete_wholly henv workflow
  | updateDefinition workflow definition =>
    exact .discard (.of_ruled (Workflows.updateDefinition_yields henv definition))
  | cancelInstance run => exact (Workflows.cancelInstance_wholly henv run).discard
  | claim task a => exact .discard (.of_worked (Tasks.claim_yields henv a))
  | complete task a c =>
    exact (Tasks.complete_wholly henv task a c (hrange.first fun _ => .pure ())).discard
  | delegate task a toUser => exact .discard (.of_worked (Tasks.delegate_yields henv a toUser))
  | inquire q =>
    obtain ⟨r, h⟩ := q.perform_yields e henv.outage
    exact .of_unchanged h
  | finish task a c => exact .discard (.of_worked (Tasks.finish_yields henv a c))
  | startInstance workflow input => cases hr
  | retry task => cases hr
  | progress task => cases hr

/-- Requests after any run. If one of those that are served as a whole ends in an error, then
workflows, instances, tasks, audit trail and notices are what they were. A completion that has
stored the task succeeds, whatever then comes of carrying the task through, and gives the task as
it is stored in the end. -/
theorem refusals_change_nothing (seed : Nat) (start : Timestamp) (e : Engine) (calls : List Call)
    (c : Call) :
    let env := (Environment.fresh seed start).serveAll e calls
    let next := env.serve e c
    next.ids.InRange →
    (c.request.IsWhollyServed → ∀ error, env.answer e c = .error error →
      next.store = env.store ∧ next.notices = env.notices) ∧
    ∀ id a completion, c.request = .complete id a completion →
      let here := env.atTime c.time
      let stored := (Tasks.finish e id a completion).leaves here
      ∀ u, ((Tasks.finish e id a completion).runIn here).1 = .ok u →
        stored.store.task? id = some u ∧
        ∃ t, ((Tasks.complete e id a completion).runIn here).1 = .ok t ∧
          next.store.task? id = some t ∧
          t = u.marked (((e.progress id).runIn stored).1.map fun _ => ()) := by
  intro env next hrange
  have hbefore : env.ids.InRange := hrange.of_grows (env.serve_grows e c)
  have henv : (env.atTime c.time).Orderly := (Environment.serveAll_orderly
    (Environment.fresh_orderly seed start) calls hbefore).at_time c.time
  refine ⟨?_, ?_⟩
  · intro hwhole error herror
    obtain ⟨r, env', hyields, hunchanged⟩ :=
      Request.perform_wholly henv hwhole (.of_leaves hrange)
    have hr : r = .error error := hyields.outcome.symm.trans herror
    obtain ⟨log, hnext⟩ := Environment.serve_eq hyields
    rw [show next = _ from hnext, hunchanged error hr]
    exact ⟨rfl, rfl⟩
  · intro id a completion hrequest here stored u hu
    have hnext : next = (Tasks.complete e id a completion).leaves here := by
      show (c.request.perform e).leaves _ = _
      rw [hrequest]
      exact (Attempt.complete a completion).leaves_run e id here
    have hcomplete : (Tasks.complete e id a completion).StaysInRange here :=
      .of_leaves (hnext ▸ hrange)
    obtain ⟨hstored, env', hyields, hlast⟩ := Tasks.complete_stands henv hcomplete hu
    refine ⟨hstored, _, hyields.outcome, ?_, rfl⟩
    rw [hnext, hyields.store_eq]
    exact hlast

/-- After `givenUpRun`, nobody but its assignee hands a task on, and a completion is stored. -/
theorem givenUpRun_answers :
    let env := (Environment.fresh 0 ⟨0, 0⟩).serveAll .default givenUpRun
    let task := IdSource.issue 0 .task 1
    (env.serve .default ⟨⟨1, 0⟩, .delegate task ⟨"u", []⟩ "v"⟩).ids.InRange ∧
      env.answer .default ⟨⟨1, 0⟩, .delegate task ⟨"u", []⟩ "v"⟩ =
        .error (.unauthorized "u" task) ∧
      ((Tasks.finish .default task ⟨"u", []⟩ ⟨.rejected, .null, none⟩).runIn
        (env.atTime ⟨1, 0⟩)).1.isOk := by
  decide +kernel

/-- The delegation is refused and changes nothing. The completion gives the task as it is stored,
though the instance has been given up and cannot be moved on. -/
theorem refusals_change_nothing_givenUp :
    let env := (Environment.fresh 0 ⟨0, 0⟩).serveAll .default givenUpRun
    let task := IdSource.issue 0 .task 1
    (env.serve .default ⟨⟨1, 0⟩, .delegate task ⟨"u", []⟩ "v"⟩).store = env.store ∧
      ∃ t : Task, ((rejection.run .default task).runIn (env.atTime ⟨1, 0⟩)).1 = .ok t ∧
        (env.serve .default ⟨⟨1, 0⟩, rejection.request task⟩).store.task? task = some t ∧
        t.progression ≠ .advanced := by
  intro env task
  obtain ⟨hdelegation, hanswer, hstored⟩ := givenUpRun_answers
  obtain ⟨hcompletion, hfails⟩ := rejection_fails
  obtain ⟨u, hu⟩ : ∃ u, ((Tasks.finish .default task ⟨"u", []⟩ ⟨.rejected, .null, none⟩).runIn
      (env.atTime ⟨1, 0⟩)).1 = .ok u := by
    revert hstored
    generalize ((Tasks.finish _ _ _ _).runIn _).1 = result
    cases result with
    | ok u => exact fun _ => ⟨u, rfl⟩
    | error error => exact nofun
  have hrefused := refusals_change_nothing 0 ⟨0, 0⟩ .default givenUpRun
    ⟨⟨1, 0⟩, .delegate task ⟨"u", []⟩ "v"⟩ hdelegation
  have hdone := refusals_change_nothing 0 ⟨0, 0⟩ .default givenUpRun
    ⟨⟨1, 0⟩, rejection.request task⟩ (by
      rw [← rejection.leaves_run] at hcompletion
      exact hcompletion)
  obtain ⟨-, t, ht, hlast, -⟩ := hdone.2 _ _ _ rfl u hu
  refine ⟨(hrefused.1 trivial _ hanswer).1, t, ht, hlast, ?_⟩
  intro hadvanced
  have hcomplete : ((rejection.run .default task).runIn (env.atTime ⟨1, 0⟩)).1 = .ok t := ht
  rw [hcomplete] at hfails
  exact hfails (congrArg Except.ok hadvanced)

end ApprovalWorkflow
