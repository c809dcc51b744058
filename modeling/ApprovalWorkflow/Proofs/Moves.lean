import ApprovalWorkflow.Proofs.Lifecycle

/-!
# A finished task moves its instance at most once

There are three ways to have a finished task carried through to its instance: completing it, which
finishes it first, trying again, and the second part of a completion by itself. An attempt that
fails opens no task, leaves all instances what they are but for their join records, and sends no
notice of its own (`Attempt.not_moves_of_fails`). An attempt that succeeds marks the task as
advanced, and this mark stays: whatever happens later, all further attempts leave the store and the
notices alone (`moves_at_most_once`).
-/

set_option autoImplicit false

namespace ApprovalWorkflow

open Operation Engine

/-- The environment at another time. -/
def Environment.atTime (env : Environment) (time : Timestamp) : Environment :=
  { env with now := time }

/-- The instance without its join records. -/
def Instance.unjoined (i : Instance) : Instance := { i with joins := [] }

/-- From one store to another no task has been opened, and the instances are the same but for their
join records. -/
structure Store.Still (s s' : Store) : Prop where
  tasks : s'.tasks.map Task.id = s.tasks.map Task.id
  instances : s'.instances.map Instance.unjoined = s.instances.map Instance.unjoined

namespace Store.Still

variable {s s' s'' : Store} {t : Task}

/-- A store to which nothing is done is still. -/
theorem refl (s : Store) : s.Still s := ⟨rfl, rfl⟩

/-- A store that is still from one moment to a second and from there to a third is so from the
first to the third. -/
theorem trans (h : s.Still s') (h' : s'.Still s'') : s.Still s'' :=
  ⟨h'.tasks.trans h.tasks, h'.instances.trans h.instances⟩

/-- A store is still when a task is stored again in the place of the one with its identifier. -/
theorem putTask (h : s.Still s') (t : Task) : s.Still (s'.putTask t) :=
  ⟨(map_key_put Task.id t s'.tasks).trans h.tasks, h.instances⟩

end Store.Still

/-! ## Attempts that fail -/

namespace Engine

variable {e : Engine} {env : Environment} {σ : Situation} {now : Timestamp} {t : Task}
  {error : EngineError} {id : Uuid}

/-- Moving an instance on without success leaves the store still, and sends nothing. -/
theorem still_of_error (henv : env.Orderly) (hσ : env.store.situation? id = some σ)
    (h : (σ.course e env.now t).outcome e = .error error) :
    let after := env.after (e.effect σ env.now env.ids t (σ.course e env.now t))
    env.store.Still after.store ∧ after.notices = env.notices := by
  rcases effect_of_error env.ids h with hnone | ⟨joins, hjoins⟩
  · rw [hnone, after_nothing]
    exact ⟨.refl _, rfl⟩
  · rw [hjoins]
    refine ⟨⟨congrArg (List.map Task.id) (List.append_nil _), ?_⟩, List.append_nil _⟩
    have hstored := henv.store.instance?_eq_some_iff.mp (record_id hσ).1
    refine map_put Instance.id fun i hi hid => ?_
    rw [List.inj_on_of_nodup_map henv.store.instance_ids hi hstored.1 hid]
    rfl

end Engine

/-- The ways to have a task carried through to its instance. -/
inductive Attempt where
  | complete (a : Actor) (c : Completion)
  | retry
  | progress

namespace Attempt

/-- Makes the attempt. -/
def run (e : Engine) (id : Uuid) : Attempt → Operation Task
  | .complete a c => Tasks.complete e id a c
  | .retry => Tasks.retry e id
  | .progress => e.progress id

/-- What is done before the task is carried through: a completion finishes it. -/
def outset (e : Engine) (id : Uuid) : Attempt → Operation Unit
  | .complete a c => do let _ ← Tasks.finish e id a c
  | _ => pure ()

/-- The request for the attempt. -/
def request (id : Uuid) : Attempt → Request
  | .complete a c => .complete id a c
  | .retry => .retry id
  | .progress => .progress id

/-- The task has been carried through. -/
def Succeeds (result : Except EngineError Task) : Prop :=
  ∃ t, result = .ok t ∧ t.progression = .advanced

/-- The attempt opens a task, changes an instance in more than its join records, or sends a notice
of its own. -/
def Moves (attempt : Attempt) (e : Engine) (id : Uuid) (env : Environment) : Prop :=
  ¬ (env.store.Still ((attempt.run e id).leaves env).store ∧
    ((attempt.run e id).leaves env).notices = ((attempt.outset e id).leaves env).notices)

variable {e : Engine} {env : Environment} {id : Uuid} {t : Task}

/-- How an attempt with this result leaves things: it succeeds and stores the task as carried
through, or it fails and leaves the store still, and all notices are from its outset. -/
def Ends (attempt : Attempt) (e : Engine) (id : Uuid) (env : Environment)
    (result : Except EngineError Task) (env' : Environment) : Prop :=
  (∃ t, result = .ok t ∧ t.progression = .advanced ∧ env'.store.task? id = some t) ∨
    ¬ Succeeds result ∧ env.store.Still env'.store ∧
      ∃ r env₀, (attempt.outset e id).Yields env r env₀ ∧ env'.notices = env₀.notices

/-- A failure is no success. -/
theorem not_succeeds_error (error : EngineError) : ¬ Succeeds (.error error) := by
  rintro ⟨t, ht, -⟩
  cases ht

/-- An attempt that fails at its outset leaves things as that failure does. -/
theorem ends_of_error {attempt : Attempt} {error : EngineError} {r : Except EngineError Unit}
    (h : (attempt.outset e id).Yields env r env) : attempt.Ends e id env (.error error) env :=
  .inr ⟨not_succeeds_error error, .refl _, r, env, h, rfl⟩

/-- The task that takes the place of one of the store is found there. -/
theorem task?_putTask {u : Task} (horderly : (env.putTask u).Orderly) (ht : t ∈ env.store.tasks)
    (hid : u.id = t.id) : (env.putTask u).store.task? t.id = some u :=
  horderly.store.task?_eq_some_iff.mpr ⟨mem_put_self Task.id ht hid, hid⟩

/-- A progression carries the task through, or leaves the store still and sends no notice. -/
theorem progress_ends (henv : env.Orderly) (hrange : (e.progress id).StaysInRange env) :
    ∃ result env', (e.progress id).Yields env result env' ∧
      progress.Ends e id env result env' := by
  have hidle : (progress.outset e id).Yields env (.ok ()) env := .pure () env
  cases ht : env.store.task? id with
  | none => exact ⟨_, env, progress_of_missing henv.outage ht, ends_of_error hidle⟩
  | some t =>
    by_cases hadvanced : t.progression = .advanced
    · exact ⟨_, env, progress_of_advanced henv.outage ht hadvanced, .inl ⟨t, rfl, hadvanced, ht⟩⟩
    cases hopen : t.status.isOpen with
    | true => exact ⟨_, env, progress_of_open henv.outage ht hadvanced hopen, ends_of_error hidle⟩
    | false =>
      obtain ⟨hmem, rfl⟩ := henv.store.task?_eq_some_iff.mp ht
      obtain ⟨σ, hσ, -⟩ := situation_of_task henv.store hmem
      obtain ⟨hyields, horderly⟩ := progress_yields henv ht hadvanced hopen hσ hrange
      refine ⟨_, _, hyields, ?_⟩
      cases houtcome : (σ.course e env.now t).outcome e with
      | ok _ =>
        rw [houtcome] at horderly
        exact .inl ⟨_, rfl, rfl, task?_putTask horderly (List.mem_append_left _ hmem) rfl⟩
      | error error =>
        obtain ⟨hstill, hnotices⟩ := still_of_error henv hσ houtcome
        exact .inr ⟨not_succeeds_error error, hstill.putTask _, _, env, hidle, hnotices⟩

/-- A completion carries the task through, or leaves the store still and sends no notice beyond
that of its outset. -/
theorem complete_ends (henv : env.Orderly) (a : Actor) (c : Completion)
    (hrange : (Tasks.complete e id a c).StaysInRange env) :
    ∃ result env', (Tasks.complete e id a c).Yields env result env' ∧
      (complete a c).Ends e id env result env' := by
  have houtset : ((complete a c).outset e id).Yields env _ _ :=
    (Tasks.finish_yields henv a c).discard
  cases hfinished : env.store.tryTask id fun t => t.finishedBy a c env.now with
  | error error =>
    rw [hfinished] at houtset
    exact ⟨_, env, Tasks.complete_refused henv hfinished, ends_of_error houtset⟩
  | ok u =>
    obtain ⟨t, ht, hu⟩ := Store.tryTask_eq_ok.mp hfinished
    obtain ⟨hmem, rfl⟩ := henv.store.task?_eq_some_iff.mp ht
    obtain ⟨σ, hσ, -⟩ := situation_of_task henv.store hmem
    obtain ⟨hσ₁, hyields, horderly₁, horderly₂⟩ := Tasks.complete_carried henv hmem hu hσ hrange
    have hid := (Task.of_finishedBy hu).2.place.1
    let env₁ := env.worked e (fun t entry => .completed entry t a.user env.now) .taskCompleted
      (.ok u)
    have hmem₁ : u ∈ env₁.store.tasks := mem_put_self Task.id hmem hid
    refine ⟨_, _, hyields, ?_⟩
    cases houtcome : ((σ.withTask u).course e env.now u).outcome e with
    | ok _ =>
      rw [houtcome] at horderly₂
      have hread := task?_putTask horderly₂ (List.mem_append_left _ hmem₁) rfl
      exact .inl ⟨_, rfl, rfl, by rwa [hid] at hread⟩
    | error error =>
      rw [hfinished] at houtset
      -- finishing the task leaves the store still, too
      have hfirst : env.store.Still env₁.store := ⟨map_key_put Task.id u env.store.tasks, rfl⟩
      obtain ⟨hstill, hnotices⟩ := still_of_error horderly₁ hσ₁ houtcome
      refine .inr ⟨?_, (hfirst.trans hstill).putTask _, _, env₁, houtset, hnotices⟩
      rintro ⟨v, hv, hadvanced⟩
      cases hv
      cases hadvanced

/-- Every attempt carries the task through, or leaves the store still and sends no notice beyond
those of its outset. -/
theorem run_ends (henv : env.Orderly) (attempt : Attempt)
    (hrange : (attempt.run e id).StaysInRange env) :
    ∃ result env', (attempt.run e id).Yields env result env' ∧
      attempt.Ends e id env result env' := by
  cases attempt with
  | complete a c => exact complete_ends henv a c hrange
  | progress => exact progress_ends henv hrange
  | retry =>
    have hidle : (retry.outset e id).Yields env (.ok ()) env := .pure () env
    cases ht : env.store.task? id with
    | none =>
      have hfound := Repository.task_yields id henv.outage
      rw [ht] at hfound
      exact ⟨_, env, .bind_error hfound, ends_of_error hidle⟩
    | some t =>
      by_cases hstalled : t.progression.isStalled
      · have hacts := Tasks.retry_actsAs (e := e) henv ht hstalled
        obtain ⟨result, env', hyields, hends⟩ := progress_ends henv (hrange.of_actsAs hacts)
        exact ⟨result, env', hacts.yields hyields, hends⟩
      · exact ⟨_, env, Tasks.retry_refused henv ht hstalled, ends_of_error hidle⟩

/-- An attempt that does not succeed does not move the instance. -/
theorem not_moves_of_fails (henv : env.Orderly) (attempt : Attempt)
    (hrange : (attempt.run e id).StaysInRange env)
    (hfails : ¬ Succeeds ((attempt.run e id).runIn env).1) : ¬ attempt.Moves e id env := by
  obtain ⟨result, env', hyields, hends⟩ := run_ends henv attempt hrange
  rw [hyields.outcome] at hfails
  rcases hends with ⟨t, ht, hadvanced, -⟩ | ⟨-, hstill, r, env₀, houtset, hnotices⟩
  · exact absurd ⟨t, ht, hadvanced⟩ hfails
  · obtain ⟨log, hleaves⟩ := hyields.leaves_eq
    obtain ⟨log₀, hleaves₀⟩ := houtset.leaves_eq
    refine not_not_intro ⟨?_, ?_⟩
    · rw [hleaves]
      exact hstill
    · rw [hleaves, hleaves₀]
      exact hnotices

/-- An attempt that succeeds stores the task as carried through. -/
theorem stored_of_succeeds (henv : env.Orderly) (attempt : Attempt)
    (hrange : (attempt.run e id).StaysInRange env)
    (ht : ((attempt.run e id).runIn env).1 = .ok t) (hadvanced : t.progression = .advanced) :
    ((attempt.run e id).leaves env).store.task? id = some t := by
  obtain ⟨result, env', hyields, hends⟩ := run_ends henv attempt hrange
  rw [hyields.outcome] at ht
  rw [hyields.store_eq]
  rcases hends with ⟨u, rfl, -, hu⟩ | ⟨hfails, -⟩
  · rw [hu, Except.ok.inj ht]
  · exact absurd ⟨t, ht, hadvanced⟩ hfails

/-! ## Attempts after success -/

/-- An attempt on a task that has ended and has been carried through changes nothing. -/
theorem rests_of_advanced (henv : env.Orderly) (attempt : Attempt)
    (ht : env.store.task? id = some t) (hadvanced : t.progression = .advanced)
    (hended : t.status.isOpen = false) :
    ((attempt.run e id).leaves env).store = env.store ∧
      ((attempt.run e id).leaves env).notices = env.notices ∧ ¬ attempt.Moves e id env := by
  -- neither does what is done before
  obtain ⟨⟨result, hyields⟩, r, houtset⟩ : (∃ result, (attempt.run e id).Yields env result env) ∧
      ∃ r, (attempt.outset e id).Yields env r env := by
    have hstalled : ¬ t.progression.isStalled = true := by rw [hadvanced]; exact nofun
    cases attempt with
    | progress => exact ⟨⟨_, progress_of_advanced henv.outage ht hadvanced⟩, _, .pure () env⟩
    | retry => exact ⟨⟨_, Tasks.retry_refused henv ht hstalled⟩, _, .pure () env⟩
    | complete a c =>
      have hterminal := TaskStatus.isOpen_eq_false.mp hended
      have hrefused : (env.store.tryTask id fun t => t.finishedBy a c env.now) =
          .error (.invalidTransition "task" t.status.name "complete") := by
        rw [Store.tryTask, ht]
        exact if_pos hterminal
      have hfinish : (Tasks.finish e id a c).Yields env _ _ := Tasks.finish_yields henv a c
      rw [hrefused] at hfinish
      exact ⟨⟨_, Tasks.complete_refused henv hrefused⟩, _, hfinish.discard⟩
  obtain ⟨log, hleaves⟩ := hyields.leaves_eq
  obtain ⟨log₀, hleaves₀⟩ := houtset.leaves_eq
  rw [Moves, hleaves, hleaves₀]
  exact ⟨rfl, rfl, not_not_intro ⟨.refl _, rfl⟩⟩

/-- The environment after an attempt is the one after the request for it. -/
theorem leaves_run (attempt : Attempt) (e : Engine) (id : Uuid) (env : Environment) :
    ((attempt.request id).perform e).leaves env = (attempt.run e id).leaves env := by
  have hdiscard : ∀ x : Operation Task,
      (do let _ ← x : Operation Unit).leaves env = x.leaves env := by
    intro x
    rw [leaves, leaves, runIn_bind]
    rcases x.runIn env with ⟨error | t, env'⟩ <;> rfl
  cases attempt <;> exact hdiscard _

/-- A task that has been carried through has ended, and stays what it is. -/
theorem serveAll_of_advanced (seed : Nat) (start : Timestamp) (calls later : List Call)
    (hrange : (((Environment.fresh seed start).serveAll e calls).serveAll e later).ids.InRange)
    (ht : ((Environment.fresh seed start).serveAll e calls).store.task? id = some t)
    (hadvanced : t.progression = .advanced) :
    t.status.isOpen = false ∧
      (((Environment.fresh seed start).serveAll e calls).serveAll e later).store.task? id =
        some t := by
  have hstart := Environment.fresh_orderly seed start
  have hbefore := hrange.of_grows (Environment.serveAll_grows _ e later)
  have henv := Environment.serveAll_orderly hstart calls hbefore
  obtain ⟨hmem, rfl⟩ := henv.store.task?_eq_some_iff.mp ht
  have hcoherent := Environment.serveAll_coherent seed start calls hbefore t hmem
  have hended : t.status.isOpen = false := by
    by_contra hopen
    obtain ⟨-, -, hidle⟩ := hcoherent.of_open (by simpa using hopen)
    rw [hadvanced] at hidle
    cases hidle
  obtain ⟨u, hu, entries, hlived, -⟩ := Environment.serveAll_livesOn henv later hrange hmem
  obtain ⟨-, rfl | ⟨hpending, -⟩⟩ := hlived.of_ended hended
  · have hlast := Environment.serveAll_orderly henv later hrange
    exact ⟨hended, hlast.store.task?_eq_some_iff.mpr ⟨hu, rfl⟩⟩
  · exact absurd hadvanced hpending

end Attempt

/-- Attempts to carry a task through, after any run. One that fails opens no task, leaves all
instances what they are but for their join records, and sends no notice of its own. After one that
has succeeded, and whatever else happens then, carrying the task through gives the task as it is,
trying again is refused, and all attempts leave the store and the notices alone. So of all attempts
on a task at most one moves its instance. -/
theorem moves_at_most_once (seed : Nat) (start now : Timestamp) (e : Engine) (calls : List Call)
    (attempt : Attempt) (id : Uuid) :
    let env := ((Environment.fresh seed start).serveAll e calls).atTime now
    let result := ((attempt.run e id).runIn env).1
    let next := (attempt.run e id).leaves env
    let after (later : List Call) (time : Timestamp) := (next.serveAll e later).atTime time
    next.ids.InRange →
    (¬ Attempt.Succeeds result → ¬ attempt.Moves e id env) ∧
      (∀ t, result = .ok t → t.progression = .advanced → ∀ later time,
        let last := after later time
        last.ids.InRange →
        ((e.progress id).runIn last).1 = .ok t ∧
          ((Tasks.retry e id).runIn last).1 =
            .error (.invalidTransition "task" "advanced" "retry progression of") ∧
          ∀ other : Attempt, ((other.run e id).leaves last).store = last.store ∧
            ((other.run e id).leaves last).notices = last.notices) ∧
      (attempt.Moves e id env → ∀ later time, (after later time).ids.InRange →
        ∀ other : Attempt, ¬ other.Moves e id (after later time)) := by
  intro env result next after hrange
  -- the attempt is the end of a longer run
  let call : Call := ⟨now, attempt.request id⟩
  have hreached : (Environment.fresh seed start).serveAll e (calls ++ [call]) = next := by
    rw [Environment.serveAll_append]
    exact attempt.leaves_run e id env
  have hgrows : env.ids.Grows next.ids := by
    rw [← hreached, Environment.serveAll_append]
    exact Environment.serveAll_grows _ e [call]
  have henv : env.Orderly := (Environment.serveAll_orderly
    (Environment.fresh_orderly seed start) calls (hrange.of_grows hgrows)).at_time now
  have hattempt : (attempt.run e id).StaysInRange env := .of_leaves hrange
  have hnext : next.Orderly := by
    rw [← hreached] at hrange ⊢
    exact Environment.serveAll_orderly (Environment.fresh_orderly seed start) _ hrange
  -- success leaves a task behind that has been carried through for good
  have hstays : ∀ t, result = .ok t → t.progression = .advanced → ∀ later time,
      (after later time).ids.InRange → t.status.isOpen = false ∧ (after later time).Orderly ∧
        (after later time).store.task? id = some t := by
    intro t ht hadvanced later time hlast
    have hstored := Attempt.stored_of_succeeds henv attempt hattempt ht hadvanced
    change next.store.task? id = some t at hstored
    rw [← hreached] at hstored
    obtain ⟨hended, hlater⟩ := Attempt.serveAll_of_advanced seed start (calls ++ [call]) later
      (by rw [hreached]; exact hlast) hstored hadvanced
    rw [hreached] at hlater
    exact ⟨hended, (Environment.serveAll_orderly hnext later hlast).at_time time, hlater⟩
  refine ⟨Attempt.not_moves_of_fails henv attempt hattempt, ?_, ?_⟩
  · intro t ht hadvanced later time last hlast
    obtain ⟨hended, horderly, hfound⟩ := hstays t ht hadvanced later time hlast
    have hprogress := progress_of_advanced (e := e) horderly.outage hfound hadvanced
    have hretry := Tasks.retry_refused (e := e) horderly hfound (by rw [hadvanced]; exact nofun)
    rw [hadvanced] at hretry
    refine ⟨hprogress.outcome, hretry.outcome, fun other => ?_⟩
    obtain ⟨hstore, hnotices, -⟩ := other.rests_of_advanced (e := e) horderly hfound hadvanced hended
    exact ⟨hstore, hnotices⟩
  · intro hmoves later time hlast other
    have hsucceeds : Attempt.Succeeds result :=
      not_not.mp fun hfails => Attempt.not_moves_of_fails henv attempt hattempt hfails hmoves
    obtain ⟨t, ht, hadvanced⟩ := hsucceeds
    obtain ⟨hended, horderly, hfound⟩ := hstays t ht hadvanced later time hlast
    exact (other.rests_of_advanced horderly hfound hadvanced hended).2.2

/-- Somebody rejects a task. -/
def rejection : Attempt := .complete ⟨"u", []⟩ ⟨.rejected, .null, none⟩

/-- After `fanOutRun`, the instance is given up. -/
def givenUpRun : List Call :=
  fanOutRun ++ Call.atOnce ⟨0, 0⟩ [.cancelInstance (IdSource.issue 0 .run 0)]

/-- The task that is opened when the branches have ended is completed. -/
def approvalRest : List Call :=
  Call.atOnce ⟨1, 0⟩ [.complete (IdSource.issue 0 .task 2) ⟨"u", []⟩ ⟨.approved, .null, none⟩]

/-- After `handedRun`, rejecting the task of the other branch opens the next task. -/
theorem rejection_opens :
    let task := IdSource.issue 0 .task 1
    let env := ((Environment.fresh 0 ⟨0, 0⟩).serveAll .default handedRun).atTime ⟨1, 0⟩
    let next := (rejection.run .default task).leaves env
    next.ids.InRange ∧ ((next.serveAll .default approvalRest).atTime ⟨2, 0⟩).ids.InRange ∧
      next.store.tasks.map Task.id ≠ env.store.tasks.map Task.id := by
  decide +kernel

/-- After `givenUpRun`, it is stored without success. -/
theorem rejection_fails :
    let task := IdSource.issue 0 .task 1
    let env := ((Environment.fresh 0 ⟨0, 0⟩).serveAll .default givenUpRun).atTime ⟨1, 0⟩
    ((rejection.run .default task).leaves env).ids.InRange ∧
      ((rejection.run .default task).runIn env).1.map Task.progression ≠ .ok .advanced := by
  decide +kernel

/-- After `handedRun`, the rejection moves the instance, and no attempt on the task does so again.
After `givenUpRun` it does not move the instance. -/
theorem moves_at_most_once_handed :
    let task := IdSource.issue 0 .task 1
    let env := ((Environment.fresh 0 ⟨0, 0⟩).serveAll .default handedRun).atTime ⟨1, 0⟩
    let next := (rejection.run .default task).leaves env
    rejection.Moves .default task env ∧
      (∀ other : Attempt, ¬ other.Moves .default task
        ((next.serveAll .default approvalRest).atTime ⟨2, 0⟩)) ∧
      ¬ rejection.Moves .default task
        (((Environment.fresh 0 ⟨0, 0⟩).serveAll .default givenUpRun).atTime ⟨1, 0⟩) := by
  obtain ⟨hrange, hlast, hopens⟩ := rejection_opens
  obtain ⟨hrange', hfails⟩ := rejection_fails
  obtain ⟨-, -, hmoved⟩ := moves_at_most_once 0 ⟨0, 0⟩ ⟨1, 0⟩ .default handedRun rejection
    (IdSource.issue 0 .task 1) hrange
  obtain ⟨hstays, -, -⟩ := moves_at_most_once 0 ⟨0, 0⟩ ⟨1, 0⟩ .default givenUpRun rejection
    (IdSource.issue 0 .task 1) hrange'
  have hmoves : rejection.Moves .default (IdSource.issue 0 .task 1)
      (((Environment.fresh 0 ⟨0, 0⟩).serveAll .default handedRun).atTime ⟨1, 0⟩) :=
    fun h => hopens h.1.tasks
  refine ⟨hmoves, hmoved hmoves approvalRest ⟨2, 0⟩ hlast, hstays ?_⟩
  rintro ⟨t, ht, hadvanced⟩
  rw [ht] at hfails
  exact hfails (congrArg Except.ok hadvanced)

end ApprovalWorkflow
