import ApprovalWorkflow.Proofs.ActiveStep
import Mathlib.Data.List.Induction

/-!
# The lives of tasks

A request works on one task at most (`Task.Work`): it is claimed, delegated or finished, and then
an entry about it is left in the audit trail, or its end is carried through to the instance, and
then none is left. Besides, tasks may be opened. No request does anything else to the tasks and to
the audit trail (`Request.leaves`).

So the life of a task is the work on it, one piece after the other, with the entries that it has
left (`Task.Lived`). A run takes every task through such a life, and every task that it leaves was
new at some call (`Environment.serveAll_livesOn`, `Environment.serveAll_born`). What is to be proved
about all tasks of all runs is proved by induction on lives.
-/

set_option autoImplicit false

namespace ApprovalWorkflow

open Engine

/-- A task that is not open has come to its end. -/
theorem TaskStatus.isOpen_eq_false {s : TaskStatus} : s.isOpen = false ↔ s.isTerminal = true := by
  simp [isOpen]

/-! ## Work on a task -/

namespace Task

variable {now : Timestamp} {t u v : Task} {a : Actor} {c : Completion} {r : Request}
  {entries more : List HistoryEntry}

/-- Only a pending task is claimed, and then nothing but its assignee, its status and the time
changes. -/
theorem eq_of_claimedBy (h : t.claimedBy a now = .ok u) :
    t.status = .pending ∧
      u = { t with assignee := some a.user, status := .claimed, claimedAt := some now } := by
  unfold claimedBy at h
  split at h
  · cases h
  · next hpending =>
    have hpending : t.status = .pending := by simpa using hpending
    split at h
    · cases h
    · rw [claim, if_pos hpending] at h
      cases h
      exact ⟨hpending, rfl⟩

/-- Only an open task is delegated, and then it is pending again for the new assignee. -/
theorem eq_of_delegatedBy {toUser : String} (h : t.delegatedBy a toUser = .ok u) :
    t.status.isOpen ∧
      u = { t with assignee := some toUser, status := .pending, claimedAt := none } := by
  obtain ⟨hopen, -⟩ := of_delegatedBy h
  unfold delegatedBy delegate at h
  split at h
  · cases h
  · split at h
    · cases h
    · cases h
      exact ⟨hopen, rfl⟩

/-- Whoever finishes a task is its assignee then. -/
theorem eq_of_finishedBy (h : t.finishedBy a c now = .ok u) :
    t.status.isOpen ∧ u = { t with
      assignee := some a.user
      status := c.result.status
      output := c.output
      result := some c.result
      comment := c.comment
      completedAt := some now
      progression := .pending } := by
  obtain ⟨hopen, -⟩ := of_finishedBy h
  unfold finishedBy at h
  split at h
  · cases h
  · next hterminal =>
    split at h
    · cases h
    · next hmay =>
      rw [complete, if_neg hterminal] at h
      cases h
      have hassignee : t.assignee.or (some a.user) = some a.user := by
        cases hassigned : t.assignee with
        | none => rfl
        | some assignee =>
          simp only [mayComplete, hassigned, beq_iff_eq, not_not] at hmay
          rw [hmay]
          rfl
      exact ⟨hopen, by dsimp only; rw [hassignee]⟩

/-- What a request does to a task, and the entries that it leaves about it. -/
inductive Work (now : Timestamp) (t : Task) : Request → List HistoryEntry → Task → Prop
  /-- A person claims the task. -/
  | claimed {a : Actor} {u : Task} (entry : Uuid) (h : t.claimedBy a now = .ok u) :
    Work now t (.claim t.id a) [.claimed entry u a.user now] u
  /-- The assignee hands the task to another person. -/
  | delegated {a : Actor} {toUser : String} {u : Task} (entry : Uuid)
    (h : t.delegatedBy a toUser = .ok u) :
    Work now t (.delegate t.id a toUser) [.delegated entry u a.user toUser now] u
  /-- A person finishes the task. -/
  | finished {a : Actor} {c : Completion} {u : Task} (entry : Uuid)
    (h : t.finishedBy a c now = .ok u) :
    Work now t (.finish t.id a c) [.completed entry u a.user now] u
  /-- A person finishes the task, and its end is carried through or not. -/
  | completed {a : Actor} {c : Completion} {u : Task} (entry : Uuid)
    (outcome : Except EngineError Unit) (h : t.finishedBy a c now = .ok u) :
    Work now t (.complete t.id a c) [.completed entry u a.user now] (u.marked outcome)
  /-- The end of the task is carried through or not. -/
  | carried {r : Request} (outcome : Except EngineError Unit)
    (hr : r = .retry t.id ∨ r = .progress t.id) (hended : t.status.isOpen = false)
    (hpending : t.progression ≠ .advanced) : Work now t r [] (t.marked outcome)

end Task

/-- The task, the actor and the action that stand in the audit trail when the request has been
served. -/
def Request.entered? : Request → Option (Uuid × String × HistoryAction)
  | .claim task a => some (task, a.user, .claimed)
  | .delegate task a _ => some (task, a.user, .delegated)
  | .complete task a _ => some (task, a.user, .completed)
  | .finish task a _ => some (task, a.user, .completed)
  | _ => none

namespace Task

variable {now : Timestamp} {t u v : Task} {r : Request} {entries more : List HistoryEntry}

/-- A piece of work makes of a task what a task may become. -/
theorem Work.became (h : t.Work now r entries u) : t.Became u := by
  cases h with
  | claimed entry h => exact (of_claimedBy h).2.became
  | delegated entry h => exact (of_delegatedBy h).2.became
  | finished entry h => exact (of_finishedBy h).2.became
  | completed entry outcome h => exact (of_finishedBy h).2.became.trans (became_marked _ outcome)
  | carried outcome hr hended hpending => exact became_marked t outcome

/-- The entries that work on a task leaves are about this task. -/
theorem Work.about (h : t.Work now r entries u) : ∀ entry ∈ entries, entry.taskId = t.id := by
  intro entry hentry
  cases h with
  | claimed _ h => rw [List.mem_singleton.mp hentry]; exact (of_claimedBy h).2.id_eq
  | delegated _ h => rw [List.mem_singleton.mp hentry]; exact (of_delegatedBy h).2.id_eq
  | finished _ h => rw [List.mem_singleton.mp hentry]; exact (of_finishedBy h).2.place.1
  | completed _ _ h => rw [List.mem_singleton.mp hentry]; exact (of_finishedBy h).2.place.1
  | carried => cases hentry

/-- All that can still be done to a task that has ended is to carry its end through. -/
theorem Work.of_ended (h : t.Work now r entries u) (hended : t.status.isOpen = false) :
    entries = [] ∧ t.progression ≠ .advanced ∧ ∃ outcome, u = t.marked outcome := by
  have hclosed : ¬ t.status.isOpen = true := by simp [hended]
  cases h with
  | claimed _ h => exact absurd (of_claimedBy h).1 hclosed
  | delegated _ h => exact absurd (of_delegatedBy h).1 hclosed
  | finished _ h => exact absurd (of_finishedBy h).1 hclosed
  | completed _ _ h => exact absurd (of_finishedBy h).1 hclosed
  | carried outcome _ _ hpending => exact ⟨rfl, hpending, outcome, rfl⟩

/-! ## Lives -/

/-- The task has become another one by the work on it, which has left the entries. -/
inductive Lived (t : Task) : List HistoryEntry → Task → Prop
  | refl : Lived t [] t
  | work {u v : Task} {entries more : List HistoryEntry} {now : Timestamp} {r : Request}
    (h : Lived t entries u) (hwork : u.Work now r more v) : Lived t (entries ++ more) v

/-- A life may be continued by another one, and the entries of both follow each other. -/
theorem Lived.trans (h : t.Lived entries u) (h' : u.Lived more v) :
    t.Lived (entries ++ more) v := by
  induction h' with
  | refl =>
    rw [List.append_nil]
    exact h
  | work _ hwork ih =>
    rw [← List.append_assoc]
    exact ih.work hwork

/-- A life makes of a task what a task may become. The induction is on the life. -/
theorem Lived.became (h : t.Lived entries u) : t.Became u := by
  induction h with
  | refl => exact .refl t
  | work _ hwork ih => exact ih.trans hwork.became

/-- A task that has ended stays what it is, unless its end has yet to be carried through: then an
outcome of that may be written down on it. -/
theorem Lived.of_ended (h : t.Lived entries u) (hended : t.status.isOpen = false) :
    entries = [] ∧ (u = t ∨ t.progression ≠ .advanced ∧ ∃ outcome, u = t.marked outcome) := by
  induction h with
  | refl => exact ⟨rfl, .inl rfl⟩
  | work _ hwork ih =>
    -- of several outcomes that are written down the last one counts
    obtain ⟨rfl, rfl | ⟨hpending, last, rfl⟩⟩ := ih
    · obtain ⟨rfl, hpending, houtcome⟩ := hwork.of_ended hended
      exact ⟨rfl, .inr ⟨hpending, houtcome⟩⟩
    · obtain ⟨p, hmarked⟩ := marked_eq t last
      rw [hmarked] at hwork
      obtain ⟨rfl, -, outcome, rfl⟩ := hwork.of_ended hended
      exact ⟨rfl, .inr ⟨hpending, outcome, marked_marked t p outcome⟩⟩

end Task

/-! ## Tasks that are opened -/

/-- The task was opened at the time, and nobody has done anything about it. -/
structure Task.IsBlank (now : Timestamp) (t : Task) : Prop extends t.IsFresh now where
  output : t.output = .null
  result : t.result = none
  comment : t.comment = none
  claimedAt : t.claimedAt = none
  completedAt : t.completedAt = none

namespace Engine

variable {e : Engine} {σ : Situation} {now : Timestamp} {ids : IdSource} {t u : Task}

/-- What the engine opens is blank. -/
theorem built_blank (e : Engine) (i : Instance) (history : List Task) (now : Timestamp)
    (id : Uuid) (o : Opening) : (e.built i history now id o).IsBlank now := by
  rw [built, Task.build_value]
  exact ⟨⟨rfl, rfl, rfl⟩, rfl, rfl, rfl, rfl, rfl⟩

/-- A course opens blank tasks. -/
theorem effect_blank (hu : u ∈ (e.effect σ now ids t (σ.course e now t)).opened) :
    u.IsBlank now := by
  cases hc : σ.course e now t with
  | walks i ending =>
    rw [hc] at hu
    obtain ⟨o, -, id, rfl⟩ := walked_opened hu
    exact built_blank e i σ.tasks now id o
  | reopens previous origin =>
    rw [hc] at hu
    obtain rfl := List.mem_singleton.mp hu
    have hbuilt := e.built_blank σ.record σ.tasks now (ids.draw .task).1
      ⟨origin.taskStep, previous.key, origin.parentId?⟩
    -- only the assignee and the data are set anew
    exact ⟨⟨hbuilt.status, hbuilt.progression, hbuilt.createdAt⟩, hbuilt.output, hbuilt.result,
      hbuilt.comment, hbuilt.claimedAt, hbuilt.completedAt⟩
  | _ =>
    rw [hc] at hu
    cases hu

/-- The start of an instance opens blank tasks. -/
theorem launched_blank (hu : u ∈ (Workflows.launched e σ now ids).opened) : u.IsBlank now := by
  rcases Situation.launched_cases e σ now ids with hnone | ⟨d, ending, -, -, hwalked⟩
  · rw [hnone] at hu
    cases hu
  · rw [hwalked] at hu
    obtain ⟨o, -, id, rfl⟩ := walked_opened hu
    exact built_blank e _ σ.tasks now id o

end Engine

/-! ## What requests leave of tasks and entries -/

/-- What becomes of the tasks and the audit trail of a store when a request is served at a time
with a result: some tasks are opened, and one of the others may be worked on. -/
inductive Store.Records (now : Timestamp) (r : Request) (result : Except EngineError Unit)
    (s s' : Store) : Prop
  /-- No task is worked on. If the request was about that, it has been refused. -/
  | opened (fresh : List Task) (hfresh : ∀ t ∈ fresh, t.IsBlank now)
    (htasks : s'.tasks = s.tasks ++ fresh) (hhistory : s'.history = s.history)
    (hresult : r.entered? = none ∨ ∃ error, result = .error error)
  /-- A task is worked on. -/
  | worked {t u : Task} {entries : List HistoryEntry} (fresh : List Task)
    (hfresh : ∀ t ∈ fresh, t.IsBlank now) (ht : t ∈ s.tasks) (hwork : t.Work now r entries u)
    (htasks : s'.tasks = put Task.id u (s.tasks ++ fresh))
    (hhistory : s'.history = s.history ++ entries)
    (hresult : entries ≠ [] → result = .ok ())

namespace Store.Records

variable {now : Timestamp} {r : Request} {result : Except EngineError Unit} {s s' : Store}
  {e : Engine} {env : Environment} {t u : Task}

/-- Where tasks and history stay as they are, a request has done no work; so it was not about
that, or it has failed. -/
theorem unchanged (htasks : s'.tasks = s.tasks) (hhistory : s'.history = s.history)
    (hresult : r.entered? = none ∨ ∃ error, result = .error error) :
    s.Records now r result s' :=
  .opened [] (by simp) (by rw [htasks, List.append_nil]) hhistory hresult

/-- A request that has worked on a task leaves the new task in the place of the old one, and its
entry. -/
theorem of_worked {entry : Task → Uuid → HistoryEntry} {notice : Task → Notice}
    (ht : t ∈ env.store.tasks)
    (hwork : t.Work env.now r [entry u (env.ids.draw .entry).1] u) :
    env.store.Records env.now r (.ok ()) (env.worked e entry notice (.ok u)).store :=
  .worked [] (by simp) ht hwork (by rw [List.append_nil]; rfl) rfl fun _ => rfl

end Store.Records

namespace Request

open Operation

variable {e : Engine} {env : Environment}

/-- The request, served in the environment, does to tasks and entries what is said above. -/
def Leaves (r : Request) (e : Engine) (env : Environment) : Prop :=
  ∃ result env', (r.perform e).Yields env result env' ∧
    env.store.Records env.now r result env'.store

/-- A request leaves what the operation behind it does. -/
theorem leaves_of_yields {α : Type} {r : Request} {x : Operation α}
    (hr : r.perform e = do let _ ← x) {result : Except EngineError α} {env' : Environment}
    (hx : x.Yields env result env')
    (h : env.store.Records env.now r (result.map fun _ => ()) env'.store) : r.Leaves e env :=
  ⟨_, env', by rw [hr]; exact hx.discard, h⟩

/-- A ruling on a workflow concerns no task. -/
theorem ruled_records {r : Request} (hr : r.entered? = none) (w : Except EngineError Workflow)
    (result : Except EngineError Unit) :
    env.store.Records env.now r result (Workflows.ruled env w).store := by
  cases w with
  | error error => exact .unchanged rfl rfl (.inl hr)
  | ok w => exact .unchanged rfl rfl (.inl hr)

/-- An operation that tries to work on a task, and leaves an entry about it unless the work is
refused. -/
theorem leaves_of_work (henv : env.Orderly) {r : Request} {x : Operation Task} {id : Uuid}
    {how : Task → Except EngineError Task} {entry : Task → Uuid → HistoryEntry}
    {notice : Task → Notice} (hr : r.perform e = do let _ ← x)
    (hx : x.Yields env (env.store.tryTask id how)
      (env.worked e entry notice (env.store.tryTask id how)))
    (hwork : ∀ t u, t.id = id → how t = .ok u →
      t.Work env.now r [entry u (env.ids.draw .entry).1] u) : r.Leaves e env := by
  refine leaves_of_yields hr hx ?_
  cases hresult : env.store.tryTask id how with
  | error error => exact .unchanged rfl rfl (.inr ⟨error, rfl⟩)
  | ok u =>
    obtain ⟨t, ht, hu⟩ := Store.tryTask_eq_ok.mp hresult
    obtain ⟨hmem, hid⟩ := henv.store.task?_eq_some_iff.mp ht
    exact .of_worked hmem (hwork t u hid hu)

/-- A claim does the work that its answer says, or none. -/
theorem claim_leaves (henv : env.Orderly) (id : Uuid) (a : Actor) :
    (claim id a).Leaves e env := by
  refine leaves_of_work henv rfl (Tasks.claim_yields henv a) ?_
  rintro t u rfl hu
  exact .claimed _ hu

/-- A delegation does the work that its answer says, or none. -/
theorem delegate_leaves (henv : env.Orderly) (id : Uuid) (a : Actor) (toUser : String) :
    (delegate id a toUser).Leaves e env := by
  refine leaves_of_work henv rfl (Tasks.delegate_yields henv a toUser) ?_
  rintro t u rfl hu
  exact .delegated _ hu

/-- Finishing a task does the work that its answer says, or none. -/
theorem finish_leaves (henv : env.Orderly) (id : Uuid) (a : Actor) (c : Completion) :
    (finish id a c).Leaves e env := by
  refine leaves_of_work henv rfl (Tasks.finish_yields henv a c) ?_
  rintro t u rfl hu
  exact .finished _ hu

/-- A completion does the work that its answer says, and what the progression does to the tasks
goes with it. -/
theorem complete_leaves (henv : env.Orderly) (id : Uuid) (a : Actor) (c : Completion)
    (hrange : ((complete id a c).perform e).StaysInRange env) :
    (complete id a c).Leaves e env := by
  cases hresult : env.store.tryTask id fun t => t.finishedBy a c env.now with
  | error error =>
    exact leaves_of_yields rfl (Tasks.complete_refused henv hresult)
      (.unchanged rfl rfl (.inr ⟨error, rfl⟩))
  | ok u =>
    obtain ⟨t, ht, hu⟩ := Store.tryTask_eq_ok.mp hresult
    obtain ⟨hmem, rfl⟩ := henv.store.task?_eq_some_iff.mp ht
    obtain ⟨σ, hσ, -⟩ := situation_of_task henv.store hmem
    obtain ⟨-, hyields, -, -⟩ := Tasks.complete_carried henv hmem hu hσ
      (hrange.first fun _ => .pure ())
    let env₁ := env.worked e (fun t entry => .completed entry t a.user env.now) .taskCompleted
      (.ok u)
    let course := (σ.withTask u).course e env.now u
    let opened := (e.effect (σ.withTask u) env.now env₁.ids u course).opened
    have hopened : ∀ v ∈ opened, v.IsBlank env.now := fun v hv => effect_blank hv
    -- the task is put in its place twice
    obtain ⟨p, hmarked⟩ := marked_eq u (course.outcome e)
    have htasks : put Task.id (u.marked (course.outcome e))
        (put Task.id u env.store.tasks ++ opened) =
          put Task.id (u.marked (course.outcome e)) (env.store.tasks ++ opened) := by
      rw [put_append, put_append, put_put Task.id (by rw [hmarked])]
    exact leaves_of_yields rfl hyields
      (.worked opened hopened hmem (.completed _ _ hu) htasks rfl fun _ => rfl)

/-- A progression carries the end of a task through and may open tasks, and it leaves no entry. -/
theorem progress_leaves (henv : env.Orderly) {r : Request} (hentered : r.entered? = none)
    {id : Uuid} (hr : r = .retry id ∨ r = .progress id) (hrange : (e.progress id).StaysInRange env) :
    ∃ result env', (e.progress id).Yields env result env' ∧
      env.store.Records env.now r (result.map fun _ => ()) env'.store := by
  have hsame : ∀ result, env.store.Records env.now r result env.store := fun result =>
    .unchanged rfl rfl (.inl hentered)
  cases ht : env.store.task? id with
  | none => exact ⟨_, env, progress_of_missing henv.outage ht, hsame _⟩
  | some t =>
    obtain ⟨hmem, rfl⟩ := henv.store.task?_eq_some_iff.mp ht
    by_cases hadvanced : t.progression = .advanced
    · exact ⟨_, env, progress_of_advanced henv.outage ht hadvanced, hsame _⟩
    cases hopen : t.status.isOpen with
    | true => exact ⟨_, env, progress_of_open henv.outage ht hadvanced hopen, hsame _⟩
    | false =>
      obtain ⟨σ, hσ, -⟩ := situation_of_task henv.store hmem
      obtain ⟨hyields, -⟩ := progress_yields henv ht hadvanced hopen hσ hrange
      exact ⟨_, _, hyields, .worked _ (fun v hv => effect_blank hv) hmem
        (.carried _ hr hopen hadvanced) rfl (List.append_nil _).symm (absurd rfl)⟩

/-- A retry carries the end of a stalled task through, and does nothing to any other one. -/
theorem retry_leaves (henv : env.Orderly) (id : Uuid)
    (hrange : ((retry id).perform e).StaysInRange env) : (retry id).Leaves e env := by
  cases ht : env.store.task? id with
  | none =>
    have hfound := Repository.task_yields id henv.outage
    rw [ht] at hfound
    exact leaves_of_yields (x := Tasks.retry e id) rfl (.bind_error hfound)
      (.unchanged rfl rfl (.inl rfl))
  | some t =>
    by_cases hstalled : t.progression.isStalled
    · have hacts := Tasks.retry_actsAs (e := e) henv ht hstalled
      have hretry : (Tasks.retry e id).StaysInRange env := hrange.first fun _ => .pure ()
      obtain ⟨result, env', hyields, hrecords⟩ :=
        progress_leaves henv rfl (.inl rfl) (hretry.of_actsAs hacts)
      exact leaves_of_yields rfl (hacts.yields hyields) hrecords
    · exact leaves_of_yields rfl (Tasks.retry_refused henv ht hstalled)
        (.unchanged rfl rfl (.inl rfl))

/-- A start opens tasks only. -/
theorem startInstance_leaves (henv : env.Orderly) (id : Uuid) (input : Json)
    (hrange : ((startInstance id input).perform e).StaysInRange env) :
    (startInstance id input).Leaves e env := by
  by_cases hstartable : ∃ w, env.store.workflow? id = some w ∧ w.status = .active
  · obtain ⟨w, hw, hactive⟩ := hstartable
    obtain ⟨-, -, -, hyields⟩ := Workflows.startInstance_yields henv hw hactive input
      (hrange.first fun _ => .pure ())
    exact leaves_of_yields rfl hyields
      (.opened _ (fun u hu => launched_blank hu) rfl rfl (.inl rfl))
  · obtain ⟨error, hyields⟩ := Workflows.startInstance_refused (e := e) henv input
      fun w hw hactive => hstartable ⟨w, hw, hactive⟩
    exact leaves_of_yields rfl hyields (.unchanged rfl rfl (.inl rfl))

/-- What every request does to the tasks and to the audit trail. -/
theorem leaves (henv : env.Orderly) (r : Request) (hrange : (r.perform e).StaysInRange env) :
    r.Leaves e env := by
  cases r with
  | createWorkflow name description definition =>
    rcases Workflows.create_yields henv name description definition with
      ⟨error, hyields⟩ | ⟨w, -, -, hyields⟩
    · exact leaves_of_yields rfl hyields (.unchanged rfl rfl (.inl rfl))
    · exact leaves_of_yields rfl hyields (.unchanged rfl rfl (.inl rfl))
  | applyAction action workflow =>
    exact leaves_of_yields rfl (Workflows.apply_yields henv action) (ruled_records rfl _ _)
  | deleteWorkflow workflow =>
    rcases Workflows.delete_yields henv with ⟨error, hyields⟩ | ⟨w, -, -, hyields⟩
    · exact ⟨_, _, hyields, .unchanged rfl rfl (.inl rfl)⟩
    · exact ⟨_, _, hyields, .unchanged rfl rfl (.inl rfl)⟩
  | updateDefinition workflow definition =>
    exact leaves_of_yields rfl (Workflows.updateDefinition_yields henv definition)
      (ruled_records rfl _ _)
  | startInstance workflow input => exact startInstance_leaves henv workflow input hrange
  | cancelInstance run =>
    rcases Workflows.cancelInstance_yields henv with ⟨error, hyields⟩ | ⟨i, j, -, -, hyields⟩
    · exact leaves_of_yields rfl hyields (.unchanged rfl rfl (.inl rfl))
    · exact leaves_of_yields rfl hyields (.unchanged rfl rfl (.inl rfl))
  | claim task a => exact claim_leaves henv task a
  | complete task a c => exact complete_leaves henv task a c hrange
  | delegate task a toUser => exact delegate_leaves henv task a toUser
  | retry task => exact retry_leaves henv task hrange
  | inquire q =>
    obtain ⟨result, hyields⟩ := q.perform_yields e henv.outage
    exact ⟨result, env, hyields, .unchanged rfl rfl (.inl rfl)⟩
  | finish task a c => exact finish_leaves henv task a c
  | progress task =>
    obtain ⟨result, env', hyields, hrecords⟩ := progress_leaves henv
      (r := .progress task) rfl (.inr rfl) (hrange.first fun _ => .pure ())
    exact leaves_of_yields rfl hyields hrecords

end Request

/-! ## Lives from store to store -/

/-- From one store to another the task has become `u`, and the entries about it that have been
added tell how. -/
def Task.LivesOn (t : Task) (s s' : Store) (u : Task) : Prop :=
  u ∈ s'.tasks ∧ ∃ entries, t.Lived entries u ∧ s'.historyOf t.id = s.historyOf t.id ++ entries

/-- Every entry of the audit trail is about a task of the store. -/
def Store.HasSubjects (s : Store) : Prop :=
  ∀ entry ∈ s.history, entry.taskId ∈ s.tasks.map Task.id

/-- A task about which there is no entry has no history. -/
theorem Store.historyOf_eq_nil {s : Store} {id : Uuid}
    (h : ∀ entry ∈ s.history, entry.taskId ≠ id) : s.historyOf id = [] :=
  List.filter_eq_nil_iff.mpr fun entry hentry habout => h entry hentry (beq_iff_eq.mp habout)

section Stores

variable {now : Timestamp} {r : Request} {result : Except EngineError Unit} {s s' s'' : Store}
  {t u v : Task}

/-- Every task of a store lives on in it without any work. -/
theorem Task.LivesOn.refl (ht : t ∈ s.tasks) : t.LivesOn s s t :=
  ⟨ht, [], .refl, (List.append_nil _).symm⟩

/-- What a task lives on as is what it may become. -/
theorem Task.LivesOn.became (h : t.LivesOn s s' u) : t.Became u := by
  obtain ⟨-, entries, hlived, -⟩ := h
  exact hlived.became

/-- To live on in a store and from there in another one is to live on from the first to the last.
-/
theorem Task.LivesOn.trans (h : t.LivesOn s s' u) (h' : u.LivesOn s' s'' v) :
    t.LivesOn s s'' v := by
  have hid := h.became.id_eq
  obtain ⟨-, entries, hlived, hhistory⟩ := h
  obtain ⟨hv, more, hmore, hhistory'⟩ := h'
  rw [hid] at hhistory'
  exact ⟨hv, entries ++ more, hlived.trans hmore, by rw [hhistory', hhistory, List.append_assoc]⟩

namespace Store

/-- Entries about a task are added to those about it. -/
theorem historyOf_append {entries : List HistoryEntry} (h : s'.history = s.history ++ entries)
    (id : Uuid) :
    s'.historyOf id = s.historyOf id ++ entries.filter fun entry => entry.taskId == id := by
  rw [historyOf, h, List.filter_append]
  rfl

namespace Records

/-- A task stays what it is or is worked on. -/
theorem livesOn (h : s.Records now r result s') (hids : (s.tasks.map Task.id).Nodup)
    (ht : t ∈ s.tasks) : ∃ u, t.LivesOn s s' u := by
  cases h with
  | opened fresh hfresh htasks hhistory =>
    refine ⟨t, ?_, [], .refl, ?_⟩
    · rw [htasks]
      exact List.mem_append_left fresh ht
    · rw [historyOf, hhistory, List.append_nil]
      rfl
  | @worked v u entries fresh hfresh hv hwork htasks hhistory =>
    have hid := hwork.became.id_eq
    have hall := historyOf_append hhistory t.id
    by_cases hsame : t.id = v.id
    · obtain rfl := List.inj_on_of_nodup_map hids ht hv hsame
      refine ⟨u, ?_, entries, Task.Lived.refl.work hwork, ?_⟩
      · rw [htasks]
        exact mem_put_self Task.id (List.mem_append_left fresh ht) hid
      · rwa [List.filter_eq_self.mpr fun entry hentry => by simp [hwork.about entry hentry]] at hall
    · refine ⟨t, ?_, [], .refl, ?_⟩
      · rw [htasks]
        exact (mem_put Task.id).mpr (.inr ⟨List.mem_append_left fresh ht, by rwa [hid]⟩)
      · have hother : ∀ entry ∈ entries, ¬ (entry.taskId == t.id) = true := by
          intro entry hentry
          rw [hwork.about entry hentry, beq_iff_eq]
          exact Ne.symm hsame
        rwa [List.filter_eq_nil_iff.mpr hother] at hall

/-- A task was there before, has been worked on, or is new. -/
theorem cases_of_mem (h : s.Records now r result s') (hids : (s'.tasks.map Task.id).Nodup)
    (hu : u ∈ s'.tasks) :
    u ∈ s.tasks ∨ (∃ t ∈ s.tasks, ∃ entries, t.Work now r entries u) ∨
      u.IsBlank now ∧ u.id ∉ s.tasks.map Task.id := by
  -- what has been opened stands under identifiers of its own
  have hnew : ∀ fresh, (∀ t ∈ fresh, t.IsBlank now) →
      ((s.tasks ++ fresh).map Task.id).Nodup → u ∈ s.tasks ++ fresh →
        u ∈ s.tasks ∨ u.IsBlank now ∧ u.id ∉ s.tasks.map Task.id := by
    intro fresh hfresh hnodup hmem
    rcases List.mem_append.mp hmem with hold | hopened
    · exact .inl hold
    · refine .inr ⟨hfresh u hopened, fun hthere => ?_⟩
      rw [List.map_append, List.nodup_append] at hnodup
      exact hnodup.2.2 _ hthere _ (List.mem_map_of_mem hopened) rfl
  cases h with
  | opened fresh hfresh htasks =>
    rw [htasks] at hids hu
    rcases hnew fresh hfresh hids hu with hold | hblank
    · exact .inl hold
    · exact .inr (.inr hblank)
  | @worked t v entries fresh hfresh ht hwork htasks =>
    rw [htasks, map_key_put] at hids
    rw [htasks] at hu
    rcases (mem_put Task.id).mp hu with ⟨rfl, -⟩ | ⟨hu, -⟩
    · exact .inr (.inl ⟨t, ht, entries, hwork⟩)
    · rcases hnew fresh hfresh hids hu with hold | hblank
      · exact .inl hold
      · exact .inr (.inr hblank)

/-- The entries in the audit trail are about tasks that were there before. -/
theorem about (h : s.Records now r result s') (hs : s.HasSubjects) :
    ∀ entry ∈ s'.history, entry.taskId ∈ s.tasks.map Task.id := by
  intro entry hentry
  cases h with
  | opened fresh hfresh htasks hhistory =>
    rw [hhistory] at hentry
    exact hs entry hentry
  | worked fresh hfresh ht hwork htasks hhistory =>
    rw [hhistory] at hentry
    rcases List.mem_append.mp hentry with hold | hnew
    · exact hs entry hold
    · rw [hwork.about entry hnew]
      exact List.mem_map_of_mem ht

/-- Where a request has been served, every entry is about a task of the store if this was so
before. -/
theorem hasSubjects (h : s.Records now r result s') (hs : s.HasSubjects) : s'.HasSubjects := by
  intro entry hentry
  have hsubject := h.about hs entry hentry
  cases h with
  | opened fresh hfresh htasks =>
    rw [htasks, List.map_append]
    exact List.mem_append_left _ hsubject
  | worked fresh hfresh ht hwork htasks =>
    rw [htasks, map_key_put, List.map_append]
    exact List.mem_append_left _ hsubject

end Records

end Store

end Stores

/-! ## Lives in a run -/

namespace Environment

variable {e : Engine} {env : Environment} {t u : Task}

/-- How a request ends. -/
def answer (env : Environment) (e : Engine) (c : Call) : Except EngineError Unit :=
  ((c.request.perform e).runIn { env with now := c.time }).1

/-- What serving a request does to tasks and entries. -/
theorem serve_records (henv : env.Orderly) (c : Call) (hrange : (env.serve e c).ids.InRange) :
    env.store.Records c.time c.request (env.answer e c) (env.serve e c).store := by
  obtain ⟨result, env', hyields, hrecords⟩ :=
    c.request.leaves (henv.at_time c.time) (.of_leaves hrange)
  obtain ⟨log, hserve⟩ := serve_eq hyields
  have hanswer : env.answer e c = result := hyields.outcome
  rw [hserve, hanswer]
  exact hrecords

/-- Every task lives on in a run. -/
theorem serveAll_livesOn (henv : env.Orderly) (calls : List Call)
    (hrange : (env.serveAll e calls).ids.InRange) (ht : t ∈ env.store.tasks) :
    ∃ u, t.LivesOn env.store (env.serveAll e calls).store u := by
  induction calls generalizing env t with
  | nil => exact ⟨t, .refl ht⟩
  | cons c calls ih =>
    have hfirst := hrange.of_grows ((env.serve e c).serveAll_grows e calls)
    obtain ⟨u, hu⟩ := (serve_records henv c hfirst).livesOn henv.store.task_ids ht
    obtain ⟨v, hv⟩ := ih (serve_spec henv c hfirst).1 hrange hu.1
    exact ⟨v, hu.trans hv⟩

/-- What holds of all tasks at the beginning of a run and of new tasks, and outlasts all work that
the requests of the run do, holds of all tasks at the end. -/
theorem serveAll_forall_tasks {P : Task → Prop} (Admits : Request → Prop)
    (hblank : ∀ now t, Task.IsBlank now t → P t)
    (hwork : ∀ now r t entries u, Admits r → P t → Task.Work now t r entries u → P u)
    (henv : env.Orderly) (calls : List Call) (hadmits : ∀ c ∈ calls, Admits c.request)
    (hrange : (env.serveAll e calls).ids.InRange) (hP : ∀ t ∈ env.store.tasks, P t) :
    ∀ t ∈ (env.serveAll e calls).store.tasks, P t := by
  induction calls generalizing env with
  | nil => exact hP
  | cons c calls ih =>
    have hfirst := hrange.of_grows ((env.serve e c).serveAll_grows e calls)
    have horderly := (serve_spec henv c hfirst).1
    have hrecords := serve_records henv c hfirst
    refine ih horderly (fun c' hc' => hadmits c' (List.mem_cons_of_mem c hc')) hrange ?_
    intro u hu
    rcases hrecords.cases_of_mem horderly.store.task_ids hu with
      hold | ⟨t, ht, entries, hworked⟩ | ⟨hnew, -⟩
    · exact hP u hold
    · exact hwork c.time c.request t entries u (hadmits c List.mem_cons_self) (hP t ht) hworked
    · exact hblank c.time u hnew

/-- In every run every entry is about a task of the store, if this was so at its beginning. -/
theorem serveAll_hasSubjects (henv : env.Orderly) (calls : List Call)
    (hrange : (env.serveAll e calls).ids.InRange) (hs : env.store.HasSubjects) :
    (env.serveAll e calls).store.HasSubjects := by
  induction calls generalizing env with
  | nil => exact hs
  | cons c calls ih =>
    have hfirst := hrange.of_grows ((env.serve e c).serveAll_grows e calls)
    exact ih (serve_spec henv c hfirst).1 hrange ((serve_records henv c hfirst).hasSubjects hs)

end Environment

/-- The call opens the task, and nothing has been entered about it yet. -/
structure Task.OpenedBy (t : Task) (env : Environment) (e : Engine) (c : Call) : Prop where
  blank : t.IsBlank c.time
  absent : env.store.task? t.id = none
  stored : t ∈ (env.serve e c).store.tasks
  unentered : (env.serve e c).store.historyOf t.id = []

namespace Environment

variable {e : Engine} {u : Task}

/-- Every task that a run leaves was opened by one of the calls and has lived on since. -/
theorem serveAll_born (seed : Nat) (start : Timestamp) (calls : List Call)
    (hrange : ((fresh seed start).serveAll e calls).ids.InRange)
    (hu : u ∈ ((fresh seed start).serveAll e calls).store.tasks) :
    ∃ before c after, ∃ t : Task, calls = before ++ c :: after ∧
      t.OpenedBy ((fresh seed start).serveAll e before) e c ∧
      t.LivesOn (((fresh seed start).serveAll e before).serve e c).store
        ((fresh seed start).serveAll e calls).store u := by
  have hstart := fresh_orderly seed start
  induction calls using List.reverseRecOn generalizing u with
  | nil => cases hu
  | append_singleton calls c ih =>
    have happend := (fresh seed start).serveAll_concat e calls c
    rw [happend] at hrange hu ⊢
    have hbefore := hrange.of_grows (((fresh seed start).serveAll e calls).serve_grows e c)
    have henv := serveAll_orderly hstart calls hbefore
    have hrecords := serve_records henv c hrange
    have hids := (serve_spec henv c hrange).1.store.task_ids
    by_cases hold : u.id ∈ ((fresh seed start).serveAll e calls).store.tasks.map Task.id
    · -- the task was there before, and has lived on in the last call
      obtain ⟨v, hv, hid⟩ := List.mem_map.mp hold
      obtain ⟨w, hw⟩ := hrecords.livesOn henv.store.task_ids hv
      obtain rfl := List.inj_on_of_nodup_map hids hw.1 hu (hw.became.id_eq.trans hid)
      obtain ⟨before, c', after, t, rfl, hopened, hlives⟩ := ih hbefore hv
      exact ⟨before, c', after ++ [c], t, by simp, hopened, hlives.trans hw⟩
    · -- the last call has opened the task
      have hblank : u.IsBlank c.time := by
        rcases hrecords.cases_of_mem hids hu with hmem | ⟨t, ht, _, hwork⟩ | ⟨hblank, -⟩
        · exact absurd (List.mem_map_of_mem hmem) hold
        · exact absurd (hwork.became.id_eq ▸ List.mem_map_of_mem ht) hold
        · exact hblank
      have hsubjects := serveAll_hasSubjects (e := e) hstart calls hbefore
        fun entry hentry => (by cases hentry)
      have habsent : ((fresh seed start).serveAll e calls).store.task? u.id = none :=
        (find?_eq_none_iff_not_mem Task.id).mpr hold
      have hunentered : (((fresh seed start).serveAll e calls).serve e c).store.historyOf u.id
          = [] := Store.historyOf_eq_nil fun entry hentry hid =>
        hold (hid ▸ hrecords.about hsubjects entry hentry)
      exact ⟨calls, c, [], u, rfl, ⟨hblank, habsent, hu, hunentered⟩, .refl hu⟩

end Environment

end ApprovalWorkflow
