import ApprovalWorkflow.Proofs.Turns

/-!
# Dealing with one instance

Claiming a task, completing it or carrying its end through concerns one instance, and so does what
the engine is asked for when an instance is to be started, continued or led back. Such a dealing
looks at the record of the instance, at its tasks and at its workflow and at nothing else of the
store (`Share`). From these, from the time and from the source of identifiers `Dealing.upshot`
computes the reply and the impact: the record that is stored again, the task that is worked on,
the tasks that are opened, the entries and the notices.

`Dealing.comesTo` says that a dealing gives this reply and has this impact and no other, in
every orderly environment in which the instance has this share.
-/

set_option autoImplicit false

namespace ApprovalWorkflow

open Engine Operation

/-! ## Shares and impacts -/

/-- What an instance can see of a store. -/
structure Share where
  record : Instance
  tasks : List Task
  workflow : Option Workflow
deriving DecidableEq

/-- The situation of the instance. -/
def Share.situation (p : Share) : Situation where
  record := p.record
  tasks := p.tasks
  definition :=
    match p.workflow with
    | some w => w.parsedDefinition.value
    | none => .error (.workflowNotFound p.record.workflowId)

/-- What the instance of an identifier can see. -/
def Store.share? (s : Store) (id : Uuid) : Option Share :=
  (s.instance? id).map fun i => ⟨i, s.tasksOf id, s.workflow? i.workflowId⟩

/-- The situation of an instance is read from its share. -/
theorem Store.situation?_eq_map_share? (s : Store) (id : Uuid) :
    s.situation? id = (s.share? id).map Share.situation := by
  rw [situation?, share?, Option.map_map]
  rfl

/-- What a dealing changes. -/
structure Impact where
  /-- The instance as it is stored again, if it is. -/
  record : Option Instance
  /-- The task that takes the place of the one with its identifier. -/
  changed : Option Task
  /-- The tasks that are opened, under the next identifiers. -/
  opened : List Task
  entries : List HistoryEntry
  notices : List Notice

namespace Impact

/-- Nothing changes. -/
def nothing : Impact := ⟨none, none, [], [], []⟩

/-- The instances after the impact. -/
def onInstances (c : Impact) (instances : List Instance) : List Instance :=
  match c.record with
  | some i => put Instance.id i instances
  | none => instances

/-- The tasks after the impact, but for those that are opened. -/
def onTasks (c : Impact) (tasks : List Task) : List Task :=
  match c.changed with
  | some t => put Task.id t tasks
  | none => tasks

end Impact

/-- The environment with the impact of a dealing. -/
def Environment.dealt (env : Environment) (c : Impact) : Environment :=
  { env with
    store := { env.store with
      instances := c.onInstances env.store.instances
      tasks := c.onTasks env.store.tasks ++ c.opened
      history := env.store.history ++ c.entries }
    ids := { env.ids with
      tasks := env.ids.tasks + c.opened.length
      entries := env.ids.entries + c.entries.length }
    notices := env.notices ++ c.notices }

/-- What moving an instance on adds, as an impact. -/
def Effect.impact (f : Effect) : Impact := ⟨f.record, none, f.opened, [], f.notices⟩

/-! ## Dealings -/

/-- What can be asked about one instance: the requests about it and about its tasks, and what the
engine is asked for. -/
inductive Dealing where
  | claim (task : Uuid) (a : Actor)
  | delegate (task : Uuid) (a : Actor) (toUser : String)
  | finish (task : Uuid) (a : Actor) (c : Completion)
  | complete (task : Uuid) (a : Actor) (c : Completion)
  | progress (task : Uuid)
  | retry (task : Uuid)
  | cancel (run : Uuid)
  | start (run : Uuid)
  | continueAfter (t : Task)
  | goBack (t : Task)

/-- What a dealing gives. -/
inductive Reply where
  | task (t : Task)
  | run (i : Instance)
  | done

/-- A reply, and what changes on the way to it. -/
structure Upshot where
  reply : Except EngineError Reply
  impact : Impact

namespace Upshot

/-- The dealing is refused. -/
def refused (error : EngineError) : Upshot := ⟨.error error, .nothing⟩

/-- A task has been worked on, unless the work was refused. -/
def ofWork (e : Engine) (ids : IdSource) (entry : Task → Uuid → HistoryEntry)
    (notice : Task → Notice) : Except EngineError Task → Upshot
  | .error error => .refused error
  | .ok t =>
    ⟨.ok (.task t),
      ⟨none, some t, [], [entry t (ids.draw .entry).1], e.notifier.sent [notice t]⟩⟩

end Upshot

namespace Situation

/-- What comes of carrying a task through. -/
def progressed (σ : Situation) (e : Engine) (now : Timestamp) (ids : IdSource) (t : Task) :
    Upshot :=
  if t.progression = .advanced then ⟨.ok (.task t), .nothing⟩
  else if t.status.isOpen then .refused (.invalidTransition "task" t.status.name "progress")
  else
    let course := σ.course e now t
    let t' := t.marked (course.outcome e)
    ⟨(course.outcome e).map fun _ => .task t',
      { (e.effect σ now ids t course).impact with changed := some t' }⟩

/-- What comes of finishing a task, as `u`, and carrying it through. -/
def completed (σ : Situation) (e : Engine) (now : Timestamp) (ids : IdSource) (a : Actor)
    (u : Task) : Upshot :=
  let τ := σ.withTask u
  let course := τ.course e now u
  let added := e.effect τ now (ids.draw .entry).2 u course
  let u' := u.marked (course.outcome e)
  ⟨.ok (.task u'),
    { added.impact with
      changed := some u'
      entries := [.completed (ids.draw .entry).1 u a.user now]
      notices := e.notifier.sent [.taskCompleted u] ++ added.notices }⟩

/-- What comes of leading the instance back behind a task. -/
def ledBack (σ : Situation) (e : Engine) (now : Timestamp) (ids : IdSource) (t : Task)
    (d : Definition) : Upshot :=
  let course := σ.back now d t
  let reply :=
    match course with
    | .reopens previous origin =>
      .task (e.reopened σ now (ids.draw .task).1 t previous origin)
    | _ => .done
  ⟨(course.outcome e).map fun _ => reply, (e.effect σ now ids t course).impact⟩

end Situation

namespace Share

/-- What comes of a dealing with a task of the instance. -/
def onTask (p : Share) (id : Uuid) (f : Task → Upshot) : Upshot :=
  match p.tasks.find? fun t => t.id == id with
  | some t => f t
  | none => .refused (.taskNotFound id)

/-- Whether the instance may be started. -/
def admits (p : Share) : Except EngineError Unit :=
  match p.record.ensureRunning, p.workflow with
  | .error error, _ => .error error
  | .ok _, none => .error (.workflowNotFound p.record.workflowId)
  | .ok _, some w => w.ensureStartable

end Share

namespace Dealing

/-- Does what is asked for. -/
def perform (e : Engine) : Dealing → Operation Reply
  | .claim task a => do return .task (← Tasks.claim e task a)
  | .delegate task a toUser => do return .task (← Tasks.delegate e task a toUser)
  | .finish task a c => do return .task (← Tasks.finish e task a c)
  | .complete task a c => do return .task (← Tasks.complete e task a c)
  | .progress task => do return .task (← e.progress task)
  | .retry task => do return .task (← Tasks.retry e task)
  | .cancel run => do return .run (← Workflows.cancelInstance run)
  | .start run => do e.start run; return .done
  | .continueAfter t => do e.continueAfter t; return .done
  | .goBack t => do return .task (← e.goBack t)

/-- The dealing is about the instance or about one of its tasks. -/
def Concerns (s : Store) (i : Uuid) : Dealing → Prop
  | .claim task _ => ∃ t ∈ s.tasksOf i, t.id = task
  | .delegate task _ _ => ∃ t ∈ s.tasksOf i, t.id = task
  | .finish task _ _ => ∃ t ∈ s.tasksOf i, t.id = task
  | .complete task _ _ => ∃ t ∈ s.tasksOf i, t.id = task
  | .progress task => ∃ t ∈ s.tasksOf i, t.id = task
  | .retry task => ∃ t ∈ s.tasksOf i, t.id = task
  | .cancel run => run = i
  | .start run => run = i
  | .continueAfter t => t.instanceId = i
  | .goBack t => t.instanceId = i

/-- What comes of a dealing. -/
def upshot (e : Engine) (p : Share) (now : Timestamp) (ids : IdSource) : Dealing → Upshot
  | .claim task a => p.onTask task fun t =>
    .ofWork e ids (fun t entry => .claimed entry t a.user now) (fun t => .taskAssigned t a.user)
      (t.claimedBy a now)
  | .delegate task a toUser => p.onTask task fun t =>
    .ofWork e ids (fun t entry => .delegated entry t a.user toUser now)
      (fun t => .taskAssigned t toUser) (t.delegatedBy a toUser)
  | .finish task a c => p.onTask task fun t =>
    .ofWork e ids (fun t entry => .completed entry t a.user now) .taskCompleted
      (t.finishedBy a c now)
  | .complete task a c => p.onTask task fun t =>
    match t.finishedBy a c now with
    | .error error => .refused error
    | .ok u => p.situation.completed e now ids a u
  | .progress task => p.onTask task (p.situation.progressed e now ids)
  | .retry task => p.onTask task fun t =>
    if t.progression.isStalled then p.situation.progressed e now ids t
    else .refused (.invalidTransition "task" t.progression.name "retry progression of")
  | .cancel _ =>
    match p.record.cancel now with
    | .error error => .refused error
    | .ok i => ⟨.ok (.run i), { Impact.nothing with record := some i }⟩
  | .start _ =>
    match p.admits with
    | .error error => .refused error
    | .ok _ =>
      ⟨(p.situation.startable e).map fun _ => .done, (e.begun p.situation now ids).impact⟩
  | .continueAfter t =>
    match p.situation.followed with
    | .error error => .refused error
    | .ok d =>
      let course := p.situation.onward e now d t
      ⟨(course.outcome e).map fun _ => .done, (e.effect p.situation now ids t course).impact⟩
  | .goBack t =>
    match p.situation.followed with
    | .error error => .refused error
    | .ok d => p.situation.ledBack e now ids t d

end Dealing

/-! ## Impacts on environments -/

namespace Environment

variable {e : Engine} {env : Environment}

/-- A dealing that changes nothing leaves the environment as it is. -/
theorem dealt_nothing (env : Environment) : env.dealt .nothing = env := by
  simp [dealt, Impact.nothing, Impact.onInstances, Impact.onTasks]

/-- The impact of an effect changes the environment as the effect does. -/
theorem dealt_impact (env : Environment) (f : Effect) : env.dealt f.impact = env.after f := by
  obtain ⟨record, opened, notices⟩ := f
  cases record <;> simp [dealt, after, Effect.impact, Impact.onInstances, Impact.onTasks]

/-- Work on a task is an impact. -/
theorem dealt_ofWork (env : Environment) (entry : Task → Uuid → HistoryEntry)
    (notice : Task → Notice) (r : Except EngineError Task) :
    env.dealt (Upshot.ofWork e env.ids entry notice r).impact = env.worked e entry notice r := by
  cases r with
  | error error => exact env.dealt_nothing
  | ok t =>
    simp [dealt, worked, Upshot.ofWork, Impact.onInstances, Impact.onTasks, Store.putTask,
      Store.appendHistory, IdSource.draw, IdSource.advance]

/-- Tasks that are opened do not stand where a task is put that has been there before. -/
theorem putTask_after {t : Task} {f : Effect} (ht : t.id ∈ env.store.tasks.map Task.id)
    (hnodup : ((env.after f).store.tasks.map Task.id).Nodup) :
    (env.after f).putTask t = env.dealt { f.impact with changed := some t } := by
  have hnew : ∀ u ∈ f.opened, u.id ≠ t.id := by
    intro u hu hid
    rw [show (env.after f).store.tasks = env.store.tasks ++ f.opened from rfl, List.map_append,
      List.nodup_append] at hnodup
    exact hnodup.2.2 _ ht _ (List.mem_map_of_mem hu) hid.symm
  have hput : put Task.id t (env.store.tasks ++ f.opened) =
      put Task.id t env.store.tasks ++ f.opened := by
    rw [put_append, put_of_not_mem Task.id hnew]
  rw [← dealt_impact]
  exact congrArg (fun tasks => { env.dealt f.impact with
    store := { (env.dealt f.impact).store with tasks := tasks } }) hput

/-- Finishing a task and carrying it through is one impact. -/
theorem worked_after_putTask {u u' : Task} {entry : Task → Uuid → HistoryEntry}
    {notice : Task → Notice} {f : Effect} (hid : u'.id = u.id)
    (ht : u.id ∈ env.store.tasks.map Task.id)
    (hnodup : (((env.worked e entry notice (.ok u)).after f).store.tasks.map Task.id).Nodup) :
    ((env.worked e entry notice (.ok u)).after f).putTask u' =
      env.dealt
        { f.impact with
          changed := some u'
          entries := [entry u (env.ids.draw .entry).1]
          notices := e.notifier.sent [notice u] ++ f.notices } := by
  have hthere : u'.id ∈ (env.worked e entry notice (.ok u)).store.tasks.map Task.id := by
    rw [hid]
    exact (map_key_put Task.id u env.store.tasks).symm ▸ ht
  rw [putTask_after hthere hnodup]
  -- the task is put in its place twice
  simp only [dealt, worked, Store.putTask, Store.appendHistory, Effect.impact,
    Impact.onInstances, Impact.onTasks, put_put Task.id hid.symm, IdSource.draw, IdSource.advance,
    List.append_nil, List.append_assoc, List.length_singleton, List.length_nil, Nat.add_zero]

end Environment

/-! ## What dealings yield -/

/-- A reply made from the result of an operation. -/
theorem Operation.Yields.reply {α β : Type} {x : Operation α} {env env' : Environment}
    {r : Except EngineError α} (h : x.Yields env r env') (f : α → β) :
    (do return f (← x) : Operation β).Yields env (r.map f) env' := by
  cases r with
  | error error => exact .bind_error h
  | ok a => exact .bind h (.pure (f a) env')

namespace Store

variable {s : Store} {ids : IdSource} {i : Uuid} {p : Share}

/-- An instance has a share exactly if its record is found, and then the share is read from the
store. -/
theorem share?_eq_some_iff :
    s.share? i = some p ↔ ∃ r, s.instance? i = some r ∧
      p = ⟨r, s.tasksOf i, s.workflow? r.workflowId⟩ := by
  rw [share?, Option.map_eq_some_iff]
  simp only [eq_comm]

/-- An instance has no share exactly if its record is not found. -/
theorem share?_eq_none_iff : s.share? i = none ↔ s.instance? i = none := Option.map_eq_none_iff

/-- The situation of an instance with a share is that of the share. -/
theorem situation?_of_share? (hp : s.share? i = some p) : s.situation? i = some p.situation := by
  rw [situation?_eq_map_share?, hp]
  rfl

/-- The record of an instance with a share is the one in the share. -/
theorem instance?_of_share? (hp : s.share? i = some p) : s.instance? i = some p.record := by
  obtain ⟨r, hr, rfl⟩ := share?_eq_some_iff.mp hp
  exact hr

/-- The tasks in the share are those of the instance, in the order of their creation. -/
theorem tasks_of_share? (hp : s.share? i = some p) : p.tasks = s.tasksOf i := by
  obtain ⟨r, -, rfl⟩ := share?_eq_some_iff.mp hp
  rfl

/-- A task of the instance is the one that its share has under the identifier. -/
theorem onTask_of_mem (hs : s.Orderly ids) (hp : s.share? i = some p) {t : Task}
    (ht : t ∈ s.tasksOf i) (f : Task → Upshot) : p.onTask t.id f = f t := by
  have hnodup : ((s.tasksOf i).map Task.id).Nodup :=
    hs.task_ids.sublist (List.filter_sublist.map Task.id)
  have hfound : (p.tasks.find? fun u => u.id == t.id) = some t := by
    rw [tasks_of_share? hp]
    exact (find?_eq_some_iff Task.id hnodup).mpr ⟨ht, rfl⟩
  rw [Share.onTask, hfound]

end Store

namespace Dealing

variable {e : Engine} {env : Environment} {i : Uuid} {p : Share} {t : Task}

/-- The upshot is what the dealing comes to. -/
def ComesTo (d : Dealing) (e : Engine) (env : Environment) (u : Upshot) : Prop :=
  (d.perform e).Yields env u.reply (env.dealt u.impact)

/-- A dealing that fails without a change comes to a refusal. -/
theorem refused_comesTo {d : Dealing} {error : EngineError}
    (h : (d.perform e).Yields env (.error error) env) : d.ComesTo e env (.refused error) := by
  have hunchanged : env.dealt (Upshot.refused error).impact = env := env.dealt_nothing
  rw [ComesTo, hunchanged]
  exact h

/-- Work on a task of the instance. -/
theorem work_comesTo (henv : env.Orderly) (ht : t ∈ env.store.tasksOf i) {d : Dealing}
    {x : Operation Task} {how : Task → Except EngineError Task}
    {entry : Task → Uuid → HistoryEntry} {notice : Task → Notice}
    (hd : d.perform e = do return .task (← x))
    (hx : x.Yields env (env.store.tryTask t.id how)
      (env.worked e entry notice (env.store.tryTask t.id how))) :
    d.ComesTo e env (.ofWork e env.ids entry notice (how t)) := by
  have hfound := henv.store.task?_eq_some_iff.mpr ⟨(Store.mem_tasksOf.mp ht).1, rfl⟩
  have htry : env.store.tryTask t.id how = how t := by rw [Store.tryTask, hfound]
  rw [htry] at hx
  have hreply : (Upshot.ofWork e env.ids entry notice (how t)).reply = (how t).map .task := by
    cases how t <;> rfl
  rw [ComesTo, Environment.dealt_ofWork, hreply, hd]
  exact hx.reply Reply.task

/-- A completion comes to the progression of the finished task, or to a refusal if the task cannot
be finished. -/
theorem complete_comesTo (henv : env.Orderly) (hp : env.store.share? i = some p)
    (ht : t ∈ env.store.tasksOf i) (a : Actor) (c : Completion)
    (hrange : ((complete t.id a c).perform e).StaysInRange env) :
    (complete t.id a c).ComesTo e env
      (match t.finishedBy a c env.now with
      | .error error => .refused error
      | .ok u => p.situation.completed e env.now env.ids a u) := by
  obtain ⟨hmem, rfl⟩ := Store.mem_tasksOf.mp ht
  have hfound := henv.store.task?_eq_some_iff.mpr ⟨hmem, rfl⟩
  cases hu : t.finishedBy a c env.now with
  | error error =>
    refine refused_comesTo (.bind_error (Tasks.complete_refused henv ?_))
    rw [Store.tryTask, hfound]
    exact hu
  | ok u =>
    obtain ⟨-, hyields, -, horderly⟩ := Tasks.complete_carried henv hmem hu
      (Store.situation?_of_share? hp) (hrange.first fun _ => .pure _)
    obtain ⟨hid, -⟩ := (Task.of_finishedBy hu).2.place
    obtain ⟨mark, hmarked⟩ := marked_eq u
      (((p.situation.withTask u).course e env.now u).outcome e)
    have hthere : u.id ∈ env.store.tasks.map Task.id := hid ▸ List.mem_map_of_mem hmem
    have hids := horderly.store.task_ids
    rw [Environment.putTask, Store.putTask, map_key_put] at hids
    rw [Environment.worked_after_putTask (by rw [hmarked]) hthere hids] at hyields
    exact hyields.reply Reply.task

/-- A progression in an instance with a share leaves the environment as the share says. -/
theorem progress_yields (henv : env.Orderly) (hp : env.store.share? i = some p)
    (ht : t ∈ env.store.tasksOf i) (hrange : (e.progress t.id).StaysInRange env) :
    ∃ r, (e.progress t.id).Yields env r
        (env.dealt (p.situation.progressed e env.now env.ids t).impact) ∧
      r.map .task = (p.situation.progressed e env.now env.ids t).reply := by
  obtain ⟨hmem, rfl⟩ := Store.mem_tasksOf.mp ht
  have hfound := henv.store.task?_eq_some_iff.mpr ⟨hmem, rfl⟩
  have hunchanged := env.dealt_nothing
  unfold Situation.progressed
  by_cases hadvanced : t.progression = .advanced
  · rw [if_pos hadvanced, hunchanged]
    exact ⟨_, Engine.progress_of_advanced henv.outage hfound hadvanced, rfl⟩
  rw [if_neg hadvanced]
  by_cases hopen : t.status.isOpen
  · rw [if_pos hopen]
    refine ⟨.error (.invalidTransition "task" t.status.name "progress"), ?_, rfl⟩
    have hrefused : env.dealt (Upshot.refused
        (.invalidTransition "task" t.status.name "progress")).impact = env := hunchanged
    rw [hrefused]
    exact Engine.progress_of_open henv.outage hfound hadvanced hopen
  · rw [if_neg hopen]
    obtain ⟨hyields, horderly⟩ := Engine.progress_yields henv hfound hadvanced
      (by simpa using hopen) (Store.situation?_of_share? hp) hrange
    obtain ⟨mark, hmarked⟩ := marked_eq t ((p.situation.course e env.now t).outcome e)
    have hids := horderly.store.task_ids
    rw [Environment.putTask, Store.putTask, map_key_put] at hids
    have hthere : (t.marked ((p.situation.course e env.now t).outcome e)).id ∈
        env.store.tasks.map Task.id := by
      have hsame : (t.marked ((p.situation.course e env.now t).outcome e)).id = t.id := by
        rw [hmarked]
      rw [hsame]
      exact List.mem_map_of_mem hmem
    rw [Environment.putTask_after hthere hids] at hyields
    refine ⟨_, hyields, ?_⟩
    dsimp only
    cases (p.situation.course e env.now t).outcome e <;> rfl

/-- A retry comes to the progression of a stalled task, and is refused for every other one. -/
theorem retry_comesTo (henv : env.Orderly) (hp : env.store.share? i = some p)
    (ht : t ∈ env.store.tasksOf i) (hrange : ((retry t.id).perform e).StaysInRange env) :
    (retry t.id).ComesTo e env
      (if t.progression.isStalled then p.situation.progressed e env.now env.ids t
      else .refused (.invalidTransition "task" t.progression.name "retry progression of")) := by
  have hfound := henv.store.task?_eq_some_iff.mpr ⟨(Store.mem_tasksOf.mp ht).1, rfl⟩
  split
  · next hstalled =>
    have hacts := Tasks.retry_actsAs (e := e) henv hfound hstalled
    have hretry : (Tasks.retry e t.id).StaysInRange env := hrange.first fun _ => .pure _
    obtain ⟨r, hyields, hreply⟩ := progress_yields henv hp ht (hretry.of_actsAs hacts)
    rw [ComesTo, ← hreply]
    exact (hacts.yields hyields).reply Reply.task
  · next hstalled =>
    exact refused_comesTo (.bind_error (Tasks.retry_refused henv hfound hstalled))

/-- Cancelling comes to the record of the cancelled instance, or to a refusal if it is over. -/
theorem cancel_comesTo (henv : env.Orderly) (hp : env.store.share? i = some p) :
    (cancel i).ComesTo e env
      (match p.record.cancel env.now with
      | .error error => .refused error
      | .ok j => ⟨.ok (.run j), { Impact.nothing with record := some j }⟩) := by
  have hyields := Workflows.cancel_yields henv (Store.instance?_of_share? hp)
  cases hcancel : p.record.cancel env.now with
  | error error =>
    rw [hcancel] at hyields
    exact refused_comesTo (.bind_error hyields)
  | ok j =>
    rw [hcancel] at hyields
    have hgivenUp : env.dealt { Impact.nothing with record := some j } =
        Workflows.givenUp env (.ok j) := by
      simp [Environment.dealt, Impact.nothing, Impact.onInstances, Impact.onTasks,
        Workflows.givenUp, Store.putInstance]
    rw [ComesTo, hgivenUp]
    exact hyields.reply Reply.run

/-- Starting comes to the walk from the first step, or to a refusal if the instance cannot be
started. -/
theorem start_comesTo (henv : env.Orderly) (hp : env.store.share? i = some p)
    (hrange : ((start i).perform e).StaysInRange env) :
    (start i).ComesTo e env
      (match p.admits with
      | .error error => .refused error
      | .ok _ => ⟨(p.situation.startable e).map fun _ => .done,
          (e.begun p.situation env.now env.ids).impact⟩) := by
  have hrecord := Store.instance?_of_share? hp
  have hfound := Repository.instanceOf_yields i henv.outage
  rw [hrecord] at hfound
  have hworkflow := Repository.workflow_yields p.record.workflowId henv.outage
  have hseen : p.workflow = env.store.workflow? p.record.workflowId := by
    obtain ⟨r, -, rfl⟩ := Store.share?_eq_some_iff.mp hp
    rfl
  rw [← hseen] at hworkflow
  unfold Share.admits
  by_cases hrunning : p.record.isRunning
  · have hensure : p.record.ensureRunning = .ok () := if_pos hrunning
    have hlift : (lift p.record.ensureRunning).Yields env (.ok ()) env := by
      rw [hensure]
      exact .pure _ _
    rw [hensure]
    cases hw : p.workflow with
    | none =>
      rw [hw] at hworkflow
      exact refused_comesTo (.bind_error (.bind hfound (.bind hlift (.bind_error hworkflow))))
    | some w =>
      rw [hw] at hworkflow
      dsimp only
      cases hstartable : w.ensureStartable with
      | error error =>
        refine refused_comesTo (.bind_error (.bind hfound (.bind hlift (.bind hworkflow ?_))))
        rw [hstartable]
        exact .bind_error (.throw _ _)
      | ok _ =>
        have hactive : w.status = .active := by
          by_contra hother
          rw [Workflow.ensureStartable, if_neg hother] at hstartable
          cases hstartable
        obtain ⟨hyields, -⟩ := Engine.start_yields henv (Store.situation?_of_share? hp) hrunning
          (hseen.symm.trans hw) hactive (hrange.first fun _ => .pure _)
        rw [ComesTo, Environment.dealt_impact]
        exact hyields.reply fun _ => Reply.done
  · have hensure : p.record.ensureRunning = .error (.instanceNotRunning p.record.id) :=
      if_neg hrunning
    rw [hensure]
    refine refused_comesTo (.bind_error (.bind hfound ?_))
    rw [hensure]
    exact .bind_error (.throw _ _)

/-- Without a definition to follow nothing is done about the instance. -/
theorem unfollowed_yields {α : Type} (henv : env.Orderly) (hp : env.store.share? i = some p)
    {error : EngineError} (h : p.situation.followed = .error error)
    (f : Instance × Definition → Operation α) :
    (runningInstance i >>= f).Yields env (.error error) env := by
  have hlookup := Engine.runningInstance_yields henv.outage (Store.situation?_of_share? hp)
  rw [h] at hlookup
  exact .bind_error hlookup

/-- Going on behind a task comes to what its instance's definition says, or to a refusal if there
is no such definition. -/
theorem continueAfter_comesTo (henv : env.Orderly) (hp : env.store.share? t.instanceId = some p)
    (hrange : ((continueAfter t).perform e).StaysInRange env) :
    (continueAfter t).ComesTo e env
      (match p.situation.followed with
      | .error error => .refused error
      | .ok d =>
        let course := p.situation.onward e env.now d t
        ⟨(course.outcome e).map fun _ => .done,
          (e.effect p.situation env.now env.ids t course).impact⟩) := by
  cases hd : p.situation.followed with
  | error error =>
    exact refused_comesTo (.bind_error (unfollowed_yields henv hp hd _))
  | ok d =>
    obtain ⟨hyields, -⟩ := Engine.continueAfter_yields henv (Store.situation?_of_share? hp) hd
      (hrange.first fun _ => .pure _)
    rw [ComesTo, Environment.dealt_impact]
    exact hyields.reply fun _ => Reply.done

/-- Going back from a rejected task comes to what its instance's definition says, or to a refusal
if there is no such definition. -/
theorem goBack_comesTo (henv : env.Orderly) (hp : env.store.share? t.instanceId = some p)
    (hrange : ((goBack t).perform e).StaysInRange env) :
    (goBack t).ComesTo e env
      (match p.situation.followed with
      | .error error => .refused error
      | .ok d => p.situation.ledBack e env.now env.ids t d) := by
  cases hd : p.situation.followed with
  | error error =>
    exact refused_comesTo (.bind_error (unfollowed_yields henv hp hd _))
  | ok d =>
    obtain ⟨⟨r, hyields, houtcome, hreopened⟩, -⟩ :=
      Engine.goBack_yields henv (Store.situation?_of_share? hp) hd (hrange.first fun _ => .pure _)
    have hreply : r.map Reply.task = (p.situation.ledBack e env.now env.ids t d).reply := by
      rw [Situation.ledBack]
      dsimp only
      rw [← houtcome]
      cases r with
      | error error => rfl
      | ok u =>
        obtain ⟨previous, origin, hcourse, rfl⟩ := hreopened u rfl
        rw [hcourse]
        rfl
    rw [ComesTo, ← hreply]
    exact (Environment.dealt_impact env _).symm ▸ hyields.reply Reply.task

/-- A dealing with an instance of an orderly environment gives the reply and has the impact that
are computed from its share. -/
theorem comesTo (henv : env.Orderly) (hp : env.store.share? i = some p) {d : Dealing}
    (hd : d.Concerns env.store i) (hrange : (d.perform e).StaysInRange env) :
    d.ComesTo e env (d.upshot e p env.now env.ids) := by
  cases d with
  | claim task a =>
    obtain ⟨t, ht, rfl⟩ := hd
    rw [upshot, Store.onTask_of_mem henv.store hp ht]
    exact work_comesTo henv ht rfl (Tasks.claim_yields henv a)
  | delegate task a toUser =>
    obtain ⟨t, ht, rfl⟩ := hd
    rw [upshot, Store.onTask_of_mem henv.store hp ht]
    exact work_comesTo henv ht rfl (Tasks.delegate_yields henv a toUser)
  | finish task a c =>
    obtain ⟨t, ht, rfl⟩ := hd
    rw [upshot, Store.onTask_of_mem henv.store hp ht]
    exact work_comesTo henv ht rfl (Tasks.finish_yields henv a c)
  | complete task a c =>
    obtain ⟨t, ht, rfl⟩ := hd
    rw [upshot, Store.onTask_of_mem henv.store hp ht]
    exact complete_comesTo henv hp ht a c hrange
  | progress task =>
    obtain ⟨t, ht, rfl⟩ := hd
    rw [upshot, Store.onTask_of_mem henv.store hp ht]
    obtain ⟨r, hyields, hreply⟩ := progress_yields henv hp ht (hrange.first fun _ => .pure _)
    rw [ComesTo, ← hreply]
    exact hyields.reply Reply.task
  | retry task =>
    obtain ⟨t, ht, rfl⟩ := hd
    rw [upshot, Store.onTask_of_mem henv.store hp ht]
    exact retry_comesTo henv hp ht hrange
  | cancel run =>
    obtain rfl := hd
    exact cancel_comesTo henv hp
  | start run =>
    obtain rfl := hd
    exact start_comesTo henv hp hrange
  | continueAfter t =>
    obtain rfl := hd
    exact continueAfter_comesTo henv hp hrange
  | goBack t =>
    obtain rfl := hd
    exact goBack_comesTo henv hp hrange

/-- A dealing with an instance that is missing is refused. -/
theorem missing_comesTo (henv : env.Orderly) (hp : env.store.share? i = none) {d : Dealing}
    (hd : d.Concerns env.store i) : d.ComesTo e env (.refused (.instanceNotFound i)) := by
  have hnone := Store.share?_eq_none_iff.mp hp
  have hfound := Repository.instanceOf_yields i henv.outage
  rw [hnone] at hfound
  have habsent : ∀ id, ¬ ∃ t ∈ env.store.tasksOf i, t.id = id := by
    rintro id ⟨t, ht, -⟩
    rw [henv.store.tasksOf_eq_nil hnone] at ht
    cases ht
  cases d with
  | cancel run =>
    obtain rfl := hd
    exact refused_comesTo (.bind_error (.bind_error hfound))
  | start run =>
    obtain rfl := hd
    exact refused_comesTo (.bind_error (.bind_error hfound))
  | continueAfter t =>
    obtain rfl := hd
    exact refused_comesTo (.bind_error (.bind_error (.bind_error hfound)))
  | goBack t =>
    obtain rfl := hd
    exact refused_comesTo (.bind_error (.bind_error (.bind_error hfound)))
  | _ => exact absurd hd (habsent _)

end Dealing

/-! ## Where impacts lie -/

/-- All that the impact changes belongs to the instance. -/
structure Impact.Within (i : Uuid) (s : Store) (c : Impact) : Prop where
  record : ∀ j, c.record = some j → j.id = i
  changed : ∀ t, c.changed = some t → t.instanceId = i ∧ ∃ u ∈ s.tasksOf i, u.id = t.id
  opened : ∀ t ∈ c.opened, t.instanceId = i
  entries : ∀ h ∈ c.entries, h.instanceId = i

section Within

variable {e : Engine} {s : Store} {ids : IdSource} {i : Uuid} {p : Share}

/-- Nothing is an impact within every instance. -/
theorem Impact.nothing_within : Impact.nothing.Within i s :=
  ⟨fun _ h => (by cases h), fun _ h => (by cases h), fun _ h => (by cases h),
    fun _ h => (by cases h)⟩

/-- What moving the instance on adds lies within it. -/
theorem Effect.impact_within {f : Effect} (hrecord : ∀ j, f.record = some j → j.id = i)
    (hopened : ∀ t ∈ f.opened, t.instanceId = i) : f.impact.Within i s :=
  ⟨hrecord, fun _ h => (by cases h), hopened, fun _ h => (by cases h)⟩

/-- Work on a task of the instance lies within it. -/
theorem Upshot.ofWork_within {t : Task} (ht : t ∈ s.tasksOf i) {r : Except EngineError Task}
    (hr : ∀ u, r = .ok u → u.id = t.id ∧ u.instanceId = t.instanceId)
    {entry : Task → Uuid → HistoryEntry} (hentry : ∀ u id, (entry u id).instanceId = u.instanceId)
    (notice : Task → Notice) : (Upshot.ofWork e ids entry notice r).impact.Within i s := by
  cases r with
  | error error => exact Impact.nothing_within
  | ok u =>
    obtain ⟨hid, howner⟩ := hr u rfl
    have hu : u.instanceId = i := howner.trans (Store.mem_tasksOf.mp ht).2
    refine ⟨fun _ h => (by cases h), ?_, fun _ h => (by cases h), ?_⟩
    · rintro v ⟨⟩
      exact ⟨hu, t, ht, hid.symm⟩
    · intro h hh
      rw [List.mem_singleton.mp hh, hentry, hu]

/-- The impact of a progression is within the instance of the task. -/
theorem Situation.progressed_within {σ : Situation} (hid : σ.record.id = i) {t : Task}
    (ht : t ∈ s.tasksOf i) (now : Timestamp) :
    (σ.progressed e now ids t).impact.Within i s := by
  unfold progressed
  split
  · exact Impact.nothing_within
  split
  · exact Impact.nothing_within
  · obtain ⟨hrecord, hopened⟩ := course_effect e σ now ids t
    obtain ⟨mark, hmarked⟩ := marked_eq t ((σ.course e now t).outcome e)
    refine ⟨fun j hj => (hrecord j hj).1.trans hid, ?_, fun u hu => (hopened u hu).trans hid,
      fun _ h => (by cases h)⟩
    rintro u ⟨⟩
    rw [hmarked]
    exact ⟨(Store.mem_tasksOf.mp ht).2, t, ht, rfl⟩

/-- The impact of a completion is within the instance of the task that is completed. -/
theorem Situation.completed_within {σ : Situation} (hid : σ.record.id = i) {t u : Task}
    (ht : t ∈ s.tasksOf i) (hsame : u.id = t.id) (howner : u.instanceId = t.instanceId)
    (now : Timestamp) (a : Actor) : (σ.completed e now ids a u).impact.Within i s := by
  have hu : u.instanceId = i := howner.trans (Store.mem_tasksOf.mp ht).2
  obtain ⟨hrecord, hopened⟩ := course_effect e (σ.withTask u) now (ids.draw .entry).2 u
  obtain ⟨mark, hmarked⟩ := marked_eq u (((σ.withTask u).course e now u).outcome e)
  refine ⟨fun j hj => (hrecord j hj).1.trans hid, ?_, fun v hv => (hopened v hv).trans hid, ?_⟩
  · rintro v ⟨⟩
    rw [hmarked]
    exact ⟨hu, t, ht, hsame.symm⟩
  · intro h hh
    rw [List.mem_singleton.mp hh]
    exact hu

/-- A course behind a task that leads on walks with the record of the instance. -/
theorem Situation.onward_walks {σ : Situation} {now : Timestamp} {d : Definition} {t : Task}
    (hd : σ.followed = .ok d) {j : Instance} {ending : WalkEnd}
    (h : σ.onward e now d t = .walks j ending) : j.id = σ.record.id ∧
      j.workflowId = σ.record.workflowId := by
  -- how the task has ended does not count when it leads on
  have hforward : ¬ Task.GoesBack { t with result := none } := by simp [Task.GoesBack]
  have hcourse : σ.course e now { t with result := none } = .walks j ending := by
    rw [course, hd]
    exact (if_neg hforward).trans h
  obtain ⟨joins, rfl⟩ := course_walks_record hcourse
  exact ⟨rfl, rfl⟩

/-- The impact of a dealing lies within the instance that it concerns. -/
theorem Dealing.upshot_within (hs : s.Orderly ids) (hp : s.share? i = some p) {d : Dealing}
    (hd : d.Concerns s i) (now : Timestamp) (ids' : IdSource) :
    (d.upshot e p now ids').impact.Within i s := by
  have hid : p.situation.record.id = i :=
    (hs.instance?_eq_some_iff.mp (Store.instance?_of_share? hp)).2
  cases d with
  | claim task a =>
    obtain ⟨t, ht, rfl⟩ := hd
    rw [upshot, Store.onTask_of_mem hs hp ht]
    refine Upshot.ofWork_within ht (fun u hu => ?_) (fun _ _ => rfl) _
    exact ⟨(Task.of_claimedBy hu).2.id_eq, (Task.of_claimedBy hu).2.instanceId_eq⟩
  | delegate task a toUser =>
    obtain ⟨t, ht, rfl⟩ := hd
    rw [upshot, Store.onTask_of_mem hs hp ht]
    refine Upshot.ofWork_within ht (fun u hu => ?_) (fun _ _ => rfl) _
    exact ⟨(Task.of_delegatedBy hu).2.id_eq, (Task.of_delegatedBy hu).2.instanceId_eq⟩
  | finish task a c =>
    obtain ⟨t, ht, rfl⟩ := hd
    rw [upshot, Store.onTask_of_mem hs hp ht]
    refine Upshot.ofWork_within ht (fun u hu => ?_) (fun _ _ => rfl) _
    obtain ⟨hsame, howner, -⟩ := (Task.of_finishedBy hu).2.place
    exact ⟨hsame, howner⟩
  | complete task a c =>
    obtain ⟨t, ht, rfl⟩ := hd
    rw [upshot, Store.onTask_of_mem hs hp ht]
    cases hu : t.finishedBy a c now with
    | error error => exact Impact.nothing_within
    | ok u =>
      obtain ⟨hsame, howner, -⟩ := (Task.of_finishedBy hu).2.place
      exact Situation.completed_within hid ht hsame howner now a
  | progress task =>
    obtain ⟨t, ht, rfl⟩ := hd
    rw [upshot, Store.onTask_of_mem hs hp ht]
    exact Situation.progressed_within hid ht now
  | retry task =>
    obtain ⟨t, ht, rfl⟩ := hd
    rw [upshot, Store.onTask_of_mem hs hp ht]
    split
    · exact Situation.progressed_within hid ht now
    · exact Impact.nothing_within
  | cancel run =>
    rw [upshot]
    cases hcancel : p.record.cancel now with
    | error error => exact Impact.nothing_within
    | ok j =>
      refine { Impact.nothing_within with record := ?_ }
      rintro k ⟨⟩
      rw [(Instance.of_cancel hcancel).2]
      exact hid
  | start run =>
    rw [upshot]
    split
    · exact Impact.nothing_within
    · obtain ⟨hrecord, hopened⟩ := begun_effect e p.situation now ids'
      exact Effect.impact_within (fun j hj => (hrecord j hj).1.trans hid)
        fun t ht => (hopened t ht).trans hid
  | continueAfter t =>
    rw [upshot]
    cases hfollowed : p.situation.followed with
    | error error => exact Impact.nothing_within
    | ok d =>
      obtain ⟨hrecord, hopened⟩ := effect_concerns (σ := p.situation) e now ids' t
        fun j ending h => Situation.onward_walks (e := e) hfollowed h
      exact Effect.impact_within (fun j hj => (hrecord j hj).1.trans hid)
        fun t ht => (hopened t ht).trans hid
  | goBack t =>
    rw [upshot]
    cases hfollowed : p.situation.followed with
    | error error => exact Impact.nothing_within
    | ok d =>
      obtain ⟨hrecord, hopened⟩ := effect_concerns (σ := p.situation) e now ids' t
        fun j ending h => absurd h (p.situation.back_ne_walks now d t j ending)
      exact Effect.impact_within (fun j hj => (hrecord j hj).1.trans hid)
        fun t ht => (hopened t ht).trans hid

end Within

end ApprovalWorkflow
