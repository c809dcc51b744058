import ApprovalWorkflow.Management.Tasks
import ApprovalWorkflow.Management.Workflows
import ApprovalWorkflow.Proofs.Progress

/-!
# What requests yield

People's requests first look whether they are allowed, then store one record, and then perhaps
move an instance on. For each of them this module says what is stored as a function of the store,
the time and the arguments (`Tasks.claimed`, `Tasks.finished`, `Tasks.delegated`), and that the
request yields this and nothing else. A request that is refused leaves the environment as it was.

Completing a task is finishing it and carrying it through; the completion stands whatever comes
of that (`Tasks.complete_yields`). An instance that cannot be started is left as a failed one
without tasks (`Workflows.startInstance_yields`).
-/

set_option autoImplicit false

namespace ApprovalWorkflow

/-! ## Work on tasks -/

/-- An environment in which a task has been worked on: the task, an entry about it and a notice,
unless the work was refused. -/
def Environment.worked (env : Environment) (e : Engine) (entry : Task → Uuid → HistoryEntry)
    (notice : Task → Notice) : Except EngineError Task → Environment
  | .error _ => env
  | .ok t =>
    { env with
      store := (env.store.putTask t).appendHistory (entry t (env.ids.draw .entry).1)
      ids := (env.ids.draw .entry).2
      notices := env.notices ++ e.notifier.sent [notice t] }

namespace Task

/-- The task after a person has claimed it, if the person may. -/
def claimedBy (t : Task) (a : Actor) (now : Timestamp) : Except EngineError Task :=
  if t.status ≠ .pending then .error (.taskNotPending t.id)
  else if ¬ t.mayTake a then .error (.taskNotClaimable a.user t.id)
  else t.claim a.user now

/-- The task after a person has finished it, if the person may. -/
def finishedBy (t : Task) (a : Actor) (c : Completion) (now : Timestamp) :
    Except EngineError Task :=
  if t.status.isTerminal then .error (.invalidTransition "task" t.status.name "complete")
  else if ¬ t.mayComplete a then .error (.unauthorized a.user t.id)
  else
    (t.complete c.output c.comment c.result now).map fun t =>
      { t with assignee := t.assignee.or (some a.user), progression := .pending }

/-- The task after a person has handed it to another one, if the person may. -/
def delegatedBy (t : Task) (a : Actor) (toUser : String) : Except EngineError Task :=
  if t.assignee ≠ some a.user then .error (.unauthorized a.user t.id) else t.delegate toUser

/-- An open task that somebody has claimed or handed on. -/
def Touched (t u : Task) : Prop :=
  ∃ assignee status claimedAt, status.isOpen ∧
    u = { t with assignee := assignee, status := status, claimedAt := claimedAt }

/-- A task that somebody has finished at a time with a result and an output, and that has yet to
be carried through. -/
def Finished (c : Completion) (now : Timestamp) (t u : Task) : Prop :=
  ∃ assignee, u = { t with
    assignee := assignee
    status := c.result.status
    output := c.output
    result := some c.result
    comment := c.comment
    completedAt := some now
    progression := .pending }

variable {t u : Task}

/-- A task that somebody has claimed or handed on keeps its identifier. -/
theorem Touched.id_eq (h : t.Touched u) : u.id = t.id := by
  obtain ⟨_, _, _, -, rfl⟩ := h
  rfl

/-- A task that somebody has claimed or handed on stays with its instance. -/
theorem Touched.instanceId_eq (h : t.Touched u) : u.instanceId = t.instanceId := by
  obtain ⟨_, _, _, -, rfl⟩ := h
  rfl

/-- Only an open task is claimed, and it stays open. -/
theorem of_claimedBy {a : Actor} {now : Timestamp} (h : t.claimedBy a now = .ok u) :
    t.status.isOpen ∧ t.Touched u := by
  unfold claimedBy at h
  split at h
  · cases h
  · next hpending =>
    have hpending : t.status = .pending := by simpa using hpending
    split at h
    · cases h
    · rw [claim, if_pos hpending] at h
      cases h
      exact ⟨by rw [hpending]; rfl, _, _, _, rfl, rfl⟩

/-- Only an open task is handed on, and it stays open. -/
theorem of_delegatedBy {a : Actor} {toUser : String} (h : t.delegatedBy a toUser = .ok u) :
    t.status.isOpen ∧ t.Touched u := by
  unfold delegatedBy at h
  split at h
  · cases h
  · unfold delegate at h
    split at h
    · cases h
    · next hopen =>
      cases h
      exact ⟨by simpa [TaskStatus.isOpen] using hopen, _, _, _, rfl, rfl⟩

/-- Only an open task is finished. -/
theorem of_finishedBy {a : Actor} {c : Completion} {now : Timestamp}
    (h : t.finishedBy a c now = .ok u) : t.status.isOpen ∧ t.Finished c now u := by
  unfold finishedBy at h
  split at h
  · cases h
  · next hopen =>
    split at h
    · cases h
    · rw [complete, if_neg hopen] at h
      cases h
      exact ⟨by simpa [TaskStatus.isOpen] using hopen, _, rfl⟩

/-- A finished task has ended. -/
theorem Finished.isOpen_eq {c : Completion} {now : Timestamp} (h : t.Finished c now u) :
    u.status.isOpen = false := by
  obtain ⟨_, rfl⟩ := h
  cases c.result <;> rfl

/-- A finished task is where it was, and has yet to be carried through. -/
theorem Finished.place {c : Completion} {now : Timestamp} (h : t.Finished c now u) :
    u.id = t.id ∧ u.instanceId = t.instanceId ∧ u.progression = .pending := by
  obtain ⟨_, rfl⟩ := h
  exact ⟨rfl, rfl, rfl⟩

end Task

/-- What becomes of the task of an identifier. -/
def Store.tryTask (s : Store) (id : Uuid) (how : Task → Except EngineError Task) :
    Except EngineError Task :=
  match s.task? id with
  | some t => how t
  | none => .error (.taskNotFound id)

/-- What becomes of a task becomes of one of the store. -/
theorem Store.tryTask_eq_ok {s : Store} {id : Uuid} {how : Task → Except EngineError Task}
    {u : Task} : s.tryTask id how = .ok u ↔ ∃ t, s.task? id = some t ∧ how t = .ok u := by
  unfold tryTask
  cases s.task? id <;> simp

namespace Tasks

open Operation

variable {e : Engine} {env : Environment} {id : Uuid} {t u : Task}

/-- Storing a task together with an entry about it. -/
theorem store_yields (henv : env.Orderly) (ht : t ∈ env.store.tasks) (hid : u.id = t.id)
    (entry : Uuid → Timestamp → HistoryEntry) :
    (store u entry).Yields env (.ok ())
      { env with
        store := (env.store.putTask u).appendHistory (entry (env.ids.draw .entry).1 env.now)
        ids := (env.ids.draw .entry).2 } := by
  refine .bind (Engine.updateTask_yields henv ht hid) (.bind (.freshId .entry _) ?_)
  exact .bind (.now _) (Repository.change_yields henv.outage rfl)

/-- Work on a task: it is looked up, and if the work is not refused, it is stored. -/
theorem work_yields (henv : env.Orderly) {how : Task → Except EngineError Task}
    {entry : Task → Uuid → HistoryEntry} {notice : Task → Notice} {f : Task → Operation Task}
    (hf : ∀ t, t ∈ env.store.tasks → t.id = id →
      (f t).Yields env (how t) (env.worked e entry notice (how t))) :
    (Repository.task id >>= f).Yields env (env.store.tryTask id how)
      (env.worked e entry notice (env.store.tryTask id how)) := by
  have hfound := Repository.task_yields id henv.outage
  unfold Store.tryTask
  cases ht : env.store.task? id with
  | none =>
    rw [ht] at hfound
    exact .bind_error hfound
  | some t =>
    rw [ht] at hfound
    obtain ⟨hmem, hid⟩ := henv.store.task?_eq_some_iff.mp ht
    exact .bind hfound (hf t hmem hid)

/-- Claiming a task stores it as claimed, or is refused. -/
theorem claim_yields (henv : env.Orderly) (a : Actor) :
    (claim e id a).Yields env (env.store.tryTask id fun t => t.claimedBy a env.now)
      (env.worked e (fun t entry => .claimed entry t a.user env.now)
        (fun t => .taskAssigned t a.user)
        (env.store.tryTask id fun t => t.claimedBy a env.now)) := by
  refine work_yields henv fun t ht hid => ?_
  subst hid
  unfold Task.claimedBy
  dsimp only
  by_cases hpending : t.status ≠ .pending
  · simp only [if_pos hpending]
    exact .bind_error (.throw _ _)
  by_cases htake : ¬ t.mayTake a
  · simp only [if_neg hpending, if_pos htake]
    exact .bind_error (.throw _ _)
  simp only [if_neg hpending, if_neg htake]
  refine .bind (.now _) ?_
  cases hclaim : t.claim a.user env.now with
  | error error => exact .bind_error (.throw _ _)
  | ok u =>
    have hid : u.id = t.id := by rw [(Task.of_claim hclaim).2]
    refine .bind (.pure _ _) (.bind (store_yields henv ht hid _) (.bind (.say _ _ _) ?_))
    exact .bind (.announce _ _ _) (.pure _ _)

/-- Finishing a task stores it as finished, or is refused. -/
theorem finish_yields (henv : env.Orderly) (a : Actor) (c : Completion) :
    (finish e id a c).Yields env (env.store.tryTask id fun t => t.finishedBy a c env.now)
      (env.worked e (fun t entry => .completed entry t a.user env.now) .taskCompleted
        (env.store.tryTask id fun t => t.finishedBy a c env.now)) := by
  refine work_yields henv fun t ht hid => ?_
  subst hid
  unfold Task.finishedBy
  dsimp only
  by_cases hended : t.status.isTerminal
  · simp only [if_pos hended]
    exact .bind_error (.throw _ _)
  by_cases hmay : ¬ t.mayComplete a
  · simp only [if_neg hended, if_pos hmay]
    exact .bind_error (.throw _ _)
  simp only [if_neg hended, if_neg hmay]
  refine .bind (.now _) ?_
  cases hcomplete : t.complete c.output c.comment c.result env.now with
  | error error => exact .bind_error (.throw _ _)
  | ok u =>
    have hid : u.id = t.id := by rw [(Task.of_complete hcomplete).2]
    refine .bind (.pure _ _) (.bind (store_yields henv ht ?_ _) (.bind (.say _ _ _) ?_))
    · exact hid
    · exact .bind (.announce _ _ _) (.pure _ _)

/-- Handing a task on stores it with its new assignee, or is refused. -/
theorem delegate_yields (henv : env.Orderly) (a : Actor) (toUser : String) :
    (delegate e id a toUser).Yields env (env.store.tryTask id fun t => t.delegatedBy a toUser)
      (env.worked e (fun t entry => .delegated entry t a.user toUser env.now)
        (fun t => .taskAssigned t toUser)
        (env.store.tryTask id fun t => t.delegatedBy a toUser)) := by
  refine work_yields henv fun t ht hid => ?_
  subst hid
  unfold Task.delegatedBy
  dsimp only
  by_cases hother : t.assignee ≠ some a.user
  · simp only [if_pos hother]
    exact .bind_error (.throw _ _)
  simp only [if_neg hother]
  cases hdelegate : t.delegate toUser with
  | error error => exact .bind_error (.throw _ _)
  | ok u =>
    have hid : u.id = t.id := by rw [(Task.of_delegate hdelegate).2]
    refine .bind (.pure _ _) (.bind (store_yields henv ht hid _) (.bind (.say _ _ _) ?_))
    exact .bind (.announce _ _ _) (.pure _ _)

/-- Storing a task takes no identifier back. -/
theorem store_onlyDraws (t : Task) (entry : Uuid → Timestamp → HistoryEntry) :
    (store t entry).OnlyDraws :=
  .bind (.perform _ _) fun _ => .bind (.freshId _) fun _ => .bind .now fun _ => .perform _ _

/-- A claim takes no identifier back. -/
theorem claim_onlyDraws (a : Actor) : (claim e id a).OnlyDraws := by
  refine .bind (Repository.task_onlyDraws id) fun t => ?_
  dsimp only
  split
  · exact .throw_bind _ _
  · split
    · exact .throw_bind _ _
    · exact .bind .now fun _ => .bind (.lift _) fun t => .bind (store_onlyDraws t _) fun _ =>
        .bind (.say _ _) fun _ => .bind (.announce _ _) fun _ => .pure _

/-- Finishing a task takes no identifier back. -/
theorem finish_onlyDraws (a : Actor) (c : Completion) : (finish e id a c).OnlyDraws := by
  refine .bind (Repository.task_onlyDraws id) fun t => ?_
  dsimp only
  split
  · exact .throw_bind _ _
  · split
    · exact .throw_bind _ _
    · exact .bind .now fun _ => .bind (.lift _) fun t => .bind (store_onlyDraws _ _) fun _ =>
        .bind (.say _ _) fun _ => .bind (.announce _ _) fun _ => .pure _

/-- A delegation takes no identifier back. -/
theorem delegate_onlyDraws (a : Actor) (toUser : String) :
    (delegate e id a toUser).OnlyDraws := by
  refine .bind (Repository.task_onlyDraws id) fun t => ?_
  dsimp only
  split
  · exact .throw_bind _ _
  · exact .bind (.lift _) fun t => .bind (store_onlyDraws t _) fun _ =>
      .bind (.say _ _) fun _ => .bind (.announce _ _) fun _ => .pure _

/-- What follows the end of a task: the instance is carried on, and the completion stands
whatever comes of that. -/
def follow (e : Engine) (t : Task) : Operation Task := do
  match ← attempt (e.progress t.id) with
  | .ok t => return t
  | .error error =>
    say .error ("Task " ++ t.id.toString ++ " is stored but instance " ++ t.instanceId.toString
      ++ " did not advance: " ++ error.message)
    Repository.task t.id

/-- What follows the end of a task takes no identifier back. -/
theorem follow_onlyDraws (t : Task) : (follow e t).OnlyDraws := by
  refine .bind (.attempt (Engine.progress_onlyDraws t.id)) fun outcome => ?_
  cases outcome with
  | ok t => exact .pure t
  | error error => exact .bind (.say _ _) fun _ => Repository.task_onlyDraws _

/-- A completion takes no identifier back. -/
theorem complete_onlyDraws (a : Actor) (c : Completion) : (complete e id a c).OnlyDraws :=
  .bind (finish_onlyDraws a c) follow_onlyDraws

/-- A retry takes no identifier back. -/
theorem retry_onlyDraws : (retry e id).OnlyDraws := by
  refine .bind (Repository.task_onlyDraws id) fun t => ?_
  dsimp only
  split
  · exact .throw_bind _ _
  · exact .bind (.say _ _) fun _ => Engine.progress_onlyDraws id

/-! ### Completions and new attempts -/

/-- Work on a task leaves the environment orderly. -/
theorem orderly_worked (henv : env.Orderly) {entry : Task → Uuid → HistoryEntry}
    {notice : Task → Notice} (ht : t ∈ env.store.tasks) (hid : u.id = t.id)
    (howner : u.instanceId = t.instanceId)
    (hrange : (env.worked e entry notice (.ok u)).ids.InRange) :
    (env.worked e entry notice (.ok u)).Orderly where
  outage := henv.outage
  in_range := hrange
  store := ((henv.store.putTask ht hid howner).appendHistory _).mono (env.ids.grows_draw .entry)

/-- What follows the end of a task adds what the course of the instance adds, and gives the task
with the outcome. -/
theorem follow_yields (henv : env.Orderly) {σ : Situation} (ht : t ∈ env.store.tasks)
    (hpending : t.progression ≠ .advanced) (hended : t.status.isOpen = false)
    (hσ : env.store.situation? t.instanceId = some σ) (hrange : (follow e t).StaysInRange env) :
    let c := σ.course e env.now t
    let env₁ := (env.after (e.effect σ env.now env.ids t c)).putTask (t.marked (c.outcome e))
    (follow e t).Yields env (.ok (t.marked (c.outcome e))) env₁ ∧ env₁.Orderly := by
  intro c env₁
  have hfound := henv.store.task?_eq_some_iff.mpr ⟨ht, rfl⟩
  obtain ⟨hprogress, horderly⟩ := Engine.progress_yields henv hfound hpending hended hσ
    (hrange.first fun outcome => by
      cases outcome with
      | ok t => exact .pure t
      | error error => exact .bind (.say _ _) fun _ => Repository.task_onlyDraws _)
  obtain ⟨p, hmarked⟩ := Engine.marked_eq t (c.outcome e)
  have hmem : t ∈ (env.after (e.effect σ env.now env.ids t c)).store.tasks :=
    List.mem_append_left _ ht
  have hread : env₁.store.task? t.id = some (t.marked (c.outcome e)) :=
    horderly.store.task?_eq_some_iff.mpr
      ⟨mem_put_self Task.id hmem (by rw [hmarked]), by rw [hmarked]⟩
  refine ⟨.bind (.attempt hprogress) ?_, horderly⟩
  change Operation.Yields _ env₁ _ env₁
  cases houtcome : c.outcome e with
  | ok _ => exact .pure _ _
  | error error =>
    refine .bind (.say _ _ _) ?_
    have hyields : (Repository.task t.id).Yields env₁
        (Repository.demanded (env₁.store.task? t.id) (.taskNotFound t.id)) env₁ :=
      Repository.task_yields t.id horderly.outage
    rw [hread, houtcome] at hyields
    exact hyields

/-- A completion that is refused. -/
theorem complete_refused (henv : env.Orderly) {a : Actor} {c : Completion} {error : EngineError}
    (h : (env.store.tryTask id fun t => t.finishedBy a c env.now) = .error error) :
    (complete e id a c).Yields env (.error error) env := by
  have hfinish : (finish e id a c).Yields env _ _ := finish_yields henv a c
  rw [h] at hfinish
  exact .bind_error hfinish

/-- A completion that is not refused finishes the task and adds what the course of the instance
adds. -/
theorem complete_yields (henv : env.Orderly) {a : Actor} {c : Completion} {σ : Situation}
    (ht : t ∈ env.store.tasks) (hid : t.id = id) (hu : t.finishedBy a c env.now = .ok u) :
    let env₁ := env.worked e (fun t entry => .completed entry t a.user env.now) .taskCompleted
      (.ok u)
    let course := σ.course e env.now u
    let env₂ := (env₁.after (e.effect σ env.now env₁.ids u course)).putTask
      (u.marked (course.outcome e))
    env₁.store.situation? u.instanceId = some σ → (complete e id a c).StaysInRange env →
    (complete e id a c).Yields env (.ok (u.marked (course.outcome e))) env₂ ∧ env₁.Orderly ∧
      env₂.Orderly := by
  intro env₁ course env₂ hσ hrange
  have hfinish : (finish e id a c).Yields env _ _ := finish_yields henv a c
  have htry : (env.store.tryTask id fun t => t.finishedBy a c env.now) = .ok u :=
    Store.tryTask_eq_ok.mpr ⟨t, henv.store.task?_eq_some_iff.mpr ⟨ht, hid⟩, hu⟩
  rw [htry] at hfinish
  obtain ⟨-, hfinished⟩ := Task.of_finishedBy hu
  obtain ⟨hsame, howner, hprogression⟩ := hfinished.place
  have hrest := hrange.second hfinish
  have horderly : env₁.Orderly :=
    orderly_worked henv ht hsame howner (hrest.before (follow_onlyDraws u))
  have hmem : u ∈ env₁.store.tasks := mem_put_self Task.id ht hsame
  have hpending : u.progression ≠ .advanced := by
    rw [hprogression]
    exact nofun
  obtain ⟨hfollow, hlast⟩ :=
    follow_yields horderly hmem hpending hfinished.isOpen_eq hσ hrest
  exact ⟨.bind hfinish hfollow, horderly, hlast⟩

/-- Only a task whose end has not been carried through is tried again. -/
theorem retry_refused (henv : env.Orderly) (ht : env.store.task? id = some t)
    (hstalled : ¬ t.progression.isStalled) :
    (retry e id).Yields env
      (.error (.invalidTransition "task" t.progression.name "retry progression of")) env := by
  have hfound := Repository.task_yields id henv.outage
  rw [ht] at hfound
  refine .bind hfound ?_
  dsimp only
  rw [if_pos hstalled]
  exact .bind_error (.throw _ _)

/-- Trying again carries the task through. -/
theorem retry_actsAs (henv : env.Orderly) (ht : env.store.task? id = some t)
    (hstalled : t.progression.isStalled) : (retry e id).ActsAs (e.progress id) env := by
  have hfound := Repository.task_yields id henv.outage
  rw [ht] at hfound
  refine .after hfound ?_
  dsimp only
  rw [if_neg (not_not_intro hstalled)]
  exact .after (.say _ _ _) (.refl _ _)

end Tasks

/-! ## Instances at their start -/

namespace Instance

/-- The instance when it could not be started. -/
def failedWith (i : Instance) (error : EngineError) (now : Timestamp) : Instance :=
  { i with status := .failed, completedAt := some now, errorMessage := some error.message }

end Instance

namespace Situation

/-- Where an instance gets to that begins with the first step of its definition. -/
def opening (σ : Situation) (e : Engine) : Except EngineError WalkEnd :=
  match σ.followed with
  | .error error => .error error
  | .ok d =>
    match d.steps with
    | [] => .error (.invalidDefinition [.noSteps])
    | first :: _ =>
      .ok (Definition.arrival σ.around first (d.walk σ.around e.settings.maxAutoSteps first))

/-- Whether an instance can be started. -/
def startable (σ : Situation) (e : Engine) : Except EngineError Unit :=
  match σ.opening e with
  | .error error => .error error
  | .ok ending => ending.outcome e.settings.maxAutoSteps

end Situation

namespace Engine

open Operation

variable {e : Engine} {env : Environment} {σ : Situation}

/-- What starting an instance adds. An instance that cannot be started opens no task. -/
def begun (e : Engine) (σ : Situation) (now : Timestamp) (ids : IdSource) : Effect :=
  match σ.opening e with
  | .error _ => ⟨none, [], []⟩
  | .ok ending => e.walked { σ.record with startedAt := now } σ.tasks now ids ending

/-- Executing the first step when the start of the instance has been stored. -/
theorem first_yields (henv : env.Orderly) {id : Uuid} (hσ : env.store.situation? id = some σ)
    (hrunning : σ.record.isRunning) (d : Definition) (first : Step) {i : Instance}
    (hi : i = { σ.record with startedAt := env.now })
    (hrange : (e.execute i first (e.advance d i e.settings.maxAutoSteps first)).StaysInRange
      (env.after ⟨some i, [], []⟩)) :
    let ending :=
      Definition.arrival σ.around first (d.walk σ.around e.settings.maxAutoSteps first)
    (e.execute i first (e.advance d i e.settings.maxAutoSteps first)).Yields
        (env.after ⟨some i, [], []⟩) (ending.outcome e.settings.maxAutoSteps)
        (env.after (e.walked i σ.tasks env.now env.ids ending)) ∧
      (env.after (e.walked i σ.tasks env.now env.ids ending)).Orderly := by
  have htasks := tasksOf_after_record hσ (i := i) (by rw [hi])
  have houtage : (env.after ⟨some i, [], []⟩).outage = none := henv.outage
  have hacts := execute_actsAs (e := e) (i := i) houtage first
    (advance_actsAs houtage d e.settings.maxAutoSteps first)
  have hinput : i.input = σ.record.input := by rw [hi]
  rw [htasks, hinput] at hacts
  exact walked_yields henv hσ (by rw [hi]) (by rw [hi]) (by rw [hi]; exact hrunning) hacts hrange

/-- Starting a running instance of an active workflow adds what the end of its first walk
adds. -/
theorem start_yields (henv : env.Orderly) {id : Uuid} (hσ : env.store.situation? id = some σ)
    (hrunning : σ.record.isRunning) {w : Workflow}
    (hw : env.store.workflow? σ.record.workflowId = some w) (hactive : w.status = .active)
    (hrange : (e.start id).StaysInRange env) :
    (e.start id).Yields env (σ.startable e) (env.after (e.begun σ env.now env.ids)) ∧
      (env.after (e.begun σ env.now env.ids)).Orderly := by
  obtain ⟨hstored, hid⟩ := record_id hσ
  -- the checks change nothing; only behind them the instance is stored with the time of its start
  have hinstance : (Repository.instanceOf id).Yields env (.ok σ.record) env := by
    have hyields := Repository.instanceOf_yields id henv.outage
    rw [hid] at hstored
    rwa [hstored] at hyields
  have hensure : (lift σ.record.ensureRunning).Yields env (.ok ()) env := by
    rw [Instance.ensureRunning, if_pos hrunning]
    exact .pure _ _
  have hworkflow : (Repository.workflow σ.record.workflowId).Yields env (.ok w) env := by
    have hyields := Repository.workflow_yields σ.record.workflowId henv.outage
    rwa [hw] at hyields
  have hstartable : (lift w.ensureStartable).Yields env (.ok ()) env := by
    rw [Workflow.ensureStartable, if_pos hactive]
    exact .pure _ _
  have hdefinition : w.parsedDefinition.value = σ.definition := by
    obtain ⟨i, -, rfl⟩ := situation?_eq_some_iff.mp hσ
    simp only [Store.definitionOf, hw]
  have hparsed := Yields.heedResult w.parsedDefinition env
  rw [hdefinition] at hparsed
  have hrest := ((hrange.second hinstance).second hensure).second hworkflow |>.second hstartable
  unfold Situation.startable begun Situation.opening
  rw [Situation.followed, if_pos hrunning]
  cases hd : σ.definition with
  | error error =>
    rw [hd] at hparsed
    dsimp only
    rw [after_nothing]
    exact ⟨.bind hinstance (.bind hensure (.bind hworkflow (.bind hstartable
      (.bind_error hparsed)))), henv⟩
  | ok d =>
    rw [hd] at hparsed
    have hsteps := hrest.second hparsed
    dsimp only at hsteps ⊢
    cases hfirst : d.steps with
    | nil =>
      dsimp only
      rw [after_nothing]
      refine ⟨.bind hinstance (.bind hensure (.bind hworkflow (.bind hstartable
        (.bind hparsed ?_)))), henv⟩
      dsimp only
      rw [hfirst]
      exact .throw _ _
    | cons first others =>
      dsimp only
      rw [hfirst] at hsteps
      let i := { σ.record with startedAt := env.now }
      have hupdate : (Repository.updateInstance i).Yields env (.ok ())
          (env.after ⟨some i, [], []⟩) := by
        have hupdated := Store.updateInstance_eq (i := i) henv.store.instance_ids
          (by rw [hstored]; rfl)
        have hafter : env.after ⟨some i, [], []⟩ =
            { env with store := env.store.putInstance i } := by
          simp [Environment.after, Store.putInstance]
        rw [hafter]
        exact Repository.change_yields henv.outage hupdated
      have hexecute := ((hsteps.second (.now env)).second hupdate).second (.say _ _ _)
      obtain ⟨hyields, horderly⟩ := first_yields henv hσ hrunning d first rfl hexecute
      refine ⟨.bind hinstance (.bind hensure (.bind hworkflow (.bind hstartable
        (.bind hparsed ?_)))), horderly⟩
      dsimp only
      rw [hfirst]
      exact .bind (.now env) (.bind hupdate (.bind (.say _ _ _) hyields))

/-- Starting an instance in the engine takes no identifier back. -/
theorem start_onlyDraws (id : Uuid) : (e.start id).OnlyDraws := by
  refine .bind (Repository.instanceOf_onlyDraws id) fun i => .bind (.lift _) fun _ => ?_
  refine .bind (Repository.workflow_onlyDraws _) fun w => .bind (.lift _) fun _ => ?_
  refine .bind (.heedResult _) fun d => ?_
  split
  · exact .throw _
  · exact .bind .now fun _ => .bind (.perform _ _) fun _ => .bind (.say _ _) fun _ =>
      execute_onlyDraws _ _ (advance_onlyDraws d _ _ _)

end Engine

namespace Workflows

open Operation

variable {e : Engine} {env : Environment} {id : Uuid}

/-- A request that changes a workflow stores what it becomes. -/
def ruled (env : Environment) : Except EngineError Workflow → Environment
  | .error _ => env
  | .ok w => { env with store := env.store.putWorkflow w }

/-- What becomes of the workflow of an identifier. -/
def tryWorkflow (s : Store) (id : Uuid) (how : Workflow → Except EngineError Workflow) :
    Except EngineError Workflow :=
  match s.workflow? id with
  | some w => how w
  | none => .error (.workflowNotFound id)

/-- Updating a workflow puts it in the place of the one with its identifier. -/
theorem updateWorkflow_yields (henv : env.Orderly) {v w : Workflow}
    (hv : v ∈ env.store.workflows) (hid : w.id = v.id) :
    (Repository.updateWorkflow w).Yields env (.ok ()) (ruled env (.ok w)) := by
  have hthere : (env.store.workflow? w.id).isSome := by
    rw [hid, henv.store.workflow?_eq_some_iff.mpr ⟨hv, rfl⟩]
    rfl
  exact Repository.change_yields henv.outage
    (Store.updateWorkflow_eq henv.store.workflow_ids hthere)

/-- Creating a workflow stores a draft, or is refused. -/
theorem create_yields (henv : env.Orderly) (name description definition : String) :
    (∃ error, (create name description definition).Yields env (.error error) env) ∨
      ∃ w : Workflow, (Workflow.checkParts name definition).value = .ok () ∧
        w = .draft (env.ids.draw .workflow).1 name description definition env.now ∧
        (create name description definition).Yields env (.ok w)
          { env with
            store := { env.store with workflows := env.store.workflows ++ [w] }
            ids := (env.ids.draw .workflow).2 } := by
  have hchecked := Yields.heedResult (Workflow.checkParts name definition) env
  cases hcheck : (Workflow.checkParts name definition).value with
  | error error =>
    rw [hcheck] at hchecked
    exact .inl ⟨error, .bind_error hchecked⟩
  | ok _ =>
    rw [hcheck] at hchecked
    let w := Workflow.draft (env.ids.draw .workflow).1 name description definition env.now
    have hfree : env.store.workflow? w.id = none :=
      henv.store.workflow?_next (henv.in_range .workflow)
    have hsave : env.store.saveWorkflow w =
        .ok { env.store with workflows := env.store.workflows ++ [w] } := by
      rw [Store.saveWorkflow, hfree]
      rfl
    refine .inr ⟨w, rfl, rfl,
      .bind hchecked (.bind (.freshId .workflow env) (.bind (.now _) ?_))⟩
    exact .bind (Repository.change_yields henv.outage hsave) (.bind (.say _ _ _) (.pure _ _))

/-- A step in the life of a workflow is stored, or refused. -/
theorem apply_yields (henv : env.Orderly) (a : WorkflowAction) :
    (apply a id).Yields env (tryWorkflow env.store id fun w => w.apply a env.now)
      (ruled env (tryWorkflow env.store id fun w => w.apply a env.now)) := by
  have hfound := Repository.workflow_yields id henv.outage
  unfold tryWorkflow
  cases hw : env.store.workflow? id with
  | none =>
    rw [hw] at hfound
    exact .bind_error hfound
  | some w =>
    rw [hw] at hfound
    refine .bind hfound (.bind (.now env) ?_)
    dsimp only
    cases happly : w.apply a env.now with
    | error error => exact .bind_error (.throw _ _)
    | ok v =>
      have hid : v.id = w.id := by
        unfold Workflow.apply at happly
        split at happly <;> cases happly
        rfl
      have hmem := (henv.store.workflow?_eq_some_iff.mp hw).1
      exact .bind (.pure _ _) (.bind (updateWorkflow_yields henv hmem hid)
        (.bind (.say _ _ _) (.pure _ _)))

/-- A workflow keeps its identifier when its definition is replaced. -/
theorem id_of_replaceDefinition {w v : Workflow} {definition : String} {now : Timestamp}
    (h : (w.replaceDefinition definition now).value = .ok v) : v.id = w.id := by
  unfold Workflow.replaceDefinition at h
  split at h
  · cases h
  · rw [Logged.value_bind] at h
    cases hparse : (Definition.parse definition).value with
    | error error => rw [hparse] at h; cases h
    | ok d =>
      rw [hparse] at h
      cases h
      rfl

/-- Another definition of a workflow is stored, or refused. -/
theorem updateDefinition_yields (henv : env.Orderly) (definition : String) :
    (updateDefinition id definition).Yields env
      (tryWorkflow env.store id fun w => (w.replaceDefinition definition env.now).value)
      (ruled env
        (tryWorkflow env.store id fun w => (w.replaceDefinition definition env.now).value)) := by
  have hfound := Repository.workflow_yields id henv.outage
  unfold tryWorkflow
  cases hw : env.store.workflow? id with
  | none =>
    rw [hw] at hfound
    exact .bind_error hfound
  | some w =>
    rw [hw] at hfound
    refine .bind hfound (.bind (.now env) ?_)
    have hreplaced := Yields.heedResult (w.replaceDefinition definition env.now) env
    dsimp only
    cases hvalue : (w.replaceDefinition definition env.now).value with
    | error error =>
      rw [hvalue] at hreplaced
      exact .bind_error hreplaced
    | ok v =>
      rw [hvalue] at hreplaced
      have hmem := (henv.store.workflow?_eq_some_iff.mp hw).1
      exact .bind hreplaced (.bind
        (updateWorkflow_yields henv hmem (id_of_replaceDefinition hvalue))
        (.bind (.say _ _ _) (.pure _ _)))

/-- Deleting a workflow takes it out of the store, or is refused. -/
theorem delete_yields (henv : env.Orderly) :
    (∃ error, (delete id).Yields env (.error error) env) ∨
      ∃ w, env.store.workflow? id = some w ∧ w.canDelete ∧
        (delete id).Yields env (.ok ())
          { env with
            store := { env.store with
              workflows := env.store.workflows.filter fun w => w.id != id } } := by
  have hfound := Repository.workflow_yields id henv.outage
  cases hw : env.store.workflow? id with
  | none =>
    rw [hw] at hfound
    exact .inl ⟨_, .bind_error hfound⟩
  | some w =>
    rw [hw] at hfound
    have hdelete : env.store.deleteWorkflow id =
        .ok { env.store with workflows := env.store.workflows.filter fun w => w.id != id } := by
      rw [Store.deleteWorkflow, hw]
      rfl
    by_cases hmay : ¬ w.canDelete
    · refine .inl ⟨.invalidTransition "workflow" w.status.name "delete", .bind hfound ?_⟩
      dsimp only
      rw [if_pos hmay]
      exact .bind_error (.throw _ _)
    · refine .inr ⟨w, rfl, not_not.mp hmay, .bind hfound ?_⟩
      dsimp only
      rw [if_neg hmay]
      exact .bind (Repository.change_yields henv.outage hdelete) (.say _ _ _)

/-- The environment after an instance has been given up, unless that was refused. -/
def givenUp (env : Environment) : Except EngineError Instance → Environment
  | .error _ => env
  | .ok i => { env with store := env.store.putInstance i }

/-- Giving up an instance of the store. -/
theorem cancel_yields (henv : env.Orderly) {i : Instance} (hi : env.store.instance? id = some i) :
    (cancelInstance id).Yields env (i.cancel env.now) (givenUp env (i.cancel env.now)) := by
  have hfound := Repository.instanceOf_yields id henv.outage
  rw [hi] at hfound
  refine .bind hfound (.bind (.now env) ?_)
  cases hcancel : i.cancel env.now with
  | error error => exact .bind_error (.throw _ _)
  | ok j =>
    have hid : j.id = id := by
      rw [(Instance.of_cancel hcancel).2]
      exact (henv.store.instance?_eq_some_iff.mp hi).2
    have hupdate := Store.updateInstance_eq (i := j) henv.store.instance_ids
      (by rw [hid, hi]; rfl)
    exact .bind (.pure _ _) (.bind (Repository.change_yields henv.outage hupdate)
      (.bind (.say _ _ _) (.pure _ _)))

/-- Giving up an instance stores it as cancelled, or is refused. -/
theorem cancelInstance_yields (henv : env.Orderly) :
    (∃ error, (cancelInstance id).Yields env (.error error) env) ∨
      ∃ i j, env.store.instance? id = some i ∧ i.cancel env.now = .ok j ∧
        (cancelInstance id).Yields env (.ok j)
          { env with store := env.store.putInstance j } := by
  have hfound := Repository.instanceOf_yields id henv.outage
  cases hi : env.store.instance? id with
  | none =>
    rw [hi] at hfound
    exact .inl ⟨_, .bind_error hfound⟩
  | some i =>
    have hyields := cancel_yields henv hi
    cases hcancel : i.cancel env.now with
    | error error =>
      rw [hcancel] at hyields
      exact .inl ⟨error, hyields⟩
    | ok j =>
      rw [hcancel] at hyields
      exact .inr ⟨i, j, rfl, hcancel, hyields⟩

/-! ### Starting an instance -/

/-- The instance that is created at the start. -/
def newborn (env : Environment) (w : Workflow) (input : Json) : Instance :=
  Instance.new (env.ids.draw .run).1 w.id (normalizeInput input).value env.now

/-- The environment with one more instance, under the next identifier. -/
def withInstance (env : Environment) (i : Instance) : Environment :=
  { env with
    store := { env.store with instances := env.store.instances ++ [i] }
    ids := (env.ids.draw .run).2 }

/-- The situation of an instance at its start. -/
def birth (env : Environment) (w : Workflow) (input : Json) : Situation :=
  ⟨newborn env w input, [], w.parsedDefinition.value⟩

/-- What starting a new instance adds: what its first walk adds, or the failure. -/
def launched (e : Engine) (σ : Situation) (now : Timestamp) (ids : IdSource) : Effect :=
  match σ.startable e with
  | .ok () => e.begun σ now ids
  | .error error => ⟨some (σ.record.failedWith error now), [], []⟩

/-- A new instance leaves the environment orderly, and there it stands without tasks. -/
theorem withInstance_spec (henv : env.Orderly) {w : Workflow}
    (hw : env.store.workflow? w.id = some w) (input : Json)
    (hrange : (withInstance env (newborn env w input)).ids.InRange) :
    (withInstance env (newborn env w input)).Orderly ∧
      (withInstance env (newborn env w input)).store.situation? (newborn env w input).id =
        some (birth env w input) := by
  let i := newborn env w input
  have hmem := (henv.store.workflow?_eq_some_iff.mp hw).1
  have horderly : (withInstance env i).Orderly :=
    ⟨henv.outage, hrange,
      henv.store.addInstance (henv.in_range .run) rfl (henv.store.workflow_issued w hmem)⟩
  have hfree : env.store.instance? i.id = none := henv.store.instance?_next (henv.in_range .run)
  have hfound : (withInstance env i).store.instance? i.id = some i :=
    horderly.store.instance?_eq_some_iff.mpr
      ⟨List.mem_append_right _ (List.mem_singleton_self i), rfl⟩
  have htasks : (withInstance env i).store.tasksOf i.id = [] := henv.store.tasksOf_eq_nil hfree
  have hdefinition : (withInstance env i).store.definitionOf i = w.parsedDefinition.value := by
    have hworkflow : (withInstance env i).store.workflow? i.workflowId = some w := hw
    rw [Store.definitionOf, hworkflow]
  exact ⟨horderly, Engine.situation?_eq_some_iff.mpr
    ⟨i, hfound, by rw [htasks, hdefinition]; rfl⟩⟩

/-- An instance whose start fails has opened no task by then. -/
theorem begun_of_error {σ : Situation} {now : Timestamp} (ids : IdSource) {error : EngineError}
    (h : σ.startable e = .error error) (hstarted : σ.record.startedAt = now) :
    e.begun σ now ids = ⟨none, [], []⟩ ∨ e.begun σ now ids = ⟨some σ.record, [], []⟩ := by
  unfold Situation.startable at h
  unfold Engine.begun
  cases hopening : σ.opening e with
  | error _ => exact .inl rfl
  | ok ending =>
    rw [hopening] at h
    cases ending with
    | limit =>
      refine .inr ?_
      subst hstarted
      simp [Engine.walked, Engine.ended, Engine.opening, WalkEnd.openings, Engine.buildAll]
    | _ => cases h

/-- What a start stores again is the instance that is started. -/
theorem begun_record_id {σ : Situation} {now : Timestamp} {ids : IdSource}
    (hid : σ.record.id = id) (j : Instance) (h : (e.begun σ now ids).record = some j) :
    j.id = id := by
  unfold Engine.begun at h
  split at h
  · cases h
  · rcases Engine.walked_record h with rfl | rfl <;> exact hid

/-- Writing down a failure stores the instance as failed. -/
theorem recordFailure_yields (henv : env.Orderly) {i : Instance}
    (hi : env.store.instance? id = some i) (hrunning : i.isRunning) (error : EngineError) :
    (recordFailure id error).Yields env (.ok ())
      (env.after ⟨some (i.failedWith error env.now), [], []⟩) := by
  have hfound := Repository.instanceOf_yields id henv.outage
  rw [hi] at hfound
  have hfail : i.fail error.message env.now = .ok (i.failedWith error env.now) := by
    rw [Instance.fail, Instance.finish, if_pos hrunning]
    rfl
  have hid := (henv.store.instance?_eq_some_iff.mp hi).2
  have hupdate := Store.updateInstance_eq (i := i.failedWith error env.now)
    henv.store.instance_ids (by rw [Instance.failedWith, hid, hi]; rfl)
  have hafter : env.after ⟨some (i.failedWith error env.now), [], []⟩ =
      { env with store := env.store.putInstance (i.failedWith error env.now) } := by
    simp [Environment.after, Store.putInstance]
  refine .bind (.say _ _ _) (.bind hfound (.bind (.now env) ?_))
  rw [hfail, hafter]
  exact Repository.change_yields henv.outage hupdate

/-- An instance of a workflow that is missing or not active is not started. -/
theorem startInstance_refused (henv : env.Orderly) (input : Json)
    (h : ∀ w, env.store.workflow? id = some w → w.status ≠ .active) :
    ∃ error, (startInstance e id input).Yields env (.error error) env := by
  have hfound := Repository.workflow_yields id henv.outage
  cases hw : env.store.workflow? id with
  | none =>
    rw [hw] at hfound
    exact ⟨_, .bind_error hfound⟩
  | some w =>
    rw [hw] at hfound
    refine ⟨.invalidTransition "workflow" w.status.name "start an instance of",
      .bind hfound ?_⟩
    rw [Workflow.ensureStartable, if_neg (h w hw)]
    exact .bind_error (.throw _ _)

/-- What follows when a new instance has been stored. -/
def launch (e : Engine) (id : Uuid) : Operation Instance := do
  match ← attempt (e.start id) with
  | .ok () => Repository.instanceOf id
  | .error error =>
    recordFailure id error
    throw error

/-- Recording a failed start takes no identifier back. -/
theorem recordFailure_onlyDraws (id : Uuid) (error : EngineError) :
    (recordFailure id error).OnlyDraws := by
  refine .bind (.say _ _) fun _ => .bind (Repository.instanceOf_onlyDraws id) fun i =>
    .bind .now fun now => ?_
  split
  · exact .perform _ _
  · exact .pure _

/-- A launch takes no identifier back. -/
theorem launch_onlyDraws (e : Engine) (id : Uuid) : (launch e id).OnlyDraws := by
  refine .bind (.attempt (Engine.start_onlyDraws id)) fun outcome => ?_
  cases outcome with
  | ok _ => exact Repository.instanceOf_onlyDraws id
  | error error => exact .bind (recordFailure_onlyDraws id error) fun _ => .throw _

/-- An instance that is stored is started, or left as a failed one without tasks. -/
theorem launch_yields (henv : env.Orderly) {σ : Situation}
    (hσ : env.store.situation? id = some σ) (hrunning : σ.record.isRunning)
    (hstarted : σ.record.startedAt = env.now) {w : Workflow}
    (hw : env.store.workflow? σ.record.workflowId = some w) (hactive : w.status = .active)
    (hrange : (launch e id).StaysInRange env) :
    let effect := launched e σ env.now env.ids
    (env.after effect).Orderly ∧
      (launch e id).Yields env ((σ.startable e).map fun _ => effect.record.getD σ.record)
        (env.after effect) := by
  obtain ⟨hstored, hid⟩ := Engine.record_id hσ
  obtain ⟨hstart, horderly⟩ := Engine.start_yields henv hσ hrunning hw hactive
    (hrange.first fun outcome => by
      cases outcome with
      | ok _ => exact Repository.instanceOf_onlyDraws id
      | error error => exact .bind (recordFailure_onlyDraws id error) fun _ => .throw _)
  unfold launched
  rw [hid] at hstored
  cases hstartable : σ.startable e with
  | ok _ =>
    rw [hstartable] at hstart
    refine ⟨horderly, .bind (.attempt hstart) ?_⟩
    have hread := Repository.instanceOf_yields id horderly.outage
    rw [Engine.instance?_after hstored (begun_record_id hid)] at hread
    exact hread
  | error error =>
    rw [hstartable] at hstart
    -- the start has stored at most the record that is there
    have hstay : env.after (e.begun σ env.now env.ids) = env := by
      rcases begun_of_error env.ids hstartable hstarted with h | h
      · rw [h, Engine.after_nothing]
      · rw [h, Engine.after_stored henv (by rw [hid]; exact hstored)]
    rw [hstay] at hstart
    have hmem := (henv.store.instance?_eq_some_iff.mp hstored).1
    refine ⟨⟨henv.outage, henv.in_range, ?_⟩, .bind (.attempt hstart)
      (.bind (recordFailure_yields henv hstored hrunning error) (.throw _ _))⟩
    simpa [Environment.after, Store.putInstance] using
      henv.store.putInstance (i := σ.record.failedWith error env.now) hmem rfl rfl

/-- Starting an instance of an active workflow stores it, with the tasks that its first walk
opens or as a failed one without tasks. -/
theorem startInstance_yields (henv : env.Orderly) {w : Workflow}
    (hw : env.store.workflow? id = some w) (hactive : w.status = .active) (input : Json)
    (hrange : (startInstance e id input).StaysInRange env) :
    let env₁ := withInstance env (newborn env w input)
    let σ := birth env w input
    let effect := launched e σ env.now env₁.ids
    env₁.Orderly ∧ env₁.store.situation? σ.record.id = some σ ∧ (env₁.after effect).Orderly ∧
      (startInstance e id input).Yields env
        ((σ.startable e).map fun _ => effect.record.getD σ.record) (env₁.after effect) := by
  intro env₁ σ effect
  have hwid := (henv.store.workflow?_eq_some_iff.mp hw).2
  have hfound := Repository.workflow_yields id henv.outage
  rw [hw] at hfound
  have hensure : (lift w.ensureStartable).Yields env (.ok ()) env := by
    rw [Workflow.ensureStartable, if_pos hactive]
    exact .pure _ _
  let i := newborn env w input
  have hborn : (newInstance w.id input).Yields env (.ok i)
      { env with ids := (env.ids.draw .run).2 } :=
    .bind (.freshId .run env) (.bind (.heed _ _) (.bind (.now _) (.pure _ _)))
  have hfree : env.store.instance? i.id = none := henv.store.instance?_next (henv.in_range .run)
  have hsave : (Repository.saveInstance i).Yields { env with ids := (env.ids.draw .run).2 }
      (.ok ()) env₁ := by
    refine Repository.change_yields henv.outage ?_
    rw [Store.saveInstance, hfree]
    rfl
  have hlaunch : (launch e i.id).StaysInRange env₁ :=
    (((hrange.second hfound).second hensure).second hborn).second hsave
  obtain ⟨horderly, hσ⟩ := withInstance_spec henv (by rw [hwid]; exact hw) input
    (hlaunch.before (launch_onlyDraws e i.id))
  obtain ⟨hlast, hyields⟩ := launch_yields horderly hσ rfl rfl
    (w := w) (by rw [← hw, ← hwid]; rfl) hactive hlaunch
  exact ⟨horderly, hσ, hlast,
    .bind hfound (.bind hensure (.bind hborn (.bind hsave hyields)))⟩

/-! ### Managing only draws identifiers -/

/-- Creating a workflow takes no identifier back. -/
theorem create_onlyDraws (name description definition : String) :
    (create name description definition).OnlyDraws :=
  .bind (.heedResult _) fun _ => .bind (.freshId _) fun _ => .bind .now fun _ =>
    .bind (.perform _ _) fun _ => .bind (.say _ _) fun _ => .pure _

/-- Changing the status of a workflow takes no identifier back. -/
theorem apply_onlyDraws (a : WorkflowAction) : (apply a id).OnlyDraws :=
  .bind (Repository.workflow_onlyDraws id) fun _ => .bind .now fun _ => .bind (.lift _) fun _ =>
    .bind (.perform _ _) fun _ => .bind (.say _ _) fun _ => .pure _

/-- Deleting a workflow takes no identifier back. -/
theorem delete_onlyDraws : (delete id).OnlyDraws := by
  refine .bind (Repository.workflow_onlyDraws id) fun w => ?_
  dsimp only
  split
  · exact .throw_bind _ _
  · exact .bind (.perform _ _) fun _ => .say _ _

/-- Replacing the definition of a workflow takes no identifier back. -/
theorem updateDefinition_onlyDraws (definition : String) :
    (updateDefinition id definition).OnlyDraws :=
  .bind (Repository.workflow_onlyDraws id) fun _ => .bind .now fun _ =>
    .bind (.heedResult _) fun _ => .bind (.perform _ _) fun _ => .bind (.say _ _) fun _ => .pure _

/-- Cancelling an instance takes no identifier back. -/
theorem cancelInstance_onlyDraws : (cancelInstance id).OnlyDraws :=
  .bind (Repository.instanceOf_onlyDraws id) fun _ => .bind .now fun _ => .bind (.lift _) fun _ =>
    .bind (.perform _ _) fun _ => .bind (.say _ _) fun _ => .pure _

/-- Starting an instance takes no identifier back. -/
theorem startInstance_onlyDraws (input : Json) : (startInstance e id input).OnlyDraws := by
  refine .bind (Repository.workflow_onlyDraws id) fun w => .bind (.lift _) fun _ => ?_
  refine .bind ?_ fun i => .bind (.perform _ _) fun _ => launch_onlyDraws e i.id
  exact .bind (.freshId _) fun _ => .bind (.heed _) fun _ => .bind .now fun _ => .pure _

end Workflows

end ApprovalWorkflow
