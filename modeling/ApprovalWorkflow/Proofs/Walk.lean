import ApprovalWorkflow.Engine.Walk
import ApprovalWorkflow.Proofs.Identifiers
import ApprovalWorkflow.Proofs.Yields

/-!
# Where a walk ends

A walk changes nothing before its end. Which end that is depends on the definition, on the input
and the tasks of the instance, and on how many steps may be taken: `Definition.walk` computes it
without a store. What the engine does is then the end alone: it opens the tasks that the end
asks for, completes the instance, or does nothing (`Engine.settle`, `advance_actsAs`).

An end that opens tasks opens them one by one under fresh identifiers. As long as identifiers
last no task is refused, so that either all tasks are opened or none (`settle_yields`).
-/

set_option autoImplicit false

namespace ApprovalWorkflow

/-- A task to be opened: the step it is built from, its key, and the parallel step that opens
it. -/
structure Opening where
  step : Step
  key : String
  parent : Option String

/-- Where a walk ends. -/
inductive WalkEnd where
  /-- It opens the task of a step. -/
  | task (s : Step)
  /-- It opens a task for each of some branches of a parallel step. -/
  | branches (parallel : Step) (chosen : List Step)
  /-- It completes the instance. -/
  | completion
  /-- No step follows. -/
  | nothing
  /-- It has taken as many steps as it may. -/
  | limit

namespace WalkEnd

/-- The tasks that are opened at the end. -/
def openings : WalkEnd → List Opening
  | .task s => [⟨s, s.id, none⟩]
  | .branches parallel chosen => chosen.map fun b => ⟨b, parallel.branchKey b, some parallel.id⟩
  | _ => []

/-- Whether the walk succeeds. -/
def outcome (maxAutoSteps : Nat) : WalkEnd → Except EngineError Unit
  | .limit => .error (.stepLimitExceeded maxAutoSteps)
  | _ => .ok ()

end WalkEnd

namespace Definition

/-- Where a walk ends that arrives at a step. `onward` is where it ends if it goes on from
there. -/
def arrival (around : Surroundings) (s : Step) (onward : WalkEnd) : WalkEnd :=
  match s.kind with
  | .userTask _ => .task s
  | .process => onward
  | .parallel branches =>
    let chosen := (Engine.qualifying around branches).value
    if chosen.isEmpty then onward else .branches s chosen
  | .complete => .completion
  | .unknown _ => onward

/-- Where a walk ends that goes on from a step, with so many steps left that it may take. -/
def walk (d : Definition) (around : Surroundings) : Nat → Step → WalkEnd
  | 0, _ => .limit
  | remaining + 1, s =>
    match (d.successor around s).value with
    | some next => arrival around next (walk d around remaining next)
    | none => .nothing

end Definition

namespace Task

/-- What a task takes over from a step. -/
theorem applyParams_value (t : Task) (params : TaskParams) (input : Json) :
    (t.applyParams params input).value =
      { t with
        assignee := params.assignee.bind fun template => resolveAssignee template input
        candidateUsers := params.candidateUsers
        candidateGroups := params.candidateGroups
        priority := params.priority
        formData :=
          .obj [("fields", .arr (params.formFields.map fun f => .ofFields f.toFields))] } := by
  unfold applyParams
  dsimp only
  split <;> rfl

/-- The task that is built from a step. -/
theorem build_value (id : Uuid) (i : Instance) (s : Step) (key : String) (parent : Option String)
    (history : List Task) (labels : ResultLabels) (now : Timestamp) :
    (build id i s key parent history labels now).value =
      { new id i.id i.workflowId key (if s.name = "" then s.id else s.name) now with
        parentStepId := parent
        description := s.description
        typeName := s.typeName
        dueDate := (dueDateOf s now).value
        assignee := (s.params?.getD .default).assignee.bind fun template =>
          resolveAssignee template i.input
        candidateUsers := (s.params?.getD .default).candidateUsers
        candidateGroups := (s.params?.getD .default).candidateGroups
        priority := (s.params?.getD .default).priority
        formData := .obj [("fields",
          .arr ((s.params?.getD .default).formFields.map fun f => .ofFields f.toFields))]
        taskData := carriedData i.input (historyBlock history labels) } := by
  simp only [build, Logged.value_bind, applyParams_value]
  rfl

end Task

namespace Instance

/-- The instance at its end. -/
def completed (i : Instance) (tasks : List Task) (now : Timestamp) : Instance :=
  { i with
    status := .completed, completedAt := some now, output := some (Engine.completedOutputs tasks) }

end Instance

namespace Engine

open Operation Repository

variable {e : Engine} {i : Instance} {env env₁ : Environment}

/-- The task of an opening. -/
def built (e : Engine) (i : Instance) (history : List Task) (now : Timestamp) (id : Uuid)
    (o : Opening) : Task :=
  (Task.build id i o.step o.key o.parent history e.settings.resultLabels now).value

/-- The tasks of some openings, under the next identifiers of a source. -/
def buildAll (e : Engine) (i : Instance) (history : List Task) (now : Timestamp) :
    IdSource → List Opening → List Task
  | _, [] => []
  | ids, o :: os =>
    e.built i history now (ids.draw .task).1 o :: buildAll e i history now (ids.draw .task).2 os

/-- Opens tasks one after the other. -/
def openAll (e : Engine) (i : Instance) (history : List Task) : List Opening → Operation Unit
  | [] => return
  | o :: os => do
    let _ ← e.openTask i o.step o.key o.parent history
    openAll e i history os

/-- What the engine does at the end of a walk. -/
def settle (e : Engine) (i : Instance) (history : List Task) : WalkEnd → Operation Unit
  | .completion => e.completeInstance i
  | .limit => throw (.stepLimitExceeded e.settings.maxAutoSteps)
  | ending => e.openAll i history ending.openings

/-! ## Fresh tasks -/

section Built

variable (i : Instance) (history : List Task) (now : Timestamp) (id : Uuid) (o : Opening)

/-- A task that is built has the identifier that was drawn for it. -/
@[simp] theorem built_id : (e.built i history now id o).id = id := by
  rw [built, Task.build_value]
  rfl

/-- A task that is built belongs to the instance. -/
@[simp] theorem built_instanceId : (e.built i history now id o).instanceId = i.id := by
  rw [built, Task.build_value]
  rfl

/-- A task that is built has the key of its opening. -/
@[simp] theorem built_key : (e.built i history now id o).key = o.key := by
  rw [built, Task.build_value]
  rfl

/-- A task that is built has the parent step of its opening. -/
@[simp] theorem built_parentStepId : (e.built i history now id o).parentStepId = o.parent := by
  rw [built, Task.build_value]

/-- A task that is built is pending. -/
@[simp] theorem built_status : (e.built i history now id o).status = .pending := by
  rw [built, Task.build_value]
  rfl

/-- A task that is built has not been carried through. -/
@[simp] theorem built_progression : (e.built i history now id o).progression = .idle := by
  rw [built, Task.build_value]
  rfl

/-- A task that is built was created at the time at which it is built. -/
@[simp] theorem built_createdAt : (e.built i history now id o).createdAt = now := by
  rw [built, Task.build_value]
  rfl

end Built

/-- Every task that is built belongs to one of the openings. -/
theorem mem_buildAll {i : Instance} {history : List Task} {now : Timestamp} {ids : IdSource}
    {os : List Opening} {t : Task} (h : t ∈ e.buildAll i history now ids os) :
    ∃ o ∈ os, ∃ id, t = e.built i history now id o := by
  induction os generalizing ids with
  | nil => cases h
  | cons o os ih =>
    rcases List.mem_cons.mp h with rfl | h
    · exact ⟨o, List.mem_cons_self, _, rfl⟩
    · obtain ⟨o', ho', id, rfl⟩ := ih h
      exact ⟨o', List.mem_cons_of_mem o ho', id, rfl⟩

/-! ## A walk acts as its end -/

/-- Reading the tasks of an instance yields those of the store. -/
theorem tasksOf_yields (e : Engine) (id : Uuid) (h : env.outage = none) :
    (e.tasksOf id).Yields env (.ok (env.store.tasksOf id)) env := allTasks_yields id _ h

/-- Looking for the next step yields the successor of the step. -/
theorem nextStep_yields (e : Engine) (d : Definition) (s : Step) (i : Instance)
    (h : env.outage = none) :
    (e.nextStep d s i).Yields env
      (.ok (d.successor ⟨i.input, env.store.tasksOf i.id⟩ s).value) env :=
  .bind (e.tasksOf_yields i.id h) (.heed _ env)

/-- Opening a task for each branch is opening the tasks of the end. -/
theorem openBranches_eq (e : Engine) (i : Instance) (parallel : Step) (history : List Task)
    (chosen : List Step) :
    e.openBranches i parallel history chosen =
      e.openAll i history (WalkEnd.branches parallel chosen).openings := by
  induction chosen with
  | nil => rfl
  | cons b chosen ih =>
    rw [openBranches, ih]
    rfl

/-- Executing a step acts as the end of a walk that arrives there. -/
theorem execute_actsAs (h : env.outage = none) (s : Step) {onward : Operation Unit}
    {ending : WalkEnd}
    (honward : onward.ActsAs (e.settle i (env.store.tasksOf i.id) ending) env) :
    (e.execute i s onward).ActsAs (e.settle i (env.store.tasksOf i.id)
      (Definition.arrival ⟨i.input, env.store.tasksOf i.id⟩ s ending)) env := by
  unfold execute Definition.arrival
  refine .after (.say _ _ env) ?_
  cases hkind : s.kind with
  | userTask params => exact .after (e.tasksOf_yields i.id h) (.refl _ _)
  | process => exact honward
  | parallel branches =>
    refine .after (e.tasksOf_yields i.id h) (.after (.heed _ env) ?_)
    dsimp only
    split
    · exact .after (.say _ _ env) honward
    · rw [openBranches_eq]
      exact .refl _ _
  | complete => exact .refl _ _
  | unknown typeName => exact .after (.say _ _ env) honward

/-- Going on from a step acts as the end of the walk. The induction is on the number of steps
that may still be taken; the store stays as it is until the end, so that all steps on the way
see the same tasks. -/
theorem advance_actsAs (h : env.outage = none) (d : Definition) (remaining : Nat) (s : Step) :
    (e.advance d i remaining s).ActsAs (e.settle i (env.store.tasksOf i.id)
      (d.walk ⟨i.input, env.store.tasksOf i.id⟩ remaining s)) env := by
  induction remaining generalizing s with
  | zero => exact .refl _ _
  | succ remaining ih =>
    rw [advance, Definition.walk]
    refine .after (e.nextStep_yields d s i h) ?_
    cases (d.successor ⟨i.input, env.store.tasksOf i.id⟩ s).value with
    | none => exact .say _ _ env
    | some next => exact execute_actsAs h next (ih next)

end Engine

/-! ## What the end of a walk changes -/

/-- What moving an instance on adds to an environment. -/
structure Effect where
  /-- The instance as it is stored again, if it is. -/
  record : Option Instance
  /-- The tasks that are opened, under the next identifiers. -/
  opened : List Task
  notices : List Notice

/-- The environment with what moving an instance on adds to it. -/
def Environment.after (env : Environment) (c : Effect) : Environment :=
  { env with
    store := { env.store with
      instances :=
        match c.record with
        | some i => put Instance.id i env.store.instances
        | none => env.store.instances
      tasks := env.store.tasks ++ c.opened }
    ids := { env.ids with tasks := env.ids.tasks + c.opened.length }
    notices := env.notices ++ c.notices }

/-- What is added in two steps may be added in one. -/
theorem Environment.after_after (env : Environment) {c c' : Effect} (h : c.record = none) :
    (env.after c).after c' =
      env.after ⟨c'.record, c.opened ++ c'.opened, c.notices ++ c'.notices⟩ := by
  simp only [after, h, List.append_assoc, List.length_append, Nat.add_assoc]

namespace Engine

open Operation

variable {e : Engine} {i : Instance} {env : Environment}

/-- What opening tasks adds. -/
def opening (e : Engine) (i : Instance) (history : List Task) (now : Timestamp) (ids : IdSource)
    (os : List Opening) : Effect :=
  let opened := e.buildAll i history now ids os
  ⟨none, opened, e.notifier.sent (opened.map .taskCreated)⟩

/-- What the end of a walk adds. -/
def ended (e : Engine) (i : Instance) (history : List Task) (now : Timestamp) (ids : IdSource) :
    WalkEnd → Effect
  | .completion =>
    let i := i.completed history now
    ⟨some i, [], e.notifier.sent [.workflowCompleted i]⟩
  | ending => e.opening i history now ids ending.openings

/-- Opening a task takes the next identifier and stores the task under it. -/
theorem openTask_yields (henv : env.Orderly) {t : Task} {history : List Task} {o : Opening}
    (ht : t = e.built i history env.now (env.ids.draw .task).1 o) :
    (e.openTask i o.step o.key o.parent history).Yields env (.ok t)
      (env.after ⟨none, [t], e.notifier.sent [.taskCreated t]⟩) := by
  have hfree : env.store.task? t.id = none := by
    rw [ht, built_id]
    exact henv.store.task?_next (henv.in_range .task)
  have hsave : env.store.saveTask t =
      .ok { env.store with tasks := env.store.tasks ++ [t] } := by
    rw [Store.saveTask, hfree]
    rfl
  subst ht
  refine .bind (.freshId .task env) (.bind (.now _) (.bind (.heed _ _) ?_))
  refine .bind (Repository.change_yields henv.outage hsave) (.bind (.say _ _ _) ?_)
  exact .bind (.announce e.notifier _ _) (.pure _ _)

/-- Opening a task takes no identifier back. -/
theorem openTask_onlyDraws (i : Instance) (s : Step) (key : String) (parent : Option String)
    (history : List Task) : (e.openTask i s key parent history).OnlyDraws := by
  refine .bind (.freshId _) fun id => .bind .now fun now => .bind (.heed _) fun t => ?_
  refine .bind (.perform _ _) fun _ => .bind (.say _ _) fun _ => ?_
  exact .bind (.announce _ _) fun _ => .pure t

/-- Opening several tasks takes no identifier back. The induction is on the openings. -/
theorem openAll_onlyDraws (i : Instance) (history : List Task) (os : List Opening) :
    (e.openAll i history os).OnlyDraws := by
  induction os with
  | nil => exact .pure ()
  | cons o os ih => exact .bind (openTask_onlyDraws i _ _ _ _) fun _ => ih

/-- An orderly environment stays orderly with one more task. -/
theorem orderly_after_task (henv : env.Orderly) {t : Task} {notices : List Notice}
    (hid : t.id = (env.ids.draw .task).1) (howned : (env.store.instance? t.instanceId).isSome)
    (hrange : (env.after ⟨none, [t], notices⟩).ids.InRange) :
    (env.after ⟨none, [t], notices⟩).Orderly where
  outage := henv.outage
  in_range := hrange
  store := henv.store.addTask (henv.in_range .task) hid howned

/-- Opening tasks opens all of them, and the environment stays orderly. -/
theorem openAll_yields (henv : env.Orderly) (howned : (env.store.instance? i.id).isSome)
    (history : List Task) (os : List Opening)
    (hrange : (e.openAll i history os).StaysInRange env) :
    (e.openAll i history os).Yields env (.ok ())
        (env.after (e.opening i history env.now env.ids os)) ∧
      (env.after (e.opening i history env.now env.ids os)).Orderly := by
  induction os generalizing env with
  | nil =>
    have hnothing : env.after (e.opening i history env.now env.ids []) = env := by
      simp [Environment.after, opening, buildAll]
    rw [hnothing]
    exact ⟨.pure () env, henv⟩
  | cons o os ih =>
    let t := e.built i history env.now (env.ids.draw .task).1 o
    have hfirst := openTask_yields (e := e) henv (t := t) rfl
    have hrest := hrange.second hfirst
    have hrange₁ := hrest.before (openAll_onlyDraws i history os)
    have henv₁ := orderly_after_task henv (built_id ..) (by rwa [built_instanceId]) hrange₁
    -- The others are opened in the environment that the first task leaves.
    obtain ⟨hyields, horderly⟩ := ih henv₁ howned hrest
    have hall : (env.after ⟨none, [t], e.notifier.sent [.taskCreated t]⟩).after
          (e.opening i history env.now (env.ids.draw .task).2 os) =
        env.after (e.opening i history env.now env.ids (o :: os)) := by
      rw [Environment.after_after env rfl]
      simp only [opening, buildAll, List.map_cons, List.singleton_append,
        ← Notifier.sent_append]
      rfl
    exact ⟨.bind hfirst (hall ▸ hyields), hall ▸ horderly⟩

/-- Completing a running instance stores it as completed. -/
theorem completeInstance_yields (henv : env.Orderly) (hstored : env.store.instance? i.id = some i)
    (hrunning : i.isRunning) :
    (e.completeInstance i).Yields env (.ok ())
      (env.after (e.ended i (env.store.tasksOf i.id) env.now env.ids .completion)) := by
  have hcomplete : i.complete (completedOutputs (env.store.tasksOf i.id)) env.now =
      .ok (i.completed (env.store.tasksOf i.id) env.now) := by
    rw [Instance.complete, Instance.finish, if_pos hrunning]
    rfl
  have hupdate := Store.updateInstance_eq (i := i.completed (env.store.tasksOf i.id) env.now)
    henv.store.instance_ids (by rw [Instance.completed, hstored]; rfl)
  refine .bind (e.tasksOf_yields i.id henv.outage) (.bind (.now _) ?_)
  rw [hcomplete]
  refine .bind (.pure _ _) (.bind (Repository.change_yields henv.outage hupdate) ?_)
  refine .bind (.say _ _ _) ?_
  have hafter : env.after (e.ended i (env.store.tasksOf i.id) env.now env.ids .completion) =
      { env with
        store := env.store.putInstance (i.completed (env.store.tasksOf i.id) env.now)
        notices := env.notices ++ e.notifier.sent
          [.workflowCompleted (i.completed (env.store.tasksOf i.id) env.now)] } := by
    simp [Environment.after, ended, Store.putInstance]
  rw [hafter]
  exact .announce e.notifier _ _

/-- An orderly environment stays orderly when the end of a walk completes the instance. -/
theorem orderly_after_completion (henv : env.Orderly)
    (hstored : env.store.instance? i.id = some i) (history : List Task) :
    (env.after (e.ended i history env.now env.ids .completion)).Orderly where
  outage := henv.outage
  in_range := henv.in_range
  store := by
    have hmem := (henv.store.instance?_eq_some_iff.mp hstored).1
    have hput := henv.store.putInstance (i := i.completed history env.now) hmem rfl rfl
    simpa [Environment.after, ended, Store.putInstance] using hput

/-- The end of a walk adds what it is said to add, and the environment stays orderly. -/
theorem settle_yields (henv : env.Orderly) (hstored : env.store.instance? i.id = some i)
    (hrunning : i.isRunning) (ending : WalkEnd)
    (hrange : (e.settle i (env.store.tasksOf i.id) ending).StaysInRange env) :
    (e.settle i (env.store.tasksOf i.id) ending).Yields env
        (ending.outcome e.settings.maxAutoSteps)
        (env.after (e.ended i (env.store.tasksOf i.id) env.now env.ids ending)) ∧
      (env.after (e.ended i (env.store.tasksOf i.id) env.now env.ids ending)).Orderly := by
  have howned : (env.store.instance? i.id).isSome := by rw [hstored]; rfl
  cases ending with
  | task s => exact openAll_yields henv howned _ _ hrange
  | branches parallel chosen => exact openAll_yields henv howned _ _ hrange
  | completion =>
    exact ⟨completeInstance_yields henv hstored hrunning,
      orderly_after_completion henv hstored _⟩
  | nothing => exact openAll_yields henv howned _ _ hrange
  | limit =>
    have hnothing : env.after (e.ended i (env.store.tasksOf i.id) env.now env.ids .limit) =
        env := by
      simp [Environment.after, ended, opening, WalkEnd.openings, buildAll]
    rw [hnothing]
    exact ⟨.throw _ _, henv⟩

/-! ## Walks only draw identifiers -/

/-- Reading the tasks of an instance takes no identifier back. -/
theorem tasksOf_onlyDraws (id : Uuid) : (e.tasksOf id).OnlyDraws :=
  Repository.allTasks_onlyDraws id _

/-- Completing an instance takes no identifier back. -/
theorem completeInstance_onlyDraws (i : Instance) : (e.completeInstance i).OnlyDraws := by
  refine .bind (tasksOf_onlyDraws i.id) fun tasks => .bind .now fun now => ?_
  refine .bind (.lift _) fun i => .bind (.perform _ _) fun _ => ?_
  exact .bind (.say _ _) fun _ => .announce _ _

/-- Executing a step takes no identifier back, if what comes behind it does not. -/
theorem execute_onlyDraws (i : Instance) (s : Step) {onward : Operation Unit}
    (honward : onward.OnlyDraws) : (e.execute i s onward).OnlyDraws := by
  unfold execute
  refine .bind (.say _ _) fun _ => ?_
  cases s.kind with
  | userTask params =>
    exact .bind (tasksOf_onlyDraws i.id) fun tasks =>
      .bind (openTask_onlyDraws i _ _ _ _) fun _ => .pure ()
  | process => exact honward
  | parallel branches =>
    refine .bind (tasksOf_onlyDraws i.id) fun tasks => .bind (.heed _) fun chosen => ?_
    split
    · exact .bind (.say _ _) fun _ => honward
    · rw [openBranches_eq]
      exact openAll_onlyDraws i _ _
  | complete => exact completeInstance_onlyDraws i
  | unknown typeName => exact .bind (.say _ _) fun _ => honward

/-- A walk takes no identifier back. The induction is on the steps that are left to it. -/
theorem advance_onlyDraws (d : Definition) (i : Instance) (remaining : Nat) (s : Step) :
    (e.advance d i remaining s).OnlyDraws := by
  induction remaining generalizing s with
  | zero => exact .throw _
  | succ remaining ih =>
    refine .bind (.bind (tasksOf_onlyDraws i.id) fun _ => .heed _) fun next => ?_
    cases next with
    | none => exact .say _ _
    | some next => exact execute_onlyDraws i next (ih next)

end Engine

end ApprovalWorkflow
