import ApprovalWorkflow.Engine.Progress
import ApprovalWorkflow.Proofs.Walk

/-!
# What becomes of a finished task

What the engine does with a finished task depends on the situation of its instance alone: on the
record of the instance, on its tasks, and on the definition that it follows. From these
`Situation.course` computes how the instance goes on. It may fail or have to wait; it may walk
on, perhaps because a join fires; or it may open an earlier task again.

`Engine.effect` says what each course adds to an environment, and `progress_yields` that carrying
a finished task through adds exactly this and writes the outcome down on the task.
-/

set_option autoImplicit false

namespace ApprovalWorkflow

/-! ## Situations and courses -/

/-- The definition that an instance follows. -/
def Store.definitionOf (s : Store) (i : Instance) : Except EngineError Definition :=
  match s.workflow? i.workflowId with
  | some w => w.parsedDefinition.value
  | none => .error (.workflowNotFound i.workflowId)

/-- What is found under an identifier has this identifier. -/
theorem Store.id_of_instance? {s : Store} {id : Uuid} {i : Instance}
    (h : s.instance? id = some i) : i.id = id := by
  simpa using List.find?_some h

/-- A task that is found has the identifier under which it is found. -/
theorem Store.id_of_task? {s : Store} {id : Uuid} {t : Task} (h : s.task? id = some t) :
    t.id = id := by
  simpa using List.find?_some h

/-- An instance with its tasks and the definition that it follows. -/
structure Situation where
  record : Instance
  tasks : List Task
  definition : Except EngineError Definition

/-- The situation of an instance of the store. -/
def Store.situation? (s : Store) (id : Uuid) : Option Situation :=
  (s.instance? id).map fun i => ⟨i, s.tasksOf id, s.definitionOf i⟩

/-- A rejected task that is no branch leads back. -/
def Task.GoesBack (t : Task) : Prop := t.result = some .rejected ∧ ¬ t.isBranch

instance (t : Task) : Decidable t.GoesBack := inferInstanceAs (Decidable (_ ∧ _))

/-- How an instance goes on after a task. -/
inductive Course where
  /-- It does not go on. -/
  | fails (error : EngineError)
  /-- It has to wait for other branches, or a join has fired already. -/
  | waits
  /-- It walks on, after its record has become `i`. -/
  | walks (i : Instance) (ending : WalkEnd)
  /-- It goes back to a task. -/
  | reopens (previous : Task) (origin : TaskOrigin)

namespace Course

/-- Whether the instance goes on. -/
def outcome (e : Engine) : Course → Except EngineError Unit
  | .fails error => .error error
  | .walks _ ending => ending.outcome e.settings.maxAutoSteps
  | _ => .ok ()

end Course

namespace Situation

/-- The definition of a running instance. -/
def followed (σ : Situation) : Except EngineError Definition :=
  if σ.record.isRunning then σ.definition else .error (.instanceNotRunning σ.record.id)

/-- What guards can refer to. -/
def around (σ : Situation) : Surroundings := ⟨σ.record.input, σ.tasks⟩

/-- The record of the instance after the join of a parallel step, if the join fires. -/
def firing? (σ : Situation) (now : Timestamp) (parallel : Step) : Option Instance :=
  (parallel.resolvedSiblings? σ.tasks).bind fun ids => σ.record.claimJoin? parallel.id ids now

/-- The course behind a step: a walk, if the step is no parallel one or if its join fires. -/
def leadOn (σ : Situation) (e : Engine) (now : Timestamp) (d : Definition) (s : Step) : Course :=
  let ending := d.walk σ.around e.settings.maxAutoSteps s
  if s.isParallel then
    match σ.firing? now s with
    | none => .waits
    | some i => .walks i ending
  else .walks σ.record ending

/-- The course behind a task that leads on. -/
def onward (σ : Situation) (e : Engine) (now : Timestamp) (d : Definition) (t : Task) : Course :=
  match d.flowStep t with
  | .error error => .fails error
  | .ok s => σ.leadOn e now d s

/-- The course behind a task that leads back. -/
def back (σ : Situation) (now : Timestamp) (d : Definition) (t : Task) : Course :=
  match Engine.previousTask? t (t.completedAt.getD now) σ.tasks with
  | none => .fails (.noPreviousTask t.id)
  | some previous =>
    match d.resolve? previous.key with
    | none => .fails (.stepNotFound previous.key)
    | some origin => .reopens previous origin

/-- The course behind a task. -/
def course (σ : Situation) (e : Engine) (now : Timestamp) (t : Task) : Course :=
  match σ.followed with
  | .error error => .fails error
  | .ok d => if t.GoesBack then σ.back now d t else σ.onward e now d t

end Situation

/-- An instance that goes back opens a task again, or it fails. -/
theorem Situation.back_fails_or_reopens (σ : Situation) (now : Timestamp) (d : Definition)
    (t : Task) :
    (∃ error, σ.back now d t = .fails error) ∨
      ∃ previous origin, σ.back now d t = .reopens previous origin := by
  unfold back
  split
  · exact .inl ⟨_, rfl⟩
  · split
    · exact .inl ⟨_, rfl⟩
    · exact .inr ⟨_, _, rfl⟩

/-- A course behind a task that leads back does not walk. -/
theorem Situation.back_ne_walks (σ : Situation) (now : Timestamp) (d : Definition) (t : Task)
    (j : Instance) (ending : WalkEnd) : σ.back now d t ≠ .walks j ending := by
  obtain ⟨error, hback⟩ | ⟨previous, origin, hback⟩ := σ.back_fails_or_reopens now d t
  · rw [hback]
    exact nofun
  · rw [hback]
    exact nofun

/-- The task with the outcome of carrying it through. -/
def Task.marked (t : Task) : Except EngineError Unit → Task
  | .ok () => { t with progression := .advanced }
  | .error error => { t with progression := .failed error.message }

/-- The environment with a task in the place of the one with its identifier. -/
def Environment.putTask (env : Environment) (t : Task) : Environment :=
  { env with store := env.store.putTask t }

namespace Engine

/-- The task that is opened again in place of an earlier one. -/
def reopened (e : Engine) (σ : Situation) (now : Timestamp) (id : Uuid) (t previous : Task)
    (origin : TaskOrigin) : Task :=
  let built := e.built σ.record σ.tasks now id
    ⟨origin.taskStep, previous.key, origin.parentId?⟩
  let assigned := { built with assignee := previous.assignee.or built.assignee }
  assigned.markRejected t (t.completedAt.getD now)

/-- The notice about a task that is opened again. -/
def reopenedNotice (t : Task) : Notice :=
  match t.assignee with
  | some assignee => .taskAssigned t assignee
  | none => .taskCreated t

/-- What a walk adds to an environment in which the record of the instance becomes `i`
before. -/
def walked (e : Engine) (i : Instance) (history : List Task) (now : Timestamp) (ids : IdSource)
    (ending : WalkEnd) : Effect :=
  let ended := e.ended i history now ids ending
  { ended with record := some (ended.record.getD i) }

/-- What a course adds to an environment. -/
def effect (e : Engine) (σ : Situation) (now : Timestamp) (ids : IdSource) (t : Task) :
    Course → Effect
  | .walks i ending => e.walked i σ.tasks now ids ending
  | .reopens previous origin =>
    let t := e.reopened σ now (ids.draw .task).1 t previous origin
    ⟨none, [t], e.notifier.sent [reopenedNotice t]⟩
  | _ => ⟨none, [], []⟩

end Engine

namespace Engine

open Operation

variable {e : Engine} {env : Environment} {σ : Situation} {t : Task}

/-! ## Situations of the store -/

/-- A situation of the store is made of its records. -/
theorem situation?_eq_some_iff {s : Store} {id : Uuid} :
    s.situation? id = some σ ↔
      ∃ i, s.instance? id = some i ∧ σ = ⟨i, s.tasksOf id, s.definitionOf i⟩ := by
  rw [Store.situation?, Option.map_eq_some_iff]
  simp only [eq_comm]

/-- Only a running instance follows a definition. -/
theorem followed_eq_ok {d : Definition} :
    σ.followed = .ok d ↔ σ.record.isRunning ∧ σ.definition = .ok d := by
  unfold Situation.followed
  split <;> simp_all

/-- The record in the situation of an instance is the one that is found under its identifier. -/
theorem record_id {s : Store} {id : Uuid} (hσ : s.situation? id = some σ) :
    s.instance? σ.record.id = some σ.record ∧ σ.record.id = id := by
  obtain ⟨i, hi, rfl⟩ := situation?_eq_some_iff.mp hσ
  have hid := Store.id_of_instance? hi
  exact ⟨by rw [hid]; exact hi, hid⟩

/-- The tasks in the situation of an instance are those that the store has for it. -/
theorem tasks_eq {s : Store} {id : Uuid} (hσ : s.situation? id = some σ) :
    s.tasksOf σ.record.id = σ.tasks := by
  rw [(record_id hσ).2]
  obtain ⟨i, hi, rfl⟩ := situation?_eq_some_iff.mp hσ
  rfl

/-- A task in the situation of an instance is a task of the store. -/
theorem mem_of_situation? {s : Store} {id : Uuid} (hσ : s.situation? id = some σ)
    (ht : t ∈ σ.tasks) : t ∈ s.tasks := by
  rw [← tasks_eq hσ] at ht
  exact (Store.mem_tasksOf.mp ht).1

/-- Looking up a running instance and its definition. -/
theorem runningInstance_yields (h : env.outage = none) {id : Uuid}
    (hσ : env.store.situation? id = some σ) :
    (runningInstance id).Yields env (σ.followed.map fun d => (σ.record, d)) env := by
  obtain ⟨i, hi, rfl⟩ := situation?_eq_some_iff.mp hσ
  have hinstance := Repository.instanceOf_yields id h
  rw [hi] at hinstance
  refine .bind hinstance ?_
  by_cases hrunning : i.isRunning
  · have hensure : i.ensureRunning = .ok () := if_pos hrunning
    rw [hensure, Situation.followed, if_pos hrunning]
    refine .bind (.pure _ _) ?_
    have hworkflow := Repository.workflow_yields i.workflowId h
    cases hw : env.store.workflow? i.workflowId with
    | none =>
      have hdefinition : env.store.definitionOf i = .error (.workflowNotFound i.workflowId) := by
        rw [Store.definitionOf, hw]
      rw [hw] at hworkflow
      simp only [hdefinition]
      exact .bind_error hworkflow
    | some w =>
      have hdefinition : env.store.definitionOf i = w.parsedDefinition.value := by
        rw [Store.definitionOf, hw]
      rw [hw] at hworkflow
      simp only [hdefinition]
      refine .bind hworkflow ?_
      have hparsed := Yields.heedResult w.parsedDefinition env
      cases hd : w.parsedDefinition.value with
      | error error =>
        rw [hd] at hparsed
        exact .bind_error hparsed
      | ok d =>
        rw [hd] at hparsed
        exact .bind hparsed (.pure _ _)
  · have hensure : i.ensureRunning = .error (.instanceNotRunning i.id) := if_neg hrunning
    rw [hensure, Situation.followed, if_neg hrunning]
    exact .bind_error (.throw _ _)

/-! ## Moving on -/

/-- A join that fires leaves the instance what it is but for its join records. -/
theorem of_firing? {now : Timestamp} {parallel : Step} {i : Instance}
    (h : σ.firing? now parallel = some i) :
    ∃ ids, parallel.resolvedSiblings? σ.tasks = some ids ∧
      i = { σ.record with
        joins := σ.record.joins ++ [⟨parallel.id, Instance.sortedIds ids, now⟩] } := by
  obtain ⟨ids, hids, hclaim⟩ := Option.bind_eq_some_iff.mp h
  refine ⟨ids, hids, ?_⟩
  exact Instance.of_claimJoin? hclaim

/-- Firing a join stores the record of the instance with the join. -/
theorem fireJoin_yields (henv : env.Orderly) {id : Uuid}
    (hσ : env.store.situation? id = some σ) (parallel : Step) :
    (e.fireJoin σ.record parallel).Yields env (.ok (σ.firing? env.now parallel))
      (env.after ⟨σ.firing? env.now parallel, [], []⟩) := by
  obtain ⟨hstored, -⟩ := record_id hσ
  refine .bind (e.tasksOf_yields σ.record.id henv.outage) ?_
  rw [tasks_eq hσ]
  have hunchanged : env.after ⟨none, [], []⟩ = env := by simp [Environment.after]
  cases hids : parallel.resolvedSiblings? σ.tasks with
  | none =>
    have hnone : σ.firing? env.now parallel = none := by rw [Situation.firing?, hids]; rfl
    rw [hnone, hunchanged]
    exact .bind (.say _ _ _) (.pure _ _)
  | some ids =>
    refine .bind (.now _) ?_
    have hfiring : σ.firing? env.now parallel =
        σ.record.claimJoin? parallel.id ids env.now := by rw [Situation.firing?, hids]; rfl
    cases hclaim : σ.record.claimJoin? parallel.id ids env.now with
    | none =>
      rw [hfiring, hclaim, hunchanged]
      exact .bind (.say _ _ _) (.pure _ _)
    | some i =>
      rw [hclaim] at hfiring
      obtain ⟨_, -, hi⟩ := of_firing? hfiring
      have hupdate := Store.updateInstance_eq (i := i) henv.store.instance_ids
        (by rw [hi, hstored]; rfl)
      have hafter : env.after ⟨some i, [], []⟩ =
          { env with store := env.store.putInstance i } := by
        simp [Environment.after, Store.putInstance]
      rw [hfiring, hafter]
      exact .bind (Repository.change_yields henv.outage hupdate) (.bind (.say _ _ _) (.pure _ _))

/-- A course that walks begins at the step that decides, and fires its join if it is a parallel
one. -/
theorem of_course_walks {now : Timestamp} {i : Instance} {ending : WalkEnd}
    (h : σ.course e now t = .walks i ending) :
    ∃ d s, σ.followed = .ok d ∧ ¬ t.GoesBack ∧ d.flowStep t = .ok s ∧
      ending = d.walk σ.around e.settings.maxAutoSteps s ∧
      (s.isParallel = false ∧ i = σ.record ∨ s.isParallel ∧ σ.firing? now s = some i) := by
  unfold Situation.course at h
  split at h
  · cases h
  · next d hd =>
    split at h
    · exact absurd h (σ.back_ne_walks now d t i ending)
    · next hback =>
      unfold Situation.onward at h
      split at h
      · cases h
      · next s hs =>
        unfold Situation.leadOn at h
        dsimp only at h
        split at h
        · next hparallel =>
          split at h
          · cases h
          · next hfiring =>
            cases h
            exact ⟨d, s, hd, hback, hs, rfl, .inr ⟨hparallel, hfiring⟩⟩
        · next hplain =>
          cases h
          exact ⟨d, s, hd, hback, hs, rfl, .inl ⟨by simpa using hplain, rfl⟩⟩

/-- Going back leads to the task that was completed last, and to the origin of its key. -/
theorem of_back_eq_reopens {now : Timestamp} {d : Definition} {previous : Task}
    {origin : TaskOrigin} (h : σ.back now d t = .reopens previous origin) :
    previousTask? t (t.completedAt.getD now) σ.tasks = some previous ∧
      d.resolve? previous.key = some origin := by
  unfold Situation.back at h
  split at h
  · cases h
  · next hprevious =>
    split at h
    · cases h
    · next horigin =>
      cases h
      exact ⟨hprevious, horigin⟩

/-- A course that opens a task again goes back to the task that was completed last. -/
theorem of_course_reopens {now : Timestamp} {previous : Task} {origin : TaskOrigin}
    (h : σ.course e now t = .reopens previous origin) :
    ∃ d, σ.followed = .ok d ∧ t.GoesBack ∧
      previousTask? t (t.completedAt.getD now) σ.tasks = some previous ∧
      d.resolve? previous.key = some origin := by
  unfold Situation.course at h
  split at h
  · cases h
  · next d hd =>
    split at h
    · next hback =>
      obtain ⟨hprevious, horigin⟩ := of_back_eq_reopens h
      exact ⟨d, hd, hback, hprevious, horigin⟩
    · unfold Situation.onward at h
      split at h
      · cases h
      · unfold Situation.leadOn at h
        dsimp only at h
        split at h
        · split at h <;> cases h
        · cases h

/-- A branch task waits if the join of its parallel step does not fire. -/
theorem course_waits {now : Timestamp} {d : Definition} {s : Step}
    (hd : σ.followed = .ok d) (hback : ¬ t.GoesBack) (hflow : d.flowStep t = .ok s)
    (hparallel : s.isParallel) (hfiring : σ.firing? now s = none) :
    σ.course e now t = .waits := by
  rw [Situation.course, hd]
  dsimp only
  rw [if_neg hback, Situation.onward, hflow]
  dsimp only
  rw [Situation.leadOn]
  simp only [hparallel, if_true, hfiring]

/-- A branch task leads on from its parallel step if the join of that step fires. -/
theorem course_fires {now : Timestamp} {d : Definition} {s : Step} {i : Instance}
    (hd : σ.followed = .ok d) (hback : ¬ t.GoesBack) (hflow : d.flowStep t = .ok s)
    (hparallel : s.isParallel) (hfiring : σ.firing? now s = some i) :
    σ.course e now t = .walks i (d.walk σ.around e.settings.maxAutoSteps s) := by
  rw [Situation.course, hd]
  dsimp only
  rw [if_neg hback, Situation.onward, hflow]
  dsimp only
  rw [Situation.leadOn]
  simp only [hparallel, if_true, hfiring]

/-- A walk begins with the record of the instance, up to its join records. -/
theorem course_walks_record {now : Timestamp} {i : Instance} {ending : WalkEnd}
    (h : σ.course e now t = .walks i ending) :
    ∃ joins, i = { σ.record with joins := joins } := by
  obtain ⟨d, s, -, -, -, -, ⟨-, rfl⟩ | ⟨-, hfiring⟩⟩ := of_course_walks h
  · exact ⟨_, rfl⟩
  · obtain ⟨_, -, hi⟩ := of_firing? hfiring
    exact ⟨_, hi⟩

/-- What stores nothing again and opens nothing leaves an environment as it is. -/
theorem after_nothing (env : Environment) : env.after ⟨none, [], []⟩ = env := by
  simp [Environment.after]

/-- Storing a record again that is stored leaves an environment as it is. -/
theorem after_stored (henv : env.Orderly) {i : Instance}
    (hstored : env.store.instance? i.id = some i) : env.after ⟨some i, [], []⟩ = env := by
  have hmem := (henv.store.instance?_eq_some_iff.mp hstored).1
  have hput := put_self Instance.id henv.store.instance_ids hmem
  simp [Environment.after, hput]

/-- The record of an instance is the one that is stored. -/
theorem instance?_after {id : Uuid} {i : Instance} (hi : env.store.instance? id = some i)
    {c : Effect} (h : ∀ j, c.record = some j → j.id = id) :
    (env.after c).store.instance? id = some (c.record.getD i) := by
  cases hc : c.record with
  | none => simpa [Environment.after, hc, Store.instance?] using hi
  | some j =>
    have hput : (put Instance.id j env.store.instances).find? (fun k => k.id == j.id) = some j :=
      find?_put_self Instance.id
        (by rw [h j hc]; exact Option.isSome_iff_exists.mpr ⟨i, hi⟩)
    rw [h j hc] at hput
    simpa [Environment.after, hc, Store.instance?] using hput

/-- Storing the record of an instance again leaves its tasks. -/
theorem tasksOf_after_record {id : Uuid} (hσ : env.store.situation? id = some σ)
    {i : Instance} (hid : i.id = σ.record.id) :
    (env.after ⟨some i, [], []⟩).store.tasksOf i.id = σ.tasks := by
  rw [hid, ← tasks_eq hσ]
  simp [Environment.after, Store.tasksOf]

/-- The record of an instance that is stored twice counts as it is stored last. -/
theorem after_record_after (env : Environment) {i : Instance} {c : Effect}
    (h : ∀ j, c.record = some j → j.id = i.id) :
    (env.after ⟨some i, [], []⟩).after c =
      env.after { c with record := some (c.record.getD i) } := by
  cases hc : c.record with
  | none => simp [Environment.after, hc]
  | some j => simp [Environment.after, hc, put_put Instance.id (h j hc).symm]

/-- At the end of a walk only the record of the completed instance is stored. -/
theorem ended_record {i j : Instance} {history : List Task} {now : Timestamp}
    {ids : IdSource} {ending : WalkEnd}
    (h : (e.ended i history now ids ending).record = some j) : j = i.completed history now := by
  cases ending with
  | completion => exact (Option.some.inj h).symm
  | _ => cases h

/-- A walk stores the record of the instance, completed or not. -/
theorem walked_record {i j : Instance} {history : List Task} {now : Timestamp}
    {ids : IdSource} {ending : WalkEnd}
    (h : (e.walked i history now ids ending).record = some j) :
    j = i ∨ j = i.completed history now := by
  obtain rfl := Option.some.inj h
  cases hended : (e.ended i history now ids ending).record with
  | none => exact .inl rfl
  | some j => exact .inr (ended_record hended)

/-- A walk opens only tasks of the instance. -/
theorem walked_opened {i : Instance} {history : List Task} {now : Timestamp} {ids : IdSource}
    {ending : WalkEnd} {u : Task} (h : u ∈ (e.walked i history now ids ending).opened) :
    ∃ o ∈ ending.openings, ∃ id, u = e.built i history now id o := by
  cases ending with
  | completion => cases h
  | _ =>
    have hopened : u ∈ e.buildAll i history now ids _ := h
    exact mem_buildAll hopened

/-- A walk that fails opens nothing and does not complete the instance. -/
theorem walked_of_failed {i : Instance} {history : List Task} {now : Timestamp}
    {ids : IdSource} {ending : WalkEnd} {error : EngineError}
    (h : ending.outcome e.settings.maxAutoSteps = .error error) :
    e.walked i history now ids ending = ⟨some i, [], []⟩ := by
  cases ending with
  | limit => simp [walked, ended, opening, WalkEnd.openings, buildAll]
  | _ => cases h

/-- A walk that begins when the record of the instance has become `i`. -/
theorem walked_yields (henv : env.Orderly) {id : Uuid}
    (hσ : env.store.situation? id = some σ) {i : Instance} (hid : i.id = σ.record.id)
    (hworkflow : i.workflowId = σ.record.workflowId) (hrunning : i.isRunning)
    {x : Operation Unit} {ending : WalkEnd}
    (hx : x.ActsAs (e.settle i σ.tasks ending) (env.after ⟨some i, [], []⟩))
    (hrange : x.StaysInRange (env.after ⟨some i, [], []⟩)) :
    x.Yields (env.after ⟨some i, [], []⟩) (ending.outcome e.settings.maxAutoSteps)
        (env.after (e.walked i σ.tasks env.now env.ids ending)) ∧
      (env.after (e.walked i σ.tasks env.now env.ids ending)).Orderly := by
  obtain ⟨hstored, -⟩ := record_id hσ
  have horderly : (env.after ⟨some i, [], []⟩).Orderly := by
    have hmem := (henv.store.instance?_eq_some_iff.mp hstored).1
    refine ⟨henv.outage, henv.in_range, ?_⟩
    simpa [Environment.after, Store.putInstance] using henv.store.putInstance hmem hid hworkflow
  have hfound : (env.after ⟨some i, [], []⟩).store.instance? i.id = some i :=
    find?_put_self Instance.id (by
      rw [hid]
      exact Option.isSome_iff_exists.mpr ⟨_, hstored⟩)
  have hsettle := settle_yields (e := e) horderly hfound hrunning ending
  rw [tasksOf_after_record hσ hid] at hsettle
  obtain ⟨hyields, hwalked⟩ := hsettle (hrange.of_actsAs hx)
  have hlast : (env.after ⟨some i, [], []⟩).after (e.ended i σ.tasks env.now env.ids ending) =
      env.after (e.walked i σ.tasks env.now env.ids ending) :=
    after_record_after env fun j hj => by rw [ended_record hj]; rfl
  exact ⟨hlast ▸ hx.yields hyields, hlast ▸ hwalked⟩

/-- Going on from a step when the record of the instance has become `i`. -/
theorem walks_yields (henv : env.Orderly) (hσ : env.store.situation? t.instanceId = some σ)
    (d : Definition) (s : Step) {i : Instance} {joins : List JoinRecord}
    (hi : i = { σ.record with joins := joins }) (hrunning : σ.record.isRunning)
    (hrange : (e.advance d i e.settings.maxAutoSteps s).StaysInRange
      (env.after ⟨some i, [], []⟩)) :
    let c := Course.walks i (d.walk σ.around e.settings.maxAutoSteps s)
    (e.advance d i e.settings.maxAutoSteps s).Yields (env.after ⟨some i, [], []⟩) (c.outcome e)
        (env.after (e.effect σ env.now env.ids t c)) ∧
      (env.after (e.effect σ env.now env.ids t c)).Orderly := by
  have htasks := tasksOf_after_record hσ (i := i) (by rw [hi])
  have houtage : (env.after ⟨some i, [], []⟩).outage = none := henv.outage
  have hacts := advance_actsAs (e := e) (i := i) houtage d e.settings.maxAutoSteps s
  rw [htasks] at hacts
  have hinput : i.input = σ.record.input := by rw [hi]
  rw [hinput] at hacts
  exact walked_yields henv hσ (by rw [hi]) (by rw [hi]) (by rw [hi]; exact hrunning) hacts hrange

/-- What follows when it is known which step decides. -/
def leadOn (e : Engine) (i : Instance) (d : Definition) (s : Step) : Operation Unit := do
  if s.isParallel then
    match ← e.fireJoin i s with
    | none => return
    | some i => e.advance d i e.settings.maxAutoSteps s
  else e.advance d i e.settings.maxAutoSteps s

/-- Leading on behind a step follows the course behind it. -/
theorem leadOn_yields (henv : env.Orderly) (hσ : env.store.situation? t.instanceId = some σ)
    (hrunning : σ.record.isRunning) (d : Definition) (s : Step)
    (hrange : (e.leadOn σ.record d s).StaysInRange env) :
    let c := σ.leadOn e env.now d s
    (e.leadOn σ.record d s).Yields env (c.outcome e)
        (env.after (e.effect σ env.now env.ids t c)) ∧
      (env.after (e.effect σ env.now env.ids t c)).Orderly := by
  unfold leadOn at hrange ⊢
  unfold Situation.leadOn
  by_cases hparallel : s.isParallel = true
  · simp only [hparallel, if_true] at hrange ⊢
    have hfire := fireJoin_yields (e := e) henv hσ s
    have hrest := hrange.second hfire
    cases hfiring : σ.firing? env.now s with
    | none =>
      rw [hfiring, after_nothing] at hfire
      have hunchanged : env.after (e.effect σ env.now env.ids t .waits) = env :=
        after_nothing env
      dsimp only
      rw [hunchanged]
      exact ⟨.bind hfire (.pure _ _), henv⟩
    | some i =>
      rw [hfiring] at hfire hrest
      obtain ⟨_, -, hi⟩ := of_firing? hfiring
      obtain ⟨hyields, horderly⟩ := walks_yields henv hσ d s hi hrunning hrest
      exact ⟨.bind hfire hyields, horderly⟩
  · simp only [if_neg hparallel] at hrange ⊢
    obtain ⟨hstored, -⟩ := record_id hσ
    have hstay := after_stored henv hstored
    have hsame : σ.record = { σ.record with joins := σ.record.joins } := rfl
    have hwalk := walks_yields (e := e) henv hσ d s hsame hrunning (by rw [hstay]; exact hrange)
    rw [hstay] at hwalk
    exact hwalk

/-- Continuing behind a task that leads on follows its course. -/
theorem continueAfter_yields (henv : env.Orderly)
    (hσ : env.store.situation? t.instanceId = some σ) {d : Definition} (hd : σ.followed = .ok d)
    (hrange : (e.continueAfter t).StaysInRange env) :
    let c := σ.onward e env.now d t
    (e.continueAfter t).Yields env (c.outcome e) (env.after (e.effect σ env.now env.ids t c)) ∧
      (env.after (e.effect σ env.now env.ids t c)).Orderly := by
  have hrunning := (followed_eq_ok.mp hd).1
  have hlookup : (runningInstance t.instanceId).Yields env (.ok (σ.record, d)) env := by
    have hyields := runningInstance_yields henv.outage hσ
    rwa [hd] at hyields
  have hcontinue : e.continueAfter t =
      (runningInstance t.instanceId >>= fun r => lift (r.2.flowStep t) >>= e.leadOn r.1 r.2) := rfl
  rw [hcontinue] at hrange ⊢
  have hflow := hrange.second hlookup
  unfold Situation.onward
  cases hs : d.flowStep t with
  | error error =>
    have hunchanged : env.after (e.effect σ env.now env.ids t (.fails error)) = env :=
      after_nothing env
    dsimp only
    rw [hunchanged]
    refine ⟨.bind hlookup (.bind_error ?_), henv⟩
    rw [hs]
    exact .throw _ _
  | ok s =>
    have hstep : (lift (d.flowStep t)).Yields env (.ok s) env := by
      rw [hs]
      exact .pure _ _
    obtain ⟨hyields, horderly⟩ := leadOn_yields henv hσ hrunning d s (hflow.second hstep)
    exact ⟨.bind hlookup (.bind hstep hyields), horderly⟩

/-- A task that is opened again has an identifier of its own. -/
@[simp] theorem reopened_id {now : Timestamp} {id : Uuid} {previous : Task}
    {origin : TaskOrigin} : (e.reopened σ now id t previous origin).id = id :=
  built_id (e := e) σ.record σ.tasks now id _

/-- A task that is opened again belongs to the instance. -/
@[simp] theorem reopened_instanceId {now : Timestamp} {id : Uuid} {previous : Task}
    {origin : TaskOrigin} :
    (e.reopened σ now id t previous origin).instanceId = σ.record.id :=
  built_instanceId (e := e) σ.record σ.tasks now id _

/-- The task that was completed last is one of the tasks. -/
theorem mem_of_lastCompleted? {tasks : List Task} {u : Task} (h : lastCompleted? tasks = some u) :
    u ∈ tasks := by
  induction tasks generalizing u with
  | nil => cases h
  | cons v tasks ih =>
    rw [lastCompleted?] at h
    split at h
    · cases h
      exact List.mem_cons_self
    · next w hw =>
      split at h <;> cases h
      · exact List.mem_cons_of_mem v (ih hw)
      · exact List.mem_cons_self

/-- A rejection goes back to a completed task. -/
theorem of_previousTask? {rejectedAt : Timestamp} {tasks : List Task} {previous : Task}
    (h : previousTask? t rejectedAt tasks = some previous) :
    previous ∈ tasks ∧ previous.status = .completed := by
  obtain ⟨hmem, htest⟩ := List.mem_filter.mp (mem_of_lastCompleted? h)
  rw [Bool.and_eq_true] at htest
  have hcompleted := htest.2
  rw [completedBy, Bool.and_eq_true] at hcompleted
  exact ⟨hmem, by simpa using hcompleted.1⟩

/-- Going back behind a rejected task opens the earlier task again, if there is one and if the
identifier for it is not taken. -/
theorem goBack_yields_of_free (houtage : env.outage = none)
    (hfree : env.store.task? (env.ids.draw .task).1 = none)
    (hσ : env.store.situation? t.instanceId = some σ) {d : Definition}
    (hd : σ.followed = .ok d) :
    let c := σ.back env.now d t
    ∃ r, (e.goBack t).Yields env r (env.after (e.effect σ env.now env.ids t c)) ∧
      (r.map fun _ => ()) = c.outcome e ∧
      ∀ u, r = .ok u → ∃ previous origin, c = .reopens previous origin ∧
        u = e.reopened σ env.now (env.ids.draw .task).1 t previous origin := by
  have hlookup : (runningInstance t.instanceId).Yields env (.ok (σ.record, d)) env := by
    have hyields := runningInstance_yields houtage hσ
    rwa [hd] at hyields
  have htasks : (e.tasksOf σ.record.id).Yields env (.ok σ.tasks) env := by
    rw [← tasks_eq hσ]
    exact e.tasksOf_yields σ.record.id houtage
  unfold Situation.back
  cases hprevious : previousTask? t (t.completedAt.getD env.now) σ.tasks with
  | none =>
    have hunchanged : env.after (e.effect σ env.now env.ids t (.fails (.noPreviousTask t.id))) =
        env := after_nothing env
    dsimp only
    rw [hunchanged]
    have hyields : (e.goBack t).Yields env (.error (.noPreviousTask t.id)) env := by
      refine .bind hlookup (.bind htasks (.bind (.now env) ?_))
      dsimp only
      rw [hprevious]
      exact .bind_error (.throw _ _)
    exact ⟨_, hyields, rfl, fun u hu => (by cases hu)⟩
  | some previous =>
    dsimp only
    cases horigin : d.resolve? previous.key with
    | none =>
      have hunchanged : env.after (e.effect σ env.now env.ids t
          (.fails (.stepNotFound previous.key))) = env := after_nothing env
      dsimp only
      rw [hunchanged]
      have hyields : (e.goBack t).Yields env (.error (.stepNotFound previous.key)) env := by
        refine .bind hlookup (.bind htasks (.bind (.now env) ?_))
        dsimp only
        rw [hprevious]
        refine .bind (.pure _ _) ?_
        rw [horigin]
        exact .bind_error (.throw _ _)
      exact ⟨_, hyields, rfl, fun u hu => (by cases hu)⟩
    | some origin =>
      let r := e.reopened σ env.now (env.ids.draw .task).1 t previous origin
      have hyields : (e.goBack t).Yields env (.ok r)
          (env.after ⟨none, [r], e.notifier.sent [reopenedNotice r]⟩) := by
        have hsave : env.store.saveTask r =
            .ok { env.store with tasks := env.store.tasks ++ [r] } := by
          rw [Store.saveTask, reopened_id, hfree]
          rfl
        refine .bind hlookup (.bind htasks (.bind (.now env) ?_))
        dsimp only
        rw [hprevious]
        refine .bind (.pure _ _) ?_
        rw [horigin]
        refine .bind (.pure _ _) (.bind (.freshId .task env) (.bind (.now _) ?_))
        refine .bind (.heed _ _) (.bind (Repository.change_yields houtage hsave) ?_)
        refine .bind (.say _ _ _) ?_
        -- which notice is sent depends on whether somebody was assigned before
        show Operation.Yields (match r.assignee with | some _ => _ | none => _) _ _ _
        have hnotice : reopenedNotice r =
            match r.assignee with
            | some assignee => .taskAssigned r assignee
            | none => .taskCreated r := rfl
        rw [hnotice]
        cases r.assignee with
        | some assignee => exact .bind (.announce e.notifier _ _) (.pure _ _)
        | none => exact .bind (.announce e.notifier _ _) (.pure _ _)
      refine ⟨.ok r, hyields, rfl, fun u hu => ?_⟩
      exact ⟨previous, origin, rfl, (Except.ok.inj hu).symm⟩

/-- In an orderly environment no identifier that is drawn is taken, and going back keeps it
orderly. -/
theorem goBack_yields (henv : env.Orderly)
    (hσ : env.store.situation? t.instanceId = some σ) {d : Definition} (hd : σ.followed = .ok d)
    (hrange : (e.goBack t).StaysInRange env) :
    let c := σ.back env.now d t
    (∃ r, (e.goBack t).Yields env r (env.after (e.effect σ env.now env.ids t c)) ∧
      (r.map fun _ => ()) = c.outcome e ∧
      ∀ u, r = .ok u → ∃ previous origin, c = .reopens previous origin ∧
        u = e.reopened σ env.now (env.ids.draw .task).1 t previous origin) ∧
      (env.after (e.effect σ env.now env.ids t c)).Orderly := by
  have hfree := henv.store.task?_next (henv.in_range .task)
  obtain ⟨r, hyields, hresult⟩ := goBack_yields_of_free henv.outage hfree hσ hd
  refine ⟨⟨r, hyields, hresult⟩, ?_⟩
  obtain ⟨error, hback⟩ | ⟨previous, origin, hback⟩ := σ.back_fails_or_reopens env.now d t
  · rw [hback]
    have hunchanged : env.after (e.effect σ env.now env.ids t (.fails error)) = env :=
      after_nothing env
    rwa [hunchanged]
  · rw [hback] at hyields ⊢
    have howned : (env.store.instance? σ.record.id).isSome := by
      rw [(record_id hσ).1]
      rfl
    exact orderly_after_task henv reopened_id (by rwa [reopened_instanceId])
      (hrange.ids_inRange hyields)

/-- Moving the instance of a finished task follows its course. -/
theorem move_yields (henv : env.Orderly) (hσ : env.store.situation? t.instanceId = some σ)
    (hrange : (e.move t).StaysInRange env) :
    let c := σ.course e env.now t
    (e.move t).Yields env (c.outcome e) (env.after (e.effect σ env.now env.ids t c)) ∧
      (env.after (e.effect σ env.now env.ids t c)).Orderly := by
  have hlookup := runningInstance_yields henv.outage hσ
  have hmove : e.move t =
      if t.GoesBack then (do let _ ← e.goBack t) else e.continueAfter t := rfl
  rw [hmove] at hrange ⊢
  unfold Situation.course
  cases hd : σ.followed with
  | error error =>
    have hunchanged : env.after (e.effect σ env.now env.ids t (.fails error)) = env :=
      after_nothing env
    dsimp only
    rw [hunchanged]
    rw [hd] at hlookup
    refine ⟨?_, henv⟩
    split
    · exact .bind_error (.bind_error hlookup)
    · exact .bind_error hlookup
  | ok d =>
    dsimp only
    by_cases hback : t.GoesBack
    · rw [if_pos hback] at hrange ⊢
      rw [if_pos hback]
      obtain ⟨⟨r, hyields, houtcome, -⟩, horderly⟩ :=
        goBack_yields henv hσ hd (hrange.first fun _ => .pure ())
      refine ⟨?_, horderly⟩
      rw [← houtcome]
      cases r with
      | error error => exact .bind_error hyields
      | ok task => exact .bind hyields (.pure _ _)
    · rw [if_neg hback] at hrange ⊢
      rw [if_neg hback]
      exact continueAfter_yields henv hσ hd hrange

/-! ## Carrying a task through -/

/-- Looking for a running instance takes no identifier back. -/
theorem runningInstance_onlyDraws (id : Uuid) : (runningInstance id).OnlyDraws :=
  .bind (Repository.instanceOf_onlyDraws id) fun _ => .bind (.lift _) fun _ =>
    .bind (Repository.workflow_onlyDraws _) fun _ => .bind (.heedResult _) fun _ => .pure _

/-- Going on behind a task takes no identifier back. -/
theorem continueAfter_onlyDraws (t : Task) : (e.continueAfter t).OnlyDraws := by
  refine .bind (runningInstance_onlyDraws _) fun (i, d) => .bind (.lift _) fun s => ?_
  split
  · refine .bind ?_ fun fired => ?_
    · refine .bind (tasksOf_onlyDraws _) fun tasks => ?_
      split
      · exact .bind (.say _ _) fun _ => .pure _
      · refine .bind .now fun now => ?_
        split
        · exact .bind (.say _ _) fun _ => .pure _
        · exact .bind (.perform _ _) fun _ => .bind (.say _ _) fun _ => .pure _
    · cases fired with
      | none => exact .pure _
      | some i => exact advance_onlyDraws d i _ s
  · exact advance_onlyDraws d i _ s

/-- Going back behind a rejected task takes no identifier back. -/
theorem goBack_onlyDraws (t : Task) : (e.goBack t).OnlyDraws := by
  refine .bind (runningInstance_onlyDraws _) fun (i, d) => .bind (tasksOf_onlyDraws _) fun tasks =>
    .bind .now fun now => ?_
  dsimp only
  split
  · refine .bind (.pure _) fun previous => ?_
    split
    · refine .bind (.pure _) fun origin => .bind (.freshId _) fun id => .bind .now fun _ => ?_
      refine .bind (.heed _) fun built => .bind (.perform _ _) fun _ => .bind (.say _ _) fun _ => ?_
      split
      · exact .bind (.announce _ _) fun _ => .pure _
      · exact .bind (.announce _ _) fun _ => .pure _
    · exact .throw_bind _ _
  · exact .throw_bind _ _

/-- Moving on from a finished task takes no identifier back. -/
theorem move_onlyDraws (t : Task) : (e.move t).OnlyDraws := by
  unfold move
  split
  · exact .bind (goBack_onlyDraws t) fun _ => .pure _
  · exact continueAfter_onlyDraws t

/-- A marked task is the task but for its progression. -/
theorem marked_eq (t : Task) (outcome : Except EngineError Unit) :
    ∃ p, t.marked outcome = { t with progression := p } := by
  cases outcome <;> exact ⟨_, rfl⟩

/-- Of two marks on a task the last one counts. -/
theorem marked_marked (t : Task) (p : Progression) (outcome : Except EngineError Unit) :
    { t with progression := p }.marked outcome = t.marked outcome := by
  cases outcome <;> rfl

/-- An orderly environment stays orderly with a task in the place of one of its instance. -/
theorem orderly_putTask (henv : env.Orderly) {u : Task} (ht : t ∈ env.store.tasks)
    (hid : u.id = t.id) (howner : u.instanceId = t.instanceId) : (env.putTask u).Orderly :=
  ⟨henv.outage, henv.in_range, henv.store.putTask ht hid howner⟩

/-- Updating a task puts it in the place of the one with its identifier. -/
theorem updateTask_yields (henv : env.Orderly) {u : Task} (ht : t ∈ env.store.tasks)
    (hid : u.id = t.id) : (Repository.updateTask u).Yields env (.ok ()) (env.putTask u) := by
  have hthere : (env.store.task? u.id).isSome := by
    rw [hid, henv.store.task?_eq_some_iff.mpr ⟨ht, rfl⟩]
    rfl
  exact Repository.change_yields henv.outage (Store.updateTask_eq henv.store.task_ids hthere)

/-- Writes the outcome of carrying a task through down on it. -/
def writeDown (t : Task) : Except EngineError Unit → Operation Task
  | .ok () => do
    let t := { t with progression := .advanced }
    Repository.updateTask t
    return t
  | .error error => do
    Repository.updateTask { t with progression := .failed error.message }
    throw error

/-- Writing down the outcome takes no identifier back. -/
theorem writeDown_onlyDraws (t : Task) (outcome : Except EngineError Unit) :
    (writeDown t outcome).OnlyDraws := by
  cases outcome with
  | ok _ => exact .bind (.perform _ _) fun _ => .pure _
  | error error => exact .bind (.perform _ _) fun _ => .throw _

/-- Writing an outcome down puts the marked task in its place. -/
theorem writeDown_yields (henv : env.Orderly) (ht : t ∈ env.store.tasks)
    (outcome : Except EngineError Unit) :
    (writeDown t outcome).Yields env (outcome.map fun _ => t.marked outcome)
      (env.putTask (t.marked outcome)) := by
  cases outcome with
  | ok _ => exact .bind (updateTask_yields henv ht rfl) (.pure _ _)
  | error error => exact .bind (updateTask_yields henv ht rfl) (.throw _ _)

/-- The instance of a task that is not carried through yet is moved, and the outcome is written
down. -/
theorem progress_eq (e : Engine) (id : Uuid) :
    e.progress id = (do
      let _ ← Repository.task id
      let t ← Repository.task id
      if t.progression = .advanced then
        say .debug ("Task " ++ t.id.toString ++ " already advanced its instance")
        return t
      else if t.status.isOpen then throw (.invalidTransition "task" t.status.name "progress")
      else attempt (e.move t) >>= writeDown t) := rfl

/-- Carrying a finished task through takes no identifier back. -/
theorem progress_onlyDraws (id : Uuid) : (e.progress id).OnlyDraws := by
  rw [progress_eq]
  refine .bind (Repository.task_onlyDraws id) fun _ =>
    .bind (Repository.task_onlyDraws id) fun t => ?_
  split
  · exact .bind (.say _ _) fun _ => .pure _
  · split
    · exact .throw _
    · exact .bind (.attempt (move_onlyDraws t)) (writeDown_onlyDraws t)

/-- Carrying a finished task through adds what its course adds, and writes the outcome down on
the task. -/
theorem progress_yields (henv : env.Orderly) {id : Uuid} (ht : env.store.task? id = some t)
    (hpending : t.progression ≠ .advanced) (hended : t.status.isOpen = false)
    (hσ : env.store.situation? t.instanceId = some σ) (hrange : (e.progress id).StaysInRange env) :
    let c := σ.course e env.now t
    let env₁ := (env.after (e.effect σ env.now env.ids t c)).putTask (t.marked (c.outcome e))
    (e.progress id).Yields env ((c.outcome e).map fun _ => t.marked (c.outcome e)) env₁ ∧
      env₁.Orderly := by
  intro c env₁
  have hfound := Repository.task_yields id henv.outage
  rw [ht] at hfound
  rw [progress_eq] at hrange ⊢
  have hrest := (hrange.second hfound).second hfound
  rw [if_neg hpending, hended, if_neg Bool.false_ne_true] at hrest
  obtain ⟨hmove, horderly⟩ := move_yields henv hσ (hrest.first (writeDown_onlyDraws t))
  have hmem : t ∈ (env.after (e.effect σ env.now env.ids t c)).store.tasks :=
    List.mem_append_left _ (henv.store.task?_eq_some_iff.mp ht).1
  obtain ⟨p, hmarked⟩ := marked_eq t (c.outcome e)
  refine ⟨.bind hfound (.bind hfound ?_),
    orderly_putTask horderly hmem (by rw [hmarked]) (by rw [hmarked])⟩
  rw [if_neg hpending, hended, if_neg Bool.false_ne_true]
  exact .bind (.attempt hmove) (writeDown_yields horderly hmem _)

/-- A task that has been carried through is not carried through again. -/
theorem progress_of_advanced (h : env.outage = none) {id : Uuid}
    (ht : env.store.task? id = some t) (hadvanced : t.progression = .advanced) :
    (e.progress id).Yields env (.ok t) env := by
  have hfound := Repository.task_yields id h
  rw [ht] at hfound
  refine .bind hfound (.bind hfound ?_)
  rw [if_pos hadvanced]
  exact .bind (.say _ _ _) (.pure _ _)

/-- A task that is open is not carried through. -/
theorem progress_of_open (h : env.outage = none) {id : Uuid} (ht : env.store.task? id = some t)
    (hpending : t.progression ≠ .advanced) (hopen : t.status.isOpen) :
    (e.progress id).Yields env
      (.error (.invalidTransition "task" t.status.name "progress")) env := by
  have hfound := Repository.task_yields id h
  rw [ht] at hfound
  refine .bind hfound (.bind hfound ?_)
  rw [if_neg hpending, if_pos hopen]
  exact .throw _ _

/-- A task that is not there is not carried through. -/
theorem progress_of_missing (h : env.outage = none) {id : Uuid}
    (ht : env.store.task? id = none) :
    (e.progress id).Yields env (.error (.taskNotFound id)) env := by
  have hfound := Repository.task_yields id h
  rw [ht] at hfound
  exact .bind_error hfound

end Engine

end ApprovalWorkflow
