import ApprovalWorkflow.Proofs.Requests
import Mathlib.Data.List.Find

/-!
# How situations turn

A request does little to any one instance. `Turn e now r σ σ'` lists all that the request `r` can
do to an instance in the situation `σ`: most leave it alone, one changes its definition, one
cancels it, and the requests about tasks change one of its tasks or carry it through. Every
request keeps the environment orderly and is such a turn for every instance
(`Environment.serve_spec`), so that a property of situations holds throughout a run if it holds
of new instances and every turn keeps it (`Environment.serveAll_induction`).
-/

set_option autoImplicit false

namespace ApprovalWorkflow

open Engine

/-! ## Situations of a changed store -/

section Frames

variable {e : Engine} {env : Environment} {σ : Situation} {s s' : Store} {ids : IdSource}
  {t u : Task} {id : Uuid}

namespace Situation

/-- The situation with a task in the place of the one with its identifier. -/
def withTask (σ : Situation) (t : Task) : Situation := { σ with tasks := put Task.id t σ.tasks }

/-- A task in the place of another one changes no identifier. -/
@[simp] theorem ids_withTask (σ : Situation) (t : Task) :
    (σ.withTask t).tasks.map Task.id = σ.tasks.map Task.id := map_key_put Task.id t σ.tasks

/-- The situation with what moving the instance on adds. -/
def after (σ : Situation) (c : Effect) : Situation :=
  { σ with record := c.record.getD σ.record, tasks := σ.tasks ++ c.opened }

/-- The situation after a finished task has been carried through. -/
def carried (σ : Situation) (e : Engine) (now : Timestamp) (ids : IdSource) (t : Task) :
    Situation :=
  (σ.after (e.effect σ now ids t (σ.course e now t))).withTask
    (t.marked ((σ.course e now t).outcome e))

end Situation

/-- Only instances, tasks and workflows make a situation. -/
theorem situation?_congr (hinstances : s'.instances = s.instances) (htasks : s'.tasks = s.tasks)
    (hworkflows : s'.workflows = s.workflows) : s'.situation? id = s.situation? id := by
  simp only [Store.situation?, Store.instance?, Store.tasksOf, Store.definitionOf,
    Store.workflow?, hinstances, htasks, hworkflows]

/-- Only the workflow of an instance says which definition it follows. -/
theorem definitionOf_congr {i : Instance}
    (h : s'.workflow? i.workflowId = s.workflow? i.workflowId) :
    s'.definitionOf i = s.definitionOf i := by
  rw [Store.definitionOf, h, Store.definitionOf]

/-- A task that takes the place of one of the same instance changes the situations. -/
theorem situation?_putTask (hstay : ∀ v ∈ s.tasks, v.id = u.id → v.instanceId = u.instanceId) :
    (s.putTask u).situation? id = (s.situation? id).map fun σ => σ.withTask u := by
  rw [Store.situation?, Store.situation?, Option.map_map]
  refine Option.map_congr fun i _ => ?_
  rw [Store.tasksOf_putTask hstay]
  rfl

/-- A task of another instance is not among the tasks of a situation. -/
theorem withTask_of_other (hstay : ∀ v ∈ s.tasks, v.id = u.id → v.instanceId = u.instanceId)
    (hσ : s.situation? id = some σ) (hother : id ≠ u.instanceId) : σ.withTask u = σ := by
  obtain ⟨i, -, rfl⟩ := situation?_eq_some_iff.mp hσ
  have hput : put Task.id u (s.tasksOf id) = s.tasksOf id := by
    refine put_of_not_mem Task.id fun v hv heq => hother ?_
    obtain ⟨hmem, rfl⟩ := Store.mem_tasksOf.mp hv
    exact hstay v hmem heq
  rw [Situation.withTask, hput]

/-- A task that takes the place of one of another instance changes nothing. -/
theorem situation?_putTask_of_other
    (hstay : ∀ v ∈ s.tasks, v.id = u.id → v.instanceId = u.instanceId)
    (hother : id ≠ u.instanceId) : (s.putTask u).situation? id = s.situation? id := by
  rw [situation?_putTask hstay]
  cases hσ : s.situation? id with
  | none => rfl
  | some σ => rw [Option.map_some, withTask_of_other hstay hσ hother]

/-- Neither the entry about the work on a task nor the notice counts. -/
theorem situation?_worked (e : Engine) (env : Environment) (entry : Task → Uuid → HistoryEntry)
    (notice : Task → Notice) (u : Task) (id : Uuid) :
    (env.worked e entry notice (.ok u)).store.situation? id = (env.store.putTask u).situation? id :=
  situation?_congr rfl rfl rfl

/-- A task of an orderly store is among the tasks of its instance. -/
theorem situation_of_task (hs : s.Orderly ids) (ht : t ∈ s.tasks) :
    ∃ σ, s.situation? t.instanceId = some σ ∧ t ∈ σ.tasks := by
  obtain ⟨i, hi, hid⟩ := List.mem_map.mp (hs.task_owned t ht)
  have hfound := hs.instance?_eq_some_iff.mpr ⟨hi, hid⟩
  exact ⟨_, situation?_eq_some_iff.mpr ⟨i, hfound, rfl⟩, Store.mem_tasksOf.mpr ⟨ht, rfl⟩⟩

/-- In an orderly store no two tasks of an instance have the same identifier. -/
theorem situation_task_ids (hs : s.Orderly ids) (hσ : s.situation? id = some σ) :
    (σ.tasks.map Task.id).Nodup := by
  obtain ⟨i, -, rfl⟩ := situation?_eq_some_iff.mp hσ
  exact hs.task_ids.sublist (List.filter_sublist.map Task.id)

/-- In an orderly store a task takes the place of one of the same instance. -/
theorem stays_of_orderly (hs : s.Orderly ids) (ht : t ∈ s.tasks) (hid : u.id = t.id)
    (howner : u.instanceId = t.instanceId) :
    ∀ v ∈ s.tasks, v.id = u.id → v.instanceId = u.instanceId := by
  intro v hv heq
  rw [hs.task_eq hv ht (heq.trans hid), howner]

/-- Completing a task that the actor may complete stores it as finished, and carries its instance on
from there. -/
theorem Tasks.complete_carried (henv : env.Orderly) {a : Actor} {c : Completion}
    (ht : t ∈ env.store.tasks) (hu : t.finishedBy a c env.now = .ok u)
    (hσ : env.store.situation? t.instanceId = some σ)
    (hrange : (Tasks.complete e t.id a c).StaysInRange env) :
    let env₁ := env.worked e (fun t entry => .completed entry t a.user env.now) .taskCompleted
      (.ok u)
    let course := (σ.withTask u).course e env.now u
    let env₂ := (env₁.after (e.effect (σ.withTask u) env.now env₁.ids u course)).putTask
      (u.marked (course.outcome e))
    env₁.store.situation? u.instanceId = some (σ.withTask u) ∧
      (Tasks.complete e t.id a c).Yields env (.ok (u.marked (course.outcome e))) env₂ ∧
      env₁.Orderly ∧ env₂.Orderly := by
  intro env₁ course env₂
  obtain ⟨hid, howner, -⟩ := (Task.of_finishedBy hu).2.place
  have hσ₁ : env₁.store.situation? u.instanceId = some (σ.withTask u) := by
    rw [situation?_worked, situation?_putTask (stays_of_orderly henv.store ht hid howner), howner,
      hσ]
    rfl
  exact ⟨hσ₁, Tasks.complete_yields henv ht rfl hu hσ₁ hrange⟩

/-- What moving an instance on adds to its situation. -/
theorem situation?_after (hσ : env.store.situation? id = some σ) {c : Effect}
    (hrecord : ∀ j, c.record = some j → j.id = id ∧ j.workflowId = σ.record.workflowId)
    (hopened : ∀ t ∈ c.opened, t.instanceId = id) :
    (env.after c).store.situation? id = some (σ.after c) := by
  obtain ⟨i, hi, rfl⟩ := situation?_eq_some_iff.mp hσ
  have hread := instance?_after hi fun j hj => (hrecord j hj).1
  refine situation?_eq_some_iff.mpr ⟨_, hread, ?_⟩
  have htasks : (env.after c).store.tasksOf id = env.store.tasksOf id ++ c.opened := by
    have hfilter : c.opened.filter (fun t => t.instanceId == id) = c.opened :=
      List.filter_eq_self.mpr fun t ht => by simp [hopened t ht]
    rw [Store.tasksOf, Environment.after, List.filter_append, hfilter]
    rfl
  have hdefinition : (env.after c).store.definitionOf (c.record.getD i) =
      env.store.definitionOf i := by
    have hworkflow : (c.record.getD i).workflowId = i.workflowId := by
      cases hc : c.record with
      | none => rfl
      | some j => exact (hrecord j hc).2
    rw [Store.definitionOf, Store.definitionOf, hworkflow]
    rfl
  rw [htasks, hdefinition, Situation.after]

/-- Moving one instance on does not touch another one. -/
theorem situation?_after_of_other {c : Effect} {other : Uuid}
    (hrecord : ∀ j, c.record = some j → j.id = other)
    (hopened : ∀ t ∈ c.opened, t.instanceId = other) (hne : id ≠ other) :
    (env.after c).store.situation? id = env.store.situation? id := by
  have hinstance : (env.after c).store.instance? id = env.store.instance? id := by
    cases hc : c.record with
    | none => simp [Environment.after, hc, Store.instance?]
    | some j =>
      have hput : (put Instance.id j env.store.instances).find? (fun k => k.id == id) =
          env.store.instances.find? fun k => k.id == id :=
        find?_put_of_ne Instance.id (by rw [hrecord j hc]; exact hne)
      simpa [Environment.after, hc, Store.instance?] using hput
  have htasks : (env.after c).store.tasksOf id = env.store.tasksOf id := by
    have hfilter : c.opened.filter (fun t => t.instanceId == id) = [] := by
      refine List.filter_eq_nil_iff.mpr fun t ht => ?_
      simp [hopened t ht, Ne.symm hne]
    rw [Store.tasksOf, Environment.after, List.filter_append, hfilter, List.append_nil]
    rfl
  rw [Store.situation?, Store.situation?, hinstance, htasks]
  rfl

/-- What a course adds concerns the instance alone, if its walk begins with the record of the
instance. -/
theorem effect_concerns (e : Engine) (now : Timestamp) (ids : IdSource) (t : Task) {c : Course}
    (hc : ∀ i ending, c = .walks i ending →
      i.id = σ.record.id ∧ i.workflowId = σ.record.workflowId) :
    (∀ j, (e.effect σ now ids t c).record = some j →
      j.id = σ.record.id ∧ j.workflowId = σ.record.workflowId) ∧
      ∀ u ∈ (e.effect σ now ids t c).opened, u.instanceId = σ.record.id := by
  cases c with
  | fails error => exact ⟨fun j hj => (by cases hj), fun u hu => (by cases hu)⟩
  | waits => exact ⟨fun j hj => (by cases hj), fun u hu => (by cases hu)⟩
  | walks i ending =>
    have hid := hc i ending rfl
    refine ⟨fun j hj => ?_, fun u hu => ?_⟩
    · rcases walked_record hj with rfl | rfl <;> exact hid
    · obtain ⟨o, -, id, rfl⟩ := walked_opened hu
      rw [built_instanceId, hid.1]
  | reopens previous origin =>
    refine ⟨fun j hj => (by cases hj), fun u hu => ?_⟩
    obtain rfl := List.mem_singleton.mp hu
    exact reopened_instanceId

/-- What a course adds concerns the instance alone. -/
theorem course_effect (e : Engine) (σ : Situation) (now : Timestamp) (ids : IdSource) (t : Task) :
    (∀ j, (e.effect σ now ids t (σ.course e now t)).record = some j →
      j.id = σ.record.id ∧ j.workflowId = σ.record.workflowId) ∧
      ∀ u ∈ (e.effect σ now ids t (σ.course e now t)).opened, u.instanceId = σ.record.id := by
  refine effect_concerns e now ids t fun i ending hc => ?_
  obtain ⟨joins, rfl⟩ := course_walks_record hc
  exact ⟨rfl, rfl⟩

/-- What executing the first step adds concerns the instance alone. -/
theorem begun_effect (e : Engine) (σ : Situation) (now : Timestamp) (ids : IdSource) :
    (∀ j, (e.begun σ now ids).record = some j →
      j.id = σ.record.id ∧ j.workflowId = σ.record.workflowId) ∧
      ∀ u ∈ (e.begun σ now ids).opened, u.instanceId = σ.record.id := by
  unfold begun
  split
  · exact ⟨fun j hj => (by cases hj), fun u hu => (by cases hu)⟩
  · refine ⟨fun j hj => ?_, fun u hu => ?_⟩
    · rcases walked_record hj with rfl | rfl <;> exact ⟨rfl, rfl⟩
    · obtain ⟨o, -, id, rfl⟩ := walked_opened hu
      exact built_instanceId (e := e) _ _ _ _ _

/-- What a start adds concerns the instance alone. -/
theorem launched_effect (e : Engine) (σ : Situation) (now : Timestamp) (ids : IdSource) :
    (∀ j, (Workflows.launched e σ now ids).record = some j →
      j.id = σ.record.id ∧ j.workflowId = σ.record.workflowId) ∧
      ∀ u ∈ (Workflows.launched e σ now ids).opened, u.instanceId = σ.record.id := by
  unfold Workflows.launched
  split
  · exact begun_effect e σ now ids
  · refine ⟨fun j hj => ?_, fun u hu => (by cases hu)⟩
    obtain rfl := Option.some.inj hj
    exact ⟨rfl, rfl⟩

/-- Carrying a task through changes the situation of its instance and no other one. -/
theorem situation?_carried (henv : env.Orderly) (ht : t ∈ env.store.tasks)
    (hσ : env.store.situation? t.instanceId = some σ) (outcome : Except EngineError Unit) :
    let added := e.effect σ env.now env.ids t (σ.course e env.now t)
    let env' := (env.after added).putTask (t.marked outcome)
    env'.store.situation? t.instanceId = some ((σ.after added).withTask (t.marked outcome)) ∧
      ∀ other, other ≠ t.instanceId →
        env'.store.situation? other = env.store.situation? other := by
  intro added env'
  obtain ⟨-, hrid⟩ := record_id hσ
  obtain ⟨hrecord, hopened⟩ := course_effect e σ env.now env.ids t
  rw [hrid] at hrecord hopened
  obtain ⟨p, hmarked⟩ := marked_eq t outcome
  have hstay : ∀ v ∈ (env.after added).store.tasks,
      v.id = (t.marked outcome).id → v.instanceId = (t.marked outcome).instanceId := by
    rw [hmarked]
    intro v hv heq
    rcases List.mem_append.mp hv with hv | hv
    · rw [henv.store.task_eq hv ht heq]
    · exact hopened v hv
  have howner : (t.marked outcome).instanceId = t.instanceId := by rw [hmarked]
  refine ⟨?_, fun other hne => ?_⟩
  · show ((env.after added).store.putTask (t.marked outcome)).situation? t.instanceId = _
    rw [situation?_putTask hstay, situation?_after hσ hrecord hopened]
    rfl
  · show ((env.after added).store.putTask (t.marked outcome)).situation? other = _
    rw [situation?_putTask_of_other hstay (by rw [howner]; exact hne)]
    exact situation?_after_of_other (fun j hj => (hrecord j hj).1) hopened hne

end Frames

/-! ## Turns -/

/-- What a request, served at a time, can do to the situation of an instance. -/
inductive Turn (e : Engine) (now : Timestamp) : Request → Situation → Situation → Prop
  /-- Nothing. -/
  | stays (r : Request) (σ : Situation) : Turn e now r σ σ
  /-- The workflow of the instance is deleted. -/
  | orphaned (σ : Situation) :
    Turn e now (.deleteWorkflow σ.record.workflowId) σ
      { σ with definition := .error (.workflowNotFound σ.record.workflowId) }
  /-- The workflow of the instance gets another definition. -/
  | redefined (σ : Situation) (text : String) (definition : Except EngineError Definition) :
    Turn e now (.updateDefinition σ.record.workflowId text) σ
      { σ with definition := definition }
  /-- The instance is given up. -/
  | cancelled {σ : Situation} {i : Instance} (h : σ.record.cancel now = .ok i) :
    Turn e now (.cancelInstance σ.record.id) σ { σ with record := i }
  /-- A task is claimed or handed on. -/
  | touched {r : Request} {σ : Situation} {t u : Task} {a : Actor}
    (hr : r = .claim t.id a ∨ ∃ toUser, r = .delegate t.id a toUser) (ht : t ∈ σ.tasks)
    (hopen : t.status.isOpen) (hu : t.Touched u) : Turn e now r σ (σ.withTask u)
  /-- A task is finished and carried through. -/
  | completed {σ : Situation} {t u : Task} {a : Actor} {c : Completion} (ids : IdSource)
    (ht : t ∈ σ.tasks) (hu : t.finishedBy a c now = .ok u) :
    Turn e now (.complete t.id a c) σ ((σ.withTask u).carried e now ids u)
  /-- A task is finished. -/
  | finished {σ : Situation} {t u : Task} {a : Actor} {c : Completion} (ht : t ∈ σ.tasks)
    (hu : t.finishedBy a c now = .ok u) : Turn e now (.finish t.id a c) σ (σ.withTask u)
  /-- A finished task is carried through. -/
  | carried {r : Request} {σ : Situation} {t : Task} (ids : IdSource)
    (hr : r = .retry t.id ∧ t.progression.isStalled ∨ r = .progress t.id) (ht : t ∈ σ.tasks)
    (hpending : t.progression ≠ .advanced) (hended : t.status.isOpen = false) :
    Turn e now r σ (σ.carried e now ids t)

/-- An instance stays the one that it is, and keeps its workflow. -/
theorem Turn.record_eq {e : Engine} {now : Timestamp} {r : Request} {σ σ' : Situation}
    (h : Turn e now r σ σ') :
    σ'.record.id = σ.record.id ∧ σ'.record.workflowId = σ.record.workflowId := by
  have hcarried : ∀ (τ : Situation) (ids : IdSource) (t : Task),
      (τ.carried e now ids t).record.id = τ.record.id ∧
        (τ.carried e now ids t).record.workflowId = τ.record.workflowId := by
    intro τ ids t
    obtain ⟨hrecord, -⟩ := course_effect e τ now ids t
    show (Option.getD _ τ.record).id = _ ∧ (Option.getD _ τ.record).workflowId = _
    cases hc : (e.effect τ now ids t (τ.course e now t)).record with
    | none => exact ⟨rfl, rfl⟩
    | some j => exact hrecord j hc
  cases h with
  | cancelled hcancel =>
    rw [(Instance.of_cancel hcancel).2]
    exact ⟨rfl, rfl⟩
  | completed ids ht hu => exact hcarried _ ids _
  | carried ids hr ht hpending hended => exact hcarried _ ids _
  | _ => exact ⟨rfl, rfl⟩

/-- The situation of a new instance. -/
structure Situation.IsBirth (now : Timestamp) (σ : Situation) : Prop where
  tasks_eq : σ.tasks = []
  record_eq : ∃ id workflow input, σ.record = Instance.new id workflow input now
  definition_eq : ∃ text, σ.definition = (Definition.parse text).value

/-- What a request can do to the situation under an identifier. -/
inductive Turned (e : Engine) (now : Timestamp) (r : Request) :
    Option Situation → Option Situation → Prop
  /-- There is no instance. -/
  | absent : Turned e now r none none
  /-- The instance is new. -/
  | born {σ : Situation} (ids : IdSource) (hσ : σ.IsBirth now)
    (hr : ∃ input, r = .startInstance σ.record.workflowId input) :
    Turned e now r none (some (σ.after (Workflows.launched e σ now ids)))
  /-- The situation turns. -/
  | turns {σ σ' : Situation} (h : Turn e now r σ σ') : Turned e now r (some σ) (some σ')

/-- A request keeps the environment orderly and makes every situation turn. -/
structure Environment.Deed (e : Engine) (r : Request) (env env' : Environment) : Prop where
  orderly : env'.Orderly
  now_eq : env'.now = env.now
  turned : ∀ id, Turned e env.now r (env.store.situation? id) (env'.store.situation? id)

namespace Environment.Deed

variable {e : Engine} {env env' : Environment} {r : Request} {σ : Situation} {t u : Task}

/-- The situation of an identifier stays what it is. -/
theorem turned_of_eq {now : Timestamp} {o o' : Option Situation} (h : o' = o) :
    Turned e now r o o' := by
  subst h
  cases o' with
  | none => exact .absent
  | some σ => exact .turns (.stays r σ)

/-- To do nothing is a deed. -/
theorem refl (henv : env.Orderly) : Deed e r env env := ⟨henv, rfl, fun _ => turned_of_eq rfl⟩

/-- A change that concerns one instance. -/
theorem of_turn (horderly : env'.Orderly) (hnow : env'.now = env.now) {id : Uuid}
    (hσ : env.store.situation? id = some σ) {σ' : Situation}
    (hσ' : env'.store.situation? id = some σ') (hturn : Turn e env.now r σ σ')
    (hother : ∀ other, other ≠ id →
      env'.store.situation? other = env.store.situation? other) : Deed e r env env' := by
  refine ⟨horderly, hnow, fun other => ?_⟩
  by_cases h : other = id
  · subst h
    rw [hσ, hσ']
    exact .turns hturn
  · exact turned_of_eq (hother other h)

/-- A change of workflows that leaves every instance its definition. -/
theorem of_workflows (horderly : env'.Orderly) (hnow : env'.now = env.now)
    (hinstances : env'.store.instances = env.store.instances)
    (htasks : env'.store.tasks = env.store.tasks)
    (hturn : ∀ i ∈ env.store.instances, Turn e env.now r
      ⟨i, env.store.tasksOf i.id, env.store.definitionOf i⟩
      ⟨i, env.store.tasksOf i.id, env'.store.definitionOf i⟩) (henv : env.Orderly) :
    Deed e r env env' := by
  refine ⟨horderly, hnow, fun id => ?_⟩
  have hinstance : env'.store.instance? id = env.store.instance? id := by
    rw [Store.instance?, hinstances, Store.instance?]
  have htasksOf : env'.store.tasksOf id = env.store.tasksOf id := by
    rw [Store.tasksOf, htasks, Store.tasksOf]
  rw [Store.situation?, Store.situation?, hinstance, htasksOf]
  cases hi : env.store.instance? id with
  | none => exact .absent
  | some i =>
    obtain ⟨hmem, rfl⟩ := henv.store.instance?_eq_some_iff.mp hi
    exact .turns (hturn i hmem)

/-- Work on a task is a deed if it makes the situation of its instance turn. -/
theorem of_worked (henv : env.Orderly) {entry : Task → Uuid → HistoryEntry}
    {notice : Task → Notice} (ht : t ∈ env.store.tasks) (hid : u.id = t.id)
    (howner : u.instanceId = t.instanceId)
    (hrange : (env.worked e entry notice (.ok u)).ids.InRange)
    (hturn : ∀ σ, t ∈ σ.tasks → Turn e env.now r σ (σ.withTask u)) :
    Deed e r env (env.worked e entry notice (.ok u)) := by
  have horderly := Tasks.orderly_worked henv ht hid howner hrange
  have hstay := stays_of_orderly henv.store ht hid howner
  obtain ⟨σ, hσ, hmem⟩ := situation_of_task henv.store ht
  have hstore := situation?_worked e env entry notice u
  refine of_turn horderly rfl hσ ?_ (hturn σ hmem) fun other hne => ?_
  · rw [hstore, situation?_putTask hstay, hσ]
    rfl
  · rw [hstore, situation?_putTask_of_other hstay (by rw [howner]; exact hne)]

/-- Carrying a finished task through. -/
theorem of_carried (henv : env.Orderly) (ht : t ∈ env.store.tasks)
    (hσ : env.store.situation? t.instanceId = some σ)
    (horderly : ((env.after (e.effect σ env.now env.ids t (σ.course e env.now t))).putTask
      (t.marked ((σ.course e env.now t).outcome e))).Orderly)
    (hturn : Turn e env.now r σ (σ.carried e env.now env.ids t)) :
    Deed e r env ((env.after (e.effect σ env.now env.ids t (σ.course e env.now t))).putTask
      (t.marked ((σ.course e env.now t).outcome e))) := by
  obtain ⟨hσ', hother⟩ := situation?_carried henv ht hσ _
  exact of_turn horderly rfl hσ hσ' hturn hother

/-- A workflow that takes the place of another one. -/
theorem of_ruled (henv : env.Orderly) {w v : Workflow} (hw : w ∈ env.store.workflows)
    (hid : v.id = w.id)
    (hturn : ∀ i : Instance, i.workflowId = w.id → Turn e env.now r
      ⟨i, env.store.tasksOf i.id, w.parsedDefinition.value⟩
      ⟨i, env.store.tasksOf i.id, v.parsedDefinition.value⟩) :
    Deed e r env (Workflows.ruled env (.ok v)) := by
  have horderly : (Workflows.ruled env (.ok v)).Orderly :=
    ⟨henv.outage, henv.in_range, henv.store.putWorkflow hw hid⟩
  refine of_workflows horderly rfl rfl rfl (fun i hi => ?_) henv
  have hfound := henv.store.workflow?_eq_some_iff.mpr ⟨hw, rfl⟩
  by_cases hworkflow : i.workflowId = w.id
  · have hnew : (Workflows.ruled env (.ok v)).store.workflow? i.workflowId = some v := by
      rw [hworkflow, ← hid]
      exact find?_put_self Workflow.id (by
        rw [hid]
        exact Option.isSome_iff_exists.mpr ⟨w, hfound⟩)
    have hold : env.store.definitionOf i = w.parsedDefinition.value := by
      rw [Store.definitionOf, hworkflow, hfound]
    rw [hold, Store.definitionOf, hnew]
    exact hturn i hworkflow
  · have hsame : (Workflows.ruled env (.ok v)).store.workflow? i.workflowId =
        env.store.workflow? i.workflowId :=
      find?_put_of_ne Workflow.id (by rw [hid]; exact hworkflow)
    rw [definitionOf_congr hsame]
    exact .stays r _

end Environment.Deed

namespace Request

open Environment Operation

variable {e : Engine} {env : Environment}

/-- What a request does, if identifiers last: it yields something that is a deed. -/
def Does (r : Request) (e : Engine) (env : Environment) : Prop :=
  ∃ result env', (r.perform e).Yields env result env' ∧ Deed e r env env'

/-- A request whose result does not count. -/
theorem does_of_yields {α : Type} {r : Request} {x : Operation α}
    (hr : r.perform e = do let _ ← x) {result : Except EngineError α} {env' : Environment}
    (hx : x.Yields env result env') (hdeed : Deed e r env env') : r.Does e env := by
  obtain ⟨result, hyields⟩ := Inquiry.discard_yields hx
  exact ⟨result, env', by rw [hr]; exact hyields, hdeed⟩

/-- Creating a workflow leaves every situation alone. -/
theorem createWorkflow_does (henv : env.Orderly) (name description definition : String)
    (hrange : ((createWorkflow name description definition).perform e).StaysInRange env) :
    (createWorkflow name description definition).Does e env := by
  rcases Workflows.create_yields henv name description definition with
    ⟨error, hyields⟩ | ⟨w, -, hw, hyields⟩
  · exact does_of_yields rfl hyields (.refl henv)
  · have hid : w.id = (env.ids.draw .workflow).1 := by rw [hw]; rfl
    have hin := (hrange.first fun _ => .pure ()).ids_inRange hyields
    refine does_of_yields rfl hyields (.of_workflows
      ⟨henv.outage, hin, henv.store.addWorkflow (henv.in_range .workflow) hid⟩ rfl rfl rfl
      (fun i hi => ?_) henv)
    have hother : w.id ≠ i.workflowId := by
      rw [hid]
      exact ((henv.store.instance_issued i hi).2.ne_next (henv.in_range .workflow)).symm
    have hsame : ({ env.store with workflows := env.store.workflows ++ [w] } : Store).workflow?
        i.workflowId = env.store.workflow? i.workflowId := by
      simp [Store.workflow?, List.find?_append, hother]
    rw [definitionOf_congr hsame]
    exact .stays _ _

/-- Changing the status of a workflow leaves every situation alone. -/
theorem applyAction_does (henv : env.Orderly) (a : WorkflowAction) (id : Uuid) :
    (applyAction a id).Does e env := by
  have hyields : (Workflows.apply a id).Yields env _ _ := Workflows.apply_yields henv a
  cases hresult : Workflows.tryWorkflow env.store id fun w => w.apply a env.now with
  | error error =>
    rw [hresult] at hyields
    exact does_of_yields rfl hyields (.refl henv)
  | ok v =>
    rw [hresult] at hyields
    refine does_of_yields rfl hyields ?_
    unfold Workflows.tryWorkflow at hresult
    split at hresult
    · next w hw =>
      obtain ⟨hmem, rfl⟩ := henv.store.workflow?_eq_some_iff.mp hw
      dsimp only [Workflow.apply] at hresult
      split at hresult <;> cases hresult
      exact .of_ruled henv hmem rfl fun i _ => .stays _ _
    · cases hresult

/-- Replacing the definition of a workflow makes the situations of its instances turn. -/
theorem updateDefinition_does (henv : env.Orderly) (id : Uuid) (definition : String) :
    (updateDefinition id definition).Does e env := by
  have hyields : (Workflows.updateDefinition id definition).Yields env _ _ :=
    Workflows.updateDefinition_yields henv definition
  cases hresult : Workflows.tryWorkflow env.store id fun w =>
      (w.replaceDefinition definition env.now).value with
  | error error =>
    rw [hresult] at hyields
    exact does_of_yields rfl hyields (.refl henv)
  | ok v =>
    rw [hresult] at hyields
    refine does_of_yields rfl hyields ?_
    unfold Workflows.tryWorkflow at hresult
    split at hresult
    · next w hw =>
      obtain ⟨hmem, rfl⟩ := henv.store.workflow?_eq_some_iff.mp hw
      refine .of_ruled henv hmem (Workflows.id_of_replaceDefinition hresult) fun i hi => ?_
      rw [← hi]
      exact .redefined ⟨i, _, _⟩ definition _
    · cases hresult

/-- Deleting a workflow orphans its instances. -/
theorem deleteWorkflow_does (henv : env.Orderly) (id : Uuid) :
    (deleteWorkflow id).Does e env := by
  have hdelete := @Workflows.delete_yields env id henv
  rcases hdelete with ⟨error, hyields⟩ | ⟨w, -, -, hyields⟩
  · exact ⟨_, _, hyields, .refl henv⟩
  · refine ⟨_, _, hyields, .of_workflows
      ⟨henv.outage, henv.in_range, henv.store.removeWorkflow _⟩ rfl rfl rfl (fun i _ => ?_)
      henv⟩
    let s : Store := { env.store with
      workflows := env.store.workflows.filter fun w => w.id != id }
    change Turn e env.now _ _ ⟨i, _, s.definitionOf i⟩
    by_cases hid : i.workflowId = id
    · have hgone : s.workflow? i.workflowId = none := by
        simp [s, Store.workflow?, List.find?_eq_none, hid]
      have hdefinition : s.definitionOf i = .error (.workflowNotFound i.workflowId) := by
        rw [Store.definitionOf, hgone]
      rw [hdefinition, ← hid]
      exact .orphaned ⟨i, _, _⟩
    · have hsame : s.workflow? i.workflowId = env.store.workflow? i.workflowId := by
        refine List.find?_filter.trans (List.find?_congr fun w _ => ?_)
        by_cases hw : w.id = i.workflowId <;> simp [hw, hid]
      rw [definitionOf_congr hsame]
      exact .stays _ _

/-- Cancelling makes the situation of the instance turn. -/
theorem cancelInstance_does (henv : env.Orderly) (id : Uuid) :
    (cancelInstance id).Does e env := by
  have hresult := @Workflows.cancelInstance_yields env id henv
  rcases hresult with ⟨error, hyields⟩ | ⟨i, j, hi, hcancel, hyields⟩
  · exact does_of_yields rfl hyields (.refl henv)
  · have hsame : j.id = i.id ∧ j.workflowId = i.workflowId := by
      rw [(Instance.of_cancel hcancel).2]
      exact ⟨rfl, rfl⟩
    obtain ⟨hmem, rfl⟩ := henv.store.instance?_eq_some_iff.mp hi
    have hσ : env.store.situation? i.id = some ⟨i, _, _⟩ :=
      Engine.situation?_eq_some_iff.mpr ⟨i, hi, rfl⟩
    have hafter : env.after ⟨some j, [], []⟩ =
        { env with store := env.store.putInstance j } := by
      simp [Environment.after, Store.putInstance]
    have hrecord : ∀ k, some j = some k → k.id = i.id ∧ k.workflowId = i.workflowId := by
      rintro k ⟨⟩
      exact hsame
    have hσ' := situation?_after (c := ⟨some j, [], []⟩) hσ hrecord fun t ht => (by cases ht)
    rw [hafter, Situation.after] at hσ'
    refine does_of_yields rfl hyields (.of_turn
      ⟨henv.outage, henv.in_range, henv.store.putInstance hmem hsame.1 hsame.2⟩ rfl
      hσ hσ' ?_ ?_)
    · let τ : Situation := ⟨i, env.store.tasksOf i.id, env.store.definitionOf i⟩
      simpa using @Turn.cancelled e env.now τ j hcancel
    · intro other hne
      rw [← hafter]
      exact situation?_after_of_other (fun k hk => (hrecord k hk).1) (fun t ht => (by cases ht)) hne

/-- A claim changes the task in the situation of its instance. -/
theorem claim_does (henv : env.Orderly) (id : Uuid) (a : Actor)
    (hrange : ((claim id a).perform e).StaysInRange env) : (claim id a).Does e env := by
  have hyields : (Tasks.claim e id a).Yields env _ _ := Tasks.claim_yields henv a
  have hin := (hrange.first fun _ => .pure ()).ids_inRange hyields
  cases hresult : env.store.tryTask id fun t => t.claimedBy a env.now with
  | error error =>
    rw [hresult] at hyields
    exact does_of_yields rfl hyields (.refl henv)
  | ok u =>
    rw [hresult] at hyields hin
    obtain ⟨t, ht, hu⟩ := Store.tryTask_eq_ok.mp hresult
    obtain ⟨hmem, rfl⟩ := henv.store.task?_eq_some_iff.mp ht
    obtain ⟨hopen, htouched⟩ := Task.of_claimedBy hu
    refine does_of_yields rfl hyields (.of_worked henv hmem htouched.id_eq htouched.instanceId_eq
      hin fun σ hσ => .touched (.inl rfl) hσ hopen htouched)

/-- A delegation changes the task in the situation of its instance. -/
theorem delegate_does (henv : env.Orderly) (id : Uuid) (a : Actor) (toUser : String)
    (hrange : ((delegate id a toUser).perform e).StaysInRange env) :
    (delegate id a toUser).Does e env := by
  have hyields : (Tasks.delegate e id a toUser).Yields env _ _ :=
    Tasks.delegate_yields henv a toUser
  have hin := (hrange.first fun _ => .pure ()).ids_inRange hyields
  cases hresult : env.store.tryTask id fun t => t.delegatedBy a toUser with
  | error error =>
    rw [hresult] at hyields
    exact does_of_yields rfl hyields (.refl henv)
  | ok u =>
    rw [hresult] at hyields hin
    obtain ⟨t, ht, hu⟩ := Store.tryTask_eq_ok.mp hresult
    obtain ⟨hmem, rfl⟩ := henv.store.task?_eq_some_iff.mp ht
    obtain ⟨hopen, htouched⟩ := Task.of_delegatedBy hu
    refine does_of_yields rfl hyields (.of_worked henv hmem htouched.id_eq htouched.instanceId_eq
      hin fun σ hσ => .touched (.inr ⟨toUser, rfl⟩) hσ hopen htouched)

/-- Finishing a task changes it in the situation of its instance. -/
theorem finish_does (henv : env.Orderly) (id : Uuid) (a : Actor) (c : Completion)
    (hrange : ((finish id a c).perform e).StaysInRange env) : (finish id a c).Does e env := by
  have hyields : (Tasks.finish e id a c).Yields env _ _ := Tasks.finish_yields henv a c
  have hin := (hrange.first fun _ => .pure ()).ids_inRange hyields
  cases hresult : env.store.tryTask id fun t => t.finishedBy a c env.now with
  | error error =>
    rw [hresult] at hyields
    exact does_of_yields rfl hyields (.refl henv)
  | ok u =>
    rw [hresult] at hyields hin
    obtain ⟨t, ht, hu⟩ := Store.tryTask_eq_ok.mp hresult
    obtain ⟨hmem, rfl⟩ := henv.store.task?_eq_some_iff.mp ht
    obtain ⟨-, hfinished⟩ := Task.of_finishedBy hu
    obtain ⟨hid, howner, -⟩ := hfinished.place
    exact does_of_yields rfl hyields (.of_worked henv hmem hid howner hin fun σ hσ =>
      .finished hσ hu)

/-- Carrying a task through, as a request of its own or again. -/
theorem progress_deed (henv : env.Orderly) {r : Request} {id : Uuid}
    (hr : ∀ t, env.store.task? id = some t →
      r = .retry t.id ∧ t.progression.isStalled ∨ r = .progress t.id)
    (hrange : (e.progress id).StaysInRange env) :
    ∃ result env', (e.progress id).Yields env result env' ∧ Deed e r env env' := by
  cases ht : env.store.task? id with
  | none => exact ⟨_, _, progress_of_missing henv.outage ht, .refl henv⟩
  | some t =>
    obtain ⟨hmem, -⟩ := henv.store.task?_eq_some_iff.mp ht
    by_cases hadvanced : t.progression = .advanced
    · exact ⟨_, _, progress_of_advanced henv.outage ht hadvanced, .refl henv⟩
    cases hopen : t.status.isOpen with
    | true => exact ⟨_, _, progress_of_open henv.outage ht hadvanced hopen, .refl henv⟩
    | false =>
      obtain ⟨σ, hσ, hin⟩ := situation_of_task henv.store hmem
      obtain ⟨hyields, horderly⟩ := progress_yields henv ht hadvanced hopen hσ hrange
      exact ⟨_, _, hyields, .of_carried henv hmem hσ horderly
        (.carried _ (hr t ht) hin hadvanced hopen)⟩

/-- A retry carries the task through in the situation of its instance. -/
theorem retry_does (henv : env.Orderly) (id : Uuid)
    (hrange : ((retry id).perform e).StaysInRange env) : (retry id).Does e env := by
  cases ht : env.store.task? id with
  | none =>
    have hfound := Repository.task_yields id henv.outage
    rw [ht] at hfound
    exact does_of_yields (x := Tasks.retry e id) rfl (.bind_error hfound) (.refl henv)
  | some t =>
    by_cases hstalled : t.progression.isStalled
    · have hacts := Tasks.retry_actsAs (e := e) henv ht hstalled
      have hretry : (Tasks.retry e id).StaysInRange env := hrange.first fun _ => .pure ()
      obtain ⟨result, env', hyields, hdeed⟩ := progress_deed (r := retry id) henv
        (fun u hu => by
          obtain rfl := Option.some.inj (ht.symm.trans hu)
          obtain ⟨-, rfl⟩ := henv.store.task?_eq_some_iff.mp ht
          exact .inl ⟨rfl, hstalled⟩) (hretry.of_actsAs hacts)
      exact does_of_yields rfl (hacts.yields hyields) hdeed
    · exact does_of_yields rfl (Tasks.retry_refused henv ht hstalled) (.refl henv)

/-- Completing a task that the actor may complete finishes it and carries it through. -/
theorem complete_deed (henv : env.Orderly) {t u : Task} {a : Actor} {c : Completion}
    {σ : Situation} (ht : t ∈ env.store.tasks) (hu : t.finishedBy a c env.now = .ok u)
    (hσ : env.store.situation? t.instanceId = some σ)
    (hrange : ((complete t.id a c).perform e).StaysInRange env) :
    ∃ result env' ids, ((complete t.id a c).perform e).Yields env result env' ∧
      Deed e (.complete t.id a c) env env' ∧
      env'.store.situation? t.instanceId = some ((σ.withTask u).carried e env.now ids u) := by
  obtain ⟨-, hfinished⟩ := Task.of_finishedBy hu
  obtain ⟨hid, howner, -⟩ := hfinished.place
  have hstay := stays_of_orderly henv.store ht hid howner
  have hin : t ∈ σ.tasks := by
    obtain ⟨i, -, rfl⟩ := situation?_eq_some_iff.mp hσ
    exact Store.mem_tasksOf.mpr ⟨ht, rfl⟩
  obtain ⟨hσ₁, hyields, horderly₁, horderly₂⟩ := Tasks.complete_carried henv ht hu hσ
    (hrange.first fun _ => .pure ())
  let env₁ := env.worked e (fun t entry => .completed entry t a.user env.now) .taskCompleted
    (.ok u)
  have hmem₁ : u ∈ env₁.store.tasks := mem_put_self Task.id ht hid
  obtain ⟨hσ₂, hother⟩ := situation?_carried (e := e) horderly₁ hmem₁ hσ₁
    (((σ.withTask u).course e env.now u).outcome e)
  rw [howner] at hσ₂ hother
  obtain ⟨result, hdone⟩ := Inquiry.discard_yields hyields
  refine ⟨result, _, _, hdone, .of_turn horderly₂ rfl hσ hσ₂ (.completed _ hin hu) ?_, hσ₂⟩
  intro other hne
  exact (hother other hne).trans ((situation?_worked e env _ _ u other).trans
    (situation?_putTask_of_other hstay (by rw [howner]; exact hne)))

/-- A completion changes the task in the situation of its instance, and then carries it through.
-/
theorem complete_does (henv : env.Orderly) (id : Uuid) (a : Actor) (c : Completion)
    (hrange : ((complete id a c).perform e).StaysInRange env) : (complete id a c).Does e env := by
  cases hresult : env.store.tryTask id fun t => t.finishedBy a c env.now with
  | error error => exact does_of_yields rfl (Tasks.complete_refused henv hresult) (.refl henv)
  | ok u =>
    obtain ⟨t, ht, hu⟩ := Store.tryTask_eq_ok.mp hresult
    obtain ⟨hmem, rfl⟩ := henv.store.task?_eq_some_iff.mp ht
    obtain ⟨σ, hσ, -⟩ := situation_of_task henv.store hmem
    obtain ⟨result, env', -, hyields, hdeed, -⟩ := complete_deed henv hmem hu hσ hrange
    exact ⟨result, env', hyields, hdeed⟩

/-- A start gives birth to a situation under the next identifier, or leaves all of them alone. -/
theorem startInstance_does (henv : env.Orderly) (id : Uuid) (input : Json)
    (hrange : ((startInstance id input).perform e).StaysInRange env) :
    (startInstance id input).Does e env := by
  by_cases hstartable : ∃ w, env.store.workflow? id = some w ∧ w.status = .active
  · obtain ⟨w, hw, hactive⟩ := hstartable
    obtain ⟨horderly₁, hσ, horderly₂, hyields⟩ := Workflows.startInstance_yields henv hw hactive
      input (hrange.first fun _ => .pure ())
    refine does_of_yields rfl hyields ⟨horderly₂, rfl, fun other => ?_⟩
    obtain ⟨hrecord, hopened⟩ := launched_effect e (Workflows.birth env w input) env.now
      (Workflows.withInstance env (Workflows.newborn env w input)).ids
    have hfree : env.store.instance? (Workflows.newborn env w input).id = none :=
      henv.store.instance?_next (henv.in_range .run)
    by_cases h : other = (Workflows.newborn env w input).id
    · subst h
      have hnone : env.store.situation? (Workflows.newborn env w input).id = none := by
        rw [Store.situation?, hfree]
        rfl
      have hafter := situation?_after hσ hrecord hopened
      change Turned e env.now _ _ (Store.situation? _ (Workflows.birth env w input).record.id)
      rw [hnone, hafter]
      have hid := (henv.store.workflow?_eq_some_iff.mp hw).2
      exact .born _ ⟨rfl, ⟨_, _, _, rfl⟩, w.definition, rfl⟩ ⟨input, by rw [← hid]; rfl⟩
    · refine Deed.turned_of_eq ?_
      rw [situation?_after_of_other (fun j hj => (hrecord j hj).1) hopened h]
      have hinstance : (Workflows.withInstance env (Workflows.newborn env w input)).store.instance?
          other = env.store.instance? other := by
        simp [Workflows.withInstance, Store.instance?, List.find?_append, Ne.symm h]
      rw [Store.situation?, hinstance]
      rfl
  · obtain ⟨error, hyields⟩ := Workflows.startInstance_refused (e := e) henv input
      fun w hw hactive => hstartable ⟨w, hw, hactive⟩
    exact does_of_yields rfl hyields (.refl henv)

/-- Every request does something that is a deed. -/
theorem does (henv : env.Orderly) (r : Request) (hrange : (r.perform e).StaysInRange env) :
    r.Does e env := by
  cases r with
  | createWorkflow name description definition =>
    exact createWorkflow_does henv name description definition hrange
  | applyAction action workflow => exact applyAction_does henv action workflow
  | deleteWorkflow workflow => exact deleteWorkflow_does henv workflow
  | updateDefinition workflow definition => exact updateDefinition_does henv workflow definition
  | startInstance workflow input => exact startInstance_does henv workflow input hrange
  | cancelInstance run => exact cancelInstance_does henv run
  | claim task a => exact claim_does henv task a hrange
  | complete task a c => exact complete_does henv task a c hrange
  | delegate task a toUser => exact delegate_does henv task a toUser hrange
  | retry task => exact retry_does henv task hrange
  | inquire q =>
    obtain ⟨result, hyields⟩ := q.perform_yields e henv.outage
    exact ⟨result, env, hyields, .refl henv⟩
  | finish task a c => exact finish_does henv task a c hrange
  | progress task =>
    obtain ⟨result, env', hyields, hdeed⟩ := progress_deed (r := .progress task) henv
      (fun t ht => by
        obtain ⟨-, rfl⟩ := henv.store.task?_eq_some_iff.mp ht
        exact .inr rfl) (hrange.first fun _ => .pure ())
    exact does_of_yields rfl hyields hdeed

end Request

/-! ## Runs -/

namespace Environment

variable {e : Engine} {env : Environment}

/-- Serving a request keeps the environment orderly and makes every situation turn. -/
theorem serve_spec (henv : env.Orderly) (c : Call) (hrange : (env.serve e c).ids.InRange) :
    (env.serve e c).Orderly ∧ (env.serve e c).now = c.time ∧
      ∀ id, Turned e c.time c.request (env.store.situation? id)
        ((env.serve e c).store.situation? id) := by
  obtain ⟨result, env', hyields, hdeed⟩ :=
    c.request.does (henv.at_time c.time) (.of_leaves hrange)
  obtain ⟨log, hserve⟩ := serve_eq hyields
  rw [hserve]
  exact ⟨hdeed.orderly.with_log log, hdeed.now_eq, hdeed.turned⟩

/-- Serving the completion of a task that the actor may complete. -/
theorem serve_complete (henv : env.Orderly) {time : Timestamp} {t u : Task} {a : Actor}
    {c : Completion} {σ : Situation} (ht : t ∈ env.store.tasks)
    (hu : t.finishedBy a c time = .ok u) (hσ : env.store.situation? t.instanceId = some σ)
    (hrange : (env.serve e ⟨time, .complete t.id a c⟩).ids.InRange) :
    ∃ ids, (env.serve e ⟨time, .complete t.id a c⟩).store.situation? t.instanceId =
      some ((σ.withTask u).carried e time ids u) := by
  obtain ⟨result, env', ids, hyields, -, hσ'⟩ :=
    Request.complete_deed (henv.at_time time) ht hu hσ (.of_leaves hrange)
  obtain ⟨log, hserve⟩ := serve_eq (c := ⟨time, .complete t.id a c⟩) hyields
  rw [hserve]
  exact ⟨ids, hσ'⟩

/-- A run keeps the environment orderly. -/
theorem serveAll_orderly (henv : env.Orderly) (calls : List Call)
    (hrange : (env.serveAll e calls).ids.InRange) : (env.serveAll e calls).Orderly := by
  induction calls generalizing env with
  | nil => exact henv
  | cons c calls ih =>
    have hfirst := hrange.of_grows ((env.serve e c).serveAll_grows e calls)
    exact ih (serve_spec henv c hfirst).1 hrange

/-- Every call is admitted at the time of the one before. -/
def Admitted (Admits : Timestamp → Call → Prop) : Timestamp → List Call → Prop
  | _, [] => True
  | now, c :: calls => Admits now c ∧ Admitted Admits c.time calls

/-- Whether calls are admitted can be decided if it can be for each call. -/
instance decideAdmitted {Admits : Timestamp → Call → Prop}
    [∀ now c, Decidable (Admits now c)] :
    (now : Timestamp) → (calls : List Call) → Decidable (Admitted Admits now calls)
  | _, [] => .isTrue trivial
  | now, c :: calls =>
    have : Decidable (Admitted Admits c.time calls) := decideAdmitted c.time calls
    inferInstanceAs (Decidable (Admits now c ∧ Admitted Admits c.time calls))

/-- Calls are admitted in their order if each of them is admitted on its own. -/
theorem admitted_of_forall {Admits : Call → Prop} {calls : List Call}
    (h : ∀ c ∈ calls, Admits c) (now : Timestamp) :
    Admitted (fun _ c => Admits c) now calls := by
  induction calls generalizing now with
  | nil => trivial
  | cons c calls ih =>
    exact ⟨h c List.mem_cons_self, ih (fun c' hc' => h c' (List.mem_cons_of_mem c hc')) c.time⟩

/-- Calls may be admitted for two reasons at once, one of which does not depend on the time. -/
theorem Admitted.and {Admits : Timestamp → Call → Prop} {Others : Call → Prop} {now : Timestamp}
    {calls : List Call} (h : Admitted Admits now calls) (hothers : ∀ c ∈ calls, Others c) :
    Admitted (fun now c => Admits now c ∧ Others c) now calls := by
  induction calls generalizing now with
  | nil => trivial
  | cons c calls ih =>
    exact ⟨⟨h.1, hothers c List.mem_cons_self⟩,
      ih h.2 fun c' hc' => hothers c' (List.mem_cons_of_mem c hc')⟩

/-- Calls that are admitted under a condition are so one by one. -/
theorem admitted_of_imp {Admits : Timestamp → Call → Prop} {condition : Prop} {now : Timestamp}
    {calls : List Call} (h : condition → Admitted Admits now calls) :
    Admitted (fun now c => condition → Admits now c) now calls := by
  induction calls generalizing now with
  | nil => trivial
  | cons c calls ih =>
    exact ⟨fun hcondition => (h hcondition).1, ih fun hcondition => (h hcondition).2⟩

/-- The calls of a run that are admitted are so in its first part, and in its second part from
where the first one leads. -/
theorem Admitted.of_append {Admits : Timestamp → Call → Prop} (henv : env.Orderly)
    {calls others : List Call} (h : Admitted Admits env.now (calls ++ others))
    (hrange : (env.serveAll e calls).ids.InRange) :
    Admitted Admits env.now calls ∧ Admitted Admits (env.serveAll e calls).now others := by
  induction calls generalizing env with
  | nil => exact ⟨trivial, h⟩
  | cons c calls ih =>
    have hfirst := hrange.of_grows ((env.serve e c).serveAll_grows e calls)
    obtain ⟨horderly, hnow, -⟩ := serve_spec henv c hfirst
    obtain ⟨hcalls, hothers⟩ := ih horderly (by rw [hnow]; exact h.2) hrange
    rw [hnow] at hcalls
    exact ⟨⟨h.1, hcalls⟩, hothers⟩

/-- A property of situations holds throughout a run if it holds of the situations at its
beginning and of new instances, and every turn keeps it. -/
theorem serveAll_induction {P : Timestamp → Situation → Prop}
    {Admits : Timestamp → Call → Prop}
    (hborn : ∀ (now : Timestamp) (c : Call) (σ : Situation) (ids : IdSource), Admits now c →
      σ.IsBirth c.time → P c.time (σ.after (Workflows.launched e σ c.time ids)))
    (hturn : ∀ (now : Timestamp) (c : Call) (σ σ' : Situation), Admits now c →
      (σ.tasks.map Task.id).Nodup → (σ'.tasks.map Task.id).Nodup → P now σ →
      Turn e c.time c.request σ σ' → P c.time σ')
    (henv : env.Orderly) (calls : List Call) (hadmitted : Admitted Admits env.now calls)
    (hrange : (env.serveAll e calls).ids.InRange)
    (hP : ∀ id σ, env.store.situation? id = some σ → P env.now σ) {id : Uuid} {σ : Situation}
    (hσ : (env.serveAll e calls).store.situation? id = some σ) :
    P (env.serveAll e calls).now σ := by
  induction calls generalizing env with
  | nil => exact hP id σ hσ
  | cons c calls ih =>
    obtain ⟨hadmits, hothers⟩ := hadmitted
    have hfirst := hrange.of_grows ((env.serve e c).serveAll_grows e calls)
    obtain ⟨horderly, hnow, hturned⟩ := serve_spec henv c hfirst
    refine ih horderly (by rw [hnow]; exact hothers) hrange (fun other τ' hτ' => ?_) hσ
    rw [hnow]
    -- an instance that was not there before this request has been born in it
    cases hτ : env.store.situation? other with
    | none =>
      have hother := hturned other
      rw [hτ, hτ'] at hother
      cases hother with
      | born ids hbirth hr => exact hborn env.now c _ ids hadmits hbirth
    | some τ =>
      have hother := hturned other
      rw [hτ, hτ'] at hother
      cases hother with
      | turns h =>
        exact hturn env.now c τ τ' hadmits (situation_task_ids henv.store hτ)
          (situation_task_ids horderly.store hτ') (hP other τ hτ) h

/-- What holds of the situation of an instance at the beginning of a run holds of it at the end,
if every turn keeps it. -/
theorem serveAll_turns {P : Timestamp → Situation → Prop} {Admits : Timestamp → Call → Prop}
    (hturn : ∀ (now : Timestamp) (c : Call) (σ σ' : Situation), Admits now c →
      (σ.tasks.map Task.id).Nodup → (σ'.tasks.map Task.id).Nodup → P now σ →
      Turn e c.time c.request σ σ' → P c.time σ')
    (henv : env.Orderly) (calls : List Call) (hadmitted : Admitted Admits env.now calls)
    (hrange : (env.serveAll e calls).ids.InRange) {id : Uuid} {σ : Situation}
    (hσ : env.store.situation? id = some σ) (hP : P env.now σ) :
    ∃ σ', (env.serveAll e calls).store.situation? id = some σ' ∧
      P (env.serveAll e calls).now σ' := by
  induction calls generalizing env σ with
  | nil => exact ⟨σ, hσ, hP⟩
  | cons c calls ih =>
    obtain ⟨hadmits, hothers⟩ := hadmitted
    have hfirst := hrange.of_grows ((env.serve e c).serveAll_grows e calls)
    obtain ⟨horderly, hnow, hturned⟩ := serve_spec henv c hfirst
    have hnext := hturned id
    rw [hσ] at hnext
    cases hσ' : (env.serve e c).store.situation? id with
    | none =>
      rw [hσ'] at hnext
      cases hnext
    | some σ' =>
      rw [hσ'] at hnext
      cases hnext with
      | turns h =>
        refine ih horderly (by rw [hnow]; exact hothers) hrange hσ' ?_
        rw [hnow]
        exact hturn env.now c σ σ' hadmits (situation_task_ids henv.store hσ)
          (situation_task_ids horderly.store hσ') hP h

end Environment

end ApprovalWorkflow
