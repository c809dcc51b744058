import ApprovalWorkflow.History
import ApprovalWorkflow.Instance
import ApprovalWorkflow.Workflow

/-!
# The store

All records of workflows, instances, tasks and the audit trail. Tasks and entries are kept in
the order in which they were created. A record is saved once under its id and can be updated
after that; every operation here is a function from a store to a result and the store after it.
-/

set_option autoImplicit false

namespace ApprovalWorkflow

/-- All records. -/
structure Store where
  workflows : List Workflow
  instances : List Instance
  tasks : List Task
  history : List HistoryEntry
deriving DecidableEq, Repr

/-- A part of a listing. -/
structure Page where
  offset : Nat
  limit : Nat
deriving DecidableEq, Repr

namespace Page

/-- The first part. -/
def first (limit : Nat) : Page := ⟨0, limit⟩

/-- The part behind this one. -/
def next (p : Page) : Page := { p with offset := p.offset + p.limit }

/-- The items of a listing in this part. -/
def select {α : Type} (p : Page) (items : List α) : List α := (items.drop p.offset).take p.limit

end Page

/-- Replaces the first item for which a test holds. -/
def replaceFirst {α : Type} (test : α → Bool) (new : α) : List α → List α
  | [] => []
  | a :: items => if test a then new :: items else a :: replaceFirst test new items

namespace Store

/-- A store without records. -/
def empty : Store := ⟨[], [], [], []⟩

/-- The workflow with an id. -/
def workflow? (s : Store) (id : Uuid) : Option Workflow := s.workflows.find? fun w => w.id == id

/-- The instance with an id. -/
def instance? (s : Store) (id : Uuid) : Option Instance := s.instances.find? fun i => i.id == id

/-- The task with an id. -/
def task? (s : Store) (id : Uuid) : Option Task := s.tasks.find? fun t => t.id == id

/-- What is said about a record that is there already. -/
def alreadyThere (kind : String) (id : Uuid) : EngineError :=
  .storage (kind ++ " " ++ id.toString ++ " already exists")

/-- Adds a workflow. -/
def saveWorkflow (s : Store) (w : Workflow) : Except EngineError Store :=
  if (s.workflow? w.id).isSome then .error (alreadyThere "workflow" w.id)
  else .ok { s with workflows := s.workflows ++ [w] }

/-- Puts a workflow in the place of the one with its id. -/
def updateWorkflow (s : Store) (w : Workflow) : Except EngineError Store :=
  if (s.workflow? w.id).isSome then
    .ok { s with workflows := replaceFirst (fun v => v.id == w.id) w s.workflows }
  else .error (.workflowNotFound w.id)

/-- Removes a workflow. -/
def deleteWorkflow (s : Store) (id : Uuid) : Except EngineError Store :=
  if (s.workflow? id).isSome then
    .ok { s with workflows := s.workflows.filter fun w => w.id != id }
  else .error (.workflowNotFound id)

/-- Workflows in the order of their creation. -/
def createdBefore (v w : Workflow) : Bool :=
  if v.createdAt = w.createdAt then v.id.le w.id else v.createdAt.le w.createdAt

/-- All workflows in the order of their creation. -/
def listWorkflows (s : Store) : List Workflow := s.workflows.mergeSort createdBefore

/-- Adds an instance. -/
def saveInstance (s : Store) (i : Instance) : Except EngineError Store :=
  if (s.instance? i.id).isSome then .error (alreadyThere "instance" i.id)
  else .ok { s with instances := s.instances ++ [i] }

/-- Puts an instance in the place of the one with its id. -/
def updateInstance (s : Store) (i : Instance) : Except EngineError Store :=
  if (s.instance? i.id).isSome then
    .ok { s with instances := replaceFirst (fun j => j.id == i.id) i s.instances }
  else .error (.instanceNotFound i.id)

/-- Instances in the order of their start. -/
def startedBefore (i j : Instance) : Bool :=
  if i.startedAt = j.startedAt then i.id.le j.id else i.startedAt.le j.startedAt

/-- The instances of a workflow in the order of their start. -/
def listInstances (s : Store) (workflow : Uuid) : List Instance :=
  (s.instances.filter fun i => i.workflowId == workflow).mergeSort startedBefore

/-- All instances in the order of their start. -/
def allInstances (s : Store) : List Instance := s.instances.mergeSort startedBefore

/-- The tasks of an instance in the order of their creation. -/
def tasksOf (s : Store) (i : Uuid) : List Task := s.tasks.filter fun t => t.instanceId == i

/-- A part of the tasks of an instance. -/
def tasksPage (s : Store) (i : Uuid) (page : Page) : List Task := page.select (s.tasksOf i)

/-- Adds a task. -/
def saveTask (s : Store) (t : Task) : Except EngineError Store :=
  if (s.task? t.id).isSome then .error (alreadyThere "task" t.id)
  else .ok { s with tasks := s.tasks ++ [t] }

/-- Puts a task in the place of the one with its id. -/
def updateTask (s : Store) (t : Task) : Except EngineError Store :=
  if (s.task? t.id).isSome then
    .ok { s with tasks := replaceFirst (fun u => u.id == t.id) t s.tasks }
  else .error (.taskNotFound t.id)

/-- Adds an entry to the audit trail. -/
def appendHistory (s : Store) (h : HistoryEntry) : Store :=
  { s with history := s.history ++ [h] }

/-- The entries about a task in the order in which they were added. -/
def historyOf (s : Store) (task : Uuid) : List HistoryEntry :=
  s.history.filter fun h => h.taskId == task

end Store

end ApprovalWorkflow
