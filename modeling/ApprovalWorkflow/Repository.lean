import ApprovalWorkflow.Operation

/-!
# Reaching the store

The calls of the store as operations, and what is made of them: a record that has to be there,
and all tasks of an instance, read page by page until a page is not full.
-/

set_option autoImplicit false

namespace ApprovalWorkflow.Repository

open Operation

/-- The workflow with an id, which has to be there. -/
def workflow (id : Uuid) : Operation Workflow := do
  match ← query .findWorkflow fun s => s.workflow? id with
  | some w => return w
  | none => throw (.workflowNotFound id)

/-- The instance with an id, which has to be there. -/
def instanceOf (id : Uuid) : Operation Instance := do
  match ← query .findInstance fun s => s.instance? id with
  | some i => return i
  | none => throw (.instanceNotFound id)

/-- The task with an id, which has to be there. -/
def task (id : Uuid) : Operation Task := do
  match ← query .findTask fun s => s.task? id with
  | some t => return t
  | none => throw (.taskNotFound id)

def saveWorkflow (w : Workflow) : Operation Unit := change .saveWorkflow fun s => s.saveWorkflow w

def updateWorkflow (w : Workflow) : Operation Unit :=
  change .updateWorkflow fun s => s.updateWorkflow w

def deleteWorkflow (id : Uuid) : Operation Unit :=
  change .deleteWorkflow fun s => s.deleteWorkflow id

def listWorkflows : Operation (List Workflow) := query .listWorkflows Store.listWorkflows

def saveInstance (i : Instance) : Operation Unit := change .saveInstance fun s => s.saveInstance i

def updateInstance (i : Instance) : Operation Unit :=
  change .updateInstance fun s => s.updateInstance i

def listInstances (workflow : Uuid) : Operation (List Instance) :=
  query .listInstances fun s => s.listInstances workflow

def saveTask (t : Task) : Operation Unit := change .saveTask fun s => s.saveTask t

def updateTask (t : Task) : Operation Unit := change .updateTask fun s => s.updateTask t

/-- A page of the tasks of an instance. -/
def tasksPage (i : Uuid) (page : Page) : Operation (List Task) :=
  query .findTasksByInstance fun s => s.tasksPage i page

def appendHistory (h : HistoryEntry) : Operation Unit :=
  change .appendHistory fun s => .ok (s.appendHistory h)

/-- The entries about a task. -/
def historyOf (task : Uuid) : Operation (List HistoryEntry) :=
  query .historyForTask fun s => s.historyOf task

/-- The tasks of an instance from a page on, in at most the given number of pages. A page that
is not full is the last one. -/
def tasksFrom (i : Uuid) : Nat → Page → Operation (List Task)
  | 0, _ => return []
  | pages + 1, page => do
    let batch ← tasksPage i page
    if batch.length < page.limit then return batch
    let others ← tasksFrom i pages page.next
    return batch ++ others

/-- All tasks of an instance. A full page holds a task at least, so that there are not more
pages than tasks before the last one. -/
def allTasks (i : Uuid) (pageSize : Nat) : Operation (List Task) := do
  let count := (← get).store.tasks.length
  tasksFrom i (count + 1) (Page.first (max pageSize 1))

end ApprovalWorkflow.Repository
