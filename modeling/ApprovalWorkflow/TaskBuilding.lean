import ApprovalWorkflow.Assignee
import ApprovalWorkflow.DueDate
import ApprovalWorkflow.Instance
import ApprovalWorkflow.Settings

/-!
# Building tasks

How a step becomes a task of an instance: the assignee is resolved against the input, the
candidates, the priority and the form are taken from the step, and the data of the task are the
entries of the input together with a record of every task that has been finished so far. A task
that is opened again after a rejection also says who rejected what, when and why.
-/

set_option autoImplicit false

namespace ApprovalWorkflow

/-- The entry of the data of a task under which the finished tasks stand. -/
def historyKey : String := "previousTasksHistory"

namespace Task

/-- What later tasks are told about a finished task. -/
def historyRecord (labels : ResultLabels) (t : Task) : Json :=
  .obj [("assignee", .ofString? t.assignee), ("comment", .ofString? t.comment),
    ("completedAt", .ofString? (t.completedAt.map Timestamp.toString)), ("output", t.output),
    ("result", .ofString? (t.result.map labels.label)), ("status", .str t.status.name),
    ("taskKey", .str t.key), ("taskName", .str t.name)]

end Task

/-- The finished tasks in the order in which they were finished. -/
def finishedTasks (tasks : List Task) : List Task :=
  (tasks.filter fun t => t.status.isTerminal).mergeSort Task.finishedBefore

/-- What a task is told about the finished tasks. -/
def historyBlock (tasks : List Task) (labels : ResultLabels) : List Json :=
  (finishedTasks tasks).map (Task.historyRecord labels)

/-- The entries of an input. A null has none, and a value that is no object stands under a name
of its own. -/
def inputEntries : Json → List (String × Json)
  | .obj fields => fields
  | .null => []
  | v => [("input", v)]

/-- The data of a task: the entries of the input and the finished tasks. -/
def carriedData (input : Json) (history : List Json) : Json :=
  .obj (Json.insert historyKey (.arr history) (inputEntries input))

namespace Task

/-- The task takes over what a step says about it. -/
def applyParams (t : Task) (params : TaskParams) (input : Json) : Logged Task := do
  let assignee := params.assignee.bind fun template => resolveAssignee template input
  match params.assignee, assignee with
  | some template, none =>
    Logged.line .warn ("Assignee '" ++ template ++ "' of task '" ++ t.key
      ++ "' did not resolve; leaving it to candidates")
  | _, _ => pure ()
  pure { t with
    assignee := assignee
    candidateUsers := params.candidateUsers
    candidateGroups := params.candidateGroups
    priority := params.priority
    formData := .obj [("fields", .arr (params.formFields.map fun f => .ofFields f.toFields))] }

/-- The due date of a step that is reached at a time. -/
def dueDateOf (s : Step) (now : Timestamp) : Logged (Option Timestamp) :=
  match s.timeout with
  | none => pure none
  | some timeout =>
    match dueDate? now timeout with
    | some due => pure (some due)
    | none => do
      Logged.line .warn ("Ignoring step timeout " ++ timeout.compact)
      pure none

/-- The pending task of a step under a key. `history` is every task of the instance so far. -/
def build (id : Uuid) (i : Instance) (s : Step) (key : String) (parent : Option String)
    (history : List Task) (labels : ResultLabels) (now : Timestamp) : Logged Task := do
  let due ← dueDateOf s now
  let bare := { Task.new id i.id i.workflowId key
      (if s.name = "" then s.id else s.name) now with
    parentStepId := parent
    description := s.description
    typeName := s.typeName
    dueDate := due }
  let t ← bare.applyParams (s.params?.getD .default) i.input
  pure { t with taskData := carriedData i.input (historyBlock history labels) }

/-- The entries that say who rejected what, when and why. -/
def rejectionEntries (rejected : Task) (rejectedAt : Timestamp) : List (String × Json) :=
  [("rejectedBy", .ofString? rejected.assignee), ("rejectedAt", rejectedAt.toJson),
    ("rejectionReason", .ofString? rejected.comment), ("rejectedTaskId", rejected.id.toJson)]

/-- Entries are put over those that are there. -/
def overlay (entries fields : List (String × Json)) : List (String × Json) :=
  entries.foldl (fun acc (k, v) => Json.insert k v acc) fields

/-- The data of a task as an object. -/
def dataFields : Json → List (String × Json)
  | .obj fields => fields
  | v => Json.insert historyKey (.arr []) (inputEntries v)

/-- The task is told about the rejection after which it was opened again. -/
def markRejected (t rejected : Task) (rejectedAt : Timestamp) : Task :=
  { t with
    taskData := .obj (overlay (rejectionEntries rejected rejectedAt) (dataFields t.taskData)) }

end Task

end ApprovalWorkflow
