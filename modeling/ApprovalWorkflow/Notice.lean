import ApprovalWorkflow.Instance
import ApprovalWorkflow.Task

/-!
# Notices

What the engine tells the outside world: that a task is there, that somebody is asked to do it,
that it has ended, and that an instance has come to its end.
-/

set_option autoImplicit false

namespace ApprovalWorkflow

/-- A message to the outside world. -/
inductive Notice where
  | taskCreated (task : Task)
  | taskAssigned (task : Task) (user : String)
  | taskCompleted (task : Task)
  | workflowCompleted (run : Instance)
deriving DecidableEq, Repr

namespace Notice

/-- The wording of a notice in the log. -/
def text : Notice → String
  | .taskCreated t =>
    "Task created: '" ++ t.name ++ "' [" ++ t.id.toString ++ "] for "
      ++ t.assignee.getD "candidates"
  | .taskAssigned t user =>
    "Task assigned: '" ++ t.name ++ "' [" ++ t.id.toString ++ "] to " ++ user
  | .taskCompleted t =>
    "Task " ++ t.status.name ++ ": '" ++ t.name ++ "' [" ++ t.id.toString ++ "]"
  | .workflowCompleted i => "Workflow instance " ++ i.id.toString ++ " completed"

end Notice

/-- What becomes of notices. -/
inductive Notifier where
  /-- They are dropped. -/
  | silent
  /-- They are sent, and written to the log. -/
  | logging
deriving DecidableEq, Repr

end ApprovalWorkflow
