import ApprovalWorkflow.Definition.Problem
import ApprovalWorkflow.Files.Problem
import ApprovalWorkflow.Uuid

/-!
# Why an operation fails

One type of errors for workflows, instances, tasks, storage and settings, with the wording of
each. The names of records in messages are their identifiers.
-/

set_option autoImplicit false

namespace ApprovalWorkflow

/-- Why an operation on workflows, instances or tasks fails. -/
inductive EngineError where
  | workflowNotFound (id : Uuid)
  | instanceNotFound (id : Uuid)
  | taskNotFound (id : Uuid)
  | stepNotFound (key : String)
  /-- The record is in a status from which the action is not possible. -/
  | invalidTransition (entity status action : String)
  | unauthorized (user : String) (task : Uuid)
  | taskNotPending (id : Uuid)
  | taskNotClaimable (user : String) (task : Uuid)
  | invalidDefinition (problems : List DefinitionProblem)
  | noPreviousTask (id : Uuid)
  | instanceNotRunning (id : Uuid)
  | stepLimitExceeded (limit : Nat)
  | storage (reason : String)
  | settings (reason : String)
  | serialization (error : DecodeError)
  | file (problem : FileProblem)
deriving DecidableEq, Repr

namespace EngineError

/-- The wording of an error. -/
def message : EngineError → String
  | .workflowNotFound id => "workflow not found: " ++ id.toString
  | .instanceNotFound id => "workflow instance not found: " ++ id.toString
  | .taskNotFound id => "task not found: " ++ id.toString
  | .stepNotFound key => "step '" ++ key ++ "' not found in workflow definition"
  | .invalidTransition entity status action =>
    "invalid status transition: cannot " ++ action ++ " " ++ entity ++ " in status '" ++ status
      ++ "'"
  | .unauthorized user task =>
    "user '" ++ user ++ "' is not allowed to act on task " ++ task.toString
  | .taskNotPending id => "task " ++ id.toString ++ " is not pending"
  | .taskNotClaimable user task =>
    "task " ++ task.toString ++ " cannot be claimed by '" ++ user ++ "'"
  | .invalidDefinition problems =>
    "invalid workflow definition: "
      ++ Text.joinStrings "; " (problems.map DefinitionProblem.message)
  | .noPreviousTask id =>
    "cannot reject task " ++ id.toString ++ ": no previously completed task to return to"
  | .instanceNotRunning id => "workflow instance " ++ id.toString ++ " is not running"
  | .stepLimitExceeded limit =>
    "more than " ++ String.ofList (Text.decimal limit)
      ++ " automatic steps executed in a single call"
  | .storage reason => "storage error: " ++ reason
  | .settings reason => "configuration error: " ++ reason
  | .serialization error => "serialization error: " ++ error.message
  | .file problem => "I/O error: " ++ problem.message

/-- Whether a record was in the wrong status. -/
def isInvalidTransition : EngineError → Bool
  | .invalidTransition .. => true
  | _ => false

end EngineError

end ApprovalWorkflow
