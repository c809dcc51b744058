import ApprovalWorkflow.Document.Basic

/-!
# Problems of a definition

Everything that can be wrong with a workflow definition, from a text that cannot be read to a
reference that leads nowhere, and the wording of each problem.
-/

set_option autoImplicit false

namespace ApprovalWorkflow

/-- What is wrong with a definition. -/
inductive DefinitionProblem where
  | emptyName
  | noSteps
  | unreadable (format : TextFormat) (error : DecodeError)
  | emptyStepId
  | duplicateStepId (id : String)
  | duplicateBranchId (step branch : String)
  | unknownReference (step reference : String)
  | invalidPriority (step value : String)
  | invalidBranchType (step branch typeName : String)
  | nestedParallel (step branch : String)
  | noBranches (step : String)
deriving DecidableEq, Repr

namespace DefinitionProblem

/-- The wording of a problem. What is wrong with a YAML text is not said in detail. -/
def message : DefinitionProblem → String
  | .emptyName => "Workflow name is empty"
  | .noSteps => "Workflow definition has no steps"
  | .unreadable .json error => "Failed to parse workflow definition: " ++ error.message
  | .unreadable .yaml _ => "Failed to parse workflow definition: <yaml>"
  | .emptyStepId => "Step has empty or whitespace-only ID"
  | .duplicateStepId id => "Duplicate step ID: '" ++ id ++ "'"
  | .duplicateBranchId step branch =>
    "Parallel step '" ++ step ++ "' declares branch '" ++ branch ++ "' twice"
  | .unknownReference step reference =>
    "Step '" ++ step ++ "' references unknown step '" ++ reference ++ "'"
  | .invalidPriority step value =>
    "Step '" ++ step ++ "' has invalid priority '" ++ value ++ "' (expected low, medium or high)"
  | .invalidBranchType step branch typeName =>
    "Parallel step '" ++ step ++ "': branch '" ++ branch ++ "' has type '" ++ typeName
      ++ "', only user_task branches are supported"
  | .nestedParallel step branch =>
    "Parallel step '" ++ step ++ "': branch '" ++ branch ++ "' cannot itself be parallel"
  | .noBranches step => "Parallel step '" ++ step ++ "' has no branches"

end DefinitionProblem

end ApprovalWorkflow
