import ApprovalWorkflow.Engine.Walk

/-!
# Managing workflows and their instances

Creating workflows and leading them through their lives, and starting and cancelling instances.
An instance that cannot be started stays in the store as a failed one, with the reason.
-/

set_option autoImplicit false

namespace ApprovalWorkflow.Workflows

open Operation

/-- Stores a new draft. -/
def create (name description definition : String) : Operation Workflow := do
  heedResult (Workflow.checkParts name definition)
  let id ← freshId .workflow
  let w := Workflow.draft id name description definition (← now)
  Repository.saveWorkflow w
  say .info ("Created workflow '" ++ w.name ++ "' (" ++ w.id.toString ++ ")")
  return w

/-- A workflow. -/
def get (id : Uuid) : Operation Workflow := Repository.workflow id

/-- All workflows in the order of their creation. -/
def list : Operation (List Workflow) := Repository.listWorkflows

/-- The instances of a workflow in the order of their start. -/
def instances (id : Uuid) : Operation (List Instance) := Repository.listInstances id

/-- Takes a step in the life of a workflow. -/
def apply (a : WorkflowAction) (id : Uuid) : Operation Workflow := do
  let w ← Repository.workflow id
  let w ← lift (w.apply a (← now))
  Repository.updateWorkflow w
  say .info ("Workflow '" ++ w.name ++ "' is now " ++ w.status.name)
  return w

/-- Deletes a draft or a cancelled workflow. -/
def delete (id : Uuid) : Operation Unit := do
  let w ← Repository.workflow id
  if ¬ w.canDelete then throw (.invalidTransition "workflow" w.status.name "delete")
  Repository.deleteWorkflow id
  say .info ("Deleted workflow '" ++ w.name ++ "' (" ++ id.toString ++ ")")

/-- Replaces the definition of a workflow, also for the instances that are running. -/
def updateDefinition (id : Uuid) (definition : String) : Operation Workflow := do
  let w ← Repository.workflow id
  let w ← heedResult (w.replaceDefinition definition (← now))
  Repository.updateWorkflow w
  say .info ("Updated definition of workflow '" ++ w.name ++ "'")
  return w

/-- A running instance of a workflow that has not been started and is not stored. -/
def newInstance (workflow : Uuid) (input : Json) : Operation Instance := do
  let id ← freshId .run
  let input ← heed (normalizeInput input)
  return Instance.new id workflow input (← now)

/-- Writes down that an instance could not be started. -/
def recordFailure (id : Uuid) (error : EngineError) : Operation Unit := do
  say .error ("Instance " ++ id.toString ++ " failed to start: " ++ error.message)
  let i ← Repository.instanceOf id
  match i.fail error.message (← now) with
  | .ok failed => Repository.updateInstance failed
  | .error _ => return

/-- Starts an instance of an active workflow and lets it run until it waits for somebody. -/
def startInstance (e : Engine) (workflow : Uuid) (input : Json) : Operation Instance := do
  let w ← Repository.workflow workflow
  lift w.ensureStartable
  let i ← newInstance w.id input
  Repository.saveInstance i
  match ← attempt (e.start i.id) with
  | .ok () => Repository.instanceOf i.id
  | .error error =>
    recordFailure i.id error
    throw error

/-- An instance. -/
def getInstance (id : Uuid) : Operation Instance := Repository.instanceOf id

/-- Gives up a running instance. -/
def cancelInstance (id : Uuid) : Operation Instance := do
  let i ← Repository.instanceOf id
  let i ← lift (i.cancel (← now))
  Repository.updateInstance i
  say .info ("Cancelled instance " ++ id.toString)
  return i

end ApprovalWorkflow.Workflows
