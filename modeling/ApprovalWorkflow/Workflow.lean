import ApprovalWorkflow.Definition.Source
import ApprovalWorkflow.Timestamp

/-!
# Workflows

A workflow is a definition with a name and a life of its own: a draft is activated, an active
workflow may be frozen and activated again, and it ends completed, failed or cancelled.
Instances are started only from active workflows.
-/

set_option autoImplicit false

namespace ApprovalWorkflow

/-- The status of a workflow. -/
inductive WorkflowStatus where
  | draft
  | active
  | frozen
  | completed
  | failed
  | cancelled
deriving DecidableEq, Repr

namespace WorkflowStatus

/-- All statuses. -/
def all : List WorkflowStatus := [.draft, .active, .frozen, .completed, .failed, .cancelled]

/-- The name of a status. -/
def name : WorkflowStatus → String
  | .draft => "draft"
  | .active => "active"
  | .frozen => "frozen"
  | .completed => "completed"
  | .failed => "failed"
  | .cancelled => "cancelled"

/-- The status of a name. -/
def ofName? (s : String) : Option WorkflowStatus := all.find? fun t => t.name = s

/-- Whether the workflow has ended. -/
def isTerminal : WorkflowStatus → Bool
  | .completed => true
  | .failed => true
  | .cancelled => true
  | _ => false

/-- A status. -/
def decode : Decoder WorkflowStatus := Decode.choice (all.map name) ofName?

end WorkflowStatus

/-- A definition with a name and a status. -/
structure Workflow where
  id : Uuid
  name : String
  description : String
  /-- The text of the definition. -/
  definition : String
  status : WorkflowStatus
  createdAt : Timestamp
  updatedAt : Timestamp
deriving DecidableEq, Repr

/-- A step in the life of a workflow. -/
inductive WorkflowAction where
  | activate
  | freeze
  | complete
  | fail
  | cancel
deriving DecidableEq, Repr

namespace WorkflowAction

/-- The name of an action. -/
def name : WorkflowAction → String
  | .activate => "activate"
  | .freeze => "freeze"
  | .complete => "complete"
  | .fail => "fail"
  | .cancel => "cancel"

/-- The statuses from which the action is possible. -/
def sources : WorkflowAction → List WorkflowStatus
  | .activate => [.draft, .frozen]
  | .freeze => [.active]
  | .complete => [.active]
  | .fail => [.active]
  | .cancel => [.draft, .active, .frozen]

/-- The status to which the action leads. -/
def target : WorkflowAction → WorkflowStatus
  | .activate => .active
  | .freeze => .frozen
  | .complete => .completed
  | .fail => .failed
  | .cancel => .cancelled

end WorkflowAction

namespace Workflow

/-- Checks what a workflow is made of: its name is not blank and its definition is sound. -/
def checkParts (name definition : String) : Logged (Except EngineError Unit) :=
  if Text.isBlankText name then pure (.error (.invalidDefinition [.emptyName]))
  else do
    let parsed ← Definition.parse definition
    pure (parsed.map fun _ => ())

/-- A draft. -/
def draft (id : Uuid) (name description definition : String) (now : Timestamp) : Workflow :=
  ⟨id, name, description, definition, .draft, now, now⟩

/-- A draft, if the name is not blank and the definition is sound. -/
def create (id : Uuid) (name description definition : String) (now : Timestamp) :
    Logged (Except EngineError Workflow) := do
  let checked ← checkParts name definition
  pure (checked.map fun _ => draft id name description definition now)

/-- The draft of a definition. -/
def ofDefinition (id : Uuid) (d : Definition) (now : Timestamp) :
    Logged (Except EngineError Workflow) :=
  create id d.name d.description d.toText now

/-- The definition of a workflow. -/
def parsedDefinition (w : Workflow) : Logged (Except EngineError Definition) :=
  Definition.parse w.definition

/-- A workflow that has not ended gets another sound definition. -/
def replaceDefinition (w : Workflow) (definition : String) (now : Timestamp) :
    Logged (Except EngineError Workflow) :=
  if w.status.isTerminal then
    pure (.error (.invalidTransition "workflow" w.status.name "edit"))
  else do
    let parsed ← Definition.parse definition
    pure (parsed.map fun _ => { w with definition := definition, updatedAt := now })

/-- A step in the life of the workflow, if it is possible. -/
def apply (w : Workflow) (a : WorkflowAction) (now : Timestamp) : Except EngineError Workflow :=
  if a.sources.contains w.status then .ok { w with status := a.target, updatedAt := now }
  else .error (.invalidTransition "workflow" w.status.name a.name)

/-- Only drafts and cancelled workflows may be deleted. -/
def canDelete (w : Workflow) : Bool :=
  match w.status with
  | .draft => true
  | .cancelled => true
  | _ => false

/-- Refuses a workflow that is not active. -/
def ensureStartable (w : Workflow) : Except EngineError Unit :=
  if w.status = .active then .ok ()
  else .error (.invalidTransition "workflow" w.status.name "start an instance of")

/-- The names of the fields of a workflow. -/
def known : List (List String) :=
  [["id"], ["name"], ["description"], ["definition"], ["status"], ["createdAt"], ["updatedAt"]]

/-- A workflow. -/
def decode : Decoder Workflow :=
  Decode.record "struct Workflow" known fun r =>
    (Slot.pure Workflow.mk).ap (r.required 0 Uuid.decode)
      |>.ap (r.required 1 Decode.string)
      |>.ap (r.withDefault 2 "" Decode.string)
      |>.ap (r.required 3 Decode.string)
      |>.ap (r.required 4 WorkflowStatus.decode)
      |>.ap (r.required 5 Timestamp.decode)
      |>.ap (r.required 6 Timestamp.decode)

/-- The value of a workflow. -/
def toJson (w : Workflow) : Json :=
  .obj [("id", w.id.toJson), ("name", .str w.name), ("description", .str w.description),
    ("definition", .str w.definition), ("status", .str w.status.name),
    ("createdAt", w.createdAt.toJson), ("updatedAt", w.updatedAt.toJson)]

end Workflow

end ApprovalWorkflow
