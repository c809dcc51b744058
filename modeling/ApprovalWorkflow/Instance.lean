import ApprovalWorkflow.Error
import ApprovalWorkflow.Log
import ApprovalWorkflow.Timestamp

/-!
# Instances

An instance is one run of a workflow on an input. It is running from the start and leaves that
status once. Its join records say for which sets of branch tasks a parallel step has already
moved the instance on (`Instance.claimJoin`).
-/

set_option autoImplicit false

namespace ApprovalWorkflow

/-- The status of an instance. -/
inductive InstanceStatus where
  | running
  | completed
  | failed
  | cancelled
deriving DecidableEq, Repr

namespace InstanceStatus

/-- All statuses. -/
def all : List InstanceStatus := [.running, .completed, .failed, .cancelled]

/-- The name of a status. -/
def name : InstanceStatus → String
  | .running => "running"
  | .completed => "completed"
  | .failed => "failed"
  | .cancelled => "cancelled"

/-- The status of a name. -/
def ofName? (s : String) : Option InstanceStatus := all.find? fun t => t.name = s

/-- A status. -/
def decode : Decoder InstanceStatus := Decode.choice (all.map name) ofName?

end InstanceStatus

/-- The branch tasks, in order of their ids, whose end has moved an instance on behind a
parallel step. -/
structure JoinRecord where
  stepId : String
  taskIds : List Uuid
  firedAt : Timestamp
deriving DecidableEq, Repr

namespace JoinRecord

/-- The names of the fields of a join record. -/
def known : List (List String) := [["stepId"], ["taskIds"], ["firedAt"]]

/-- A join record. -/
def decode : Decoder JoinRecord :=
  Decode.record "struct JoinRecord" known fun r =>
    (Slot.pure JoinRecord.mk).ap (r.required 0 Decode.string)
      |>.ap (r.required 1 (Decode.list Uuid.decode))
      |>.ap (r.required 2 Timestamp.decode)

/-- The value of a join record. -/
def toJson (j : JoinRecord) : Json :=
  .obj [("stepId", .str j.stepId), ("taskIds", .arr (j.taskIds.map Uuid.toJson)),
    ("firedAt", j.firedAt.toJson)]

end JoinRecord

/-- The value in an input that is a text: if the text is a JSON object or array, that is
the input, and otherwise the text itself. -/
def normalizeInput (input : Json) : Logged Json :=
  match input with
  | .str text =>
    match Json.ofText? (Text.trim text) with
    | some (.obj fields) =>
      ⟨.obj fields, [⟨.debug, "Unwrapped string-encoded instance input"⟩]⟩
    | some (.arr items) =>
      ⟨.arr items, [⟨.debug, "Unwrapped string-encoded instance input"⟩]⟩
    | _ => pure input
  | input => pure input

/-- One run of a workflow. -/
structure Instance where
  id : Uuid
  workflowId : Uuid
  status : InstanceStatus
  input : Json
  output : Option Json
  errorMessage : Option String
  startedAt : Timestamp
  completedAt : Option Timestamp
  joins : List JoinRecord
deriving DecidableEq, Repr

namespace Instance

/-- A running instance on an input that has been normalized. -/
def new (id workflowId : Uuid) (input : Json) (now : Timestamp) : Instance :=
  ⟨id, workflowId, .running, input, none, none, now, none, []⟩

/-- Whether the instance is still running. -/
def isRunning (i : Instance) : Bool := i.status = .running

/-- Refuses an instance that is not running. -/
def ensureRunning (i : Instance) : Except EngineError Unit :=
  if i.isRunning then .ok () else .error (.instanceNotRunning i.id)

/-- A running instance leaves that status. -/
def finish (i : Instance) (target : InstanceStatus) (action : String) (now : Timestamp) :
    Except EngineError Instance :=
  if i.isRunning then .ok { i with status := target, completedAt := some now }
  else .error (.invalidTransition "instance" i.status.name action)

/-- The instance has come to its end. -/
def complete (i : Instance) (output : Json) (now : Timestamp) : Except EngineError Instance :=
  (i.finish .completed "complete" now).map fun i => { i with output := some output }

/-- The instance cannot go on. -/
def fail (i : Instance) (reason : String) (now : Timestamp) : Except EngineError Instance :=
  (i.finish .failed "fail" now).map fun i => { i with errorMessage := some reason }

/-- The instance is given up. -/
def cancel (i : Instance) (now : Timestamp) : Except EngineError Instance :=
  i.finish .cancelled "cancel" now

/-- Identifiers in order. -/
def sortedIds (ids : List Uuid) : List Uuid := ids.mergeSort Uuid.le

/-- Records that the tasks with these ids move the instance on behind a step; nothing if they
have done so before. -/
def claimJoin? (i : Instance) (stepId : String) (ids : List Uuid) (now : Timestamp) :
    Option Instance :=
  let ids := sortedIds ids
  if i.joins.any fun j => j.stepId == stepId && j.taskIds == ids then none
  else some { i with joins := i.joins ++ [⟨stepId, ids, now⟩] }

/-- The names of the fields of an instance. -/
def known : List (List String) :=
  [["id"], ["workflowId"], ["status"], ["input"], ["output"], ["errorMessage"], ["startedAt"],
    ["completedAt"], ["joins"]]

/-- An instance. -/
def decode : Decoder Instance :=
  Decode.record "struct WorkflowInstance" known fun r =>
    (Slot.pure Instance.mk).ap (r.required 0 Uuid.decode)
      |>.ap (r.required 1 Uuid.decode)
      |>.ap (r.required 2 InstanceStatus.decode)
      |>.ap (r.required 3 Decode.json)
      |>.ap (r.optional 4 Decode.json)
      |>.ap (r.optional 5 Decode.string)
      |>.ap (r.required 6 Timestamp.decode)
      |>.ap (r.optional 7 Timestamp.decode)
      |>.ap (r.withDefault 8 [] (Decode.list JoinRecord.decode))

/-- The value of an instance; what is absent is left out. -/
def toJson (i : Instance) : Json :=
  .obj ([("id", i.id.toJson), ("workflowId", i.workflowId.toJson),
      ("status", .str i.status.name), ("input", i.input)]
    ++ Json.field? "output" i.output
    ++ Json.field? "errorMessage" (i.errorMessage.map .str)
    ++ [("startedAt", i.startedAt.toJson)]
    ++ Json.field? "completedAt" (i.completedAt.map Timestamp.toJson)
    ++ (if i.joins = [] then [] else [("joins", .arr (i.joins.map JoinRecord.toJson))]))

end Instance

end ApprovalWorkflow
