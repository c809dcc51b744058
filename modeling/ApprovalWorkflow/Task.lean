import ApprovalWorkflow.Definition.Wire
import ApprovalWorkflow.Error
import ApprovalWorkflow.Timestamp

/-!
# Tasks

A task is a piece of work for a person. It is pending until somebody claims it, and ends
completed or rejected; an ended task never changes its status again. Whether the end of a task
has moved its instance on is kept apart from its status, as its progression.
-/

set_option autoImplicit false

namespace ApprovalWorkflow

/-- The status of a task. -/
inductive TaskStatus where
  | pending
  | claimed
  | completed
  | rejected
deriving DecidableEq, Repr

namespace TaskStatus

/-- All statuses, in the order of a task's life. -/
def all : List TaskStatus := [.pending, .claimed, .completed, .rejected]

/-- The name of a status. -/
def name : TaskStatus → String
  | .pending => "pending"
  | .claimed => "claimed"
  | .completed => "completed"
  | .rejected => "rejected"

/-- The status of a name. -/
def ofName? (s : String) : Option TaskStatus := all.find? fun t => t.name = s

/-- Whether the task has ended. -/
def isTerminal : TaskStatus → Bool
  | .completed => true
  | .rejected => true
  | _ => false

/-- Whether there is still work to do. -/
def isOpen (s : TaskStatus) : Bool := !s.isTerminal

/-- A status. -/
def decode : Decoder TaskStatus := Decode.choice (all.map name) ofName?

end TaskStatus

/-- What a person decides at the end of a task. -/
inductive TaskResult where
  | approved
  | rejected
  | completed
deriving DecidableEq, Repr

namespace TaskResult

/-- All results. -/
def all : List TaskResult := [.approved, .rejected, .completed]

/-- The name of a result. -/
def name : TaskResult → String
  | .approved => "approved"
  | .rejected => "rejected"
  | .completed => "completed"

/-- The result of a name. -/
def ofName? (s : String) : Option TaskResult := all.find? fun r => r.name = s

/-- The result that a word stands for, in any case and between blanks, also in the form of a
command. -/
def ofWord (s : String) : Except String TaskResult :=
  let w := Text.lowerAsciiString (Text.trim s)
  if w = "approved" ∨ w = "approve" then .ok .approved
  else if w = "rejected" ∨ w = "reject" then .ok .rejected
  else if w = "completed" ∨ w = "complete" then .ok .completed
  else .error ("unknown task result '" ++ w ++ "'")

/-- A result. -/
def decode : Decoder TaskResult := Decode.choice (all.map name) ofName?

/-- The status in which a task ends with the result. -/
def status : TaskResult → TaskStatus
  | .rejected => .rejected
  | _ => .completed

end TaskResult

namespace Priority

/-- A priority. -/
def decode : Decoder Priority := Decode.choice names ofName?

end Priority

/-- Whether the end of a task has been carried through to its instance. -/
inductive Progression where
  | idle
  | pending
  | advanced
  | failed (error : String)
deriving DecidableEq, Repr, Inhabited

namespace Progression

/-- The names of the states. -/
def names : List String := ["idle", "pending", "advanced", "failed"]

/-- The name of a state. -/
def name : Progression → String
  | .idle => "idle"
  | .pending => "pending"
  | .advanced => "advanced"
  | .failed _ => "failed"

/-- The end of the task has not been carried through. -/
def isStalled : Progression → Bool
  | .pending => true
  | .failed _ => true
  | _ => false

/-- The value of a progression. -/
def toJson : Progression → Json
  | .failed error => .obj [("state", .str "failed"), ("error", .str error)]
  | p => .obj [("state", .str p.name)]

/-- The name of a state as a tag. In a part that was read beforehand its number will do. -/
def decodeTag : Decoder String := fun o _ d =>
  match d, o with
  | .str s, _ => if names.contains s then .ok s else .error (.unknownVariant s names)
  | .num (.int (.ofNat n)), .buffered =>
    match names[n]? with
    | some name => .ok name
    | none => .error (.invalidValue (.num (.int n)) "variant index 0 <= i < 4")
  | d, _ => d.mismatch "variant identifier"

/-- What failed, behind the tag. -/
def readError (shape : RecordShape) (levels : Nat) : Decoded Progression :=
  let r : Record :=
    ⟨"struct variant Progression::Failed", [["error"]], shape, .buffered, levels⟩
  Slot.result ((Slot.pure fun error _ => Progression.failed error).ap
    (r.required 0 Decode.string) |>.ap r.rest)

/-- The progression with a tag, whose other parts have been read beforehand. -/
def ofTag (tag : String) (shape : RecordShape) (levels : Nat) : Decoded Progression :=
  if tag = "failed" then readError shape levels
  else
    match shape with
    | .items (d :: items) _ =>
      .error (.invalidLength (d :: items).length "0 elements in sequence")
    | _ =>
      if tag = "idle" then .ok .idle
      else if tag = "pending" then .ok .pending
      else .ok .advanced

/-- A progression: a mapping with the tag `state`, or a sequence that begins with the tag. -/
def decode : Decoder Progression := fun o levels d =>
  match d, levels with
  | .map _ _, 0 => .error .malformed
  | .map fields complete, levels + 1 => do
    let r : Record := ⟨"", [["state"]], .fields fields complete, o, levels⟩
    let tag ← Slot.result ((Slot.pure fun tag _ => tag).ap (r.required 0 decodeTag) |>.ap r.extra)
    let others := fields.filter fun f => f.1.name? ≠ some "state"
    ofTag tag (.fields others true) levels
  | .seq _ _, 0 => .error .malformed
  | .seq [] complete, _ + 1 => .error (if complete then .missingField "state" else .malformed)
  | .seq (tag :: items) complete, levels + 1 => do
    let tag ← decodeTag o levels tag
    let _ ← Doc.toJsonItems levels items
    if complete then ofTag tag (.items items true) levels else .error .malformed
  | d, _ => d.mismatch "internally tagged enum Progression"

/-- A progression as diagnostics show it. -/
def shown : Progression → String
  | .idle => "Idle"
  | .pending => "Pending"
  | .advanced => "Advanced"
  | .failed error => "Failed \x7b error: " ++ Text.shown error ++ " \x7d"

end Progression

/-- A piece of work for a person. -/
structure Task where
  id : Uuid
  instanceId : Uuid
  workflowId : Uuid
  key : String
  /-- The parallel step that opened the task for one of its branches. -/
  parentStepId : Option String
  name : String
  description : String
  typeName : String
  assignee : Option String
  candidateUsers : List String
  candidateGroups : List String
  status : TaskStatus
  priority : Priority
  taskData : Json
  formData : Json
  output : Json
  result : Option TaskResult
  comment : Option String
  createdAt : Timestamp
  claimedAt : Option Timestamp
  completedAt : Option Timestamp
  dueDate : Option Timestamp
  progression : Progression
deriving DecidableEq, Repr

namespace Task

/-- A pending task that nobody has been asked to do yet. -/
def new (id instanceId workflowId : Uuid) (key name : String) (now : Timestamp) : Task where
  id := id
  instanceId := instanceId
  workflowId := workflowId
  key := key
  parentStepId := none
  name := name
  description := ""
  typeName := "user_task"
  assignee := none
  candidateUsers := []
  candidateGroups := []
  status := .pending
  priority := .medium
  taskData := .null
  formData := .null
  output := .null
  result := none
  comment := none
  createdAt := now
  claimedAt := none
  completedAt := none
  dueDate := none
  progression := .idle

/-- Asks a person to do the task. -/
def withAssignee (t : Task) (user : String) : Task := { t with assignee := some user }

/-- Whether a parallel step opened the task. -/
def isBranch (t : Task) : Bool := t.parentStepId.isSome

/-- A pending task is claimed by a person. -/
def claim (t : Task) (user : String) (now : Timestamp) : Except EngineError Task :=
  if t.status = .pending then
    .ok { t with assignee := some user, status := .claimed, claimedAt := some now }
  else .error (.taskNotPending t.id)

/-- An open task ends. -/
def complete (t : Task) (output : Json) (comment : Option String) (result : TaskResult)
    (now : Timestamp) : Except EngineError Task :=
  if t.status.isTerminal then .error (.invalidTransition "task" t.status.name "complete")
  else
    .ok { t with
      status := result.status
      output := output
      comment := comment
      result := some result
      completedAt := some now }

/-- An open task is handed to another person, who has yet to claim it. -/
def delegate (t : Task) (user : String) : Except EngineError Task :=
  if t.status.isTerminal then .error (.invalidTransition "task" t.status.name "delegate")
  else .ok { t with assignee := some user, status := .pending, claimedAt := none }

/-- Whether a person may claim the task. The candidates count only if nobody is assigned. -/
def canBeClaimed (t : Task) (user : String) (groups : List String) : Bool :=
  t.status == .pending &&
    match t.assignee with
    | some assignee => assignee == user
    | none => t.candidateUsers.contains user || groups.any t.candidateGroups.contains

/-- The names of the fields of a task. -/
def known : List (List String) :=
  [["id"], ["instanceId"], ["workflowId"], ["taskKey"], ["parentStepId"], ["name"],
    ["description"], ["type"], ["assignee"], ["candidateUsers"], ["candidateGroups"], ["status"],
    ["priority"], ["taskData"], ["formData"], ["output"], ["result"], ["comment"], ["createdAt"],
    ["claimedAt"], ["completedAt"], ["dueDate"], ["progression"]]

/-- A task. -/
def decode : Decoder Task :=
  Decode.record "struct Task" known fun r =>
    (Slot.pure Task.mk).ap (r.required 0 Uuid.decode)
      |>.ap (r.required 1 Uuid.decode)
      |>.ap (r.required 2 Uuid.decode)
      |>.ap (r.required 3 Decode.string)
      |>.ap (r.optional 4 Decode.string)
      |>.ap (r.required 5 Decode.string)
      |>.ap (r.withDefault 6 "" Decode.string)
      |>.ap (r.required 7 Decode.string)
      |>.ap (r.optional 8 Decode.string)
      |>.ap (r.withDefault 9 [] (Decode.list Decode.string))
      |>.ap (r.withDefault 10 [] (Decode.list Decode.string))
      |>.ap (r.required 11 TaskStatus.decode)
      |>.ap (r.required 12 Priority.decode)
      |>.ap (r.withDefault 13 .null Decode.json)
      |>.ap (r.withDefault 14 .null Decode.json)
      |>.ap (r.withDefault 15 .null Decode.json)
      |>.ap (r.optional 16 TaskResult.decode)
      |>.ap (r.optional 17 Decode.string)
      |>.ap (r.required 18 Timestamp.decode)
      |>.ap (r.optional 19 Timestamp.decode)
      |>.ap (r.optional 20 Timestamp.decode)
      |>.ap (r.optional 21 Timestamp.decode)
      |>.ap (r.withDefault 22 .idle Progression.decode)

/-- The value of a task; what is absent is left out. -/
def toJson (t : Task) : Json :=
  .obj ([("id", t.id.toJson), ("instanceId", t.instanceId.toJson),
      ("workflowId", t.workflowId.toJson), ("taskKey", .str t.key)]
    ++ Json.field? "parentStepId" (t.parentStepId.map .str)
    ++ [("name", .str t.name), ("description", .str t.description), ("type", .str t.typeName)]
    ++ Json.field? "assignee" (t.assignee.map .str)
    ++ [("candidateUsers", .arr (t.candidateUsers.map .str)),
      ("candidateGroups", .arr (t.candidateGroups.map .str)),
      ("status", .str t.status.name), ("priority", .str t.priority.name),
      ("taskData", t.taskData), ("formData", t.formData), ("output", t.output)]
    ++ Json.field? "result" (t.result.map fun r => .str r.name)
    ++ Json.field? "comment" (t.comment.map .str)
    ++ [("createdAt", t.createdAt.toJson)]
    ++ Json.field? "claimedAt" (t.claimedAt.map Timestamp.toJson)
    ++ Json.field? "completedAt" (t.completedAt.map Timestamp.toJson)
    ++ Json.field? "dueDate" (t.dueDate.map Timestamp.toJson)
    ++ [("progression", t.progression.toJson)])

/-- The order in which tasks were finished; a task that is not finished comes first, and of
two that were finished at one time the one that was opened first. -/
def finishedBefore (s t : Task) : Bool :=
  if s.completedAt = t.completedAt then s.createdAt.le t.createdAt
  else Timestamp.leOptional s.completedAt t.completedAt

end Task

end ApprovalWorkflow
