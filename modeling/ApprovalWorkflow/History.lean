import ApprovalWorkflow.Task

/-!
# The audit trail

Every claim, delegation and completion of a task leaves an entry. Entries are only ever
appended.
-/

set_option autoImplicit false

namespace ApprovalWorkflow

/-- What has been done with a task. -/
inductive HistoryAction where
  | claimed
  | completed
  | delegated
deriving DecidableEq, Repr

namespace HistoryAction

/-- All actions. -/
def all : List HistoryAction := [.claimed, .completed, .delegated]

/-- The name of an action. -/
def name : HistoryAction → String
  | .claimed => "claimed"
  | .completed => "completed"
  | .delegated => "delegated"

/-- The action of a name. -/
def ofName? (s : String) : Option HistoryAction := all.find? fun a => a.name = s

/-- An action. -/
def decode : Decoder HistoryAction := Decode.choice (all.map name) ofName?

end HistoryAction

/-- An entry of the audit trail. -/
structure HistoryEntry where
  id : Uuid
  taskId : Uuid
  instanceId : Uuid
  action : HistoryAction
  actor : String
  result : Option TaskResult
  comment : Option String
  output : Json
  createdAt : Timestamp
deriving DecidableEq, Repr

namespace HistoryEntry

/-- An entry without a result. -/
def record (id : Uuid) (task : Task) (action : HistoryAction) (actor : String)
    (now : Timestamp) : HistoryEntry :=
  ⟨id, task.id, task.instanceId, action, actor, none, none, .null, now⟩

/-- The task has been claimed. -/
def claimed (id : Uuid) (task : Task) (actor : String) (now : Timestamp) : HistoryEntry :=
  record id task .claimed actor now

/-- The task has ended, with the result, comment and output that it holds. -/
def completed (id : Uuid) (task : Task) (actor : String) (now : Timestamp) : HistoryEntry :=
  { record id task .completed actor now with
    result := task.result, comment := task.comment, output := task.output }

/-- The task has been handed to another person. -/
def delegated (id : Uuid) (task : Task) (actor toUser : String) (now : Timestamp) :
    HistoryEntry :=
  { record id task .delegated actor now with comment := some ("delegated to " ++ toUser) }

/-- The names of the fields of an entry. -/
def known : List (List String) :=
  [["id"], ["taskId"], ["instanceId"], ["action"], ["actor"], ["result"], ["comment"],
    ["output"], ["createdAt"]]

/-- An entry. -/
def decode : Decoder HistoryEntry :=
  Decode.record "struct TaskHistory" known fun r =>
    (Slot.pure HistoryEntry.mk).ap (r.required 0 Uuid.decode)
      |>.ap (r.required 1 Uuid.decode)
      |>.ap (r.required 2 Uuid.decode)
      |>.ap (r.required 3 HistoryAction.decode)
      |>.ap (r.required 4 Decode.string)
      |>.ap (r.optional 5 TaskResult.decode)
      |>.ap (r.optional 6 Decode.string)
      |>.ap (r.withDefault 7 .null Decode.json)
      |>.ap (r.required 8 Timestamp.decode)

/-- The value of an entry; what is absent is left out. -/
def toJson (h : HistoryEntry) : Json :=
  .obj ([("id", h.id.toJson), ("taskId", h.taskId.toJson), ("instanceId", h.instanceId.toJson),
      ("action", .str h.action.name), ("actor", .str h.actor)]
    ++ Json.field? "result" (h.result.map fun r => .str r.name)
    ++ Json.field? "comment" (h.comment.map .str)
    ++ [("output", h.output), ("createdAt", h.createdAt.toJson)])

end HistoryEntry

end ApprovalWorkflow
