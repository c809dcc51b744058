import ApprovalWorkflow.Json.Printer
import ApprovalWorkflow.Store

/-!
# Snapshots

The contents of a store as one JSON text, with the time at which it was taken. Workflows and
instances stand in the order of their creation. When a snapshot names a workflow or an instance
twice, the store that is made from it has the last one.
-/

set_option autoImplicit false

namespace ApprovalWorkflow

/-- The contents of a store, in order. -/
structure Snapshot where
  workflows : List Workflow
  instances : List Instance
  tasks : List Task
  history : List HistoryEntry
deriving DecidableEq, Repr

namespace Snapshot

/-- No contents. -/
def empty : Snapshot := ⟨[], [], [], []⟩

/-- The contents of a store. -/
def ofStore (s : Store) : Snapshot := ⟨s.listWorkflows, s.allInstances, s.tasks, s.history⟩

/-- Adds an item, in the place of one with the same id if there is one. -/
def put {α : Type} (id : α → Uuid) (items : List α) (a : α) : List α :=
  if items.any fun b => id b == id a then replaceFirst (fun b => id b == id a) a items
  else items ++ [a]

/-- The store with these contents. -/
def toStore (s : Snapshot) : Store :=
  ⟨s.workflows.foldl (put Workflow.id) [], s.instances.foldl (put Instance.id) [], s.tasks,
    s.history⟩

/-- The names of the lists in a snapshot. -/
def known : List (List String) := [["workflows"], ["instances"], ["tasks"], ["history"]]

/-- The lists of a snapshot. -/
def decode : Decoder Snapshot :=
  Decode.record "struct Snapshot" known fun r =>
    (Slot.pure Snapshot.mk).ap (r.withDefault 0 [] (Decode.list Workflow.decode))
      |>.ap (r.withDefault 1 [] (Decode.list Instance.decode))
      |>.ap (r.withDefault 2 [] (Decode.list Task.decode))
      |>.ap (r.withDefault 3 [] (Decode.list HistoryEntry.decode))

/-- The value of a snapshot that was taken at a time. -/
def toJson (s : Snapshot) (savedAt : Timestamp) : Json :=
  .obj [("savedAt", savedAt.toJson), ("workflows", .arr (s.workflows.map Workflow.toJson)),
    ("instances", .arr (s.instances.map Instance.toJson)),
    ("tasks", .arr (s.tasks.map Task.toJson)),
    ("history", .arr (s.history.map HistoryEntry.toJson))]

/-- The text of a snapshot that was taken at a time. -/
def toText (s : Snapshot) (savedAt : Timestamp) : String := (s.toJson savedAt).pretty

end Snapshot

/-- A snapshot in a text, with the time at which it was taken. -/
structure SavedSnapshot where
  savedAt : Timestamp
  snapshot : Snapshot
deriving DecidableEq, Repr

namespace SavedSnapshot

/-- A snapshot in a text. The time is read first; all other fields are set aside until the end
of the record, so that a missing time is reported before any problem in them. -/
def decode : Decoder SavedSnapshot := fun o levels d =>
  match d, levels with
  | .map _ _, 0 => .error .malformed
  | .map fields complete, levels + 1 => do
    let r : Record := ⟨"struct SnapshotFile", [["savedAt"]], .fields fields complete, o, levels⟩
    let savedAt ← Slot.result
      ((Slot.pure fun time _ => time).ap (r.required 0 Timestamp.decode) |>.ap r.extra)
    let others := fields.filter fun f => f.1.name? ≠ some "savedAt"
    let snapshot ← Snapshot.decode .buffered (levels + 1) (.map others true)
    .ok ⟨savedAt, snapshot⟩
  | d, _ => d.mismatch "struct SnapshotFile"

/-- The snapshot in a text. -/
def ofText (text : String) : Except EngineError SavedSnapshot :=
  (Decode.fromText decode text).mapError .serialization

end SavedSnapshot

end ApprovalWorkflow
