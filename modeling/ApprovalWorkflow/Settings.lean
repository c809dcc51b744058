import ApprovalWorkflow.Error
import ApprovalWorkflow.Log
import ApprovalWorkflow.Task

/-!
# Settings of the engine

How many tasks are read from the store at once, how many steps may follow each other without a
person, and what results are called in the history that a task carries. Every setting has a
default, so that no settings at all are settings too.
-/

set_option autoImplicit false

namespace ApprovalWorkflow

-- powers are those of the core library, whatever else is imported
attribute [local instance (2000)] instPowNat

/-- What results are called in the history of a task. -/
structure ResultLabels where
  approved : String
  rejected : String
  completed : String
deriving DecidableEq, Repr

namespace ResultLabels

/-- The labels that are used unless others are set. -/
def default : ResultLabels := ⟨"Approved", "Rejected", "Completed"⟩

/-- The label of a result. -/
def label (l : ResultLabels) : TaskResult → String
  | .approved => l.approved
  | .rejected => l.rejected
  | .completed => l.completed

/-- The names of the labels. -/
def known : List (List String) := [["approved"], ["rejected"], ["completed"]]

/-- Labels; those that are not set have their default. -/
def decode : Decoder ResultLabels :=
  Decode.record "struct ResultLabels" known fun r =>
    (Slot.pure ResultLabels.mk).ap
        (r.withDefault 0 default.approved (Decode.inside "approved" Decode.string))
      |>.ap (r.withDefault 1 default.rejected (Decode.inside "rejected" Decode.string))
      |>.ap (r.withDefault 2 default.completed (Decode.inside "completed" Decode.string))

/-- The value of labels. -/
def toJson (l : ResultLabels) : Json :=
  .obj [("approved", .str l.approved), ("rejected", .str l.rejected),
    ("completed", .str l.completed)]

end ResultLabels

/-- The settings of the engine. -/
structure Settings where
  /-- How many tasks are read at once. -/
  pageSize : Nat
  /-- How many steps may follow each other without a person in one call. -/
  maxAutoSteps : Nat
  resultLabels : ResultLabels
deriving DecidableEq, Repr

namespace Settings

/-- The settings that are used unless others are set. -/
def default : Settings := ⟨100, 64, .default⟩

/-- The names of the settings. -/
def known : List (List String) := [["pageSize"], ["maxAutoSteps"], ["resultLabels"]]

/-- Settings; those that are not set have their default. -/
def decode : Decoder Settings :=
  Decode.record "struct EngineConfig" known fun r =>
    (Slot.pure Settings.mk).ap
        (r.withDefault 0 default.pageSize
          (Decode.inside "pageSize" (Decode.natural (2 ^ (64 : Nat)) "usize")))
      |>.ap (r.withDefault 1 default.maxAutoSteps
        (Decode.inside "maxAutoSteps" (Decode.natural (2 ^ (64 : Nat)) "usize")))
      |>.ap (r.withDefault 2 default.resultLabels
        (Decode.inside "resultLabels" ResultLabels.decode))

/-- The value of settings. -/
def toJson (s : Settings) : Json :=
  .obj [("pageSize", .int s.pageSize), ("maxAutoSteps", .int s.maxAutoSteps),
    ("resultLabels", s.resultLabels.toJson)]

/-- Settings with which the engine can work. -/
def check (s : Settings) : Except EngineError Settings :=
  if s.pageSize = 0 then .error (.settings "pageSize must be at least 1")
  else if s.maxAutoSteps = 0 then .error (.settings "maxAutoSteps must be at least 1")
  else .ok s

end Settings

end ApprovalWorkflow
