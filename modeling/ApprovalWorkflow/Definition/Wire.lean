import ApprovalWorkflow.Definition.Basic
import ApprovalWorkflow.Definition.Problem
import ApprovalWorkflow.Document.Decode
import ApprovalWorkflow.Json.Printer

/-!
# The written form of definitions

How definitions are read from documents and written as JSON values. A step is first read as it
is written (`WrittenStep`), with parameters and branches for any type, and then understood
(`WrittenStep.toStep`): parameters count for user tasks and branches for parallel steps, and a
branch is always a user task. Writing leaves out what has its default value.
-/

set_option autoImplicit false

namespace ApprovalWorkflow

-- powers are those of the core library, whatever else is imported
attribute [local instance (2000)] instPowNat

namespace Decode

/-- A text with commas between its parts; blank parts are left out. -/
def commaParts (s : String) : List String :=
  ((Text.splitAt ',' s.toList).map fun p => String.ofList (Text.trimChars p)).filter (· ≠ "")

/-- The strings of an array. -/
def stringsOf : List Json → Decoded (List String)
  | [] => .ok []
  | .str s :: items => (stringsOf items).map (s :: ·)
  | _ :: _ => .error .itemNotString

/-- Several strings: an array of them, or one text with commas between them. -/
def strings : Decoder (List String) := fun o levels d => do
  match ← Decode.json o levels d with
  | .null => .ok []
  | .str s => .ok (commaParts s)
  | .arr items => stringsOf items
  | _ => .error .notStrings

end Decode

namespace FormField

/-- The names of the attributes that every form field has. -/
def known : List (List String) := [["name", "key"], ["label"], ["type"], ["required"]]

/-- A form field. -/
def decode : Decoder FormField :=
  Decode.openRecord "struct FormField" known fun r =>
    (Slot.pure FormField.mk).ap (r.withDefault 0 "" Decode.string)
      |>.ap (r.withDefault 1 "" Decode.string)
      |>.ap (r.withDefault 2 "" Decode.string)
      |>.ap (r.withDefault 3 false Decode.bool)
      |>.ap r.extra

/-- The attributes of a form field; empty ones are left out. -/
def toFields (f : FormField) : List (String × Json) :=
  ("name", .str f.name) ::
    ((if f.label = "" then [] else [("label", .str f.label)])
      ++ (if f.fieldType = "" then [] else [("type", .str f.fieldType)])
      ++ (if f.required then [("required", .bool true)] else [])
      ++ f.extra)

/-- The value of a form field. -/
def toJson (f : FormField) : Json := .obj f.toFields

end FormField

/-- Parameters as they are written. -/
structure WrittenParams where
  assignee : Option String
  candidateUsers : List String
  candidateGroups : List String
  priority : Option String
  formFields : List FormField
  extra : List (String × Json)
deriving DecidableEq, Repr

namespace WrittenParams

/-- No parameters. -/
def none : WrittenParams := ⟨.none, [], [], .none, [], []⟩

/-- The names of the parameters that every user task has. -/
def known : List (List String) :=
  [["assignee"], ["candidateUsers"], ["candidateGroups"], ["priority"], ["formFields"]]

/-- Parameters. -/
def decode : Decoder WrittenParams :=
  Decode.openRecord "struct RawParams" known fun r =>
    (Slot.pure WrittenParams.mk).ap (r.optional 0 Decode.string)
      |>.ap (r.withDefault 1 [] Decode.strings)
      |>.ap (r.withDefault 2 [] Decode.strings)
      |>.ap (r.optional 3 Decode.string)
      |>.ap (r.withDefault 4 [] (Decode.list FormField.decode))
      |>.ap r.extra

/-- The parameters of a step; a blank assignee is none. -/
def toParams (stepId : String) (p : WrittenParams) : Except DefinitionProblem TaskParams := do
  let priority ← match p.priority with
    | .none => .ok .medium
    | some word => (Priority.ofWord word).mapError (.invalidPriority stepId)
  .ok ⟨p.assignee.filter fun a => !Text.isBlankText a, p.candidateUsers, p.candidateGroups,
    priority, p.formFields, p.extra⟩

/-- The written form of parameters; the medium priority is not written. -/
def ofParams (p : TaskParams) : WrittenParams :=
  ⟨p.assignee, p.candidateUsers, p.candidateGroups,
    if p.priority = .medium then .none else some p.priority.name, p.formFields, p.extra⟩

/-- The strings of a list, if there are any. -/
def listField (name : String) (items : List String) : List (String × Json) :=
  if items = [] then [] else [(name, .arr (items.map .str))]

/-- The fields of parameters. -/
def toFields (p : WrittenParams) : List (String × Json) :=
  Json.field? "assignee" (p.assignee.map .str)
    ++ listField "candidateUsers" p.candidateUsers
    ++ listField "candidateGroups" p.candidateGroups
    ++ Json.field? "priority" (p.priority.map .str)
    ++ (if p.formFields = [] then []
        else [("formFields", .arr (p.formFields.map FormField.toJson))])
    ++ p.extra

end WrittenParams

/-- A step as it is written. -/
structure WrittenStep where
  id : String
  typeName : String
  name : String
  description : String
  condition : Option String
  timeout : Option Json
  retries : Option Nat
  params : WrittenParams
  nextSteps : List String
  branches : List WrittenStep
deriving Repr

namespace WrittenStep

/-- The names of the fields of a step. -/
def known : List (List String) :=
  [["id"], ["type"], ["name"], ["description"], ["condition"], ["timeout"], ["retries"],
    ["params"], ["nextSteps"], ["parallelTasks"]]

/-- A step, with branches as deep as the first argument says. -/
def decodeNested : Nat → Decoder WrittenStep
  | 0 => fun _ _ _ => .error .malformed
  | depth + 1 =>
    Decode.record "struct RawStep" known fun r =>
      (Slot.pure WrittenStep.mk).ap (r.required 0 Decode.string)
        |>.ap (r.withDefault 1 "" Decode.string)
        |>.ap (r.withDefault 2 "" Decode.string)
        |>.ap (r.withDefault 3 "" Decode.string)
        |>.ap (r.optional 4 Decode.string)
        |>.ap (r.optional 5 Decode.json)
        |>.ap (r.optional 6 (Decode.natural (2 ^ (32 : Nat)) "u32"))
        |>.ap (r.withDefault 7 .none WrittenParams.decode)
        |>.ap (r.withDefault 8 [] Decode.strings)
        |>.ap (r.withDefault 9 [] (Decode.list (decodeNested depth)))

/-- A step; its branches cannot be nested deeper than the document. -/
def decode : Decoder WrittenStep := fun o levels d => decodeNested (levels + 1) o levels d

/-- The name of a step: its id, if it has no name of its own. -/
def shownName (id name : String) : String := if name = "" then id else name

/-- The step with a kind that has been understood. -/
def withKind (w : WrittenStep) (kind : StepKind Step) : Step :=
  let id := Text.trim w.id
  ⟨id, shownName id w.name, w.description, w.condition, w.timeout, w.retries, w.nextSteps, kind⟩

/-- A branch of a parallel step, which is a user task even if it does not say so. -/
def toBranch (parent : String) (w : WrittenStep) : Except DefinitionProblem Step :=
  if w.typeName ≠ "" ∧ w.typeName ≠ "user_task" then
    .error (.invalidBranchType parent w.id w.typeName)
  else if w.branches.length ≠ 0 then .error (.nestedParallel parent w.id)
  else do
    let params ← w.params.toParams (Text.trim w.id)
    .ok (w.withKind (.userTask params))

/-- All branches of a parallel step, or the first problem among them. -/
def toBranches (parent : String) : List WrittenStep → Except DefinitionProblem (List Step)
  | [] => .ok []
  | w :: ws => do
    let branch ← w.toBranch parent
    let branches ← toBranches parent ws
    .ok (branch :: branches)

/-- The step that is written. -/
def toStep (w : WrittenStep) : Except DefinitionProblem Step :=
  let id := Text.trim w.id
  if w.typeName = "user_task" then do
    let params ← w.params.toParams id
    .ok (w.withKind (.userTask params))
  else if w.typeName = "process" then .ok (w.withKind .process)
  else if w.typeName = "complete" then .ok (w.withKind .complete)
  else if w.typeName = "parallel" then do
    let branches ← toBranches id w.branches
    .ok (w.withKind (.parallel branches))
  else .ok (w.withKind (.unknown w.typeName))

end WrittenStep

namespace Step

/-- A step; what is written may make no step. -/
def decode : Decoder Step := fun o levels d => do
  let w ← WrittenStep.decode o levels d
  w.toStep.mapError fun p => .refused p.message

/-- The parameters in the written form of a step, if there are any. -/
def paramsField (p : TaskParams) : List (String × Json) :=
  let fields := (WrittenParams.ofParams p).toFields
  if fields.isEmpty then [] else [("params", .obj fields)]

mutual
/-- The fields of a step. -/
def toFields : Step → List (String × Json)
  | ⟨id, name, description, condition, timeout, retries, nextSteps, kind⟩ =>
    [("id", .str id), ("type", .str kind.typeName), ("name", .str name)]
      ++ (if description = "" then [] else [("description", .str description)])
      ++ Json.field? "condition" (condition.map .str)
      ++ Json.field? "timeout" timeout
      ++ Json.field? "retries" (retries.map fun n => .int n)
      ++ (match kind with
          | .userTask params => paramsField params
          | _ => [])
      ++ WrittenParams.listField "nextSteps" nextSteps
      ++ branchesField kind

/-- The branches in the written form of a step, if there are any. -/
def branchesField : StepKind Step → List (String × Json)
  | .parallel branches =>
    if branches.isEmpty then [] else [("parallelTasks", .arr (toJsonList branches))]
  | _ => []

/-- The values of steps. -/
def toJsonList : List Step → List Json
  | [] => []
  | s :: steps => .obj s.toFields :: toJsonList steps
end

/-- The value of a step. -/
def toJson (s : Step) : Json := .obj s.toFields

end Step

namespace Definition

/-- The names of the fields of a definition. -/
def known : List (List String) := [["name"], ["description"], ["steps"]]

/-- A definition. -/
def decode : Decoder Definition :=
  Decode.record "struct Definition" known fun r =>
    (Slot.pure Definition.mk).ap (r.withDefault 0 "" Decode.string)
      |>.ap (r.withDefault 1 "" Decode.string)
      |>.ap (r.withDefault 2 [] (Decode.list Step.decode))

/-- The value of a definition. -/
def toJson (d : Definition) : Json :=
  .obj ([("name", .str d.name)]
    ++ (if d.description = "" then [] else [("description", .str d.description)])
    ++ [("steps", .arr (Step.toJsonList d.steps))])

/-- The text of a definition. -/
def toText (d : Definition) : String := d.toJson.compact

end Definition

end ApprovalWorkflow
