import ApprovalWorkflow.Json.Basic
import ApprovalWorkflow.Text.Search

/-!
# Workflow definitions

A definition is a list of steps. A step asks a person (`userTask`), is done by itself
(`process`), opens one task for each of its branches (`parallel`), or ends the instance
(`complete`). A task is known by its key: the id of its step, or for a branch the id of the
parallel step and the id of the branch with an underscore between them. `Definition.resolve?`
leads back from a key to the step that it stands for.
-/

set_option autoImplicit false

namespace ApprovalWorkflow

/-- How urgent a task is. -/
inductive Priority where
  | low
  | medium
  | high
deriving DecidableEq, Repr, Inhabited

namespace Priority

/-- The name of a priority. -/
def name : Priority → String
  | .low => "low"
  | .medium => "medium"
  | .high => "high"

/-- The priority of exactly this name. -/
def ofName? (s : String) : Option Priority :=
  if s = "low" then some .low
  else if s = "medium" then some .medium
  else if s = "high" then some .high
  else none

/-- The names of all priorities. -/
def names : List String := ["low", "medium", "high"]

/-- The priority that a word stands for, in any case and between blanks; no word at all stands
for the medium one. A word that stands for none is given back in small letters. -/
def ofWord (s : String) : Except String Priority :=
  let w := Text.lowerAsciiString (Text.trim s)
  if w = "" then .ok .medium
  else
    match ofName? w with
    | some p => .ok p
    | none => .error w

end Priority

/-- A field of the form that a person fills in. -/
structure FormField where
  name : String
  label : String
  fieldType : String
  required : Bool
  /-- All other attributes, sorted by key. -/
  extra : List (String × Json)
deriving DecidableEq, Repr, Inhabited

/-- What a user task step says about its task. -/
structure TaskParams where
  /-- The assignee, which may refer to the input. -/
  assignee : Option String
  candidateUsers : List String
  candidateGroups : List String
  priority : Priority
  formFields : List FormField
  /-- All other parameters, sorted by key. -/
  extra : List (String × Json)
deriving DecidableEq, Repr, Inhabited

namespace TaskParams

/-- No assignee, no candidates and the medium priority. -/
def default : TaskParams := ⟨none, [], [], .medium, [], []⟩

def withAssignee (p : TaskParams) (assignee : String) : TaskParams :=
  { p with assignee := some assignee }

def withCandidateUsers (p : TaskParams) (users : List String) : TaskParams :=
  { p with candidateUsers := users }

def withCandidateGroups (p : TaskParams) (groups : List String) : TaskParams :=
  { p with candidateGroups := groups }

def withPriority (p : TaskParams) (priority : Priority) : TaskParams :=
  { p with priority := priority }

end TaskParams

/-- What happens when an instance reaches a step; `σ` is the type of the branches. -/
inductive StepKind (σ : Type) where
  /-- Opens a task and waits for it. -/
  | userTask (params : TaskParams)
  /-- Goes on at once. -/
  | process
  /-- Opens a task for each branch that qualifies and waits for all of them. -/
  | parallel (branches : List σ)
  /-- Completes the instance. -/
  | complete
  /-- A type of some other name; the step is passed over. -/
  | unknown (typeName : String)
deriving Repr

namespace StepKind

/-- The name of the kind in a definition. -/
def typeName {σ : Type} : StepKind σ → String
  | .userTask _ => "user_task"
  | .process => "process"
  | .parallel _ => "parallel"
  | .complete => "complete"
  | .unknown name => name

end StepKind

/-- A step of a definition. -/
structure Step where
  id : String
  name : String
  description : String
  /-- The guard: the step is passed over unless it holds. -/
  condition : Option String
  timeout : Option Json
  retries : Option Nat
  /-- The ids of the steps that may follow, in order of preference. -/
  nextSteps : List String
  kind : StepKind Step
deriving Repr

namespace Step

/-- A step with nothing but an id, which is trimmed, and a kind. -/
def ofKind (id : String) (kind : StepKind Step) : Step :=
  let id := Text.trim id
  ⟨id, id, "", none, none, none, [], kind⟩

/-- A step that asks a person. -/
def userTask (id : String) : Step := ofKind id (.userTask .default)

/-- A step that is done by itself. -/
def process (id : String) : Step := ofKind id .process

/-- A step that ends the instance. -/
def complete (id : String) : Step := ofKind id .complete

/-- A step that opens a task for each branch. -/
def parallel (id : String) (branches : List Step) : Step := ofKind id (.parallel branches)

def withName (s : Step) (name : String) : Step :=
  { s with name := name }

def withDescription (s : Step) (description : String) : Step :=
  { s with description := description }

def withCondition (s : Step) (condition : String) : Step :=
  { s with condition := some condition }

/-- Sets the parameters of a user task step; other steps have none. -/
def withParams (s : Step) (params : TaskParams) : Step :=
  match s.kind with
  | .userTask _ => { s with kind := .userTask params }
  | _ => s

/-- One more step that may follow. -/
def andThen (s : Step) (next : String) : Step :=
  { s with nextSteps := s.nextSteps ++ [next] }

/-- The name of the step's kind. -/
def typeName (s : Step) : String := s.kind.typeName

/-- The parameters of a user task step. -/
def params? (s : Step) : Option TaskParams :=
  match s.kind with
  | .userTask params => some params
  | _ => none

/-- The branches of a parallel step. -/
def branches (s : Step) : List Step :=
  match s.kind with
  | .parallel branches => branches
  | _ => []

/-- Whether the step is a parallel one. -/
def isParallel (s : Step) : Bool :=
  match s.kind with
  | .parallel _ => true
  | _ => false

/-- Whether the step ends the instance. -/
def isComplete (s : Step) : Bool :=
  match s.kind with
  | .complete => true
  | _ => false

/-- The guard without blanks around it; a blank condition is no guard. -/
def guard? (s : Step) : Option String :=
  match s.condition with
  | none => none
  | some c =>
    let c := Text.trim c
    if c = "" then none else some c

/-- What the keys of all branch tasks of the step begin with. -/
def branchStart (s : Step) : String := s.id ++ "_"

/-- The key of the task of a branch. -/
def branchKey (s : Step) (branch : Step) : String := s.id ++ "_" ++ branch.id

end Step

mutual
/-- Whether two steps are the same. -/
def Step.beq : Step → Step → Bool
  | ⟨i, n, d, c, t, r, s, k⟩, ⟨i', n', d', c', t', r', s', k'⟩ =>
    i == i' && n == n' && d == d' && c == c' && t == t' && r == r' && s == s' && StepKind.beq k k'

/-- Whether two kinds are the same. -/
def StepKind.beq : StepKind Step → StepKind Step → Bool
  | .userTask p, .userTask q => p == q
  | .process, .process => true
  | .parallel bs, .parallel cs => Step.beqList bs cs
  | .complete, .complete => true
  | .unknown a, .unknown b => a == b
  | _, _ => false

/-- Whether two lists of steps are the same. -/
def Step.beqList : List Step → List Step → Bool
  | [], [] => true
  | a :: as, b :: bs => a.beq b && Step.beqList as bs
  | _, _ => false
end

mutual
/-- Two steps are taken for the same exactly if they are. -/
theorem Step.beq_iff : ∀ a b : Step, a.beq b = true ↔ a = b
  | ⟨_, _, _, _, _, _, _, k⟩, ⟨_, _, _, _, _, _, _, k'⟩ => by
    simp [Step.beq, StepKind.beq_iff k k', and_assoc]

/-- Two kinds of steps are taken for the same exactly if they are. -/
theorem StepKind.beq_iff : ∀ a b : StepKind Step, a.beq b = true ↔ a = b
  | .userTask _, b => by cases b <;> simp [StepKind.beq]
  | .process, b => by cases b <;> simp [StepKind.beq]
  | .parallel bs, .parallel cs => by simp [StepKind.beq, Step.beqList_iff bs cs]
  | .parallel _, .userTask _ => by simp [StepKind.beq]
  | .parallel _, .process => by simp [StepKind.beq]
  | .parallel _, .complete => by simp [StepKind.beq]
  | .parallel _, .unknown _ => by simp [StepKind.beq]
  | .complete, b => by cases b <;> simp [StepKind.beq]
  | .unknown _, b => by cases b <;> simp [StepKind.beq]

/-- Two lists of steps are taken for the same exactly if they are. -/
theorem Step.beqList_iff : ∀ as bs : List Step, Step.beqList as bs = true ↔ as = bs
  | [], [] => by simp [Step.beqList]
  | [], _ :: _ => by simp [Step.beqList]
  | _ :: _, [] => by simp [Step.beqList]
  | a :: as, b :: bs => by simp [Step.beqList, Step.beq_iff a b, Step.beqList_iff as bs]
end

instance : DecidableEq Step := fun a b => decidable_of_iff _ (Step.beq_iff a b)

/-- A workflow definition. -/
structure Definition where
  name : String
  description : String
  steps : List Step
deriving DecidableEq, Repr

/-- What a task key stands for. -/
inductive TaskOrigin where
  /-- A step of the definition itself. -/
  | step (step : Step)
  /-- A branch of a parallel step. -/
  | branch (parent branch : Step)
deriving DecidableEq, Repr

namespace TaskOrigin

/-- The step that the task is built from. -/
def taskStep : TaskOrigin → Step
  | .step s => s
  | .branch _ b => b

/-- The step that decides what follows the task. -/
def flowStep : TaskOrigin → Step
  | .step s => s
  | .branch p _ => p

/-- The id of the parallel step, for a branch. -/
def parentId? : TaskOrigin → Option String
  | .step _ => none
  | .branch p _ => some p.id

end TaskOrigin

namespace Definition

/-- A definition of some steps, without a description. -/
def ofSteps (name : String) (steps : List Step) : Definition := ⟨name, "", steps⟩

/-- The first step with an id. -/
def find? (d : Definition) (id : String) : Option Step :=
  d.steps.find? fun s => s.id == id

/-- The place of the first step with an id. -/
def position? (d : Definition) (id : String) : Option Nat :=
  d.steps.findIdx? fun s => s.id == id

/-- The branch that a key stands for, if it is one of the step's branches. -/
def branchOf? (key : String) (parent : Step) : Option TaskOrigin :=
  (Text.after? parent.branchStart.toList key.toList).bind fun rest =>
    (parent.branches.find? fun b => b.id.toList == rest).map (.branch parent)

/-- What a task key stands for. A step of this id comes before all branches, and a branch of
an earlier step before those of later ones. -/
def resolve? (d : Definition) (key : String) : Option TaskOrigin :=
  match d.find? key with
  | some s => some (.step s)
  | none => d.steps.findSome? (branchOf? key)

end Definition

end ApprovalWorkflow
