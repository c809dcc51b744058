import ApprovalWorkflow.Definition.Basic
import ApprovalWorkflow.Definition.Problem
import ApprovalWorkflow.Log

/-!
# Sound definitions

The rules that a definition has to keep before instances may follow it: it has steps, ids are
neither blank nor repeated, a parallel step has branches, and every step that may follow is one
of the definition. Cycles are allowed, because a flow may come back to an earlier step.
`Definition.problems` reports every violation in the order of the document, and
`Definition.isSound` says that there is none.
-/

set_option autoImplicit false

namespace ApprovalWorkflow

namespace Definition

/-- A problem for each id that is not empty and stands among the earlier ones. -/
def repeatedIds : List String → List Step → List DefinitionProblem
  | _, [] => []
  | seen, s :: steps =>
    if s.id = "" then repeatedIds seen steps
    else if seen.contains s.id then .duplicateStepId s.id :: repeatedIds seen steps
    else repeatedIds (s.id :: seen) steps

/-- A problem for each branch with a blank id or with the id of an earlier branch. -/
def branchProblems (stepId : String) : List String → List Step → List DefinitionProblem
  | _, [] => []
  | seen, b :: branches =>
    if Text.isBlankText b.id then .emptyStepId :: branchProblems stepId seen branches
    else if seen.contains b.id then
      .duplicateBranchId stepId b.id :: branchProblems stepId seen branches
    else branchProblems stepId (b.id :: seen) branches

/-- The problems of one step, its successors apart. Without an id there is nothing more to
say about it. -/
def stepProblems (s : Step) : List DefinitionProblem :=
  if Text.isBlankText s.id then [.emptyStepId]
  else
    match s.kind with
    | .parallel branches =>
      (if branches.isEmpty then [.noBranches s.id] else []) ++ branchProblems s.id [] branches
    | _ => []

/-- A problem for each successor that is no step. -/
def referenceProblems (ids : List String) (s : Step) : List DefinitionProblem :=
  (s.nextSteps.filter fun next => !ids.contains next).map (.unknownReference s.id)

/-- The ids that successors may name. -/
def stepIds (d : Definition) : List String :=
  (d.steps.map Step.id).filter (· ≠ "")

/-- All problems of a definition, in the order of the document. -/
def problems (d : Definition) : List DefinitionProblem :=
  if d.steps.isEmpty then [.noSteps]
  else
    repeatedIds [] d.steps
      ++ d.steps.flatMap fun s => stepProblems s ++ referenceProblems d.stepIds s

/-- A definition without problems. -/
def isSound (d : Definition) : Bool := d.problems.isEmpty

/-- The wording of all problems. -/
def problemMessages (d : Definition) : List String := d.problems.map DefinitionProblem.message

/-- What is remarked about a step while it is looked at. -/
def stepRemarks (s : Step) : List LogLine :=
  if Text.isBlankText s.id then []
  else
    match s.kind with
    | .unknown typeName =>
      [⟨.warn, "Step '" ++ s.id ++ "' has unrecognised type '" ++ typeName
        ++ "' and will be skipped at runtime"⟩]
    | .userTask params =>
      if params.assignee = none ∧ params.candidateUsers = [] ∧ params.candidateGroups = [] then
        [⟨.debug, "Step '" ++ s.id ++ "' has no assignee or candidates"⟩]
      else []
    | _ => []

/-- The number of steps, as a text. -/
def stepCount (d : Definition) : String := String.ofList (Text.decimal d.steps.length)

/-- What is remarked at the end about a definition without problems. -/
def soundRemarks (d : Definition) : List LogLine :=
  (if d.steps.any Step.isComplete then []
    else [⟨.warn, "Definition '" ++ d.name
      ++ "' has no complete step; instances will never finish on their own"⟩])
    ++ [⟨.info, "Definition '" ++ d.name ++ "' validated: " ++ d.stepCount ++ " steps"⟩]

/-- What is remarked about a definition while it is looked at. -/
def remarks (d : Definition) : List LogLine :=
  ⟨.debug, "Validating definition with " ++ d.stepCount ++ " steps"⟩ ::
    ((if d.steps.isEmpty then [] else d.steps.flatMap stepRemarks)
      ++ (if d.isSound then d.soundRemarks else []))

/-- The definition, if it is sound, and otherwise all its problems. -/
def check (d : Definition) : Logged (Except (List DefinitionProblem) Definition) :=
  ⟨if d.isSound then .ok d else .error d.problems, d.remarks⟩

end Definition

end ApprovalWorkflow
