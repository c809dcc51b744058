import ApprovalWorkflow.Engine.Successor
import ApprovalWorkflow.Repository
import ApprovalWorkflow.TaskBuilding

/-!
# Walking through a definition

The engine executes a step and, if that step needs nobody, goes on to the next one. A walk ends
when it opens a task, completes the instance or finds no step to go on to; and it fails when it
has taken as many steps by itself as the settings allow. That number bounds the recursion of
`Engine.advance`.
-/

set_option autoImplicit false

namespace ApprovalWorkflow

/-- An engine: its settings, and what becomes of its notices. -/
structure Engine where
  settings : Settings
  notifier : Notifier
deriving Repr

namespace Engine

open Operation

/-- An engine with default settings that announces nothing. -/
def default : Engine := ⟨.default, .silent⟩

/-- All tasks of an instance. -/
def tasksOf (e : Engine) (i : Uuid) : Operation (List Task) :=
  Repository.allTasks i e.settings.pageSize

/-- What follows a step of an instance. -/
def nextStep (e : Engine) (d : Definition) (s : Step) (i : Instance) :
    Operation (Option Step) := do
  let tasks ← e.tasksOf i.id
  heed (d.successor ⟨i.input, tasks⟩ s)

/-- Opens a task for a step or a branch. -/
def openTask (e : Engine) (i : Instance) (s : Step) (key : String) (parent : Option String)
    (history : List Task) : Operation Task := do
  let id ← freshId .task
  let t ← heed (Task.build id i s key parent history e.settings.resultLabels (← now))
  Repository.saveTask t
  say .info ("Created task '" ++ t.key ++ "' (" ++ t.id.toString ++ ") for instance "
    ++ i.id.toString)
  announce e.notifier (.taskCreated t)
  return t

/-- What an instance gives out at its end: for every key of a completed task what the one that
was completed last has given out. -/
def completedOutputs (tasks : List Task) : Json :=
  let completed := tasks.filter fun t => t.status = .completed
  .obj ((completed.mergeSort Task.finishedBefore).foldl
    (fun fields t => Json.insert t.key t.output fields) [])

/-- Completes an instance. -/
def completeInstance (e : Engine) (i : Instance) : Operation Unit := do
  let tasks ← e.tasksOf i.id
  let i ← lift (i.complete (completedOutputs tasks) (← now))
  Repository.updateInstance i
  say .info ("Instance " ++ i.id.toString ++ " completed")
  announce e.notifier (.workflowCompleted i)

/-- The branches whose guards hold. -/
def qualifying (around : Surroundings) : List Step → Logged (List Step)
  | [] => pure []
  | b :: branches => do
    let passes ← b.passes around
    let others ← qualifying around branches
    pure (if passes then b :: others else others)

/-- Opens a task for each of some branches. -/
def openBranches (e : Engine) (i : Instance) (parallel : Step) (history : List Task) :
    List Step → Operation Unit
  | [] => return
  | b :: branches => do
    let _ ← e.openTask i b (parallel.branchKey b) (some parallel.id) history
    openBranches e i parallel history branches

/-- Executes a step. `onward` is what is done when the step needs nobody. -/
def execute (e : Engine) (i : Instance) (s : Step) (onward : Operation Unit) :
    Operation Unit := do
  say .debug ("Instance " ++ i.id.toString ++ ": executing " ++ s.typeName ++ " step '" ++ s.id
    ++ "'")
  match s.kind with
  | .userTask _ => do
    let tasks ← e.tasksOf i.id
    let _ ← e.openTask i s s.id none tasks
  | .process => onward
  | .parallel branches => do
    let tasks ← e.tasksOf i.id
    let chosen ← heed (qualifying ⟨i.input, tasks⟩ branches)
    if chosen.isEmpty then
      say .info ("No branch of '" ++ s.id ++ "' qualifies; moving on")
      onward
    else e.openBranches i s tasks chosen
  | .complete => e.completeInstance i
  | .unknown typeName => do
    say .warn ("Unknown step type '" ++ typeName ++ "' at '" ++ s.id ++ "'; continuing")
    onward

/-- Goes on from a step, with so many steps left that may be taken without a person. -/
def advance (e : Engine) (d : Definition) (i : Instance) : Nat → Step → Operation Unit
  | 0, _ => throw (.stepLimitExceeded e.settings.maxAutoSteps)
  | remaining + 1, s => do
    match ← e.nextStep d s i with
    | some next => e.execute i next (advance e d i remaining next)
    | none =>
      say .info ("Instance " ++ i.id.toString ++ ": no step follows '" ++ s.id
        ++ "'; branch ended")

/-- Executes the first step of an instance. -/
def start (e : Engine) (id : Uuid) : Operation Unit := do
  let i ← Repository.instanceOf id
  lift i.ensureRunning
  let w ← Repository.workflow i.workflowId
  lift w.ensureStartable
  let d ← heedResult w.parsedDefinition
  match d.steps with
  | [] => throw (.invalidDefinition [.noSteps])
  | first :: _ => do
    let i := { i with startedAt := ← now }
    Repository.updateInstance i
    say .info ("Starting instance " ++ i.id.toString ++ " of workflow '" ++ w.name
      ++ "' at step '" ++ first.id ++ "'")
    e.execute i first (e.advance d i e.settings.maxAutoSteps first)

end Engine

end ApprovalWorkflow
