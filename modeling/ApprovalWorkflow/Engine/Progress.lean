import ApprovalWorkflow.Engine.Join
import ApprovalWorkflow.Engine.Walk

/-!
# Carrying a finished task through

A finished task moves its instance on: the walk continues behind the step that the task belongs
to. Behind a parallel step it continues only when all branches have ended, and once for each set
of branch tasks. A rejected task that is no branch goes back instead: the task that was
completed last before it is opened again. `Engine.progress` does this at most once for a task
and writes down on the task how it went.
-/

set_option autoImplicit false

namespace ApprovalWorkflow

/-- The step that decides where a task leads. -/
def Definition.flowStep (d : Definition) (t : Task) : Except EngineError Step :=
  let step :=
    match t.parentStepId with
    | some parent => d.find? parent
    | none => (d.resolve? t.key).map TaskOrigin.flowStep
  match step with
  | some s => .ok s
  | none => .error (.stepNotFound t.key)

namespace Engine

open Operation

/-- The running instance of a task, and the definition that it follows. -/
def runningInstance (id : Uuid) : Operation (Instance × Definition) := do
  let i ← Repository.instanceOf id
  lift i.ensureRunning
  let w ← Repository.workflow i.workflowId
  let d ← heedResult w.parsedDefinition
  return (i, d)

/-- Fires the join of a parallel step, if all its branches have ended and it has not fired for
these tasks before. Without a result the instance has to wait. -/
def fireJoin (e : Engine) (i : Instance) (parallel : Step) : Operation (Option Instance) := do
  let tasks ← e.tasksOf i.id
  match parallel.resolvedSiblings? tasks with
  | none =>
    say .info ("Parallel step '" ++ parallel.id ++ "' of instance " ++ i.id.toString
      ++ " still waiting on branches")
    return none
  | some ids =>
    match i.claimJoin? parallel.id ids (← now) with
    | none =>
      say .debug ("Join of '" ++ parallel.id ++ "' already fired for instance " ++ i.id.toString)
      return none
    | some i =>
      Repository.updateInstance i
      say .info ("All branches of '" ++ parallel.id ++ "' resolved")
      return some i

/-- Continues an instance behind a task. -/
def continueAfter (e : Engine) (t : Task) : Operation Unit := do
  let (i, d) ← runningInstance t.instanceId
  let current ← lift (d.flowStep t)
  if current.isParallel then
    match ← e.fireJoin i current with
    | none => return
    | some i => e.advance d i e.settings.maxAutoSteps current
  else e.advance d i e.settings.maxAutoSteps current

/-- Whether a task was completed at a time or before it. -/
def completedBy (t : Task) (time : Timestamp) : Bool :=
  t.status = .completed &&
    match t.completedAt with
    | some completedAt => completedAt.le time
    | none => false

/-- The task that was completed last; of several the last one in the list. -/
def lastCompleted? : List Task → Option Task
  | [] => none
  | t :: tasks =>
    match lastCompleted? tasks with
    | none => some t
    | some u => if Timestamp.leOptional t.completedAt u.completedAt then some u else some t

/-- The task to which a rejection at a time goes back. -/
def previousTask? (rejected : Task) (rejectedAt : Timestamp) (tasks : List Task) : Option Task :=
  lastCompleted? (tasks.filter fun t => t.id != rejected.id && completedBy t rejectedAt)

/-- Opens the task again that was completed last before a rejected one, for the person who had
it before. -/
def goBack (e : Engine) (rejected : Task) : Operation Task := do
  let (i, d) ← runningInstance rejected.instanceId
  let tasks ← e.tasksOf i.id
  let rejectedAt := rejected.completedAt.getD (← now)
  let previous ← match previousTask? rejected rejectedAt tasks with
    | some t => pure t
    | none => throw (.noPreviousTask rejected.id)
  let origin ← match d.resolve? previous.key with
    | some origin => pure origin
    | none => throw (.stepNotFound previous.key)
  let id ← freshId .task
  let built ← heed (Task.build id i origin.taskStep previous.key origin.parentId? tasks
    e.settings.resultLabels (← now))
  let assigned := { built with assignee := previous.assignee.or built.assignee }
  let reopened := assigned.markRejected rejected rejectedAt
  Repository.saveTask reopened
  say .info ("Task '" ++ rejected.key ++ "' rejected; reopened '" ++ reopened.key ++ "' as "
    ++ reopened.id.toString)
  match reopened.assignee with
  | some assignee => announce e.notifier (.taskAssigned reopened assignee)
  | none => announce e.notifier (.taskCreated reopened)
  return reopened

/-- Moves the instance of a finished task, forwards or back. -/
def move (e : Engine) (t : Task) : Operation Unit :=
  if t.result = some .rejected ∧ ¬ t.isBranch then do
    let _ ← e.goBack t
  else e.continueAfter t

/-- Carries a finished task through to its instance, unless that has been done. -/
def progress (e : Engine) (id : Uuid) : Operation Task := do
  let _ ← Repository.task id
  let t ← Repository.task id
  if t.progression = .advanced then
    say .debug ("Task " ++ t.id.toString ++ " already advanced its instance")
    return t
  else if t.status.isOpen then throw (.invalidTransition "task" t.status.name "progress")
  else
    match ← attempt (e.move t) with
    | .ok () =>
      let t := { t with progression := .advanced }
      Repository.updateTask t
      return t
    | .error error =>
      Repository.updateTask { t with progression := .failed error.message }
      throw error

end Engine

end ApprovalWorkflow
