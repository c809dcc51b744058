import ApprovalWorkflow.Engine.Progress

/-!
# Working on tasks

People claim, delegate and complete tasks. An assigned task belongs to its assignee, another one
to its candidates, and a task with neither to everybody. A completion is stored before the
instance is moved on, and stands even if that fails; the task then says so, and can be retried.
-/

set_option autoImplicit false

namespace ApprovalWorkflow

/-- A person, with the groups that the person belongs to. -/
structure Actor where
  user : String
  groups : List String
deriving DecidableEq, Repr

/-- What a person hands in at the end of a task. -/
structure Completion where
  result : TaskResult
  output : Json
  comment : Option String
deriving DecidableEq, Repr

namespace Task

/-- Whether neither an assignee nor candidates are named. -/
def isUnrestricted (t : Task) : Bool :=
  t.assignee.isNone && t.candidateUsers.isEmpty && t.candidateGroups.isEmpty

/-- Whether a person may take the task. -/
def mayTake (t : Task) (a : Actor) : Bool :=
  t.canBeClaimed a.user a.groups || (t.isUnrestricted && t.status.isOpen)

/-- Whether a person may complete the task, if it is open. -/
def mayComplete (t : Task) (a : Actor) : Bool :=
  match t.assignee with
  | some assignee => assignee == a.user
  | none => t.mayTake a

end Task

namespace Tasks

open Operation

/-- A task. -/
def get (id : Uuid) : Operation Task := Repository.task id

/-- The tasks of an instance that have not ended. -/
def openTasks (e : Engine) (i : Uuid) : Operation (List Task) := do
  let tasks ← e.tasksOf i
  return tasks.filter fun t => t.status.isOpen

/-- The tasks of an instance whose end has not been carried through. -/
def stalled (e : Engine) (i : Uuid) : Operation (List Task) := do
  let tasks ← e.tasksOf i
  return tasks.filter fun t => t.progression.isStalled

/-- The entries about a task, the oldest first. -/
def history (id : Uuid) : Operation (List HistoryEntry) := do
  let _ ← Repository.task id
  Repository.historyOf id

/-- Stores a task together with the entry about what has been done with it. -/
def store (t : Task) (entry : Uuid → Timestamp → HistoryEntry) : Operation Unit := do
  Repository.updateTask t
  let id ← freshId .entry
  Repository.appendHistory (entry id (← now))

/-- A person claims a pending task. -/
def claim (e : Engine) (id : Uuid) (a : Actor) : Operation Task := do
  let t ← Repository.task id
  if t.status ≠ .pending then throw (.taskNotPending id)
  if ¬ t.mayTake a then throw (.taskNotClaimable a.user id)
  let t ← lift (t.claim a.user (← now))
  store t fun entry time => .claimed entry t a.user time
  say .info ("Task '" ++ t.key ++ "' (" ++ t.id.toString ++ ") claimed by " ++ a.user)
  announce e.notifier (.taskAssigned t a.user)
  return t

/-- A person completes or rejects an open task. The instance has yet to be moved on. -/
def finish (e : Engine) (id : Uuid) (a : Actor) (c : Completion) : Operation Task := do
  let t ← Repository.task id
  if t.status.isTerminal then throw (.invalidTransition "task" t.status.name "complete")
  if ¬ t.mayComplete a then throw (.unauthorized a.user id)
  let t ← lift (t.complete c.output c.comment c.result (← now))
  let t := { t with assignee := t.assignee.or (some a.user), progression := .pending }
  store t fun entry time => .completed entry t a.user time
  say .info ("Task '" ++ t.key ++ "' (" ++ t.id.toString ++ ") " ++ t.status.name ++ " by "
    ++ a.user)
  announce e.notifier (.taskCompleted t)
  return t

/-- A person completes or rejects an open task, and the instance is moved on. -/
def complete (e : Engine) (id : Uuid) (a : Actor) (c : Completion) : Operation Task := do
  let t ← finish e id a c
  match ← attempt (e.progress t.id) with
  | .ok t => return t
  | .error error =>
    say .error ("Task " ++ t.id.toString ++ " is stored but instance " ++ t.instanceId.toString
      ++ " did not advance: " ++ error.message)
    Repository.task t.id

/-- The assignee hands an open task to another person. -/
def delegate (e : Engine) (id : Uuid) (a : Actor) (toUser : String) : Operation Task := do
  let t ← Repository.task id
  if t.assignee ≠ some a.user then throw (.unauthorized a.user id)
  let t ← lift (t.delegate toUser)
  store t fun entry time => .delegated entry t a.user toUser time
  say .info ("Task " ++ t.id.toString ++ " delegated by " ++ a.user ++ " to " ++ toUser)
  announce e.notifier (.taskAssigned t toUser)
  return t

/-- Tries again to carry the end of a task through. -/
def retry (e : Engine) (id : Uuid) : Operation Task := do
  let t ← Repository.task id
  if ¬ t.progression.isStalled then
    throw (.invalidTransition "task" t.progression.name "retry progression of")
  say .info ("Retrying progression of task " ++ t.id.toString)
  e.progress id

end Tasks

end ApprovalWorkflow
