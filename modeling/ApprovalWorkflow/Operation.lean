import ApprovalWorkflow.Notice
import ApprovalWorkflow.Store

/-!
# Operations

An operation reads and changes an environment: the store, the sources of time and of fresh ids,
and what has been announced and logged so far. It gives a result or an error, and in both cases
the environment after it, so that what was stored before an error stays stored.

Every access to the store is one call of a known name (`Operation.perform`). An outage makes one
such call fail, before or after it has taken effect; without an outage a call does what the
store says (`Operation.perform_of_no_outage`).
-/

set_option autoImplicit false

namespace ApprovalWorkflow

/-- The calls by which operations reach the store. -/
inductive StoreCall where
  | findWorkflow
  | saveWorkflow
  | updateWorkflow
  | deleteWorkflow
  | listWorkflows
  | findInstance
  | saveInstance
  | updateInstance
  | listInstances
  | findTask
  | findTasksByInstance
  | saveTask
  | updateTask
  | appendHistory
  | historyForTask
deriving DecidableEq, Repr

namespace StoreCall

/-- All calls. -/
def all : List StoreCall :=
  [.findWorkflow, .saveWorkflow, .updateWorkflow, .deleteWorkflow, .listWorkflows, .findInstance,
    .saveInstance, .updateInstance, .listInstances, .findTask, .findTasksByInstance, .saveTask,
    .updateTask, .appendHistory, .historyForTask]

/-- The name of a call. -/
def name : StoreCall → String
  | .findWorkflow => "find_workflow"
  | .saveWorkflow => "save_workflow"
  | .updateWorkflow => "update_workflow"
  | .deleteWorkflow => "delete_workflow"
  | .listWorkflows => "list_workflows"
  | .findInstance => "find_instance"
  | .saveInstance => "save_instance"
  | .updateInstance => "update_instance"
  | .listInstances => "list_instances"
  | .findTask => "find_task"
  | .findTasksByInstance => "find_tasks_by_instance"
  | .saveTask => "save_task"
  | .updateTask => "update_task"
  | .appendHistory => "append_history"
  | .historyForTask => "history_for_task"

/-- The call of a name. -/
def ofName? (s : String) : Option StoreCall := all.find? fun c => c.name = s

end StoreCall

/-- A fault of the store: one call of a name fails, after `skip` others of this name. -/
structure Outage where
  call : StoreCall
  skip : Nat
  /-- Whether the call takes effect before it fails. -/
  takesEffect : Bool
deriving DecidableEq, Repr

/-- What becomes of a call. -/
inductive CallFate where
  | works
  | failsAtOnce
  | failsAfterwards
deriving DecidableEq, Repr

namespace Outage

/-- What becomes of a call during an outage, and what is left of the outage. -/
def meet (o : Option Outage) (call : StoreCall) : CallFate × Option Outage :=
  match o with
  | none => (.works, none)
  | some o =>
    if o.call = call then
      match o.skip with
      | 0 => (if o.takesEffect then .failsAfterwards else .failsAtOnce, none)
      | skip + 1 => (.works, some { o with skip := skip })
    else (.works, some o)

/-- The error of a call that fails. -/
def error (call : StoreCall) : EngineError := .storage ("injected " ++ call.name)

end Outage

/-- What operations read and change. -/
structure Environment where
  store : Store
  now : Timestamp
  ids : IdSource
  outage : Option Outage
  notices : List Notice
  log : List LogLine
deriving Repr

/-- A step of work in an environment. -/
abbrev Operation := ExceptT EngineError (StateM Environment)

namespace Operation

/-- The result of an operation and the environment after it. -/
def runIn {α : Type} (x : Operation α) (env : Environment) : Except EngineError α × Environment :=
  (ExceptT.run x).run env

/-- The outcome of an operation as a value; the operation itself never fails. -/
def attempt {α : Type} (x : Operation α) : Operation (Except EngineError α) := fun env =>
  let (outcome, env) := x.runIn env
  (.ok outcome, env)

/-- The time. -/
def now : Operation Timestamp := do return (← get).now

/-- A fresh id. -/
def freshId (kind : RecordKind) : Operation Uuid := do
  let env ← get
  let (id, ids) := env.ids.draw kind
  set { env with ids := ids }
  return id

/-- Adds lines to the log. -/
def write (lines : List LogLine) : Operation Unit :=
  modify fun env => { env with log := env.log ++ lines }

/-- Adds a line to the log. -/
def say (level : LogLevel) (text : String) : Operation Unit := write [⟨level, text⟩]

/-- A result that may be an error. -/
def lift {α : Type} (x : Except EngineError α) : Operation α :=
  match x with
  | .ok a => pure a
  | .error e => throw e

/-- A result with its lines for the log. -/
def heed {α : Type} (x : Logged α) : Operation α := do
  write x.lines
  return x.value

/-- A result that may be an error, with its lines for the log. -/
def heedResult {α : Type} (x : Logged (Except EngineError α)) : Operation α := do
  lift (← heed x)

/-- Sends a notice. -/
def announce (notifier : Notifier) (n : Notice) : Operation Unit :=
  match notifier with
  | .silent => pure ()
  | .logging =>
    modify fun env =>
      { env with notices := env.notices ++ [n], log := env.log ++ [⟨.info, n.text⟩] }

/-- One call of the store. -/
def perform {α : Type} (call : StoreCall) (run : Store → Except EngineError (α × Store)) :
    Operation α := fun env =>
  let (fate, outage) := Outage.meet env.outage call
  match fate, run env.store with
  | .works, .ok (a, store) => (.ok a, { env with store := store, outage := outage })
  | .works, .error e => (.error e, { env with outage := outage })
  | .failsAtOnce, _ => (.error (Outage.error call), { env with outage := outage })
  | .failsAfterwards, .ok (_, store) =>
    (.error (Outage.error call), { env with store := store, outage := outage })
  | .failsAfterwards, .error _ => (.error (Outage.error call), { env with outage := outage })

/-- A call that only looks. -/
def query {α : Type} (call : StoreCall) (look : Store → α) : Operation α :=
  perform call fun s => .ok (look s, s)

/-- A call that only changes something. -/
def change (call : StoreCall) (run : Store → Except EngineError Store) : Operation Unit :=
  perform call fun s => (run s).map fun s => ((), s)

/-- Without an outage a call does what the store says. -/
theorem perform_of_no_outage {α : Type} (call : StoreCall)
    (run : Store → Except EngineError (α × Store)) (env : Environment) (h : env.outage = none) :
    (perform call run).runIn env =
      match run env.store with
      | .ok (a, store) => (.ok a, { env with store := store })
      | .error e => (.error e, env) := by
  obtain ⟨store, now, ids, outage, notices, log⟩ := env
  obtain rfl : outage = none := h
  cases hr : run store with
  | ok r => obtain ⟨a, s⟩ := r; simp [runIn, perform, Outage.meet, ExceptT.run, StateT.run, hr]
  | error e => simp [runIn, perform, Outage.meet, ExceptT.run, StateT.run, hr]

end Operation

end ApprovalWorkflow
