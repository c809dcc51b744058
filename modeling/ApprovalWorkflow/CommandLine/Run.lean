import ApprovalWorkflow.CommandLine.Usage
import ApprovalWorkflow.Files.Loading
import ApprovalWorkflow.Management.Workflows

/-!
# Running the command line

A run reads the settings and the state from their files, carries out one command and writes the
state back, unless the command only looks. The state is written also when the command fails,
since a failed start is part of it. What the files hold, the time and the source of ids come
from outside; `Invocation.run` is a function of them, and `Run.report` says what is printed once
the state has been written or could not be.
-/

set_option autoImplicit false

namespace ApprovalWorkflow.CommandLine

open Operation

/-- A task in one line. -/
def taskLine (t : Task) : String :=
  t.id.toString ++ "  " ++ Text.padEnd 24 t.key ++ " " ++ Text.padEnd 9 t.status.name ++ " "
    ++ Text.padEnd 7 t.priority.name ++ " " ++ t.assignee.getD "-"

/-- The open tasks of an instance, one a line. -/
def openLines (e : Engine) (i : Uuid) : Operation (List String) := do
  let tasks ← Tasks.openTasks e i
  return tasks.map taskLine

/-- The instances of some workflows, one workflow after the other. -/
def instancesOf : List Workflow → Operation (List Uuid)
  | [] => return []
  | w :: ws => do
    let first ← Workflows.instances w.id
    let others ← instancesOf ws
    return first.map Instance.id ++ others

/-- The open tasks of some instances, one instance after the other. -/
def openLinesOf (e : Engine) : List Uuid → Operation (List String)
  | [] => return []
  | i :: is => do
    let first ← openLines e i
    let others ← openLinesOf e is
    return first ++ others

/-- Warns of a task whose end has not been carried through. -/
def warnOfStalled (t : Task) : Operation Unit :=
  say .warn ("Task " ++ t.id.toString ++ " (" ++ t.key ++ ") is stalled: " ++ t.progression.shown)

/-- Carries out a command and gives the lines that it prints. -/
def Command.execute (e : Engine) (files : String → Reading) : Command → Operation (List String)
  | .deploy path => do
    let d ← heedResult (Definition.load path (files path))
    let w ← Workflows.create d.name d.description d.toText
    let w ← Workflows.apply .activate w.id
    return [w.id.toString]
  | .start workflow input => do
    let i ← Workflows.startInstance e workflow input
    let lines ← openLines e i.id
    return i.id.toString :: lines
  | .tasks (some i) => openLines e i
  | .tasks none => do
    let ids ← instancesOf (← Workflows.list)
    openLinesOf e ids
  | .claim task actor => do
    let t ← Tasks.claim e task actor
    return [taskLine t]
  | .complete task actor completion => do
    let t ← Tasks.complete e task actor completion
    if t.progression.isStalled then
      say .warn ("Instance " ++ t.instanceId.toString ++ " did not advance; see 'retry'")
    openLines e t.instanceId
  | .retry task => do
    let t ← Tasks.retry e task
    say .info ("Task " ++ t.id.toString ++ " progression: advanced")
    return []
  | .inspect i => do
    let found ← Workflows.getInstance i
    let lines ← openLines e i
    let stalled ← Tasks.stalled e i
    stalled.forM warnOfStalled
    return found.toJson.pretty :: lines

/-- What a run finds outside. -/
structure Outside where
  files : String → Reading
  now : Timestamp
  ids : IdSource

/-- A run before its state is written. -/
structure Run where
  /-- The lines that are printed, or why there are none. -/
  outcome : Except EngineError (List String)
  /-- The lines of the log. -/
  log : List LogLine
  /-- The store and the source of ids in the end. -/
  store : Store
  ids : IdSource
  /-- The path and the text of the state, if it is to be written. -/
  state : Option (String × String)

namespace Invocation

/-- The settings that an invocation names. -/
def settings (v : Invocation) (files : String → Reading) : Logged (Except EngineError Settings) :=
  match v.configPath with
  | none => pure (.ok .default)
  | some path => Settings.load path (files path)

/-- The settings and the state that an invocation names. -/
def prepare (v : Invocation) (files : String → Reading) :
    Logged (Except EngineError (Settings × Snapshot)) := do
  match ← v.settings files with
  | .error e => pure (.error e)
  | .ok settings =>
    match ← Snapshot.loadOrEmpty v.statePath (files v.statePath) with
    | .error e => pure (.error e)
    | .ok snapshot => pure (.ok (settings, snapshot))

/-- The text of the state that an invocation leaves, if it is to be written. -/
def stateOf (v : Invocation) (store : Store) (now : Timestamp) : Option (String × String) :=
  if v.command.isReadOnly then none
  else some (v.statePath, (Snapshot.ofStore store).toText now)

/-- Carries out an invocation up to the writing of the state. -/
def run (v : Invocation) (o : Outside) : Run :=
  let prepared := v.prepare o.files
  match prepared.value with
  | .error e => ⟨.error e, prepared.lines, .empty, o.ids, none⟩
  | .ok (settings, snapshot) =>
    let env : Environment := ⟨snapshot.toStore, o.now, o.ids, none, [], prepared.lines⟩
    let (outcome, env) := (v.command.execute ⟨settings, .logging⟩ o.files).runIn env
    ⟨outcome, env.log, env.store, env.ids, v.stateOf env.store o.now⟩

/-- The lines of the log that are shown. A setting of the environment goes before the options. -/
def filter (v : Invocation) (setting : Option String) : LogFilter :=
  match setting with
  | some text => .ofSetting text
  | none => .upTo (if v.verbose then .debug else .info)

/-- The files that an invocation may read. -/
def paths (v : Invocation) : List String :=
  v.configPath.toList ++ [v.statePath]
    ++ match v.command with
      | .deploy path => [path]
      | _ => []

end Invocation

/-- What a run prints, and whether it has failed. -/
structure Report where
  output : String
  errors : String
  failed : Bool
deriving DecidableEq, Repr

/-- Lines as a text. -/
def textOf : List String → String
  | [] => ""
  | line :: lines => line ++ "\n" ++ textOf lines

/-- The end of a run that has failed. -/
def errorText (message : String) : String := "\nError: " ++ message ++ "\n"

namespace Run

/-- The error of a run, once its state has been written or could not be. -/
def problem? (r : Run) (written : Except FileProblem Unit) : Option EngineError :=
  match written, r.outcome with
  | .error problem, _ => some (.file problem)
  | .ok (), .error e => some e
  | .ok (), .ok _ => none

/-- The lines of the log, once the state has been written or could not be. -/
def finalLog (r : Run) (written : Except FileProblem Unit) : List LogLine :=
  match r.state, written with
  | some (path, _), .ok () => r.log ++ [⟨.info, "Saved state to " ++ path⟩]
  | _, _ => r.log

/-- What is printed, once the state has been written or could not be. -/
def report (r : Run) (filter : LogFilter) (written : Except FileProblem Unit) : Report :=
  let printed := r.outcome.toOption.getD []
  let logged := textOf ((filter.select (r.finalLog written)).map LogLine.render)
  match r.problem? written with
  | none => ⟨textOf printed, logged, false⟩
  | some e => ⟨textOf printed, logged ++ errorText e.message, true⟩

end Run

/-- What is printed if the arguments make no invocation. -/
def Interruption.report : Interruption → Report
  | .help => ⟨textOf usage, "", false⟩
  | .version => ⟨textOf [programVersion], "", false⟩
  | .problem p =>
    ⟨textOf usage, "Error: " ++ p.message ++ "\n\n" ++ errorText p.message, true⟩

end ApprovalWorkflow.CommandLine
