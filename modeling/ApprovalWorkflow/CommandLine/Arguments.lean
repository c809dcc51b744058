import ApprovalWorkflow.Document.Decode
import ApprovalWorkflow.Management.Tasks

/-!
# Arguments of the command line

Arguments are gathered in two steps. First every argument is put down as an option with its
value or as a positional argument (`Arguments.gather`), wherever it stands; then the positional
arguments and the options make an invocation (`Arguments.toInvocation`). Of an option that is
given more than once the last value counts, except for groups, which add up.
-/

set_option autoImplicit false

namespace ApprovalWorkflow.CommandLine

/-- What is wrong with the arguments. -/
inductive ArgumentProblem where
  | missing (what : String)
  | invalid (what value : String)
  | invalidJson (option : String) (error : DecodeError)
  | unknownResult (reason : String)
  | userWanted
  | valueWanted (option : String)
  | unknownOption (option : String)
  | unknownCommand (name : String)
  | unexpected (argument : String)
deriving DecidableEq, Repr

namespace ArgumentProblem

/-- The wording of a problem. -/
def message : ArgumentProblem → String
  | .missing what => "missing " ++ what
  | .invalid what value => "Invalid " ++ what ++ ": " ++ value
  | .invalidJson option error => "Invalid " ++ option ++ ": " ++ error.message
  | .unknownResult reason => reason
  | .userWanted => "--user is required"
  | .valueWanted option => option ++ " requires an argument"
  | .unknownOption option => "Unknown option: " ++ option
  | .unknownCommand name => "Unknown command: " ++ name
  | .unexpected argument => "Unexpected argument: " ++ argument

end ArgumentProblem

/-- Why arguments make no invocation. -/
inductive Interruption where
  /-- The usage is wanted. -/
  | help
  /-- The version is wanted. -/
  | version
  | problem (p : ArgumentProblem)
deriving DecidableEq, Repr

/-- Options without a value. -/
inductive Flag where
  | help
  | version
  | verbose
deriving DecidableEq, Repr

/-- The flag that an argument stands for. -/
def Flag.ofArgument? (arg : String) : Option Flag :=
  if arg = "--help" ∨ arg = "-h" then some .help
  else if arg = "--version" ∨ arg = "-V" then some .version
  else if arg = "--verbose" ∨ arg = "-v" then some .verbose
  else none

/-- Options with a value. -/
inductive ValueOption where
  | state
  | config
  | input
  | user
  | group
  | result
  | comment
  | output
deriving DecidableEq, Repr

namespace ValueOption

/-- All options with a value. -/
def all : List ValueOption := [.state, .config, .input, .user, .group, .result, .comment, .output]

/-- How an option is written. -/
def text : ValueOption → String
  | .state => "--state"
  | .config => "--config"
  | .input => "--input"
  | .user => "--user"
  | .group => "--group"
  | .result => "--result"
  | .comment => "--comment"
  | .output => "--output"

/-- The option that an argument stands for. -/
def ofArgument? (arg : String) : Option ValueOption := all.find? fun s => s.text = arg

end ValueOption

/-- Arguments that have been put down, but not understood. -/
structure Arguments where
  positional : List String
  state : Option String
  config : Option String
  verbose : Bool
  input : Option String
  user : Option String
  groups : List String
  result : Option String
  comment : Option String
  output : Option String
deriving DecidableEq, Repr

/-- What a user wants to be done. -/
inductive Command where
  /-- Create and activate a workflow. -/
  | deploy (path : String)
  /-- Start an instance. -/
  | start (workflow : Uuid) (input : Json)
  /-- List open tasks, of one instance or of all. -/
  | tasks (run : Option Uuid)
  | claim (task : Uuid) (actor : Actor)
  | complete (task : Uuid) (actor : Actor) (completion : Completion)
  /-- Try again to carry the end of a task through. -/
  | retry (task : Uuid)
  /-- Show an instance with its tasks. -/
  | inspect (run : Uuid)
deriving DecidableEq, Repr

/-- Whether a command leaves the state alone. -/
def Command.isReadOnly : Command → Bool
  | .tasks _ => true
  | .inspect _ => true
  | _ => false

/-- A command, and with which files it is carried out. -/
structure Invocation where
  command : Command
  statePath : String
  configPath : Option String
  verbose : Bool
deriving DecidableEq, Repr

/-- Where the state is kept unless another file is named. -/
def defaultState : String := ".flowrunner/state.json"

/-- The result of a completed task unless another one is named. -/
def defaultResult : TaskResult := .approved

namespace Arguments

/-- No arguments. -/
def none : Arguments := ⟨[], .none, .none, false, .none, .none, [], .none, .none, .none⟩

/-- Puts down an option. -/
def put (a : Arguments) (s : ValueOption) (value : String) : Arguments :=
  match s with
  | .state => { a with state := some value }
  | .config => { a with config := some value }
  | .input => { a with input := some value }
  | .user => { a with user := some value }
  | .group => { a with groups := a.groups ++ [value] }
  | .result => { a with result := some value }
  | .comment => { a with comment := some value }
  | .output => { a with output := some value }

/-- Puts down a positional argument. -/
def push (a : Arguments) (arg : String) : Arguments :=
  { a with positional := a.positional ++ [arg] }

/-- Puts down all arguments. The first one that cannot be put down ends it. -/
def gather (a : Arguments) : List String → Except Interruption Arguments
  | [] => .ok a
  | arg :: args =>
    match Flag.ofArgument? arg with
    | some .help => .error .help
    | some .version => .error .version
    | some .verbose => gather { a with verbose := true } args
    | .none =>
      match ValueOption.ofArgument? arg with
      | some s =>
        match args with
        | [] => .error (.problem (.valueWanted arg))
        | value :: rest => gather (a.put s value) rest
      | .none =>
        if arg.toList.head? = some '-' then .error (.problem (.unknownOption arg))
        else gather (a.push arg) args

/-- The id in the first argument behind the command. -/
def id (a : Arguments) (what : String) : Except ArgumentProblem Uuid :=
  match a.positional[1]? with
  | .none => .error (.missing what)
  | some text =>
    match Uuid.ofString? text with
    | some u => .ok u
    | .none => .error (.invalid what text)

/-- The value of a JSON text, or null if there is none. -/
def json (option : String) (text : Option String) : Except ArgumentProblem Json :=
  match text with
  | .none => .ok .null
  | some text => (Decode.fromText Decode.json text).mapError (.invalidJson option)

/-- The acting person. -/
def actor (a : Arguments) : Except ArgumentProblem Actor :=
  match a.user with
  | .none => .error .userWanted
  | some user => .ok ⟨user, a.groups⟩

/-- The result of a task. -/
def taskResult (a : Arguments) : Except ArgumentProblem TaskResult :=
  match a.result with
  | .none => .ok defaultResult
  | some word => (TaskResult.ofWord word).mapError .unknownResult

/-- The command that is named. -/
def command (a : Arguments) : Except ArgumentProblem Command := do
  match a.positional with
  | [] => .error (.missing "command")
  | name :: rest =>
    if name = "deploy" then
      match rest with
      | [] => .error (.missing "definition file")
      | path :: _ => .ok (.deploy path)
    else if name = "start" then
      let workflow ← a.id "workflow id"
      let input ← json "--input" a.input
      .ok (.start workflow input)
    else if name = "tasks" then
      if rest = [] then .ok (.tasks .none)
      else
        let run ← a.id "instance id"
        .ok (.tasks (some run))
    else if name = "claim" then
      let task ← a.id "task id"
      let actor ← a.actor
      .ok (.claim task actor)
    else if name = "complete" then
      let task ← a.id "task id"
      let result ← a.taskResult
      let actor ← a.actor
      let output ← json "--output" a.output
      .ok (.complete task actor ⟨result, output, a.comment⟩)
    else if name = "retry" then
      let task ← a.id "task id"
      .ok (.retry task)
    else if name = "show" then
      let run ← a.id "instance id"
      .ok (.inspect run)
    else .error (.unknownCommand name)

/-- The invocation that the arguments make. -/
def toInvocation (a : Arguments) : Except ArgumentProblem Invocation := do
  let command ← a.command
  match a.positional[2]? with
  | some argument => .error (.unexpected argument)
  | .none => .ok ⟨command, a.state.getD defaultState, a.config, a.verbose⟩

end Arguments

/-- The invocation in the arguments of a command line. -/
def Invocation.ofArguments (args : List String) : Except Interruption Invocation := do
  let a ← Arguments.none.gather args
  a.toInvocation.mapError .problem

end ApprovalWorkflow.CommandLine
