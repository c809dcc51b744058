import ApprovalWorkflow.CommandLine.Run
import Std.Time.DateTime.Timestamp

/-!
# The program

Reads the files that the arguments name, runs, writes the state back and prints the report.
-/

set_option autoImplicit false

namespace ApprovalWorkflow.Program

/-- The problem that an error of the system stands for. -/
def problemOf (e : IO.Error) : FileProblem :=
  match e with
  | .noFileOrDirectory .. => .missing
  | .inappropriateType _ code _ => if code = 20 then .notFolder else .isFolder
  | .alreadyExists .. => .alreadyThere
  | .userError _ => .notText
  | e => .other (toString e)

/-- Reads a file. -/
def read (path : String) : IO Reading := do
  try
    return .ok (← IO.FS.readFile path)
  catch e =>
    return .error (problemOf e)

/-- The folder in which a path lies, if the path names one. -/
def folderOf? (path : String) : Option String :=
  match path.toList.reverse.dropWhile (· ≠ '/') with
  | [] => none
  | ['/'] => none
  | _ :: folder => some (String.ofList folder.reverse)

/-- Writes a file, and makes the folder around it if need be. -/
def write (path text : String) : IO (Except FileProblem Unit) := do
  try
    match folderOf? path with
    | some folder => IO.FS.createDirAll folder
    | none => pure ()
    IO.FS.writeFile path text
    return .ok ()
  catch e =>
    return .error (problemOf e)

/-- The time. -/
def now : IO Timestamp := do
  let nanos := (← Std.Time.Timestamp.now).toNanosecondsSinceUnixEpoch.val
  return (⟨0, 0⟩ : Timestamp).addNanos nanos

/-- A source of ids that no other run has. -/
def freshIds : IO IdSource := do
  let bytes ← IO.getRandomBytes 8
  return .new (bytes.toList.foldl (fun n b => 256 * n + b.toNat) 0)

/-- Prints a report and gives the number with which the program ends. -/
def finish (r : CommandLine.Report) : IO UInt32 := do
  IO.eprint r.errors
  IO.print r.output
  return if r.failed then 1 else 0

/-- Carries out an invocation. -/
def carryOut (v : CommandLine.Invocation) : IO UInt32 := do
  let readings ← v.paths.mapM fun path => return (path, ← read path)
  let files (path : String) : Reading := (readings.lookup path).getD (.error .missing)
  let run := v.run ⟨files, ← now, ← freshIds⟩
  let written ← match run.state with
    | some (path, text) => write path text
    | none => pure (.ok ())
  finish (run.report (v.filter (← IO.getEnv "RUST_LOG")) written)

end ApprovalWorkflow.Program

/-- The program of the command line. -/
def main (args : List String) : IO UInt32 :=
  match ApprovalWorkflow.CommandLine.Invocation.ofArguments args with
  | .ok v => ApprovalWorkflow.Program.carryOut v
  | .error interruption => ApprovalWorkflow.Program.finish interruption.report
