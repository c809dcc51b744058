import ApprovalWorkflow.CommandLine.Run
import ApprovalWorkflow.Files.Folder

/-!
# Runs in a folder

The command line with everything around it in memory: a folder, a clock, a source of ids and the
setting of the log. Runs follow each other, and each finds the files that the ones before it
have left.
-/

set_option autoImplicit false

namespace ApprovalWorkflow.CommandLine

/-- A place in which the program is run again and again. -/
structure Terminal where
  folder : Folder
  now : Timestamp
  ids : IdSource
  /-- The setting of the log, if there is one. -/
  logSetting : Option String

namespace Terminal

/-- Writes a file, if one is to be written. -/
def write (x : Terminal) : Option (String × String) → Except FileProblem Unit × Terminal
  | none => (.ok (), x)
  | some (path, text) =>
    match x.folder.write path text with
    | .ok folder => (.ok (), { x with folder := folder })
    | .error problem => (.error problem, x)

/-- Carries out an invocation and writes the state. -/
def carryOut (x : Terminal) (v : Invocation) : Run × Report × Terminal :=
  let run := v.run ⟨x.folder.read, x.now, x.ids⟩
  let (written, x) := x.write run.state
  (run, run.report (v.filter x.logSetting) written, { x with ids := run.ids })

/-- One run of the program: what it prints, and the place after it. -/
def run (x : Terminal) (args : List String) : Report × Terminal :=
  match Invocation.ofArguments args with
  | .error interruption => (interruption.report, x)
  | .ok v => (x.carryOut v).2

/-- The place some nanoseconds later. -/
def wait (x : Terminal) (nanos : Int) : Terminal := { x with now := x.now.addNanos nanos }

end Terminal

end ApprovalWorkflow.CommandLine
