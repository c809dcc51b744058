import ApprovalWorkflow.Definition.Source
import ApprovalWorkflow.Files.Path
import ApprovalWorkflow.Settings
import ApprovalWorkflow.Snapshot
import ApprovalWorkflow.Yaml.Printer
import ApprovalWorkflow.Yaml.Reader

/-!
# Definitions, settings and snapshots in files

What a file stands for once its text has been read, with the lines that are logged about it.
Definitions and settings are written in JSON or in YAML, as the ending of the file says, and
snapshots in JSON.
-/

set_option autoImplicit false

namespace ApprovalWorkflow

namespace Definition

/-- The definition in a YAML text, if it is sound. -/
def parseYaml (text : String) : Logged (Except EngineError Definition) :=
  match Yaml.decodeText decode text with
  | .error e => pure (.error (.invalidDefinition [.unreadable .yaml e]))
  | .ok d => d.accept

/-- The definition in a file, if it is sound. -/
def load (path : String) (content : Reading) : Logged (Except EngineError Definition) := do
  Logged.line .info ("Loading definition from: " ++ path)
  match content with
  | .error problem => pure (.error (.file problem))
  | .ok text => do
    Logged.line .debug ("Definition content loaded ("
      ++ String.ofList (Text.decimal text.utf8ByteSize) ++ " bytes)")
    match TextFormat.ofPath path with
    | .json => parse text
    | .yaml => parseYaml text

/-- The text of a definition in a file of some format. -/
def fileText (d : Definition) : TextFormat → String
  | .json => d.toJson.pretty
  | .yaml => Yaml.render d.toJson

end Definition

namespace Settings

/-- What is said about a file that does not hold settings. A text that is no YAML has no place
to name. -/
def loadProblem (path : String) (format : TextFormat) (e : DecodeError) : EngineError :=
  match format, e with
  | .json, e => .settings (path ++ ": " ++ e.message)
  | .yaml, .malformed => .settings (e.messageIn .yaml)
  | .yaml, e => .settings (path ++ ": " ++ e.messageWithPath)

/-- The settings in a text. -/
def ofText (format : TextFormat) (text : String) : Decoded Settings :=
  match format with
  | .json => Decode.fromText decode text
  | .yaml => Yaml.decodeText decode text

/-- The settings in a file, if the engine can work with them. -/
def load (path : String) (content : Reading) : Logged (Except EngineError Settings) :=
  let format := TextFormat.ofPath path
  let settings : Except EngineError Settings := do
    let text ← content.mapError .file
    let settings ← (ofText format text).mapError (loadProblem path format)
    settings.check
  match settings with
  | .error e => pure (.error e)
  | .ok settings => do
    Logged.line .info ("Loaded engine config from " ++ path)
    pure (.ok settings)

end Settings

namespace Snapshot

/-- The snapshot in a file. -/
def load (path : String) (content : Reading) : Logged (Except EngineError Snapshot) :=
  match content.mapError EngineError.file >>= SavedSnapshot.ofText with
  | .error e => pure (.error e)
  | .ok saved => do
    Logged.line .info ("Loaded state from " ++ path ++ " (saved " ++ saved.savedAt.toLine ++ ")")
    pure (.ok saved.snapshot)

/-- The snapshot in a file, or an empty one if there is no file. -/
def loadOrEmpty (path : String) (content : Reading) : Logged (Except EngineError Snapshot) :=
  match content with
  | .error problem =>
    if problem.isAbsence then do
      Logged.line .info ("No state at " ++ path ++ "; starting empty")
      pure (.ok empty)
    else load path content
  | .ok _ => load path content

end Snapshot

end ApprovalWorkflow
