import ApprovalWorkflow.Definition.Validation
import ApprovalWorkflow.Definition.Wire
import ApprovalWorkflow.Error

/-!
# Definitions from texts

A workflow keeps its definition as a text, which is read again for every operation.
`Definition.parse` reads a text and checks what it finds; it fails only with
`EngineError.invalidDefinition`.
-/

set_option autoImplicit false

namespace ApprovalWorkflow.Definition

/-- The definition in a text, sound or not. -/
def read? (text : String) : Decoded Definition := Decode.fromText decode text

/-- A definition that is sound, or else an error with all its problems. -/
def accept (d : Definition) : Logged (Except EngineError Definition) := do
  let checked ← d.check
  pure (checked.mapError .invalidDefinition)

/-- The sound definition in a text. -/
def parse (text : String) : Logged (Except EngineError Definition) :=
  match read? text with
  | .error e => pure (.error (.invalidDefinition [.unreadable .json e]))
  | .ok d => do
    Logged.line .debug ("Parsed definition '" ++ d.name ++ "' with " ++ d.stepCount ++ " steps")
    d.accept

end ApprovalWorkflow.Definition
