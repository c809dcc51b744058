import ApprovalWorkflow.Document.Basic

/-!
# Paths of files

A path is a text whose parts are separated by slashes. Empty parts and single dots do not count.
The ending of the last part says in which format a file is written.
-/

set_option autoImplicit false

namespace ApprovalWorkflow

namespace Path

/-- The parts of a path. -/
def parts (path : String) : List (List Char) :=
  (Text.splitAt '/' path.toList).filter fun p => p ≠ [] ∧ p ≠ ['.']

/-- What stands behind the last dot of a name, if anything stands before that dot. -/
def ending? (name : List Char) : Option (List Char) :=
  let tail := name.reverse.takeWhile (· ≠ '.')
  if tail.length + 1 < name.length ∧ name ≠ ['.', '.'] then some tail.reverse else none

/-- Whether a path can only be that of a folder. -/
def namesFolder (path : String) : Bool :=
  match path.toList.reverse with
  | '/' :: _ => true
  | ['.'] => true
  | '.' :: '/' :: _ => true
  | _ => false

end Path

/-- The format of a file: YAML for the endings `yaml` and `yml` in small letters, and JSON for
everything else. -/
def TextFormat.ofPath (path : String) : TextFormat :=
  match (Path.parts path).getLast?.bind Path.ending? with
  | some ['y', 'a', 'm', 'l'] => .yaml
  | some ['y', 'm', 'l'] => .yaml
  | _ => .json

end ApprovalWorkflow
