/-!
# Problems with files

Why a file cannot be read or written, with the wording and the number by which such a problem
is known. `Reading` is what becomes of an attempt to read a file.
-/

set_option autoImplicit false

namespace ApprovalWorkflow

/-- Why a file cannot be read or written. -/
inductive FileProblem where
  /-- There is nothing at the path. -/
  | missing
  /-- A file stands where the path needs a folder. -/
  | notFolder
  /-- There is a folder at the path. -/
  | isFolder
  /-- A file stands where a folder was to be made. -/
  | alreadyThere
  /-- The file holds bytes that are no text. -/
  | notText
  /-- Any other problem, in the words of the system. -/
  | other (reason : String)
deriving DecidableEq, Repr

namespace FileProblem

/-- The wording of a problem. -/
def message : FileProblem → String
  | .missing => "No such file or directory (os error 2)"
  | .notFolder => "Not a directory (os error 20)"
  | .isFolder => "Is a directory (os error 21)"
  | .alreadyThere => "File exists (os error 17)"
  | .notText => "stream did not contain valid UTF-8"
  | .other reason => reason

/-- Whether there is nothing at the path. -/
def isAbsence : FileProblem → Bool
  | .missing => true
  | .notFolder => true
  | _ => false

end FileProblem

/-- The text of a file, or why it cannot be read. -/
abbrev Reading := Except FileProblem String

end ApprovalWorkflow
