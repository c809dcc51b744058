import ApprovalWorkflow.Files.Path
import ApprovalWorkflow.Files.Problem

/-!
# Folders in memory

A folder with text files and further folders in it, so that the program can run without a disk.
A file is known by the parts of its path; every beginning of such a path is a folder.
-/

set_option autoImplicit false

namespace ApprovalWorkflow

/-- A folder with everything in it. -/
structure Folder where
  /-- The files, by the parts of their paths. -/
  files : List (List (List Char) × String)
  /-- Folders that have been made, besides those in which there is a file. -/
  made : List (List (List Char))
deriving Repr

namespace Folder

/-- A folder with nothing in it. -/
def empty : Folder := ⟨[], []⟩

/-- The text of the file with these parts. -/
def text? (d : Folder) (parts : List (List Char)) : Option String := d.files.lookup parts

/-- Whether there is a folder with these parts. -/
def hasFolder (d : Folder) (parts : List (List Char)) : Bool :=
  parts.isEmpty || (d.files.map Prod.fst ++ d.made).any fun p => parts.isPrefixOf p
    && (d.text? parts).isNone

/-- Whether a file stands in the way of these parts. -/
def isBlocked (d : Folder) (parts : List (List Char)) : Bool :=
  d.files.any fun f => f.1.isPrefixOf parts && f.1 ≠ parts

/-- Reads a file. -/
def read (d : Folder) (path : String) : Reading :=
  let parts := Path.parts path
  if path = "" then .error .missing
  else if d.isBlocked parts then .error .notFolder
  else
    match d.text? parts with
    | some text => if Path.namesFolder path then .error .notFolder else .ok text
    | none => if d.hasFolder parts then .error .isFolder else .error .missing

/-- Makes a folder with all folders around it. -/
def make (d : Folder) (parts : List (List Char)) : Except FileProblem Folder :=
  if d.isBlocked parts then .error .notFolder
  else if (d.text? parts).isSome then .error .alreadyThere
  else .ok { d with made := parts :: d.made }

/-- Puts a file at its place. -/
def put (d : Folder) (parts : List (List Char)) (text : String) : Folder :=
  { d with files := (parts, text) :: d.files.filter fun f => f.1 ≠ parts }

/-- Writes a file, and makes the folder around it if need be. Nothing is written on an error. -/
def write (d : Folder) (path text : String) : Except FileProblem Folder := do
  let parts := Path.parts path
  if parts = [] then .error (if path = "" then .missing else .isFolder)
  else
    let around ← d.make parts.dropLast
    if Path.namesFolder path then
      .error (if (around.text? parts).isSome then .notFolder else .isFolder)
    else if around.hasFolder parts then .error .isFolder
    else .ok (around.put parts text)

end Folder

end ApprovalWorkflow
