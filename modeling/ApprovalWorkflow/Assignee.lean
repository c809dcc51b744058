import ApprovalWorkflow.Json.Printer

/-!
# Assignees that depend on the input

The assignee of a step is a template: `${name}` in it stands for an entry of the input of the
instance. A template is cut into characters and references once, so that what an entry holds
is never looked at for further references.
-/

set_option autoImplicit false

namespace ApprovalWorkflow

/-- A piece of a template. -/
inductive TemplatePiece where
  | character (value : Char)
  | reference (name : String)
deriving DecidableEq, Repr

namespace TemplatePiece

/-- The pieces of a text. Inside a reference the first argument holds the characters of its name
so far, the last one first; a reference without an end makes the text no template. -/
def scan? : Option (List Char) → List Char → Option (List TemplatePiece)
  | none, [] => some []
  | some _, [] => none
  | some name, c :: cs =>
    if c = '}' then
      (scan? none cs).map (.reference (String.ofList (Text.trimChars name.reverse)) :: ·)
    else scan? (some (c :: name)) cs
  | none, '$' :: '{' :: cs => scan? (some []) cs
  | none, c :: cs => (scan? none cs).map (.character c :: ·)

/-- What a piece stands for; nothing if the input has no such entry, or a null there. -/
def fill? (input : Json) : TemplatePiece → Option (List Char)
  | .character c => some [c]
  | .reference name =>
    match input.get? name with
    | none => none
    | some .null => none
    | some (.str s) => some s.toList
    | some v => some v.compactChars

/-- What all pieces stand for. -/
def fillAll? (input : Json) : List TemplatePiece → Option (List Char)
  | [] => some []
  | p :: pieces =>
    match p.fill? input with
    | none => none
    | some cs => (fillAll? input pieces).map (cs ++ ·)

end TemplatePiece

/-- The assignee that a template stands for: trimmed, and nobody if that leaves nothing. -/
def resolveAssignee (template : String) (input : Json) : Option String :=
  match (TemplatePiece.scan? none template.toList).bind (TemplatePiece.fillAll? input) with
  | none => none
  | some cs =>
    let name := Text.trimChars cs
    if name = [] then none else some (String.ofList name)

end ApprovalWorkflow
