import ApprovalWorkflow.Number.Literal
import ApprovalWorkflow.Json.Basic

/-!
# Guard expressions

A guard is a disjunction of conjunctions. Each conjunct is an atom behind any number of
negations, and an atom compares two terms or is one term. The text of a guard is cut at every
`||` first, then at every `&&`, and a comparison is cut at the first operator of the search
order `==`, `!=`, `>=`, `<=`, `>`, `<` that occurs anywhere in it. Quotes protect nothing from
being cut.

Every text is a guard (`Condition.ofString`); a blank part is an atom of its own, which fails
when it is evaluated.
-/

set_option autoImplicit false

namespace ApprovalWorkflow

/-- A term of a guard. -/
inductive Term where
  | null
  | bool (value : Bool)
  | number (value : Binary64)
  | text (value : String)
  /-- A reference to the input, or to a field of what a step has given out. -/
  | reference (name : String)
deriving DecidableEq, Repr

/-- How two terms are compared. -/
inductive Comparator where
  | eq
  | ne
  | ge
  | le
  | gt
  | lt
deriving DecidableEq, Repr

namespace Comparator

/-- The operators in the order in which they are searched for: two characters before one. -/
def searchOrder : List Comparator := [.eq, .ne, .ge, .le, .gt, .lt]

/-- The operator of a comparison. -/
def symbol : Comparator → List Char
  | .eq => ['=', '=']
  | .ne => ['!', '=']
  | .ge => ['>', '=']
  | .le => ['<', '=']
  | .gt => ['>']
  | .lt => ['<']

end Comparator

/-- A part of a guard without negations and connectives. -/
inductive Atom where
  /-- Nothing is written. -/
  | blank
  | comparison (op : Comparator) (left right : Term)
  | truth (term : Term)
deriving DecidableEq, Repr

/-- An atom behind a number of negations. -/
structure Conjunct where
  negations : Nat
  atom : Atom
deriving DecidableEq, Repr

/-- A guard: one of the lists has to hold throughout. -/
abbrev Condition := List (List Conjunct)

namespace Term

/-- The number that a text denotes, if it begins like one. -/
def number? (cs : List Char) : Option Binary64 :=
  match cs with
  | [] => none
  | c :: _ =>
    if Text.isDigit c || c == '-' || c == '+' || c == '.' then Binary64.ofText? cs else none

/-- The text between the quotes around it. -/
def unquoted? : List Char → Option (List Char)
  | '"' :: rest => if rest.getLast? = some '"' then some rest.dropLast else none
  | _ => none

/-- The name between the braces of a reference. -/
def referenceName? : List Char → Option (List Char)
  | '$' :: '{' :: rest =>
    if rest.getLast? = some '}' then some (Text.trimChars rest.dropLast) else none
  | _ => none

/-- The term that a text between blanks stands for: a quoted text, a word, a number, a
reference, and otherwise the text itself. -/
def ofChars (cs : List Char) : Term :=
  let cs := Text.trimChars cs
  match unquoted? cs with
  | some inner => .text (String.ofList inner)
  | none =>
    if cs = ['t', 'r', 'u', 'e'] then .bool true
    else if cs = ['f', 'a', 'l', 's', 'e'] then .bool false
    else if cs = ['n', 'u', 'l', 'l'] then .null
    else
      match number? cs with
      | some x => .number x
      | none =>
        match referenceName? cs with
        | some name => .reference (String.ofList name)
        | none => .text (String.ofList cs)

end Term

namespace Atom

/-- The comparison at the first of some operators that occurs in the text. -/
def comparison? (cs : List Char) : List Comparator → Option Atom
  | [] => none
  | op :: ops =>
    match Text.cut? op.symbol cs with
    | some (left, right) => some (.comparison op (.ofChars left) (.ofChars right))
    | none => comparison? cs ops

/-- The atom that a text between blanks stands for. -/
def ofChars (cs : List Char) : Atom :=
  let cs := Text.trimChars cs
  if cs = [] then .blank
  else (comparison? cs Comparator.searchOrder).getD (.truth (.ofChars cs))

end Atom

namespace Conjunct

/-- Counts the exclamation marks in front, between blanks, and gives the rest. One that begins
the operator of an inequality is no negation. -/
def stripNegations : List Char → Nat × List Char
  | [] => (0, [])
  | c :: cs =>
    if c = '!' then
      match cs with
      | '=' :: _ => (0, c :: cs)
      | _ =>
        let (n, rest) := stripNegations cs
        (n + 1, rest)
    else if Text.isBlank c then stripNegations cs
    else (0, c :: cs)

/-- The conjunct that a text stands for. -/
def ofChars (cs : List Char) : Conjunct :=
  let (n, rest) := stripNegations cs
  ⟨n, .ofChars rest⟩

end Conjunct

namespace Condition

/-- The guard that a text stands for. -/
def ofChars (cs : List Char) : Condition :=
  (Text.splitAtDouble '|' cs).map fun part =>
    (Text.splitAtDouble '&' part).map Conjunct.ofChars

/-- The guard that a string stands for. -/
def ofString (s : String) : Condition := ofChars s.toList

end Condition

end ApprovalWorkflow
