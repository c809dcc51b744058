import ApprovalWorkflow.Condition.Basic
import ApprovalWorkflow.Json.Printer
import ApprovalWorkflow.Log
import ApprovalWorkflow.Task

/-!
# What a guard says

A guard is evaluated on the input of an instance and on its tasks so far. Connectives are read
from the left and stop at the first part that decides, or that fails. Terms are equal when
their texts are the same; the other comparisons are between numbers and fail for anything else.
The engine takes a guard that fails for one that does not hold (`Condition.holds`).
-/

set_option autoImplicit false

namespace ApprovalWorkflow

/-- Why a guard could not be evaluated. -/
inductive ConditionError where
  | empty
  | notNumeric (operand : String)
deriving DecidableEq, Repr

/-- The wording of an error. -/
def ConditionError.message : ConditionError → String
  | .empty => "empty expression"
  | .notNumeric operand => "operand '" ++ operand ++ "' is not numeric"

/-- What a guard can refer to. -/
structure Surroundings where
  input : Json
  tasks : List Task
deriving Repr

namespace Surroundings

/-- The task of a key that was finished last; of several the last one in the list. -/
def latest? (key : String) : List Task → Option Task
  | [] => none
  | t :: tasks =>
    match latest? key tasks with
    | some u => if t.key = key ∧ ¬ t.finishedBefore u then some t else some u
    | none => if t.key = key then some t else none

/-- What the task of a key has given out. A text counts as the JSON value that it holds. -/
def output? (s : Surroundings) (key : String) : Option Json :=
  match latest? key s.tasks with
  | none => none
  | some t =>
    match t.output with
    | .str text => Json.ofText? text
    | v => some v

/-- The value of a name: a field of what a step has given out, if there is a point in it and
the step has given out something, and otherwise an entry of the input. -/
def lookup (s : Surroundings) (name : String) : Json :=
  let ofInput := (s.input.get? name).getD .null
  match Text.cut? ['.'] name.toList with
  | none => ofInput
  | some (key, field) =>
    match s.output? (String.ofList key) with
    | some v => (v.get? (String.ofList field)).getD .null
    | none => ofInput

/-- The value of a term. -/
def value (s : Surroundings) : Term → Json
  | .null => .null
  | .bool b => .bool b
  | .number x => .num (.float x)
  | .text t => .str t
  | .reference name => s.lookup name

end Surroundings

namespace Condition

/-- The text by which a value is compared. Numbers are written without an exponent. -/
def comparedText : Json → String
  | .null => "null"
  | .bool b => if b then "true" else "false"
  | .num n => String.ofList n.toBinary64.plain
  | .str s => s
  | v => v.compact

/-- A value as a number. -/
def number (v : Json) : Except ConditionError Binary64 :=
  match v with
  | .num n => .ok n.toBinary64
  | .str s =>
    match Term.number? (Text.trimChars s.toList) with
    | some x => .ok x
    | none => .error (.notNumeric s)
  | v => .error (.notNumeric (comparedText v))

/-- Whether a value alone counts as true. -/
def isTrue : Json → Bool
  | .null => false
  | .bool b => b
  | .num n => !n.toBinary64.isZero
  | .str s => !(s == "" || s == "false" || s == "0")
  | _ => true

/-- Compares two numbers. -/
def compareNumbers (op : Comparator) (x y : Binary64) : Bool :=
  match op with
  | .ge => y.le x
  | .le => x.le y
  | .gt => y.lt x
  | .lt => x.lt y
  | .eq => x == y
  | .ne => x != y

/-- Compares two values. -/
def compare (op : Comparator) (left right : Json) : Except ConditionError Bool :=
  match op with
  | .eq => .ok (comparedText left == comparedText right)
  | .ne => .ok (comparedText left != comparedText right)
  | op => do
    let x ← number left
    let y ← number right
    .ok (compareNumbers op x y)

/-- What an atom says. -/
def evaluateAtom (s : Surroundings) : Atom → Except ConditionError Bool
  | .blank => .error .empty
  | .comparison op left right => compare op (s.value left) (s.value right)
  | .truth t => .ok (isTrue (s.value t))

/-- What a conjunct says: every negation turns the answer around. -/
def evaluateConjunct (s : Surroundings) (c : Conjunct) : Except ConditionError Bool :=
  (evaluateAtom s c.atom).map fun b => b ^^ (c.negations % 2 == 1)

/-- A conjunction: the first part that is false or fails decides. -/
def evaluateAll (s : Surroundings) : List Conjunct → Except ConditionError Bool
  | [] => .ok true
  | c :: cs =>
    match evaluateConjunct s c with
    | .ok true => evaluateAll s cs
    | .ok false => .ok false
    | .error e => .error e

/-- A disjunction: the first part that is true or fails decides. -/
def evaluateAny (s : Surroundings) : List (List Conjunct) → Except ConditionError Bool
  | [] => .ok false
  | cs :: rest =>
    match evaluateAll s cs with
    | .ok true => .ok true
    | .ok false => evaluateAny s rest
    | .error e => .error e

/-- What the guard with a text says. -/
def evaluate (s : Surroundings) (text : String) : Except ConditionError Bool :=
  evaluateAny s (ofString text)

/-- Whether the guard with a text holds; one that fails does not, and a warning says so. -/
def holds (s : Surroundings) (text : String) : Logged Bool :=
  match evaluate s text with
  | .ok b => pure b
  | .error e =>
    ⟨false, [⟨.warn, "Condition '" ++ text ++ "' could not be evaluated (" ++ e.message
      ++ "); treating as false"⟩]⟩

end Condition

end ApprovalWorkflow
