import ApprovalWorkflow.Document.Basic
import ApprovalWorkflow.Number.Literal

/-!
# Scalars without quotes

What a YAML scalar without quotes stands for when any value is wanted: null, a boolean, an
integer, a number, or else the text itself. Digits after a leading zero are no number, and the
words for infinity and for the absence of a number have no JSON value and become null
(`plainJson`).
-/

set_option autoImplicit false

namespace ApprovalWorkflow.Doc

open ApprovalWorkflow.Text (isDigit digitsValue)

-- powers are those of the core library, whatever else is imported
attribute [local instance (2000)] instPowNat

/-- The words for the absence of a value. -/
def isNullWord (s : String) : Bool :=
  s == "null" || s == "Null" || s == "NULL" || s == "~"

/-- The boolean that a word stands for. -/
def boolWord? (s : String) : Option Bool :=
  if s == "true" || s == "True" || s == "TRUE" then some true
  else if s == "false" || s == "False" || s == "FALSE" then some false
  else none

/-- The value of a digit in one of the usual bases. -/
def baseDigit? (base : Nat) (c : Char) : Option Nat :=
  (Text.hexValue? c).bind fun n => if n < base then some n else none

/-- The number that a run of at least one digit denotes in a base. -/
def inBase? (base : Nat) (cs : List Char) : Option Nat :=
  if cs = [] then none
  else cs.foldl (fun n c => n.bind fun n => (baseDigit? base c).map (base * n + ·)) (some 0)

/-- A sign in front is taken off. -/
def withoutSign : List Char → List Char
  | '-' :: cs => cs
  | '+' :: cs => cs
  | cs => cs

/-- Digits with a needless zero in front, which do not stand for a number. -/
def isPaddedDigits (cs : List Char) : Bool :=
  match withoutSign cs with
  | '0' :: c :: rest => (c :: rest).all isDigit
  | _ => false

/-- The digits behind the mark of a base, read in that base. -/
def marked? : List Char → Option Nat
  | '0' :: 'x' :: cs => inBase? 16 cs
  | '0' :: 'o' :: cs => inBase? 8 cs
  | '0' :: 'b' :: cs => inBase? 2 cs
  | _ => none

/-- An integer without a minus sign. -/
def natural? (cs : List Char) : Option Nat :=
  let bare := match cs with
    | '+' :: rest => rest
    | rest => rest
  match marked? bare with
  | some n => some n
  | none => if isPaddedDigits cs then none else inBase? 10 bare

/-- An integer of a scalar without quotes. -/
def integer? (cs : List Char) : Option Int :=
  match natural? cs with
  | some n => some n
  | none =>
    match cs with
    | '-' :: rest =>
      match marked? rest with
      | some n => some (-(n : Int))
      | none => if isPaddedDigits cs then none else (inBase? 10 rest).map fun n => -(n : Int)
    | _ => none

/-- The name of a word for infinity or for the absence of a number. -/
def specialNumber? (s : String) : Option String :=
  if [".inf", ".Inf", ".INF", "+.inf", "+.Inf", "+.INF"].contains s then some "inf"
  else if ["-.inf", "-.Inf", "-.INF"].contains s then some "-inf"
  else if [".nan", ".NaN", ".NAN"].contains s then some "NaN"
  else none

/-- A number with a point or an exponent. -/
def fraction? (cs : List Char) : Option Binary64 :=
  if isPaddedDigits cs then none
  else
    match cs with
    | '+' :: '+' :: _ => none
    | '+' :: '-' :: _ => none
    | cs => Binary64.ofText? cs

/-- The kinds of scalars without quotes. -/
inductive PlainScalar where
  | null
  | bool (value : Bool)
  | int (value : Int)
  | number (value : Binary64)
  | special (name : String)
  | text
deriving DecidableEq, Repr

/-- What a scalar without quotes stands for when any value is wanted. Integers of more than 128
bits are read as numbers. -/
def plainScalar (s : String) : PlainScalar :=
  if s == "" || isNullWord s then .null
  else
    match boolWord? s with
    | some b => .bool b
    | none =>
      let cs := s.toList
      let otherwise : PlainScalar :=
        match specialNumber? s with
        | some name => .special name
        | none =>
          match fraction? cs with
          | some x => .number x
          | none => .text
      match integer? cs with
      | some i => if -(2 ^ (127 : Nat) : Int) ≤ i ∧ i < 2 ^ (128 : Nat) then .int i else otherwise
      | none => otherwise

/-- Whether an integer fits into 64 bits, with a sign or without. -/
def fits64 (i : Int) : Bool := -(2 ^ (63 : Nat) : Int) ≤ i && i < 2 ^ (64 : Nat)

/-- The kind of a scalar without quotes, where something else was wanted. -/
def plainFound (s : String) : Found :=
  match plainScalar s with
  | .null => .null
  | .bool b => .bool b
  | .int i => if fits64 i then .num (.int i) else .wideInt i
  | .number x => .num (.float x)
  | .special name => .special name
  | .text => .str s

/-- The JSON value of a scalar without quotes. What is no number of JSON becomes null, and a wide
integer is no value. -/
def plainJson (s : String) : Except DecodeError Json :=
  match plainScalar s with
  | .null => .ok .null
  | .bool b => .ok (.bool b)
  | .int i =>
    if fits64 i then .ok (.num (.int i))
    else .error (.invalidType (.wideInt i) "any valid JSON value")
  | .number x => .ok (.num (.float x))
  | .special _ => .ok .null
  | .text => .ok (.str s)

end ApprovalWorkflow.Doc
