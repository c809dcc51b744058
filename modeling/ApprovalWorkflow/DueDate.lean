import ApprovalWorkflow.Timestamp

/-!
# Due dates

The timeout of a step is a positive number of seconds, or a text of a positive number and a
unit. Whatever is no such timeout, or lies beyond the last time that can be written, gives no
due date.
-/

set_option autoImplicit false

namespace ApprovalWorkflow

-- powers are those of the core library, whatever else is imported
attribute [local instance (2000)] instPowNat

namespace Timeout

/-- The most seconds that a timeout may last: those of `2 ^ 63 - 1` milliseconds. -/
def maxSeconds : Nat := 9223372036854775

/-- The seconds of a unit. -/
def unit? : List Char → Option Nat
  | [] => some 1
  | ['s'] => some 1
  | ['m'] => some 60
  | ['h'] => some 3600
  | ['d'] => some 86400
  | _ => none

/-- A number of units as seconds, if it is positive, has at most 63 bits and does not last too
long. -/
def seconds? (amount unit : Nat) : Option Nat :=
  if 0 < amount ∧ amount < 2 ^ (63 : Nat) ∧ amount * unit ≤ maxSeconds then some (amount * unit)
  else none

/-- The seconds of a text of digits and a unit. -/
def ofChars? (cs : List Char) : Option Nat :=
  let cs := Text.trimChars cs
  let digits := cs.takeWhile Text.isDigit
  if digits = [] then none
  else (unit? (cs.dropWhile Text.isDigit)).bind (seconds? (Text.digitsValue digits))

/-- The seconds of a timeout. -/
def ofJson? : Json → Option Nat
  | .num (.int i) => if 0 < i then seconds? i.toNat 1 else none
  | .str s => ofChars? s.toList
  | _ => none

end Timeout

/-- The time at which a timeout from a time on is over. -/
def dueDate? (start : Timestamp) (timeout : Json) : Option Timestamp :=
  (Timeout.ofJson? timeout).bind start.addSeconds?

end ApprovalWorkflow
