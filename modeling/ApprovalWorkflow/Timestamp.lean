import ApprovalWorkflow.Calendar
import ApprovalWorkflow.Document.Decode

/-!
# Points in time

A time is a second of the UTC time scale and a number of nanoseconds in it; in a leap second
the nanoseconds run on to two thousand million. Times are ordered by second and nanosecond,
written in RFC 3339 with the fewest fraction digits out of 0, 3, 6 and 9, and read from RFC 3339
in a generous way: blanks between the parts, single digits and a space in place of the `T` are
accepted.
-/

set_option autoImplicit false

namespace ApprovalWorkflow

-- powers are those of the core library, whatever else is imported
attribute [local instance (2000)] instPowNat

/-- A point in time. Seconds are counted from 1970-01-01T00:00:00Z. -/
structure Timestamp where
  seconds : Int
  nanos : Nat
deriving DecidableEq, Repr, Inhabited

namespace Timestamp

open ApprovalWorkflow.Text (isDigit digitsValue decimal decimalPadded)

/-- The order of time. -/
def le (a b : Timestamp) : Bool :=
  a.seconds < b.seconds || (a.seconds == b.seconds && a.nanos ≤ b.nanos)

/-- The strict order of time. -/
def lt (a b : Timestamp) : Bool := !b.le a

/-- The first year and the last one that a time may lie in. -/
def yearRange : Int × Int := (-262143, 262142)

/-- Whether the calendar of times has the year. -/
def inRange (year : Int) : Bool :=
  yearRange.1 ≤ year && year ≤ yearRange.2

/-- The first second after the last year of the range. -/
def endSeconds : Int := (Date.daysBeforeYear (yearRange.2 + 1) - Date.epoch) * 86400

/-- The first second of the first year of the range. -/
def startSeconds : Int := (Date.daysBeforeYear yearRange.1 - Date.epoch) * 86400

/-- The time so many nanoseconds later, or earlier for a negative number. -/
def addNanos (t : Timestamp) (n : Int) : Timestamp :=
  let total := (t.nanos : Int) + n
  ⟨t.seconds + total / 1000000000, (total % 1000000000).toNat⟩

/-- The time so many seconds later, if it lies in the range. After a second or more a leap second
is over. -/
def addSeconds? (t : Timestamp) (n : Nat) : Option Timestamp :=
  if t.seconds + n < endSeconds then
    some ⟨t.seconds + n, if n = 0 then t.nanos else t.nanos % 1000000000⟩
  else none

/-- A year of four digits has no sign; all others have one and at least four digits. -/
def yearChars (year : Int) : List Char :=
  if 0 ≤ year ∧ year ≤ 9999 then decimalPadded 4 year.natAbs
  else (if year < 0 then '-' else '+') :: decimalPadded 4 year.natAbs

/-- A fraction of a second, in as many groups of three digits as it needs. -/
def fractionChars (nanos : Nat) : List Char :=
  if nanos = 0 then []
  else if nanos % 1000000 = 0 then '.' :: decimalPadded 3 (nanos / 1000000)
  else if nanos % 1000 = 0 then '.' :: decimalPadded 6 (nanos / 1000)
  else '.' :: decimalPadded 9 nanos

/-- Whether a time lies in a leap second, as a number. -/
def leap (t : Timestamp) : Nat := if t.nanos < 1000000000 then 0 else 1

/-- The date of a time. -/
def dateChars (t : Timestamp) : List Char :=
  let date := Date.ofDays (t.seconds / 86400)
  yearChars date.year ++ '-' :: decimalPadded 2 date.month ++ '-' :: decimalPadded 2 date.day

/-- The time of day up to the seconds. -/
def clockChars (t : Timestamp) : List Char :=
  let second := (t.seconds % 86400).toNat
  decimalPadded 2 (second / 3600) ++ ':' :: decimalPadded 2 (second / 60 % 60)
    ++ ':' :: decimalPadded 2 (second % 60 + t.leap)

/-- The text of a time. -/
def chars (t : Timestamp) : List Char :=
  t.dateChars ++ 'T' :: t.clockChars ++ fractionChars (t.nanos - t.leap * 1000000000) ++ ['Z']

/-- The text of a time. -/
def toString (t : Timestamp) : String := String.ofList t.chars

/-- The date and the time of day, for people to read. -/
def toLine (t : Timestamp) : String := String.ofList (t.dateChars ++ ' ' :: t.clockChars)

/-- The value of a time. -/
def toJson (t : Timestamp) : Json := .str t.toString

/-- A run of one digit or more, but not more than `most`. -/
def number? (most : Nat) (cs : List Char) : Option (Nat × List Char) :=
  let ds := (cs.take most).takeWhile isDigit
  if ds = [] then none else some (digitsValue ds, cs.drop ds.length)

/-- A number after optional blanks. -/
def spacedNumber? (most : Nat) (cs : List Char) : Option (Nat × List Char) :=
  number? most (Text.trimStart cs)

/-- A year after optional blanks: four digits at most, or any number behind a sign. -/
def year? (cs : List Char) : Option (Int × List Char) :=
  match Text.trimStart cs with
  | '-' :: rest => (number? rest.length rest).map fun (n, rest) => (-(n : Int), rest)
  | '+' :: rest => (number? rest.length rest).map fun (n, rest) => ((n : Int), rest)
  | rest => (number? 4 rest).map fun (n, rest) => ((n : Int), rest)

/-- A character that has to stand here, after optional blanks. -/
def mark? (c : Char) (cs : List Char) : Option (List Char) :=
  match Text.trimStart cs with
  | d :: rest => if d = c then some rest else none
  | [] => none

/-- The nanoseconds of a fraction; digits after the ninth are passed over. -/
def fraction? : List Char → Option (Nat × List Char)
  | '.' :: cs =>
    let ds := (cs.take 9).takeWhile isDigit
    if ds = [] then none
    else some (digitsValue ds * 10 ^ (9 - ds.length), (cs.drop ds.length).dropWhile isDigit)
  | cs => some (0, cs)

/-- The seconds of an offset in hours and minutes, and the text behind it. -/
def hoursMinutes? : List Char → Option (Nat × List Char)
  | a :: b :: rest =>
    if isDigit a ∧ isDigit b then
      match rest.dropWhile (fun c => c == ':' || Text.isBlank c) with
      | c :: d :: rest =>
        if '0' ≤ c ∧ c ≤ '5' ∧ isDigit d then
          some (digitsValue [a, b] * 3600 + digitsValue [c, d] * 60, rest)
        else none
      | _ => none
    else none
  | _ => none

/-- An offset from UTC: `Z`, `UTC`, or a sign with hours and minutes. -/
def offset? (cs : List Char) : Option (Int × List Char) :=
  match Text.trimStart cs with
  | 'Z' :: rest => some (0, rest)
  | 'z' :: rest => some (0, rest)
  | '+' :: rest => (hoursMinutes? rest).map fun (n, rest) => ((n : Int), rest)
  | '-' :: rest => (hoursMinutes? rest).map fun (n, rest) => (-(n : Int), rest)
  | '−' :: rest => (hoursMinutes? rest).map fun (n, rest) => (-(n : Int), rest)
  | a :: b :: c :: rest =>
    if Text.lowerAscii a = 'u' ∧ Text.lowerAscii b = 't' ∧ Text.lowerAscii c = 'c' then
      some (0, rest)
    else none
  | _ => none

/-- The time of a date and a time of day at an offset from UTC. Second 60 is a leap second. -/
def assemble? (date : Date) (hour minute second nanos : Nat) (offset : Int) :
    Option Timestamp :=
  if ¬ inRange date.year ∨ ¬ date.isValid ∨ 23 < hour ∨ 59 < minute ∨ 60 < second
      ∨ 86400 ≤ offset.natAbs then none
  else
    let (second, nanos) := if second = 60 then (59, nanos + 1000000000) else (second, nanos)
    let seconds := date.toDays * 86400 + (hour * 3600 + minute * 60 + second : Nat) - offset
    if startSeconds ≤ seconds ∧ seconds < endSeconds then some ⟨seconds, nanos⟩ else none

/-- The time that a text stands for. -/
def ofChars? (cs : List Char) : Option Timestamp := do
  let (year, cs) ← year? cs
  let cs ← mark? '-' cs
  let (month, cs) ← spacedNumber? 2 cs
  let cs ← mark? '-' cs
  let (day, cs) ← spacedNumber? 2 cs
  let cs ← match cs with
    | 'T' :: rest => some rest
    | 't' :: rest => some rest
    | ' ' :: rest => some rest
    | _ => none
  let (hour, cs) ← spacedNumber? 2 cs
  let cs ← mark? ':' cs
  let (minute, cs) ← spacedNumber? 2 cs
  let cs ← mark? ':' cs
  let (second, cs) ← spacedNumber? 2 cs
  let (nanos, cs) ← fraction? cs
  let (offset, cs) ← offset? cs
  if (Text.trimStart cs).isEmpty then
    assemble? ⟨year, month, day⟩ hour minute second nanos offset
  else none

/-- The time that a string stands for. -/
def ofString? (s : String) : Option Timestamp := ofChars? s.toList

/-- A time, written as a string. -/
def decode : Decoder Timestamp := fun _ _ d =>
  let named (s : String) : Decoded Timestamp :=
    match ofString? s with
    | some t => .ok t
    | none => .error .badTime
  match d with
  | .str s => named s
  | .plain s => named s
  | d => d.mismatch "an RFC 3339 formatted date and time string"

/-- The order of optional times: no time comes before every time. -/
def leOptional : Option Timestamp → Option Timestamp → Bool
  | none, _ => true
  | some _, none => false
  | some a, some b => a.le b

end Timestamp

end ApprovalWorkflow
