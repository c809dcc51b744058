import ApprovalWorkflow.Text.Blank

/-!
# Searching and splitting text

The first occurrence of a pattern, splitting at a character or at a doubled character, and
the texts that begin with a given one. All of it works on lists of characters, so that each
function is a structural recursion; `joinWith` is the inverse of the splitters.
-/

set_option autoImplicit false

namespace ApprovalWorkflow.Text

/-- The text after `start`, if the text begins with `start`. -/
def after? (start : List Char) (cs : List Char) : Option (List Char) :=
  start.isPrefixOf? cs

/-- What stands before and after the first occurrence of `pattern`. -/
def cut? (pattern : List Char) : List Char → Option (List Char × List Char)
  | [] => (after? pattern []).map ([], ·)
  | c :: cs =>
    match after? pattern (c :: cs) with
    | some rest => some ([], rest)
    | none => (cut? pattern cs).map fun (before, rest) => (c :: before, rest)

/-- The pieces between the occurrences of `sep`; there is always at least one. -/
def splitAt (sep : Char) : List Char → List (List Char)
  | [] => [[]]
  | c :: cs =>
    if c = sep then [] :: splitAt sep cs
    else
      match splitAt sep cs with
      | [] => [[c]]
      | piece :: pieces => (c :: piece) :: pieces

/-- The pieces between the occurrences of the doubled character `sep sep`, found from the
left; there is always at least one. -/
def splitAtDouble (sep : Char) : List Char → List (List Char)
  | [] => [[]]
  | [c] => [[c]]
  | c :: d :: cs =>
    if c = sep ∧ d = sep then [] :: splitAtDouble sep cs
    else
      match splitAtDouble sep (d :: cs) with
      | [] => [[c]]
      | piece :: pieces => (c :: piece) :: pieces

/-- The pieces with `sep` between neighbours. -/
def joinWith (sep : List Char) : List (List Char) → List Char
  | [] => []
  | [piece] => piece
  | piece :: pieces => piece ++ sep ++ joinWith sep pieces

/-- The strings with `sep` between neighbours. -/
def joinStrings (sep : String) : List String → String
  | [] => ""
  | [s] => s
  | s :: rest => s ++ sep ++ joinStrings sep rest

/-- A decimal digit of ASCII. -/
def isDigit (c : Char) : Bool :=
  '0' ≤ c && c ≤ '9'

/-- The value of a decimal digit. -/
def digitValue (c : Char) : Nat :=
  c.toNat - 48

/-- The number that a run of decimal digits denotes. -/
def digitsValue (cs : List Char) : Nat :=
  cs.foldl (fun n c => 10 * n + digitValue c) 0

/-- The value of a hexadecimal digit, of either case. -/
def hexValue? (c : Char) : Option Nat :=
  if '0' ≤ c ∧ c ≤ '9' then some (c.toNat - 48)
  else if 'a' ≤ c ∧ c ≤ 'f' then some (c.toNat - 87)
  else if 'A' ≤ c ∧ c ≤ 'F' then some (c.toNat - 55)
  else none

/-- The number that hexadecimal digits denote; nothing if one of them is no such digit. -/
def hexNumber? (cs : List Char) : Option Nat :=
  cs.foldl (fun n c => n.bind fun n => (hexValue? c).map (16 * n + ·)) (some 0)

/-- A hexadecimal digit in lower case. -/
def hexDigit (n : Nat) : Char :=
  if n < 10 then Char.ofNat (48 + n) else Char.ofNat (87 + n)

/-- The last `width` hexadecimal digits of a number. -/
def hexDigits : Nat → Nat → List Char
  | 0, _ => []
  | width + 1, n => hexDigits width (n / 16) ++ [hexDigit (n % 16)]

/-- The decimal digits of a natural number. -/
def decimal (n : Nat) : List Char :=
  if n < 10 then [Char.ofNat (48 + n)] else decimal (n / 10) ++ [Char.ofNat (48 + n % 10)]
termination_by n
decreasing_by exact Nat.div_lt_self (by omega) (by omega)

/-- The decimal digits of an integer, with a minus sign in front of a negative one. -/
def decimalInt (i : Int) : List Char :=
  if i < 0 then '-' :: decimal i.natAbs else decimal i.natAbs

/-- The decimal digits of `n`, with zeros in front up to `width` digits. -/
def decimalPadded (width n : Nat) : List Char :=
  let ds := decimal n
  List.replicate (width - ds.length) '0' ++ ds

/-- An ASCII capital becomes a small letter; every other character stays. -/
def lowerAscii (c : Char) : Char :=
  if 'A' ≤ c ∧ c ≤ 'Z' then Char.ofNat (c.toNat + 32) else c

/-- An ASCII small letter becomes a capital; every other character stays. -/
def upperAscii (c : Char) : Char :=
  if 'a' ≤ c ∧ c ≤ 'z' then Char.ofNat (c.toNat - 32) else c

/-- A string with its ASCII capitals made small. -/
def lowerAsciiString (s : String) : String :=
  String.ofList (s.toList.map lowerAscii)

/-- The string is followed by spaces up to `width` characters; a longer one stays. -/
def padEnd (width : Nat) (s : String) : String :=
  s ++ String.ofList (List.replicate (width - s.length) ' ')

/-- A text begins with the letter with which its first part begins. -/
theorem head?_append {text : String} {letter : Char} (h : text.toList.head? = some letter)
    (rest : String) : (text ++ rest).toList.head? = some letter := by
  rw [String.toList_append, List.head?_append, h, Option.some_or]

end ApprovalWorkflow.Text
