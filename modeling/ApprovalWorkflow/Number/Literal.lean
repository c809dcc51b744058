import ApprovalWorkflow.Text.Search
import ApprovalWorkflow.Number.Binary64

/-!
# Numbers written in decimal

Two ways of reading a decimal number. `ofText?` takes a whole text, with an optional sign,
digits around an optional point and an optional exponent, and gives the nearest number.
`Scaled.toBinary64?` is the reading of JSON numbers: the significand of at most 64 bits is
rounded first, and then multiplied or divided once by a rounded power of ten, so that long
literals may be off by one unit in the last place.
-/

set_option autoImplicit false

namespace ApprovalWorkflow

open ApprovalWorkflow.Text (isDigit digitsValue digitValue)

-- powers are those of the core library, whatever else is imported
attribute [local instance (2000)] instPowNat

namespace Binary64

/-- Cuts the exponent part off a decimal literal: what follows an `e` or `E` must be digits
with an optional sign. -/
def exponentOf? : List Char → Option Int
  | [] => some 0
  | c :: cs =>
    if c = 'e' ∨ c = 'E' then
      match cs with
      | '-' :: ds => if ds ≠ [] ∧ ds.all isDigit then some (-(digitsValue ds : Int)) else none
      | '+' :: ds => if ds ≠ [] ∧ ds.all isDigit then some (digitsValue ds) else none
      | ds => if ds ≠ [] ∧ ds.all isDigit then some (digitsValue ds) else none
    else none

/-- The number nearest to an unsigned decimal literal; nothing for another text or for a
number beyond the range. -/
def ofUnsigned? (negative : Bool) (cs : List Char) : Option Binary64 :=
  let whole := cs.takeWhile isDigit
  let rest := cs.dropWhile isDigit
  let (places, rest) :=
    match rest with
    | '.' :: r => (r.takeWhile isDigit, r.dropWhile isDigit)
    | r => ([], r)
  if whole ++ places = [] then none
  else
    (exponentOf? rest).bind fun e =>
      ofDecimal? negative (digitsValue (whole ++ places)) (e - places.length)

/-- The number nearest to a decimal literal with an optional sign. -/
def ofText? : List Char → Option Binary64
  | '-' :: cs => ofUnsigned? true cs
  | '+' :: cs => ofUnsigned? false cs
  | cs => ofUnsigned? false cs

/-- The power of ten `10 ^ k`, rounded to a binary64 number. -/
def powerOfTen (k : Nat) : Binary64 :=
  (ofDecimal? false 1 k).getD (zero false)

/-- A significand times a power of ten, where both the significand and the power are rounded
before the one operation that joins them. Divisors beyond `10 ^ 308` are applied in two
steps. -/
def ofScaled? (negative : Bool) (significand : Nat) (exponent : Int) : Option Binary64 :=
  let f := (round? false significand 1).getD (zero false)
  let signed : Binary64 → Binary64 := fun x => { x with negative := negative }
  if f.isZero then some (zero negative)
  else if 308 < exponent then none
  else if 0 ≤ exponent then (mul? f (powerOfTen exponent.toNat)).map signed
  else if -308 ≤ exponent then (div? f (powerOfTen (-exponent).toNat)).map signed
  else if -616 ≤ exponent then
    (div? f (powerOfTen 308)).bind fun g =>
      (div? g (powerOfTen (-(exponent + 308)).toNat)).map signed
  else some (zero negative)

end Binary64

/-- The parts of a number as it is written in JSON. -/
structure JsonLiteral where
  negative : Bool
  whole : List Char
  /-- The digits after the point, if there is one. -/
  places : Option (List Char)
  /-- The sign and the digits of the exponent, if there is one. -/
  power : Option (Bool × List Char)
deriving DecidableEq, Repr

namespace JsonLiteral

/-- The significand kept to 64 bits, with the count of digits that no longer fit. -/
structure Significand where
  value : Nat
  dropped : Nat
deriving DecidableEq, Repr

/-- Takes in one more digit; once a digit no longer fits, all later ones are only counted. -/
def Significand.push (s : Significand) (c : Char) : Significand :=
  let next := 10 * s.value + digitValue c
  if s.dropped = 0 ∧ next < 2 ^ (64 : Nat) then ⟨next, 0⟩ else ⟨s.value, s.dropped + 1⟩

/-- The significand of a run of digits. -/
def significand (s : Significand) (digits : List Char) : Significand :=
  digits.foldl Significand.push s

/-- Whether the literal denotes an integer that is kept as one: no point, no exponent, in the
range of 64 bits with or without a sign, and not a negative zero. -/
def int? (l : JsonLiteral) : Option Int :=
  if l.places.isSome ∨ l.power.isSome then none
  else
    let n := digitsValue l.whole
    if l.negative then
      if 0 < n ∧ n ≤ 2 ^ (63 : Nat) then some (-(n : Int)) else none
    else if n < 2 ^ (64 : Nat) then some n else none

/-- The literal as a binary64 number; nothing beyond the range. An exponent of more than 31
bits gives zero or is out of range, whatever the digits. -/
def float? (l : JsonLiteral) : Option Binary64 :=
  let whole := significand ⟨0, 0⟩ l.whole
  let places := l.places.getD []
  let all := significand ⟨whole.value, 0⟩ places
  let exponent : Int := (whole.dropped : Int) - (places.length - all.dropped : Nat)
  match l.power with
  | none => Binary64.ofScaled? l.negative all.value exponent
  | some (negativePower, ds) =>
    let power := digitsValue ds
    if 2 ^ (31 : Nat) ≤ power then
      if all.value ≠ 0 ∧ ¬ negativePower then none else some (.zero l.negative)
    else
      Binary64.ofScaled? l.negative all.value
        (if negativePower then exponent - power else exponent + power)

end JsonLiteral

end ApprovalWorkflow
