import ApprovalWorkflow.Text.Search
import ApprovalWorkflow.Number.Binary64

/-!
# The shortest decimal digits of a number

Every finite binary64 number is written with the fewest decimal digits that read back as the
same number. The digits are found on the coarsest decimal grid that holds such a point: of the
two grid points next to the number the nearer one is taken if it reads back, else the other.
Two layouts use these digits: `plain` never has an exponent, `scientific` has one for very
small and very large numbers.
-/

set_option autoImplicit false

namespace ApprovalWorkflow.Binary64

open ApprovalWorkflow.Text (decimal decimalInt)

-- powers are those of the core library, whatever else is imported
attribute [local instance (2000)] instPowNat

/-- Which of two equally near grid points is taken. -/
inductive Tie where
  | toEven
  | up
deriving DecidableEq, Repr

/-- The value `± digits · 10 ^ exponent`. -/
structure Decimal where
  digits : Nat
  exponent : Int
deriving DecidableEq, Repr

/-- The decimal value read back as a binary64 number. -/
def Decimal.toBinary64? (negative : Bool) (d : Decimal) : Option Binary64 :=
  ofDecimal? negative d.digits d.exponent

/-- The number divided by `10 ^ k`, as a fraction without its sign. -/
def overPowerOfTen (x : Binary64) (k : Int) : Nat × Nat :=
  let (n, d) := x.fraction
  if 0 ≤ k then (n, d * 10 ^ k.toNat) else (n * 10 ^ (-k).toNat, d)

/-- The grid points next to the number on the grid of multiples of `10 ^ k`, the preferred one
first. -/
def neighbours (tie : Tie) (x : Binary64) (k : Int) : List Decimal :=
  let (n, d) := x.overPowerOfTen k
  let q := n / d
  let r := n % d
  let below : Decimal := ⟨q, k⟩
  let above : Decimal := ⟨q + 1, k⟩
  if 2 * r < d then [below, above]
  else if d < 2 * r then [above, below]
  else
    match tie with
    | .up => [above, below]
    | .toEven => if q % 2 = 0 then [below, above] else [above, below]

/-- The point of one grid that stands for the number, if there is one. -/
def onGrid? (tie : Tie) (x : Binary64) (k : Int) : Option Decimal :=
  (x.neighbours tie k).find? fun c => c.toBinary64? x.negative == some x

/-- The first grid with a point for the number, from `10 ^ k` down to ever finer ones. -/
def search (tie : Tie) (x : Binary64) : Nat → Int → Option Decimal
  | 0, _ => none
  | fuel + 1, k =>
    match x.onGrid? tie k with
    | some d => some d
    | none => search tie x fuel (k - 1)

/-- All decimal digits of the number, none of them left out. -/
def exactDecimal (x : Binary64) : Decimal :=
  if 0 ≤ x.exponent then ⟨x.mantissa <<< x.exponent.toNat, 0⟩
  else ⟨x.mantissa * 5 ^ (-x.exponent).toNat, x.exponent⟩

/-- A power of ten above the number. -/
def topPower (x : Binary64) : Int :=
  ((x.mantissa.log2 : Int) + 1 + x.exponent) * 30103 / 100000 + 1

/-- The fewest decimal digits that read back as the number. Zero has the one digit `0`. The
grids below the leading digit are as many as a number of 64 bits can need. -/
def shortest (tie : Tie) (x : Binary64) : Decimal :=
  if x.isZero then ⟨0, 0⟩ else (x.search tie 24 x.topPower).getD x.exactDecimal

/-- A minus sign for negative numbers. -/
def signText (x : Binary64) : List Char :=
  if x.negative then ['-'] else []

/-- Digits with a decimal point `places` digits from the right, and zeros where there are no
digits. Without places there is no point. -/
def withPoint (ds : List Char) (places : Nat) : List Char :=
  if places = 0 then ds
  else if places < ds.length then ds.take (ds.length - places) ++ '.' :: ds.drop (ds.length - places)
  else '0' :: '.' :: (List.replicate (places - ds.length) '0' ++ ds)

/-- Positional digits of a decimal value; integers have no point. -/
def Decimal.positional (d : Decimal) : List Char :=
  if 0 ≤ d.exponent then decimal d.digits ++ List.replicate d.exponent.toNat '0'
  else withPoint (decimal d.digits) (-d.exponent).toNat

/-- The power of ten of the leading digit. -/
def Decimal.leadingPower (d : Decimal) : Int :=
  (decimal d.digits).length - 1 + d.exponent

/-- One digit before the point, the others after it, then the power of ten with its sign. -/
def Decimal.withExponent (d : Decimal) : List Char :=
  let power := d.leadingPower
  let sign := if power < 0 then '-' else '+'
  let digits :=
    match decimal d.digits with
    | [] => []
    | [c] => [c]
    | c :: cs => c :: '.' :: cs
  digits ++ 'e' :: sign :: decimal power.natAbs

/-- Numbers are written positionally and without an exponent, integers without a point; a tie
between two shortest forms goes up. -/
def plain (x : Binary64) : List Char :=
  x.signText ++ (x.shortest .up).positional

/-- Numbers from `0.00001` up to below `10 ^ 16` are written positionally, with at least one
digit after the point, and all others with an exponent; a tie goes to the even digit. -/
def scientific (x : Binary64) : List Char :=
  if x.isZero then x.signText ++ ['0', '.', '0']
  else
    let d := x.shortest .toEven
    let power := d.leadingPower
    if -5 ≤ power ∧ power < 16 then
      x.signText ++ d.positional ++ (if 0 ≤ d.exponent then ['.', '0'] else [])
    else x.signText ++ d.withExponent

end ApprovalWorkflow.Binary64
