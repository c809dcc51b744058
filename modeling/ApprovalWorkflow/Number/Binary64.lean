/-!
# Finite binary floating-point numbers of 64 bits

A finite binary64 number is kept as its sign, an integer mantissa and a power of two, so that
rounding, comparison and printing are exact arithmetic on integers. `round?` is rounding to
nearest with ties to even; it gives nothing where the result would be infinite. Two numbers
are compared by value, so the two zeros are equal.
-/

set_option autoImplicit false

namespace ApprovalWorkflow

-- powers are those of the core library, whatever else is imported
attribute [local instance (2000)] instPowNat

/-- The number `± mantissa · 2 ^ exponent`. Numbers made by `Binary64.round?` have a mantissa
below `2 ^ 53` and an exponent of at least `-1074`, and the mantissa is as large as these
bounds allow, so that equal fields mean the same number with the same sign. -/
structure Binary64 where
  negative : Bool
  mantissa : Nat
  exponent : Int
deriving DecidableEq, Repr, Inhabited

namespace Binary64

/-- The zero with the given sign. -/
def zero (negative : Bool) : Binary64 := ⟨negative, 0, -1074⟩

/-- Zero of either sign. -/
def isZero (x : Binary64) : Bool := x.mantissa == 0

/-- The quotient `num / (den · 2 ^ e)` as a pair of natural numbers. -/
def scaled (num den : Nat) (e : Int) : Nat × Nat :=
  if 0 ≤ e then (num, den <<< e.toNat) else (num <<< (-e).toNat, den)

/-- The exponent at which the integer part of `num / (den · 2 ^ e)` has 53 binary digits, but
not below the least one. -/
def exponentFor (num den : Nat) : Int :=
  let guess : Int := (num.log2 : Int) - (den.log2 : Int) - 52
  let (n, d) := scaled num den guess
  max (-1074) (if n / d < 2 ^ (52 : Nat) then guess - 1 else guess)

/-- The nearest natural number to `n / d`; of two equally near ones the even one. -/
def nearest (n d : Nat) : Nat :=
  let q := n / d
  let r := n % d
  if 2 * r < d then q
  else if d < 2 * r then q + 1
  else if q % 2 = 0 then q else q + 1

/-- The binary64 number nearest to `± num / den`, ties to even; nothing if it is infinite. -/
def round? (negative : Bool) (num den : Nat) : Option Binary64 :=
  if num = 0 then some (zero negative)
  else
    let e := exponentFor num den
    let (n, d) := scaled num den e
    let m := nearest n d
    let (m, e) := if m = 2 ^ (53 : Nat) then (2 ^ (52 : Nat), e + 1) else (m, e)
    if 971 < e then none
    else if m = 0 then some (zero negative) else some ⟨negative, m, e⟩

/-- The binary64 number nearest to `± digits · 10 ^ e`. Exponents far outside the range are
settled without computing the power. -/
def ofDecimal? (negative : Bool) (digits : Nat) (e : Int) : Option Binary64 :=
  if digits = 0 then some (zero negative)
  else
    -- the decimal point of the leading digit lies between these two powers of ten
    let low : Int := (digits.log2 : Int) * 30102 / 100000 + e
    let high : Int := (digits.log2 : Int) * 30104 / 100000 + 1 + e
    if 310 < low then none
    else if high < -326 then some (zero negative)
    else if 0 ≤ e then round? negative (digits * 10 ^ e.toNat) 1
    else round? negative digits (10 ^ (-e).toNat)

/-- The binary64 number nearest to an integer of at most 64 bits. -/
def ofInt (i : Int) : Binary64 :=
  (round? (i < 0) i.natAbs 1).getD (zero false)

/-- The number as a fraction without its sign. -/
def fraction (x : Binary64) : Nat × Nat :=
  if 0 ≤ x.exponent then (x.mantissa <<< x.exponent.toNat, 1)
  else (x.mantissa, 1 <<< (-x.exponent).toNat)

/-- The product, rounded to nearest. -/
def mul? (x y : Binary64) : Option Binary64 :=
  let (a, b) := x.fraction
  let (c, d) := y.fraction
  round? (x.negative != y.negative) (a * c) (b * d)

/-- The quotient, rounded to nearest; nothing for a zero divisor. -/
def div? (x y : Binary64) : Option Binary64 :=
  let (a, b) := x.fraction
  let (c, d) := y.fraction
  if c = 0 then none else round? (x.negative != y.negative) (a * d) (b * c)

/-- The value without its sign, times `2 ^ 1074`: an integer for every number of the format. -/
def magnitude (x : Binary64) : Nat :=
  x.mantissa <<< (x.exponent + 1074).toNat

/-- The signed value, times `2 ^ 1074`. -/
def key (x : Binary64) : Int :=
  if x.negative then -(x.magnitude : Int) else x.magnitude

/-- One number is below another in value. -/
def lt (x y : Binary64) : Bool := x.key < y.key

/-- One number is at most another in value. -/
def le (x y : Binary64) : Bool := x.key ≤ y.key

end Binary64

end ApprovalWorkflow
