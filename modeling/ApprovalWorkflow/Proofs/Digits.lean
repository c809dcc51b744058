import ApprovalWorkflow.Text.Search
import Mathlib.Tactic.IntervalCases

/-!
# Digits that read back

Decimal and hexadecimal digits denote the number that they were written for
(`Text.digitsValue_decimal`, `Text.hexNumber?_hexDigits`). The decimal digits of a positive number
do not begin with a zero, which is why they can be read where zeros may not lead
(`Text.decimal_eq_cons`).
-/

set_option autoImplicit false

namespace ApprovalWorkflow.Text

/-! ## Decimal digits -/

/-- The character of a decimal digit is a digit, of that value. -/
theorem isDigit_ofNat {d : Nat} (h : d < 10) :
    isDigit (Char.ofNat (48 + d)) = true ∧ digitValue (Char.ofNat (48 + d)) = d := by
  interval_cases d <;> decide

/-- Only the digit zero is written `0`. -/
theorem ofNat_eq_zero {d : Nat} (h : d < 10) (hz : Char.ofNat (48 + d) = '0') : d = 0 := by
  have hv := (isDigit_ofNat h).2
  rw [hz] at hv
  exact hv.symm

/-- Decimal digits are digits. -/
theorem isDigit_of_mem_decimal (n : Nat) : ∀ c ∈ decimal n, isDigit c = true := by
  induction n using Nat.strong_induction_on with
  | _ n ih =>
    intro c hc
    rw [decimal] at hc
    split at hc
    · next hn =>
      obtain rfl := List.mem_singleton.mp hc
      exact (isDigit_ofNat hn).1
    · next hn =>
      rcases List.mem_append.mp hc with hc | hc
      · exact ih (n / 10) (Nat.div_lt_self (by omega) (by omega)) c hc
      · obtain rfl := List.mem_singleton.mp hc
        exact (isDigit_ofNat (Nat.mod_lt n (by omega))).1

/-- One more digit at the end. -/
theorem digitsValue_concat (cs : List Char) (c : Char) :
    digitsValue (cs ++ [c]) = 10 * digitsValue cs + digitValue c := by
  simp [digitsValue]

/-- Decimal digits denote the number that they were written for. -/
@[simp] theorem digitsValue_decimal (n : Nat) : digitsValue (decimal n) = n := by
  induction n using Nat.strong_induction_on with
  | _ n ih =>
    rw [decimal]
    split
    · next hn => simp [digitsValue, (isDigit_ofNat hn).2]
    · next hn =>
      rw [digitsValue_concat, ih (n / 10) (Nat.div_lt_self (by omega) (by omega)),
        (isDigit_ofNat (Nat.mod_lt n (by omega))).2]
      omega

/-- There is a first decimal digit, and it is a zero only for the number zero. -/
theorem decimal_eq_cons (n : Nat) :
    ∃ c cs, decimal n = c :: cs ∧ isDigit c = true ∧ (c = '0' → n = 0) := by
  induction n using Nat.strong_induction_on with
  | _ n ih =>
    rw [decimal]
    split
    · next hn => exact ⟨_, [], rfl, (isDigit_ofNat hn).1, ofNat_eq_zero hn⟩
    · next hn =>
      obtain ⟨c, cs, hcs, hc, hz⟩ := ih (n / 10) (Nat.div_lt_self (by omega) (by omega))
      refine ⟨c, cs ++ [Char.ofNat (48 + n % 10)], by rw [hcs]; rfl, hc, fun h => ?_⟩
      have := hz h
      omega

/-! ## Hexadecimal digits -/

/-- The character of a hexadecimal digit has the value of the digit. -/
theorem hexValue?_hexDigit {d : Nat} (h : d < 16) : hexValue? (hexDigit d) = some d := by
  interval_cases d <;> decide

/-- So many hexadecimal digits are written as are asked for. -/
theorem length_hexDigits (width n : Nat) : (hexDigits width n).length = width := by
  induction width generalizing n with
  | zero => rfl
  | succ width ih => simp [hexDigits, ih]

/-- One more digit at the end. -/
theorem hexNumber?_concat (cs : List Char) (c : Char) :
    hexNumber? (cs ++ [c])
      = (hexNumber? cs).bind fun n => (hexValue? c).map (16 * n + ·) := by
  simp [hexNumber?]

/-- Hexadecimal digits denote the number that they were written for, if there are enough. -/
theorem hexNumber?_hexDigits (width n : Nat) :
    hexNumber? (hexDigits width n) = some (n % 16 ^ width) := by
  induction width generalizing n with
  | zero => simp [hexDigits, hexNumber?, Nat.mod_one]
  | succ width ih =>
    rw [hexDigits, hexNumber?_concat, ih, hexValue?_hexDigit (Nat.mod_lt n (by omega))]
    simp only [Option.bind_some, Option.map_some, Option.some.injEq]
    rw [pow_succ', Nat.mod_mul]
    omega

end ApprovalWorkflow.Text
