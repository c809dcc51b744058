import ApprovalWorkflow.Proofs.Digits
import ApprovalWorkflow.Timestamp
import Mathlib.Data.List.GetD

/-!
# Times that read back

The date of a day lies in the calendar and stands for that day (`Date.toDays_ofDays`), and the
text of a time that a clock can show is read as this time again (`Timestamp.ofString?_toString`).
The text is read part by part; each part is padded to its width or followed by a character that
is no digit, so that it is clear where it ends (`Timestamp.number?_append`).
-/

set_option autoImplicit false

namespace ApprovalWorkflow

/-! ## Dates -/

namespace Date

/-- Before a later year there are no fewer days. -/
theorem daysBeforeYear_mono {y z : Int} (h : y ≤ z) : daysBeforeYear y ≤ daysBeforeYear z := by
  simp only [daysBeforeYear]
  omega

/-- The year of a day lies among the years that have the days around it. -/
theorem yearOf_mem {days first last : Int} (hfirst : daysBeforeYear first ≤ days)
    (hlast : days < daysBeforeYear (last + 1)) : first ≤ yearOf days ∧ yearOf days ≤ last := by
  have hle := daysBeforeYear_le days
  have hlt := lt_daysBeforeYear_succ days
  constructor
  · by_contra hbefore
    have := daysBeforeYear_mono (show yearOf days + 1 ≤ first by omega)
    omega
  · by_contra hafter
    have := daysBeforeYear_mono (show last + 1 ≤ yearOf days by omega)
    omega

/-- The months of a year have all its days. -/
theorem sum_monthLengths (year : Int) :
    ((monthLengths year).sum : Int) = daysBeforeYear (year + 1) - daysBeforeYear year := by
  have hleap : isLeapYear year = true ↔ year % 4 = 0 ∧ (year % 100 ≠ 0 ∨ year % 400 = 0) := by
    simp [isLeapYear]
  simp only [daysBeforeYear]
  by_cases h : isLeapYear year
  · rw [hleap] at h
    simp [monthLengths, hleap, h]
    omega
  · have h' := mt hleap.mpr h
    simp [monthLengths, h]
    omega

/-- A day of the year lies in one of the months, behind the months before. -/
theorem monthOf_eq {lengths : List Nat} {rest : Nat} (h : rest < lengths.sum) (month : Nat) :
    ∃ i day, monthOf lengths month rest = (month + i, day + 1) ∧ i < lengths.length ∧
      day < lengths.getD i 0 ∧ (lengths.take i).sum + day = rest := by
  induction lengths generalizing rest month with
  | nil => exact absurd h (Nat.not_lt_zero rest)
  | cons length lengths ih =>
    rw [List.sum_cons] at h
    rw [monthOf]
    split
    · next hlt => exact ⟨0, rest, rfl, Nat.succ_pos _, hlt, by simp⟩
    · next hge =>
      have hrest : rest - length < lengths.sum := by omega
      obtain ⟨i, day, heq, hi, hday, hsum⟩ := ih hrest (month + 1)
      refine ⟨i + 1, day, ?_, Nat.succ_lt_succ hi, by simpa using hday, ?_⟩
      · rw [heq, Nat.add_assoc, Nat.add_comm 1 i]
      · rw [List.take_succ_cons, List.sum_cons]
        omega

/-- The date of a day is in the calendar and stands for the day, and its year is the one in which
the day lies. -/
theorem ofDays_spec (days : Int) :
    (ofDays days).toDays = days ∧ (ofDays days).isValid = true ∧
      (ofDays days).year = yearOf (days + epoch) := by
  have hle := daysBeforeYear_le (days + epoch)
  have hlt := lt_daysBeforeYear_succ (days + epoch)
  have hsum := sum_monthLengths (yearOf (days + epoch))
  have hrest : (days + epoch - daysBeforeYear (yearOf (days + epoch))).toNat <
      (monthLengths (yearOf (days + epoch))).sum := by omega
  obtain ⟨i, day, heq, hi, hday, hrest⟩ := monthOf_eq hrest 1
  have hdate : ofDays days = ⟨yearOf (days + epoch), 1 + i, day + 1⟩ := by
    simp only [ofDays, heq]
  have hmonths : (monthLengths (yearOf (days + epoch))).length = 12 := rfl
  rw [hdate]
  refine ⟨?_, ?_, rfl⟩
  · simp only [toDays, Nat.add_sub_cancel_left]
    omega
  · simp only [isValid, Nat.add_sub_cancel_left, Bool.and_eq_true, decide_eq_true_eq]
    omega

/-- The parts of a date in the calendar have two digits at most. -/
theorem lt_of_isValid {d : Date} (h : d.isValid = true) : d.month < 100 ∧ d.day < 100 := by
  have hlengths : ∀ length ∈ monthLengths d.year, length < 100 := by
    simp only [monthLengths, List.forall_mem_cons]
    split <;> simp
  simp only [isValid, Bool.and_eq_true, decide_eq_true_eq] at h
  have hmonths : (monthLengths d.year).length = 12 := rfl
  have hindex : d.month - 1 < (monthLengths d.year).length := by omega
  rw [List.getD_eq_getElem _ _ hindex] at h
  have hlength := hlengths _ (List.getElem_mem hindex)
  omega

end Date

/-! ## Padded numbers -/

namespace Text

/-- A digit is not blank. -/
theorem isBlank_of_isDigit {c : Char} (h : isDigit c = true) : isBlank c = false := by
  have hrange : 48 ≤ c.toNat ∧ c.toNat ≤ 57 := by
    simpa [isDigit, Char.le_def, UInt32.le_iff_toNat_le] using h
  simp only [isBlank, Bool.or_eq_false_iff, Bool.and_eq_false_iff, decide_eq_false_iff_not,
    beq_eq_false_iff_ne]
  omega

/-- A small number has few digits. -/
theorem length_decimal_le {n width : Nat} (hwidth : 0 < width) (h : n < 10 ^ width) :
    (decimal n).length ≤ width := by
  induction width generalizing n with
  | zero => exact absurd hwidth (Nat.lt_irrefl 0)
  | succ width ih =>
    rw [decimal]
    split
    · exact Nat.succ_le_succ (Nat.zero_le width)
    · next hn =>
      have hpos : 0 < width := by
        rcases Nat.eq_zero_or_pos width with rfl | hpos
        · omega
        · exact hpos
      have hdiv : n / 10 < 10 ^ width := by
        rw [Nat.pow_succ] at h
        exact Nat.div_lt_of_lt_mul (by omega)
      rw [List.length_append]
      exact Nat.succ_le_succ (ih hpos hdiv)

variable {n width : Nat}

/-- A padded number consists of digits. -/
theorem isDigit_of_mem_decimalPadded : ∀ c ∈ decimalPadded width n, isDigit c = true := by
  intro c hc
  rcases List.mem_append.mp hc with hc | hc
  · rw [List.eq_of_mem_replicate hc]
    rfl
  · exact isDigit_of_mem_decimal n c hc

/-- Zeros in front do not count. -/
theorem digitsValue_decimalPadded : digitsValue (decimalPadded width n) = n := by
  have hzeros : ∀ zeros, digitsValue (List.replicate zeros '0') = 0 := by
    intro zeros
    induction zeros with
    | zero => rfl
    | succ zeros ih => rw [List.replicate_succ', digitsValue_concat, ih]; rfl
  rw [decimalPadded, digitsValue, List.foldl_append]
  exact (congrArg (fun start => (decimal n).foldl _ start) (hzeros _)).trans
    (digitsValue_decimal n)

/-- A padded number has the width that it is padded to, if it fits in. -/
theorem length_decimalPadded (hwidth : 0 < width) (h : n < 10 ^ width) :
    (decimalPadded width n).length = width := by
  have := length_decimal_le hwidth h
  simp [decimalPadded]
  omega

/-- A padded number has one digit at least. -/
theorem decimalPadded_ne_nil (width n : Nat) : decimalPadded width n ≠ [] := by
  obtain ⟨c, cs, hcs, -⟩ := decimal_eq_cons n
  simp [decimalPadded, hcs]

/-- A padded number begins with a digit. -/
theorem decimalPadded_eq_cons (width n : Nat) :
    ∃ c cs, decimalPadded width n = c :: cs ∧ isDigit c = true := by
  obtain ⟨c, cs, hcs⟩ := List.exists_cons_of_ne_nil (decimalPadded_ne_nil width n)
  exact ⟨c, cs, hcs, isDigit_of_mem_decimalPadded c (hcs ▸ List.mem_cons_self)⟩

end Text

/-! ## Texts of times -/

namespace Timestamp

open ApprovalWorkflow.Text

/-- A time that a clock can show: it lies in the calendar of times, and in no leap second. -/
structure IsRegular (t : Timestamp) : Prop where
  start : startSeconds ≤ t.seconds
  finish : t.seconds < endSeconds
  nanos : t.nanos < 1000000000

instance (t : Timestamp) : Decidable t.IsRegular :=
  decidable_of_iff (startSeconds ≤ t.seconds ∧ t.seconds < endSeconds ∧ t.nanos < 1000000000)
    ⟨fun h => ⟨h.1, h.2.1, h.2.2⟩, fun h => ⟨h.start, h.finish, h.nanos⟩⟩

/-- A run of digits ends where it is as long as it may be, or where no digit follows. -/
theorem takeWhile_take_append {most : Nat} {ds rest : List Char}
    (hdigits : ∀ c ∈ ds, isDigit c = true) (hlen : ds.length ≤ most)
    (hend : ds.length = most ∨ rest.takeWhile isDigit = []) :
    ((ds ++ rest).take most).takeWhile isDigit = ds := by
  have hnone : (rest.take (most - ds.length)).takeWhile isDigit = [] := by
    rcases hend with rfl | hend
    · simp
    · cases rest with
      | nil => simp
      | cons c rest =>
        have hc : isDigit c = false := by
          by_contra hc
          simp [Bool.eq_true_of_not_eq_false hc] at hend
        cases most - ds.length <;> simp [hc]
  rw [List.take_append, List.take_of_length_le hlen, List.takeWhile_append_of_pos hdigits, hnone,
    List.append_nil]

/-- Digits in front of a text are read as their number, if they are as many as are allowed or none
follows. -/
theorem number?_append {most : Nat} {ds rest : List Char} (hne : ds ≠ [])
    (hdigits : ∀ c ∈ ds, isDigit c = true) (hlen : ds.length ≤ most)
    (hend : ds.length = most ∨ rest.takeWhile isDigit = []) :
    number? most (ds ++ rest) = some (digitsValue ds, rest) := by
  simp [number?, takeWhile_take_append hdigits hlen hend, hne]

/-- A number that is padded to the full width is read back. -/
theorem number?_decimalPadded {width n : Nat} (hwidth : 0 < width) (h : n < 10 ^ width)
    (rest : List Char) : number? width (decimalPadded width n ++ rest) = some (n, rest) := by
  have hlen := length_decimalPadded hwidth h
  rw [number?_append (decimalPadded_ne_nil _ _) isDigit_of_mem_decimalPadded hlen.le (.inl hlen),
    digitsValue_decimalPadded]

/-- Before a padded number there is nothing to trim. -/
theorem trimStart_decimalPadded (width n : Nat) (rest : List Char) :
    trimStart (decimalPadded width n ++ rest) = decimalPadded width n ++ rest := by
  obtain ⟨c, cs, hcs, hc⟩ := decimalPadded_eq_cons width n
  rw [hcs]
  exact trimStart_cons_of_not_blank _ (isBlank_of_isDigit hc)

/-- A number of two digits is read back. -/
theorem spacedNumber?_decimalPadded {n : Nat} (h : n < 100) (rest : List Char) :
    spacedNumber? 2 (decimalPadded 2 n ++ rest) = some (n, rest) := by
  rw [spacedNumber?, trimStart_decimalPadded]
  exact number?_decimalPadded (by decide) h rest

/-- A mark that is no blank is found where it stands. -/
theorem mark?_cons {c : Char} (h : isBlank c = false) (rest : List Char) :
    mark? c (c :: rest) = some rest := by
  simp [mark?, trimStart_cons_of_not_blank rest h]

/-- A year is read back, if no digit follows. -/
theorem year?_yearChars (year : Int) {rest : List Char} (hend : rest.takeWhile isDigit = []) :
    year? (yearChars year ++ rest) = some (year, rest) := by
  have hsigned (n : Nat) : number? (decimalPadded 4 n ++ rest).length (decimalPadded 4 n ++ rest)
      = some (n, rest) := by
    rw [number?_append (decimalPadded_ne_nil _ _) isDigit_of_mem_decimalPadded (by simp)
        (.inr hend),
      digitsValue_decimalPadded]
  unfold yearChars
  split
  · next hyear =>
    -- a digit stands in front, so that the year has no sign
    obtain ⟨c, cs, hcs, hc⟩ := decimalPadded_eq_cons 4 year.natAbs
    have hnumber : number? 4 (decimalPadded 4 year.natAbs ++ rest) = some (year.natAbs, rest) :=
      number?_decimalPadded (by decide) (by omega) rest
    have htrim := trimStart_decimalPadded 4 year.natAbs rest
    rw [hcs] at hnumber htrim ⊢
    have hminus : c ≠ '-' := by rintro rfl; cases hc
    have hplus : c ≠ '+' := by rintro rfl; cases hc
    rw [year?, htrim]
    simp only [List.cons_append] at hnumber ⊢
    split
    · next heq => exact absurd (List.cons.inj heq).1 hminus
    · next heq => exact absurd (List.cons.inj heq).1 hplus
    · rw [hnumber]
      simp
      omega
  · split
    · next hneg =>
      have htrim := trimStart_cons_of_not_blank (c := '-') (decimalPadded 4 year.natAbs ++ rest)
        (by decide)
      rw [List.cons_append, year?, htrim]
      simp only [hsigned, Option.map_some, Option.some.injEq, Prod.mk.injEq, and_true]
      omega
    · next hpos =>
      have htrim := trimStart_cons_of_not_blank (c := '+') (decimalPadded 4 year.natAbs ++ rest)
        (by decide)
      rw [List.cons_append, year?, htrim]
      simp only [hsigned, Option.map_some, Option.some.injEq, Prod.mk.injEq, and_true]
      omega

/-- A group of digits behind the point is read back, if no digit follows. -/
theorem fraction?_decimalPadded {width n : Nat} (hpos : 0 < width) (hwidth : width ≤ 9)
    (h : n < 10 ^ width) {rest : List Char} (hend : rest.takeWhile isDigit = []) :
    fraction? ('.' :: (decimalPadded width n ++ rest)) = some (n * 10 ^ (9 - width), rest) := by
  have hlen := length_decimalPadded hpos h
  have hdigits : ((decimalPadded width n ++ rest).take 9).takeWhile isDigit
      = decimalPadded width n :=
    takeWhile_take_append isDigit_of_mem_decimalPadded (by omega) (.inr hend)
  have hdrop : rest.dropWhile isDigit = rest := by
    have := List.takeWhile_append_dropWhile (p := isDigit) (l := rest)
    rwa [hend, List.nil_append] at this
  simp only [fraction?, hdigits, if_neg (decimalPadded_ne_nil _ _), digitsValue_decimalPadded, hlen]
  rw [List.drop_append_of_le_length hlen.ge, List.drop_of_length_le hlen.le, List.nil_append, hdrop]

/-- A fraction of a second is read back. -/
theorem fraction?_fractionChars {nanos : Nat} (h : nanos < 1000000000) :
    fraction? (fractionChars nanos ++ ['Z']) = some (nanos, ['Z']) := by
  have hend : ['Z'].takeWhile isDigit = [] := rfl
  unfold fractionChars
  split
  · next hzero => rw [hzero]; rfl
  split
  · next hmillis =>
    rw [List.cons_append, fraction?_decimalPadded (by decide) (by decide) (by omega) hend]
    simp
    omega
  split
  · next hmicros =>
    rw [List.cons_append, fraction?_decimalPadded (by decide) (by decide) (by omega) hend]
    simp
    omega
  · rw [List.cons_append, fraction?_decimalPadded (by decide) (by decide) (by omega) hend]
    simp

/-- The time of a date and a time of day outside leap seconds. -/
theorem assemble?_eq_some {t : Timestamp} (h : t.IsRegular) {date : Date}
    (hdate : date = Date.ofDays (t.seconds / 86400)) {second : Nat}
    (hsecond : second = (t.seconds % 86400).toNat) :
    assemble? date (second / 3600) (second / 60 % 60) (second % 60) t.nanos 0 = some t := by
  obtain ⟨hdays, hvalid, hyear⟩ := Date.ofDays_spec (t.seconds / 86400)
  rw [← hdate] at hdays hvalid hyear
  have hstart := h.start
  have hfinish := h.finish
  have hinRange : inRange date.year = true := by
    have hfirst : Date.daysBeforeYear yearRange.1 ≤ t.seconds / 86400 + Date.epoch := by
      simp only [startSeconds] at hstart
      omega
    have hlast : t.seconds / 86400 + Date.epoch < Date.daysBeforeYear (yearRange.2 + 1) := by
      simp only [endSeconds] at hfinish
      omega
    have hyears := Date.yearOf_mem hfirst hlast
    simp [inRange, hyear, hyears]
  have hseconds : date.toDays * 86400
      + (second / 3600 * 3600 + second / 60 % 60 * 60 + second % 60 : Nat) - 0 = t.seconds := by
    rw [hdays]
    omega
  rw [assemble?, if_neg (by simp [hinRange, hvalid]; omega)]
  simp only [if_neg (show second % 60 ≠ 60 by omega), hseconds, hstart, hfinish, and_self, if_true]

/-- The text of a time that a clock can show is read as this time. -/
theorem ofString?_toString {t : Timestamp} (h : t.IsRegular) : ofString? t.toString = some t := by
  have hleap : t.leap = 0 := if_pos h.nanos
  obtain ⟨-, hvalid, -⟩ := Date.ofDays_spec (t.seconds / 86400)
  obtain ⟨hmonth, hday⟩ := Date.lt_of_isValid hvalid
  have hfraction := fraction?_fractionChars h.nanos
  have hassembled := assemble?_eq_some h rfl rfl
  generalize hdate : Date.ofDays (t.seconds / 86400) = date at *
  generalize hsecond : (t.seconds % 86400).toNat = second at *
  have hhour : second / 3600 < 100 := by omega
  have hminute : second / 60 % 60 < 100 := by omega
  have hrest : second % 60 < 100 := by omega
  have hyear (rest : List Char) :
      year? (yearChars date.year ++ '-' :: rest) = some (date.year, '-' :: rest) :=
    year?_yearChars date.year rfl
  have hdash := mark?_cons (c := '-') (by decide)
  have hcolon := mark?_cons (c := ':') (by decide)
  have htext : t.chars = yearChars date.year ++ '-' :: (decimalPadded 2 date.month ++ '-' ::
      (decimalPadded 2 date.day ++ 'T' :: (decimalPadded 2 (second / 3600) ++ ':' ::
        (decimalPadded 2 (second / 60 % 60) ++ ':' :: (decimalPadded 2 (second % 60) ++
          (fractionChars t.nanos ++ ['Z'])))))) := by
    simp only [chars, dateChars, clockChars, hdate, hsecond, hleap, Nat.add_zero, Nat.zero_mul,
      Nat.sub_zero, List.append_assoc, List.cons_append]
  rw [ofString?, toString, String.toList_ofList, htext]
  -- one step for each part of the text
  refine Option.bind_eq_some_iff.mpr ⟨_, hyear _, Option.bind_eq_some_iff.mpr ⟨_, hdash _, ?_⟩⟩
  refine Option.bind_eq_some_iff.mpr ⟨_, spacedNumber?_decimalPadded hmonth _, ?_⟩
  refine Option.bind_eq_some_iff.mpr ⟨_, hdash _, ?_⟩
  refine Option.bind_eq_some_iff.mpr ⟨_, spacedNumber?_decimalPadded hday _, ?_⟩
  refine Option.bind_eq_some_iff.mpr ⟨_, rfl, ?_⟩
  refine Option.bind_eq_some_iff.mpr ⟨_, spacedNumber?_decimalPadded hhour _, ?_⟩
  refine Option.bind_eq_some_iff.mpr ⟨_, hcolon _, ?_⟩
  refine Option.bind_eq_some_iff.mpr ⟨_, spacedNumber?_decimalPadded hminute _, ?_⟩
  refine Option.bind_eq_some_iff.mpr ⟨_, hcolon _, ?_⟩
  refine Option.bind_eq_some_iff.mpr ⟨_, spacedNumber?_decimalPadded hrest _, ?_⟩
  refine Option.bind_eq_some_iff.mpr ⟨_, hfraction, ?_⟩
  exact Option.bind_eq_some_iff.mpr ⟨_, rfl, hassembled⟩

end Timestamp

end ApprovalWorkflow
