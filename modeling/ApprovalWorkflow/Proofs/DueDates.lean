import ApprovalWorkflow.Proofs.Quotes
import ApprovalWorkflow.Proofs.Timestamps
import ApprovalWorkflow.Proofs.Walk
import Mathlib.Data.List.TakeWhile
import Mathlib.Data.Nat.Digits.Defs

/-!
# Exact due dates

The timeouts that ask for something are the positive integers, which are seconds, and the texts of
digits and a unit with blanks around them (`Timeout.Asks`). A task that is built has the due date
that its step asks for, to the second, if the amount, the milliseconds that it comes to and the
time at which it ends can be held; otherwise it has none (`due_date_exact`).

The seconds are computed with numbers of any size here. A program that has only words of 64 bits,
and gives up whenever a result does not fit into one, comes to the same due date
(`dueInWords?_eq`): none of its results is too large unless the last one is.
-/

set_option autoImplicit false

namespace ApprovalWorkflow

-- powers are those of the core library, whatever else is imported
attribute [local instance (2000)] instPowNat

open Text (Padded isBlank isDigit digitValue digitsValue trimChars)

/-! ## Times that can be held -/

namespace Timestamp

/-- The time lies in the calendar. -/
def InCalendar (t : Timestamp) : Prop := startSeconds ≤ t.seconds ∧ t.seconds < endSeconds

instance (t : Timestamp) : Decidable t.InCalendar := inferInstanceAs (Decidable (_ ∧ _))

/-- The time so many seconds later, one at least. A leap second is over by then. -/
def later (t : Timestamp) (n : Nat) : Timestamp := ⟨t.seconds + n, t.nanos % 1000000000⟩

variable {now due : Timestamp} {n : Nat}

/-- A time that is some seconds later lies behind the time from which it is counted. -/
theorem lt_later (hn : 0 < n) : now.lt (now.later n) := by
  have hseconds : ¬ now.seconds + n < now.seconds ∧ now.seconds + n ≠ now.seconds := by omega
  simp [lt, le, later, hseconds]

/-- A time of the calendar can only leave it at its end. -/
theorem addSeconds?_eq_some_iff (hnow : now.InCalendar) (hn : 0 < n) :
    now.addSeconds? n = some due ↔ due = now.later n ∧ due.InCalendar := by
  have hstart : startSeconds ≤ now.seconds + n := hnow.1.trans (by omega)
  rw [addSeconds?, if_neg (Nat.pos_iff_ne_zero.mp hn)]
  constructor
  · intro h
    split_ifs at h with hend
    cases h
    exact ⟨rfl, hstart, hend⟩
  · rintro ⟨rfl, -, hend⟩
    exact if_pos hend

end Timestamp

/-! ## What a timeout asks for -/

namespace Text

/-- What is left after trimming stood between blanks. -/
theorem padded_trimChars (cs : List Char) : Padded (trimChars cs) cs := by
  refine ⟨cs.takeWhile isBlank, ((trimStart cs).reverse.takeWhile isBlank).reverse,
    fun c hc => List.mem_takeWhile_imp hc,
    fun c hc => List.mem_takeWhile_imp (List.mem_reverse.mp hc), ?_⟩
  rw [trimChars, trimEnd, List.append_assoc, ← List.reverse_append,
    List.takeWhile_append_dropWhile, List.reverse_reverse, trimStart,
    List.takeWhile_append_dropWhile]

/-- Digits denote a number to base ten, the last one being the lowest. -/
theorem digitsValue_eq_ofDigits (ds : List Char) :
    digitsValue ds = Nat.ofDigits 10 (ds.map digitValue).reverse := by
  induction ds using List.reverseRecOn with
  | nil => rfl
  | append_singleton ds d ih =>
    rw [digitsValue_concat, ih, List.map_append, List.map_singleton, List.reverse_concat,
      Nat.ofDigits_cons, Nat.add_comm]

end Text

namespace Timeout

/-- The units that may stand behind the digits, and their seconds. -/
inductive UnitName : List Char → Nat → Prop where
  | none : UnitName [] 1
  | seconds : UnitName ['s'] 1
  | minutes : UnitName ['m'] 60
  | hours : UnitName ['h'] (60 * 60)
  | days : UnitName ['d'] (24 * 60 * 60)

/-- A timeout asks for an amount of units of so many seconds. -/
inductive Asks : Json → Nat → Nat → Prop where
  | number (n : Nat) : Asks (.num (.int n)) n 1
  | text {s : String} {digits suffix : List Char} {unit : Nat} :
    Padded (digits ++ suffix) s.toList → digits ≠ [] → (∀ c ∈ digits, isDigit c = true) →
      UnitName suffix unit → Asks (.str s) (Nat.ofDigits 10 (digits.map digitValue).reverse) unit

/-- A timeout lasts so many seconds: what it asks for is not nothing, and neither the amount nor
the milliseconds have more than 63 bits. -/
def Lasts (timeout : Json) (seconds : Nat) : Prop :=
  ∃ amount unit, Asks timeout amount unit ∧ 0 < amount ∧ amount < 2 ^ (63 : Nat) ∧
    amount * unit * 1000 < 2 ^ (63 : Nat) ∧ seconds = amount * unit

variable {cs digits suffix : List Char} {amount unit n : Nat} {timeout : Json}

/-- What stands behind the digits is understood exactly if it is the name of a unit. -/
theorem unit?_eq_some_iff : unit? suffix = some unit ↔ UnitName suffix unit := by
  constructor
  · intro h
    unfold unit? at h
    split at h <;> cases h <;> constructor
  · rintro (_ | _ | _ | _ | _) <;> rfl

/-- No name of a unit has a blank in it. -/
theorem UnitName.isBlank_eq_false (h : UnitName suffix unit) :
    ∀ c ∈ suffix, isBlank c = false := by
  cases h with
  | none => simp
  | seconds | minutes | hours | days => exact List.forall_mem_singleton.mpr (by decide)

/-- No name of a unit has a digit in it. -/
theorem UnitName.isDigit_eq_false (h : UnitName suffix unit) :
    ∀ c ∈ suffix, isDigit c = false := by
  cases h with
  | none => simp
  | seconds | minutes | hours | days => exact List.forall_mem_singleton.mpr (by decide)

/-- What is held in a word of milliseconds is held in the seconds that a timeout may last. -/
theorem seconds?_eq_some_iff :
    seconds? amount unit = some n ↔ 0 < amount ∧ amount < 2 ^ (63 : Nat) ∧
      amount * unit * 1000 < 2 ^ (63 : Nat) ∧ n = amount * unit := by
  have hmax : amount * unit ≤ maxSeconds ↔ amount * unit * 1000 < 2 ^ (63 : Nat) := by
    unfold maxSeconds
    omega
  simp only [seconds?, hmax, Option.ite_none_right_eq_some, Option.some.injEq, and_assoc,
    eq_comm (a := n)]

/-- The digits end where the unit begins. -/
theorem trimChars_of_padded_digits (hpadded : Padded (digits ++ suffix) cs)
    (hdigits : ∀ c ∈ digits, isDigit c = true) (hunit : UnitName suffix unit) :
    trimChars cs = digits ++ suffix ∧ (digits ++ suffix).takeWhile isDigit = digits ∧
      (digits ++ suffix).dropWhile isDigit = suffix := by
  have hblank : ∀ c ∈ digits ++ suffix, isBlank c = false := by
    intro c hc
    rcases List.mem_append.mp hc with hc | hc
    · exact Text.isBlank_of_isDigit (hdigits c hc)
    · exact hunit.isBlank_eq_false c hc
  have hnone : ∀ c, suffix.head? = some c → ¬ isDigit c = true := by
    intro c hc
    rw [hunit.isDigit_eq_false c (List.mem_of_mem_head? hc)]
    exact Bool.false_ne_true
  rw [Text.trimChars_of_padded hpadded, Text.trimChars_of_no_blanks hblank,
    List.takeWhile_append_of_pos hdigits, List.dropWhile_append_of_pos hdigits]
  cases suffix with
  | nil => simp
  | cons c suffix => simp [hnone c rfl]

/-- A timeout is understood exactly if it lasts some seconds. -/
theorem ofJson?_eq_some_iff : ofJson? timeout = some n ↔ Lasts timeout n := by
  constructor
  · intro h
    unfold ofJson? at h
    split at h
    · next i =>
      split_ifs at h with hi
      obtain ⟨m, rfl⟩ := Int.eq_ofNat_of_zero_le hi.le
      exact ⟨m, 1, .number m, seconds?_eq_some_iff.mp h⟩
    · next s =>
      unfold ofChars? at h
      dsimp only at h
      split_ifs at h with hnil
      obtain ⟨unit, hunit, hseconds⟩ := Option.bind_eq_some_iff.mp h
      rw [Text.digitsValue_eq_ofDigits] at hseconds
      refine ⟨_, unit, .text ?_ hnil (fun c hc => List.mem_takeWhile_imp hc)
        (unit?_eq_some_iff.mp hunit), seconds?_eq_some_iff.mp hseconds⟩
      rw [List.takeWhile_append_dropWhile]
      exact Text.padded_trimChars _
    · cases h
  · rintro ⟨amount, unit, hasks, hfits⟩
    cases hasks with
    | number =>
      have hpos : 0 < (amount : Int) := by omega
      rw [ofJson?, if_pos hpos]
      exact seconds?_eq_some_iff.mpr hfits
    | text hpadded hne hdigits hunit =>
      obtain ⟨htrim, htake, hdrop⟩ := trimChars_of_padded_digits hpadded hdigits hunit
      rw [ofJson?, ofChars?]
      simp only [htrim, htake, hdrop, if_neg hne, unit?_eq_some_iff.mpr hunit, Option.bind_some]
      rw [Text.digitsValue_eq_ofDigits]
      exact seconds?_eq_some_iff.mpr hfits

/-- A timeout that is understood lasts one second at least. -/
theorem Lasts.pos (h : Lasts timeout n) : 0 < n := by
  obtain ⟨amount, unit, hasks, hpos, -, -, rfl⟩ := h
  refine Nat.mul_pos hpos ?_
  cases hasks with
  | number => exact Nat.one_pos
  | text _ _ _ hunit => cases hunit <;> decide

end Timeout

/-! ## The computation in words -/

/-- A number as a signed word of 64 bits, if it fits. -/
def word? (n : Int) : Option Int :=
  if -2 ^ (63 : Nat) ≤ n ∧ n < 2 ^ (63 : Nat) then some n else none

/-- A natural number is a machine word exactly if it has no more than 63 bits. -/
theorem word?_natCast (n : Nat) :
    word? n = if n < 2 ^ (63 : Nat) then some (n : Int) else none := by
  unfold word?
  congr 1
  rw [eq_iff_iff]
  omega

/-- A result on the way to a larger one need not be looked at. -/
theorem bind_word?_of_le {m n : Nat} {f : Int → Option Int} (h : m ≤ n) (hf : f m = word? n) :
    (word? m).bind f = word? n := by
  rw [word?_natCast m]
  split_ifs with hm
  · exact hf
  · rw [word?_natCast, if_neg (fun hn => hm (h.trans_lt hn))]
    rfl

namespace Timeout

/-- The number that digits denote, taken in one after the other. -/
def amountInWords? (digits : List Char) : Option Int :=
  digits.foldlM (fun n c => (word? (n * 10)).bind fun n => word? (n + digitValue c)) 0

/-- A positive amount of units as seconds. -/
def secondsInWords? (amount unit : Int) : Option Int :=
  if 0 < amount then (word? (amount * unit)).filter (· ≤ maxSeconds) else none

/-- The seconds of a timeout. -/
def inWords? : Json → Option Int
  | .num (.int i) => (word? i).bind (secondsInWords? · 1)
  | .str s =>
    let cs := trimChars s.toList
    (amountInWords? (cs.takeWhile isDigit)).bind fun amount =>
      (unit? (cs.dropWhile isDigit)).bind fun unit => secondsInWords? amount unit
  | _ => none

/-- One digit more is one step more of the machine's reading. -/
theorem amountInWords?_concat (digits : List Char) (d : Char) :
    amountInWords? (digits ++ [d]) = (amountInWords? digits).bind fun n =>
      (word? (n * 10)).bind fun n => word? (n + digitValue d) := by
  rw [amountInWords?, List.foldlM_append]
  simp only [List.foldlM_cons, List.foldlM_nil, bind_pure]
  rfl

/-- Digits denote more and more, so that no step is too large unless the last one is. -/
theorem amountInWords?_eq (digits : List Char) :
    amountInWords? digits = word? (digitsValue digits) := by
  induction digits using List.reverseRecOn with
  | nil => rfl
  | append_singleton digits d ih =>
    have hnext : ((digitsValue digits * 10 : Nat) : Int) + digitValue d
        = (10 * digitsValue digits + digitValue d : Nat) := by omega
    rw [amountInWords?_concat, ih, Text.digitsValue_concat]
    refine bind_word?_of_le (by omega) ?_
    exact bind_word?_of_le (m := digitsValue digits * 10) (by omega) (by rw [hnext])

/-- The seconds that a timeout may last fit into a word. -/
theorem filter_word? (n : Nat) : (word? n).filter (fun x : Int => decide (x ≤ maxSeconds))
    = if n ≤ maxSeconds then some (n : Int) else none := by
  rw [word?_natCast]
  by_cases h : n ≤ maxSeconds
  · have hfits : n < 2 ^ (63 : Nat) := h.trans_lt (by decide)
    rw [if_pos hfits, if_pos h, Option.filter_some, if_pos (by simpa using h)]
  · rw [if_neg h]
    split_ifs
    · rw [Option.filter_some, if_neg (by simpa using h)]
    · rfl

/-- The seconds of an amount of units come out in machine words as they do without a bound on the
way. -/
theorem secondsInWords?_eq (amount unit : Nat) :
    (word? amount).bind (secondsInWords? · unit) = (seconds? amount unit).map Nat.cast := by
  rw [word?_natCast, seconds?]
  by_cases hlt : amount < 2 ^ (63 : Nat)
  · rw [if_pos hlt, Option.bind_some, secondsInWords?, ← Nat.cast_mul, filter_word?]
    by_cases hpos : 0 < amount <;> by_cases hlast : amount * unit ≤ maxSeconds <;>
      simp [hlt, hpos, hlast]
  · rw [if_neg hlt, if_neg (fun h => hlt h.2.1)]
    rfl

/-- A timeout comes to the same seconds in words. -/
theorem inWords?_eq (timeout : Json) : inWords? timeout = (ofJson? timeout).map Nat.cast := by
  cases timeout with
  | num n =>
    cases n with
    | int i =>
      rcases lt_or_ge 0 i with hi | hi
      · obtain ⟨n, rfl⟩ := Int.eq_ofNat_of_zero_le hi.le
        rw [ofJson?, if_pos hi]
        exact secondsInWords?_eq n 1
      · have hnone (n : Int) (hn : n ≤ 0) : secondsInWords? n 1 = none := if_neg (not_lt.mpr hn)
        rw [ofJson?, if_neg (not_lt.mpr hi), inWords?, word?]
        split_ifs
        · exact hnone i hi
        · rfl
    | float => rfl
  | str s =>
    rw [ofJson?, ofChars?, inWords?, amountInWords?_eq]
    cases hunit : unit? ((trimChars s.toList).dropWhile isDigit) with
    | none => simp
    | some unit =>
      simp only [Option.bind_some]
      rw [secondsInWords?_eq]
      split_ifs with hnil
      · rw [hnil]
        rfl
      · rfl
  | null | bool | arr | obj => rfl

end Timeout

/-- The time at which a timeout from a time on is over, computed in words. -/
def dueInWords? (start : Timestamp) (timeout : Json) : Option Timestamp :=
  ((Timeout.inWords? timeout).bind fun n => word? (start.seconds + n)).bind fun seconds =>
    if seconds < Timestamp.endSeconds then some ⟨seconds, start.nanos % 1000000000⟩ else none

/-- The due date comes out in machine words as it does without a bound on the way. -/
theorem dueInWords?_eq {now : Timestamp} (hnow : now.InCalendar) (timeout : Json) :
    dueInWords? now timeout = dueDate? now timeout := by
  rw [dueInWords?, dueDate?, Timeout.inWords?_eq]
  cases h : Timeout.ofJson? timeout with
  | none => rfl
  | some n =>
    have hlasts := Timeout.ofJson?_eq_some_iff.mp h
    -- both the calendar and the longest timeout are far from the ends of the words
    have hstart : -2 ^ (63 : Nat) ≤ Timestamp.startSeconds := by decide
    have hend : Timestamp.endSeconds + 2 ^ (62 : Nat) ≤ 2 ^ (63 : Nat) := by decide
    have hword : word? (now.seconds + n) = some (now.seconds + n) := by
      obtain ⟨amount, unit, -, -, -, hmillis, rfl⟩ := hlasts
      rw [word?, if_pos]
      have := hnow.1
      have := hnow.2
      omega
    rw [Option.map_some, Option.bind_some, hword, Option.bind_some, Option.bind_some,
      Timestamp.addSeconds?, if_neg (Nat.pos_iff_ne_zero.mp hlasts.pos)]

/-! ## The due date of a task -/

/-- The due date of a step is the one that its timeout asks for, if it has any. -/
theorem Task.dueDateOf_value (s : Step) (now : Timestamp) :
    (dueDateOf s now).value = s.timeout.bind (dueDate? now) := by
  unfold dueDateOf
  split
  · next h => simp [h]
  · next timeout h =>
    rw [h, Option.bind_some]
    split
    · next hdue => exact hdue.symm
    · next hdue => exact hdue.symm

/-- There is a due date exactly if the timeout lasts some seconds and the calendar has the time
that is so much later. -/
theorem dueDate?_eq_some_iff {now due : Timestamp} {timeout : Json} (hnow : now.InCalendar) :
    dueDate? now timeout = some due ↔
      ∃ seconds, Timeout.Lasts timeout seconds ∧ due = now.later seconds ∧ due.InCalendar := by
  rw [dueDate?, Option.bind_eq_some_iff]
  refine exists_congr fun seconds => ?_
  rw [Timeout.ofJson?_eq_some_iff]
  exact and_congr_right fun h => Timestamp.addSeconds?_eq_some_iff hnow h.pos

/-- A number that is written with a fraction or an exponent is no integer. -/
theorem Doc.exists_float_of_ofLiteral {l : JsonLiteral} {n : Json.Number}
    (hl : l.places.isSome ∨ l.power.isSome) (h : Doc.ofLiteral l = .num n) : ∃ x, n = .float x := by
  have hint : l.int? = none := if_pos hl
  unfold Doc.ofLiteral at h
  rw [hint] at h
  split at h
  · next hsome => cases hsome
  · split at h
    · next x hx => exact ⟨x, by simpa [eq_comm] using h⟩
    · cases h

/-- A task that is built at a time of the calendar has a due date exactly when the timeout of its
step lasts so many seconds and the time so much later lies in the calendar too; then it is this
time, which is after the time at which the task was built. A timeout that is a number with a
fraction or an exponent gives none. The computation in words of 64 bits, in which nothing may
overflow, gives the same. -/
theorem due_date_exact (id : Uuid) (i : Instance) (s : Step) (key : String)
    (parent : Option String) (history : List Task) (labels : ResultLabels) {now : Timestamp}
    (hnow : now.InCalendar) :
    let t := (Task.build id i s key parent history labels now).value
    t.createdAt = now ∧
      (∀ due, t.dueDate = some due ↔ ∃ timeout ∈ s.timeout, ∃ seconds,
        Timeout.Lasts timeout seconds ∧ due = now.later seconds ∧ due.InCalendar) ∧
      (∀ due ∈ t.dueDate, now.lt due) ∧
      (∀ l n, s.timeout = some (.num n) → Doc.ofLiteral l = .num n →
        l.places.isSome ∨ l.power.isSome → t.dueDate = none) ∧
      t.dueDate = s.timeout.bind (dueInWords? now) := by
  intro t
  have hbuilt : t.dueDate = s.timeout.bind (dueDate? now) := by
    rw [← Task.dueDateOf_value]
    exact congrArg Task.dueDate (Task.build_value id i s key parent history labels now)
  have hcreated : t.createdAt = now :=
    congrArg Task.createdAt (Task.build_value id i s key parent history labels now)
  have hexact (due : Timestamp) : t.dueDate = some due ↔ ∃ timeout ∈ s.timeout, ∃ seconds,
      Timeout.Lasts timeout seconds ∧ due = now.later seconds ∧ due.InCalendar := by
    rw [hbuilt, Option.bind_eq_some_iff]
    exact exists_congr fun timeout => and_congr_right fun _ => dueDate?_eq_some_iff hnow
  refine ⟨hcreated, hexact, fun due hdue => ?_, fun l n htimeout hl hfloat => ?_, ?_⟩
  · obtain ⟨timeout, -, seconds, hlasts, rfl, -⟩ := (hexact due).mp hdue
    exact Timestamp.lt_later hlasts.pos
  · obtain ⟨x, rfl⟩ := Doc.exists_float_of_ofLiteral hfloat hl
    rw [hbuilt, htimeout]
    rfl
  · rw [hbuilt]
    exact Option.bind_congr fun timeout _ => (dueInWords?_eq hnow timeout).symm

/-- A week that is written with a leading zero and with blanks around it counts from the end of a
leap second on. -/
theorem due_date_exact_padded :
    let now : Timestamp := ⟨1483228799, 1500000000⟩
    let s : Step := { Step.userTask "approve" with timeout := some (.str " 07d\u00a0") }
    let t := (Task.build .nil (.new .nil .nil .null now) s "approve" none [] .default now).value
    now.InCalendar ∧ t.dueDate = some ⟨1483228799 + 7 * 86400, 500000000⟩ ∧
      ∀ due ∈ t.dueDate, now.lt due := by
  intro now s t
  have hnow : now.InCalendar := by decide
  have hpadded : Padded (['0', '7'] ++ ['d']) " 07d\u00a0".toList :=
    ⟨[' '], ['\u00a0'], by simp [Text.IsBlanks]; decide, by simp [Text.IsBlanks]; decide, rfl⟩
  have hdigits : ∀ c ∈ ['0', '7'], isDigit c = true :=
    List.forall_mem_cons.mpr ⟨by decide, List.forall_mem_singleton.mpr (by decide)⟩
  have hlasts : Timeout.Lasts (.str " 07d\u00a0") (7 * 86400) :=
    ⟨7, 86400, .text hpadded (List.cons_ne_nil _ _) hdigits .days, by decide⟩
  obtain ⟨-, hexact, hafter, -⟩ :=
    due_date_exact .nil (.new .nil .nil .null now) s "approve" none [] .default hnow
  refine ⟨hnow, (hexact _).mpr ⟨_, rfl, _, hlasts, by decide, by decide⟩, hafter⟩

end ApprovalWorkflow
