import ApprovalWorkflow.Document.JsonText
import ApprovalWorkflow.Proofs.Digits
import ApprovalWorkflow.Proofs.JsonValues
import Mathlib.Data.List.TakeWhile

/-!
# JSON texts that read back

`Doc.Writes v cs` says that the characters are a text of the value, with any blanks between its
parts. Such a text is read as the document of the value (`Doc.ofJsonText_of_writes`), and both
printers write such texts (`Doc.ofJsonText_compact`, `Doc.ofJsonText_pretty`), if the integers of
the value have 64 bits and its floating-point numbers are such that their own digits read back
(`Json.Number.ReadsBack`). Reading a number stops before a blank, a comma or a bracket, so that
each part of a text can be read for itself.
-/

set_option autoImplicit false

namespace ApprovalWorkflow

open ApprovalWorkflow.Text

/-! ## Numbers that read back -/

/-- The integer has 64 bits, with a sign or without one. -/
def Json.Is64Bit (i : Int) : Prop := -(2 : Int) ^ 63 ≤ i ∧ i < (2 : Int) ^ 64

/-- What is written for a number is read back as that number, and not as an integer. -/
def Binary64.ReadsBack (x : Binary64) : Prop :=
  ∃ l, Doc.literal? x.scientific = some (l, []) ∧ l.int? = none ∧ l.float? = some x

/-- What is written for a number is read back as that number. -/
def Json.Number.ReadsBack : Json.Number → Prop
  | .int i => Json.Is64Bit i
  | .float x => x.ReadsBack

namespace Doc

/-- A text at whose beginning no number goes on. -/
def Stops (cs : List Char) : Prop :=
  ∀ c ∈ cs.head?, isDigit c = false ∧ c ≠ '.' ∧ c ≠ 'e' ∧ c ≠ 'E'

/-- At the end of the text no number goes on. -/
theorem stops_nil : Stops [] := by
  simp [Stops]

/-- Where a character comes that is no part of a number, no number goes on. -/
theorem stops_cons {c : Char} {cs : List Char}
    (h : isDigit c = false ∧ c ≠ '.' ∧ c ≠ 'e' ∧ c ≠ 'E') : Stops (c :: cs) := by
  intro d hd
  obtain rfl : c = d := by simpa using hd
  exact h

section

variable {rest : List Char}

/-! ## Literals -/

/-- The digits at the beginning of a text are the same with something behind it at which a number
stops. -/
theorem takeWhile_append (hr : Stops rest) (cs : List Char) :
    (cs ++ rest).takeWhile isDigit = cs.takeWhile isDigit := by
  induction cs with
  | nil =>
    cases rest with
    | nil => rfl
    | cons c rest => simp [(hr c rfl).1]
  | cons c cs ih => simp only [List.cons_append, List.takeWhile_cons, ih]

/-- What stands behind the digits of a text has the same thing behind it. -/
theorem dropWhile_append (hr : Stops rest) (cs : List Char) :
    (cs ++ rest).dropWhile isDigit = cs.dropWhile isDigit ++ rest := by
  induction cs with
  | nil =>
    cases rest with
    | nil => rfl
    | cons c rest => simp [(hr c rfl).1]
  | cons c cs ih =>
    simp only [List.cons_append, List.dropWhile_cons, ih]
    split <;> rfl

/-- Digits are read in the same way whatever follows them. -/
theorem digits1?_append (hr : Stops rest) {cs ds left : List Char}
    (h : digits1? cs = some (ds, left)) : digits1? (cs ++ rest) = some (ds, left ++ rest) := by
  unfold digits1? at h ⊢
  rw [takeWhile_append hr, dropWhile_append hr]
  simp only at h ⊢
  split at h
  · cases h
  · next hne =>
    rw [if_neg hne]
    cases h
    rfl

/-- The whole part of a number is read in the same way with something behind it at which it stops.
-/
theorem wholePart?_append (hr : Stops rest) {cs ds left : List Char}
    (h : wholePart? cs = some (ds, left)) :
    wholePart? (cs ++ rest) = some (ds, left ++ rest) := by
  unfold wholePart? at h
  split at h
  · next cs =>
    cases cs with
    | nil =>
      cases h
      cases rest with
      | nil => rfl
      | cons c rest => simp [wholePart?, (hr c rfl).1]
    | cons c cs =>
      simp only at h
      split at h
      · cases h
      · next hc =>
        cases h
        simp [wholePart?, hc]
  · next hzero =>
    cases cs with
    | nil => simp [digits1?] at h
    | cons c cs =>
      have hc : c ≠ '0' := fun heq => hzero cs (by rw [heq])
      have := digits1?_append hr h
      simpa [wholePart?, hc] using this

/-- The decimal places of a number are read in the same way with something behind them at which
they stop. -/
theorem placesPart?_append (hr : Stops rest) {cs left : List Char} {ds : Option (List Char)}
    (h : placesPart? cs = some (ds, left)) :
    placesPart? (cs ++ rest) = some (ds, left ++ rest) := by
  unfold placesPart? at h
  split at h
  · next cs =>
    obtain ⟨⟨ds', left'⟩, hd, heq⟩ := Option.map_eq_some_iff.mp h
    cases heq
    simp [placesPart?, digits1?_append hr hd]
  · next hpoint =>
    cases h
    cases cs with
    | nil =>
      cases rest with
      | nil => rfl
      | cons c rest => simp [placesPart?, (hr c rfl).2.1]
    | cons c cs =>
      have hc : c ≠ '.' := fun heq => hpoint cs (by rw [heq])
      simp [placesPart?, hc]

/-- An exponent without a sign. -/
theorem powerPart?_of_unsigned {c d : Char} (hc : c = 'e' ∨ c = 'E') (hminus : d ≠ '-')
    (hplus : d ≠ '+') (cs : List Char) :
    powerPart? (c :: d :: cs)
      = (digits1? (d :: cs)).map fun (ds, left) => (some (false, ds), left) := by
  simp [powerPart?, hc, hminus, hplus]

/-- The exponent of a number is read in the same way with something behind it at which it stops.
-/
theorem powerPart?_append (hr : Stops rest) {cs left : List Char}
    {p : Option (Bool × List Char)} (h : powerPart? cs = some (p, left)) :
    powerPart? (cs ++ rest) = some (p, left ++ rest) := by
  cases cs with
  | nil =>
    cases h
    cases rest with
    | nil => rfl
    | cons c rest => simp [powerPart?, (hr c rfl).2.2]
  | cons c cs =>
    by_cases hc : c = 'e' ∨ c = 'E'
    · cases cs with
      | nil => simp [powerPart?, hc, digits1?] at h
      | cons d cs =>
        -- The digits stand behind a sign if there is one, and at once otherwise.
        by_cases hsign : d = '-' ∨ d = '+'
        · rcases hsign with rfl | rfl <;>
          · simp only [powerPart?, if_pos hc, List.cons_append] at h ⊢
            obtain ⟨⟨ds, left'⟩, hd, heq⟩ := Option.map_eq_some_iff.mp h
            cases heq
            simp [digits1?_append hr hd]
        · obtain ⟨hminus, hplus⟩ := not_or.mp hsign
          rw [powerPart?_of_unsigned hc hminus hplus] at h
          obtain ⟨⟨ds, left'⟩, hd, heq⟩ := Option.map_eq_some_iff.mp h
          cases heq
          have := digits1?_append hr hd
          rw [List.cons_append] at this
          rw [List.cons_append, List.cons_append, powerPart?_of_unsigned hc hminus hplus, this]
          rfl
    · simp only [powerPart?, if_neg hc, List.cons_append] at h ⊢
      cases h
      rfl

/-- A number without a sign is read in the same way with something behind it at which it stops. -/
theorem unsigned?_append (hr : Stops rest) {negative : Bool} {cs left : List Char}
    {l : JsonLiteral} (h : unsigned? negative cs = some (l, left)) :
    unsigned? negative (cs ++ rest) = some (l, left ++ rest) := by
  unfold unsigned? at h ⊢
  simp only [Option.bind_eq_bind, Option.bind_eq_some_iff, Prod.exists] at h
  obtain ⟨whole, cs₁, hwhole, places, cs₂, hplaces, power, cs₃, hpower, heq⟩ := h
  cases heq
  simp [wholePart?_append hr hwhole, placesPart?_append hr hplaces, powerPart?_append hr hpower]

/-- A literal that does not begin with a minus has no sign. -/
theorem literal?_of_ne_minus {c : Char} (h : c ≠ '-') (cs : List Char) :
    literal? (c :: cs) = unsigned? false (c :: cs) := by
  simp [literal?, h]

/-- A literal is read in the same way whatever follows it. -/
theorem literal?_append (hr : Stops rest) {cs left : List Char} {l : JsonLiteral}
    (h : literal? cs = some (l, left)) : literal? (cs ++ rest) = some (l, left ++ rest) := by
  cases cs with
  | nil => simp [literal?, unsigned?, wholePart?, digits1?] at h
  | cons c cs =>
    rcases eq_or_ne c '-' with rfl | hc
    · exact unsigned?_append hr h
    · rw [literal?_of_ne_minus hc] at h
      rw [List.cons_append, literal?_of_ne_minus hc]
      exact unsigned?_append hr h

end

/-- A literal begins with a minus sign or a digit. -/
theorem literal?_eq_cons {cs left : List Char} {l : JsonLiteral}
    (h : literal? cs = some (l, left)) :
    ∃ c tail, cs = c :: tail ∧ (c = '-' ∨ isDigit c = true) := by
  cases cs with
  | nil => simp [literal?, unsigned?, wholePart?, digits1?] at h
  | cons c tail =>
    refine ⟨c, tail, rfl, ?_⟩
    by_contra hc
    obtain ⟨hminus, hdigit⟩ := not_or.mp hc
    have hzero : c ≠ '0' := fun heq => hdigit (heq ▸ by decide)
    simp [literal?, unsigned?, wholePart?, digits1?, hminus, hdigit, hzero] at h

/-! ## Integers -/

/-- The decimal digits of a number are read as its literal. -/
theorem unsigned?_decimal (negative : Bool) (n : Nat) :
    unsigned? negative (decimal n) = some (⟨negative, decimal n, none, none⟩, []) := by
  have hwhole : wholePart? (decimal n) = some (decimal n, []) := by
    obtain ⟨c, cs, hcs, hc, hz⟩ := decimal_eq_cons n
    have hall := isDigit_of_mem_decimal n
    by_cases hzero : c = '0'
    · obtain rfl := hz hzero
      decide +kernel
    · have hdigits : digits1? (decimal n) = some (decimal n, []) := by
        have htake := List.takeWhile_eq_self_iff.mpr hall
        have hdrop := List.dropWhile_eq_nil_iff.mpr hall
        simp only [digits1?, htake, hdrop]
        simp [hcs]
      rw [hcs] at hdigits ⊢
      simpa [wholePart?, hzero] using hdigits
  simp [unsigned?, hwhole, placesPart?, powerPart?]

/-- The digits of an integer are read as its literal. -/
theorem literal?_decimalInt (i : Int) :
    literal? (decimalInt i) = some (⟨decide (i < 0), decimal i.natAbs, none, none⟩, []) := by
  unfold decimalInt
  split
  · next h => simp [literal?, unsigned?_decimal, h]
  · next h =>
    obtain ⟨c, cs, hcs, hc, -⟩ := decimal_eq_cons i.natAbs
    have hminus : c ≠ '-' := by
      rintro rfl
      exact absurd hc (by decide)
    have := unsigned?_decimal false i.natAbs
    rw [hcs] at this ⊢
    simp [literal?, hminus, this, h]

/-- The literal of an integer of 64 bits denotes that integer. -/
theorem int?_decimal {i : Int} (h : Json.Is64Bit i) :
    (⟨decide (i < 0), decimal i.natAbs, none, none⟩ : JsonLiteral).int? = some i := by
  obtain ⟨hlow, hhigh⟩ := h
  by_cases hneg : i < 0
  · have hrange : 0 < i.natAbs ∧ i.natAbs ≤ 2 ^ 63 := by omega
    have hvalue : -(i.natAbs : Int) = i := by omega
    simp only [JsonLiteral.int?, hneg, decide_true, Option.isSome_none, Bool.false_eq_true,
      or_self, if_false, if_true, digitsValue_decimal, if_pos hrange, hvalue]
  · have hrange : i.natAbs < 2 ^ 64 := by omega
    have hvalue : (i.natAbs : Int) = i := by omega
    simp only [JsonLiteral.int?, hneg, decide_false, Option.isSome_none, Bool.false_eq_true,
      or_self, if_false, digitsValue_decimal, if_pos hrange, hvalue]

/-- The digits of a number that reads back are a literal of that number. -/
theorem literal?_render {n : Json.Number} (h : n.ReadsBack) :
    ∃ l, literal? n.render = some (l, []) ∧ ofLiteral l = .num n := by
  cases n with
  | int i => exact ⟨_, literal?_decimalInt i, by simp [ofLiteral, int?_decimal h]⟩
  | float x =>
    obtain ⟨l, hl, hint, hfloat⟩ := h
    exact ⟨l, hl, by simp [ofLiteral, hint, hfloat]⟩

/-! ## Strings -/

/-- A small number is no half of a character. -/
theorem isHalf_of_lt {n : Nat} (h : n < 0xD800) : isHalf n = false := by
  simp [isHalf, h]

/-- A character by its code. -/
theorem stringBody_code {a b c d : Char} {n : Nat} (h : hexNumber? [a, b, c, d] = some n)
    (hn : isHalf n = false) (rest : List Char) :
    stringBody ('\\' :: 'u' :: a :: b :: c :: d :: rest)
      = (stringBody rest).push (Char.ofNat n) := by
  rw [stringBody.eq_def]
  split
  case h_5 hcode heq =>
    obtain ⟨rfl, rfl⟩ : 'u' = _ ∧ a :: b :: c :: d :: rest = _ := by simpa using heq
    exact absurd rfl (hcode a b c d rest rfl)
  case h_6 hescape heq =>
    obtain ⟨rfl, rfl⟩ : '\\' = _ ∧ 'u' :: a :: b :: c :: d :: rest = _ := by simpa using heq
    exact absurd rfl (hescape _ _ rfl)
  all_goals simp_all

/-- A control character by its code. -/
theorem stringBody_hexDigits {n : Nat} (h : n < 32) (rest : List Char) :
    stringBody ('\\' :: 'u' :: hexDigits 4 n ++ rest) = (stringBody rest).push (Char.ofNat n) := by
  have hnumber := hexNumber?_hexDigits 4 n
  rw [Nat.mod_eq_of_lt (by omega)] at hnumber
  exact stringBody_code hnumber (isHalf_of_lt (by omega)) rest

/-- A character that has been escaped is read back. -/
theorem stringBody_escape (c : Char) (rest : List Char) :
    stringBody (Json.escape c ++ rest) = (stringBody rest).push c := by
  have hof (n : Nat) (h : c.toNat = n) : c = Char.ofNat n := by rw [← h, Char.ofNat_toNat]
  unfold Json.escape
  split
  · next h => subst h; simp [stringBody, simpleEscape?]
  split
  · next h => subst h; simp [stringBody, simpleEscape?]
  split
  · next hcontrol =>
    split
    · next h => rw [hof 8 h]; simp [stringBody, simpleEscape?]
    split
    · next h => rw [hof 9 h]; simp [stringBody, simpleEscape?]
    split
    · next h => rw [hof 10 h]; simp [stringBody, simpleEscape?]
    split
    · next h => rw [hof 12 h]; simp [stringBody, simpleEscape?]
    split
    · next h => rw [hof 13 h]; simp [stringBody, simpleEscape?]
    · rw [stringBody_hexDigits hcontrol, Char.ofNat_toNat]
  · next hquote hslash hcontrol =>
    rw [List.cons_append, List.nil_append, stringBody.eq_def]
    split <;> simp_all

/-- A string that has been escaped is read back. -/
theorem stringBody_flatMap_escape (cs rest : List Char) :
    stringBody (cs.flatMap Json.escape ++ '"' :: rest) = some (some cs, rest) := by
  induction cs with
  | nil => simp [stringBody]
  | cons c cs ih =>
    rw [List.flatMap_cons, List.append_assoc, stringBody_escape, ih]
    rfl

/-! ## Values -/

/-- A character that begins no blank stays where it is. -/
theorem skipBlanks_cons {c : Char} (h : isJsonBlank c = false) (cs : List Char) :
    skipBlanks (c :: cs) = c :: cs := by
  simp [skipBlanks, h]

/-- A literal does not begin with a blank. -/
theorem isJsonBlank_of_literal {c : Char} (hc : c = '-' ∨ isDigit c = true) :
    isJsonBlank c = false := by
  by_contra hb
  simp only [isJsonBlank, Bool.not_eq_false, Bool.or_eq_true, beq_iff_eq] at hb
  rcases hb with ((rfl | rfl) | rfl) | rfl <;> revert hc <;> decide

/-- A literal is read as the document of its number. -/
theorem jsonValue_literal {cs rest : List Char} {l : JsonLiteral}
    (h : literal? cs = some (l, rest)) (fuel : Nat) :
    jsonValue (fuel + 1) cs = (ofLiteral l, some rest) := by
  obtain ⟨c, tail, rfl, hc⟩ := literal?_eq_cons h
  have hne : c ≠ 'n' ∧ c ≠ 't' ∧ c ≠ 'f' ∧ c ≠ '"' ∧ c ≠ '[' ∧ c ≠ '{' := by
    refine ⟨?_, ?_, ?_, ?_, ?_, ?_⟩ <;> (rintro rfl; revert hc; decide)
  obtain ⟨hn, ht, hf, hquote, hsquare, hcurly⟩ := hne
  simp [jsonValue, skipBlanks_cons (isJsonBlank_of_literal hc), hn, ht, hf, hquote, hsquare,
    hcurly, h]

/-- A string between quotes is read as its document. -/
theorem jsonValue_quoted (s : String) (fuel : Nat) (rest : List Char) :
    jsonValue (fuel + 1) (Json.quoted s ++ rest) = (.str s, some rest) := by
  have hbody := stringBody_flatMap_escape s.toList rest
  simp [jsonValue, Json.quoted, skipBlanks_cons (c := '"') rfl, hbody, ofStringBody]

/-! ## Texts with blanks -/

/-- Characters that may stand between the parts of a text. -/
def AreBlank (gap : List Char) : Prop := ∀ c ∈ gap, isJsonBlank c = true

/-- No blanks at all are blanks. -/
theorem areBlank_nil : AreBlank [] := by
  simp [AreBlank]

/-- Blanks are skipped up to a character that is none. -/
theorem skipBlanks_append {gap : List Char} (hgap : AreBlank gap) {c : Char}
    (hc : isJsonBlank c = false) (cs : List Char) : skipBlanks (gap ++ c :: cs) = c :: cs := by
  rw [skipBlanks, List.dropWhile_append_of_pos hgap]
  exact skipBlanks_cons hc cs

/-- No number goes on with a blank. -/
theorem stops_append {gap : List Char} (hgap : AreBlank gap) {cs : List Char} (h : Stops cs) :
    Stops (gap ++ cs) := by
  cases gap with
  | nil => exact h
  | cons c gap =>
    have hc := hgap c List.mem_cons_self
    simp only [isJsonBlank, Bool.or_eq_true, beq_iff_eq] at hc
    rcases hc with ((rfl | rfl) | rfl) | rfl <;> exact stops_cons (by decide)

mutual
/-- The characters are a text of the value, from its first character to its last one, with any
blanks between the parts. -/
inductive Writes : Json → List Char → Prop
  | null : Writes .null ['n', 'u', 'l', 'l']
  | boolTrue : Writes (.bool true) ['t', 'r', 'u', 'e']
  | boolFalse : Writes (.bool false) ['f', 'a', 'l', 's', 'e']
  | num {n : Json.Number} : n.ReadsBack → Writes (.num n) n.render
  | str (s : String) : Writes (.str s) (Json.quoted s)
  | noItems : Writes (.arr []) ['[', ']']
  | arr {items : List Json} {inside : List Char} :
    WritesItems items inside → Writes (.arr items) ('[' :: inside)
  | noFields : Writes (.obj []) ['{', '}']
  | obj {fields : List (String × Json)} {inside : List Char} :
    WritesFields fields inside → Writes (.obj fields) ('{' :: inside)

/-- The characters are a text of the items, up to the closing bracket. -/
inductive WritesItems : List Json → List Char → Prop
  | last {v : Json} {before cs behind : List Char} : AreBlank before → Writes v cs →
    AreBlank behind → WritesItems [v] (before ++ (cs ++ (behind ++ [']'])))
  | next {v : Json} {items : List Json} {before cs rest : List Char} : AreBlank before →
    Writes v cs → WritesItems items rest →
    WritesItems (v :: items) (before ++ (cs ++ ',' :: rest))

/-- The characters are a text of the fields, up to the closing brace. -/
inductive WritesFields : List (String × Json) → List Char → Prop
  | last {k : String} {v : Json} {before gap cs behind : List Char} : AreBlank before →
    AreBlank gap → Writes v cs → AreBlank behind →
    WritesFields [(k, v)]
      (before ++ (Json.quoted k ++ ':' :: (gap ++ (cs ++ (behind ++ ['}'])))))
  | next {k : String} {v : Json} {fields : List (String × Json)} {before gap cs rest : List Char} :
    AreBlank before → AreBlank gap → Writes v cs → WritesFields fields rest →
    WritesFields ((k, v) :: fields)
      (before ++ (Json.quoted k ++ ':' :: (gap ++ (cs ++ ',' :: rest))))
end

/-- A text of a value begins neither with a blank nor with a closing bracket. -/
theorem Writes.eq_cons {v : Json} {cs : List Char} (h : Writes v cs) :
    ∃ c tail, cs = c :: tail ∧ isJsonBlank c = false ∧ c ≠ ']' := by
  cases h with
  | num hn =>
    obtain ⟨l, hl, -⟩ := literal?_render hn
    obtain ⟨c, tail, heq, hc⟩ := literal?_eq_cons hl
    refine ⟨c, tail, heq, isJsonBlank_of_literal hc, ?_⟩
    rintro rfl
    revert hc
    decide
  | _ => exact ⟨_, _, rfl, rfl, by decide⟩

/-- Blanks before a text do not change what is read. -/
theorem jsonValue_append {gap : List Char} (hgap : AreBlank gap) {v : Json} {cs : List Char}
    (h : Writes v cs) (fuel : Nat) (rest : List Char) :
    jsonValue fuel (gap ++ (cs ++ rest)) = jsonValue fuel (cs ++ rest) := by
  obtain ⟨c, tail, rfl, hc, -⟩ := h.eq_cons
  cases fuel with
  | zero => rfl
  | succ fuel =>
    rw [jsonValue, jsonValue, List.cons_append, skipBlanks_append hgap hc, skipBlanks_cons hc]

/-- Behind an opening bracket, blanks are skipped, and there is an item. -/
theorem WritesItems.skipBlanks {items : List Json} {inside : List Char}
    (h : WritesItems items inside) (rest : List Char) :
    ∃ c tail, Doc.skipBlanks (inside ++ rest) = c :: tail ++ rest ∧ c ≠ ']' ∧
      WritesItems items (c :: tail) ∧ (c :: tail).length ≤ inside.length := by
  cases h with
  | @last v before cs behind hbefore hcs hbehind =>
    obtain ⟨c, tail, rfl, hc, hne⟩ := hcs.eq_cons
    refine ⟨c, tail ++ (behind ++ [']']), ?_, hne, .last areBlank_nil hcs hbehind, by simp⟩
    simp [skipBlanks_append hbefore hc]
  | @next v items before cs rest' hbefore hcs hrest =>
    obtain ⟨c, tail, rfl, hc, hne⟩ := hcs.eq_cons
    refine ⟨c, tail ++ ',' :: rest', ?_, hne, .next areBlank_nil hcs hrest, by simp⟩
    simp [skipBlanks_append hbefore hc]

/-- Behind an opening brace, blanks are skipped, and there is the quote of a key. -/
theorem WritesFields.skipBlanks {fields : List (String × Json)} {inside : List Char}
    (h : WritesFields fields inside) (rest : List Char) :
    ∃ tail, Doc.skipBlanks (inside ++ rest) = '"' :: tail ++ rest ∧
      WritesFields fields ('"' :: tail) ∧ ('"' :: tail).length ≤ inside.length := by
  cases h with
  | @last k v before gap cs behind hbefore hgap hcs hbehind =>
    refine ⟨_, ?_, .last areBlank_nil hgap hcs hbehind, by simp [Json.quoted]⟩
    simp [Json.quoted, skipBlanks_append (c := '"') hbefore rfl]
  | @next k v fields before gap cs rest' hbefore hgap hcs hrest =>
    refine ⟨_, ?_, .next areBlank_nil hgap hcs hrest, by simp [Json.quoted]⟩
    simp [Json.quoted, skipBlanks_append (c := '"') hbefore rfl]

/-- The last item of an array is read, and the bracket behind it. -/
theorem jsonItems_last {fuel : Nat} {d : Doc} {cs behind left : List Char}
    (hbehind : AreBlank behind) (h : jsonValue fuel cs = (d, some (behind ++ ']' :: left))) :
    jsonItems (fuel + 1) cs = ([d], some left) := by
  simp [jsonItems, h, skipBlanks_append (c := ']') hbehind rfl]

/-- An item is read, and all that are behind it. -/
theorem jsonItems_next {fuel : Nat} {d : Doc} {cs left : List Char}
    (h : jsonValue fuel cs = (d, some (',' :: left))) :
    jsonItems (fuel + 1) cs = (d :: (jsonItems fuel left).1, (jsonItems fuel left).2) := by
  simp [jsonItems, h, skipBlanks_cons (c := ',') rfl]

/-- The last field of an object is read, and the brace behind it. -/
theorem jsonFields_last {fuel : Nat} {d : Doc} {before behind rest left : List Char} (k : String)
    (hbefore : AreBlank before) (hbehind : AreBlank behind)
    (h : jsonValue fuel rest = (d, some (behind ++ '}' :: left))) :
    jsonFields (fuel + 1) (before ++ (Json.quoted k ++ ':' :: rest))
      = ([(.text k, d)], some left) := by
  have hbody := stringBody_flatMap_escape k.toList (':' :: rest)
  simp [jsonFields, Json.quoted, skipBlanks_append (c := '"') hbefore rfl, hbody,
    skipBlanks_cons (c := ':') rfl, h, skipBlanks_append (c := '}') hbehind rfl]

/-- A field is read, and all that are behind it. -/
theorem jsonFields_next {fuel : Nat} {d : Doc} {before rest left : List Char} (k : String)
    (hbefore : AreBlank before) (h : jsonValue fuel rest = (d, some (',' :: left))) :
    jsonFields (fuel + 1) (before ++ (Json.quoted k ++ ':' :: rest))
      = ((.text k, d) :: (jsonFields fuel left).1, (jsonFields fuel left).2) := by
  have hbody := stringBody_flatMap_escape k.toList (':' :: rest)
  simp [jsonFields, Json.quoted, skipBlanks_append (c := '"') hbefore rfl, hbody,
    skipBlanks_cons (c := ':') rfl, h, skipBlanks_cons (c := ',') rfl]

/-- A text of a value is read as the document of that value, with two units of fuel for each
character, and so are the insides of arrays and objects. -/
theorem reads_of_fuel (fuel : Nat) :
    (∀ v cs rest, Writes v cs → 2 * cs.length ≤ fuel → Stops rest →
      jsonValue fuel (cs ++ rest) = (.ofJson v, some rest)) ∧
    (∀ items cs rest, WritesItems items cs → 2 * cs.length ≤ fuel →
      jsonItems fuel (cs ++ rest) = (ofItems items, some rest)) ∧
    ∀ fields cs rest, WritesFields fields cs → 2 * cs.length ≤ fuel →
      jsonFields fuel (cs ++ rest) = (ofFields fields, some rest) := by
  -- A part lacks a bracket of the whole, which pays for the call that reads it.
  induction fuel with
  | zero =>
    refine ⟨fun v cs rest h hf => ?_, fun items cs rest h hf => ?_,
      fun fields cs rest h hf => ?_⟩
    · obtain ⟨c, tail, rfl, -⟩ := h.eq_cons
      cases hf
    · cases h <;> simp at hf
    · cases h <;> simp at hf
  | succ fuel ih =>
    obtain ⟨ihvalue, ihitems, ihfields⟩ := ih
    refine ⟨fun v cs rest h hf hr => ?_, fun items cs rest h hf => ?_,
      fun fields cs rest h hf => ?_⟩
    · cases h with
      | null => simp [jsonValue, skipBlanks_cons (c := 'n') rfl, ofJson]
      | boolTrue => simp [jsonValue, skipBlanks_cons (c := 't') rfl, ofJson]
      | boolFalse => simp [jsonValue, skipBlanks_cons (c := 'f') rfl, ofJson]
      | num hn =>
        obtain ⟨l, hl, hnum⟩ := literal?_render hn
        rw [ofJson, ← hnum]
        exact jsonValue_literal (literal?_append hr hl) fuel
      | str s => exact jsonValue_quoted s fuel rest
      | noItems =>
        simp [jsonValue, skipBlanks_cons (c := '[') rfl, skipBlanks_cons (c := ']') rfl, ofJson,
          ofItems]
      | arr hitems =>
        obtain ⟨c, tail, hskip, hclose, hwritten, hlength⟩ := hitems.skipBlanks rest
        have hfuel : 2 * (c :: tail).length ≤ fuel := by
          rw [List.length_cons] at hf
          omega
        have hread := ihitems _ _ rest hwritten hfuel
        rw [List.cons_append] at hskip hread
        simp [jsonValue, skipBlanks_cons (c := '[') rfl, hskip, hclose, hread, ofJson]
      | noFields =>
        simp [jsonValue, skipBlanks_cons (c := '{') rfl, skipBlanks_cons (c := '}') rfl, ofJson,
          ofFields]
      | obj hfields =>
        obtain ⟨tail, hskip, hwritten, hlength⟩ := hfields.skipBlanks rest
        have hfuel : 2 * ('"' :: tail).length ≤ fuel := by
          rw [List.length_cons] at hf
          omega
        have hread := ihfields _ _ rest hwritten hfuel
        rw [List.cons_append] at hskip hread
        simp [jsonValue, skipBlanks_cons (c := '{') rfl, hskip, hread, ofJson]
    · cases h with
      | @last v before cs behind hbefore hcs hbehind =>
        simp only [List.length_append, List.length_cons, List.length_nil] at hf
        have hvalue := ihvalue v cs (behind ++ ']' :: rest) hcs (by omega)
          (stops_append hbehind (stops_cons (by decide)))
        rw [← jsonValue_append hbefore hcs] at hvalue
        simpa [ofItems] using jsonItems_last hbehind hvalue
      | @next v items before cs rest' hbefore hcs hitems =>
        simp only [List.length_append, List.length_cons] at hf
        have hvalue := ihvalue v cs (',' :: (rest' ++ rest)) hcs (by omega)
          (stops_cons (by decide))
        rw [← jsonValue_append hbefore hcs] at hvalue
        have hrest := ihitems items rest' rest hitems (by omega)
        simpa [ofItems, hrest] using jsonItems_next hvalue
    · cases h with
      | @last k v before gap cs behind hbefore hgap hcs hbehind =>
        simp only [List.length_append, List.length_cons, List.length_nil] at hf
        have hvalue := ihvalue v cs (behind ++ '}' :: rest) hcs (by omega)
          (stops_append hbehind (stops_cons (by decide)))
        rw [← jsonValue_append hgap hcs] at hvalue
        simpa [ofFields] using jsonFields_last k hbefore hbehind hvalue
      | @next k v fields before gap cs rest' hbefore hgap hcs hfields =>
        simp only [List.length_append, List.length_cons] at hf
        have hvalue := ihvalue v cs (',' :: (rest' ++ rest)) hcs (by omega)
          (stops_cons (by decide))
        rw [← jsonValue_append hgap hcs] at hvalue
        have hrest := ihfields fields rest' rest hfields (by omega)
        simpa [ofFields, hrest] using jsonFields_next k hbefore hvalue

/-- A text of a value holds the document of that value. -/
theorem ofJsonText_of_writes {v : Json} {cs : List Char} (h : Writes v cs) :
    ofJsonText (String.ofList cs) = ⟨.ofJson v, true⟩ := by
  have hvalue := (reads_of_fuel (2 * cs.length + 2)).1 v cs [] h (by omega) stops_nil
  rw [List.append_nil] at hvalue
  simp [ofJsonText, hvalue, Doc.skipBlanks]

/-! ## Printed values -/

mutual
/-- A value is written without blanks. -/
theorem writes_compactChars : ∀ v : Json, (∀ n ∈ v.numbers, n.ReadsBack) →
    Writes v v.compactChars
  | .null, _ => .null
  | .bool true, _ => .boolTrue
  | .bool false, _ => .boolFalse
  | .num n, hv => .num (hv n List.mem_cons_self)
  | .str s, _ => .str s
  | .arr [], _ => .noItems
  | .arr (v :: items), hv => .arr (writes_compactItems (v :: items) hv (by simp))
  | .obj [], _ => .noFields
  | .obj (f :: fields), hv => .obj (writes_compactFields (f :: fields) hv (by simp))

/-- The compact form of items is a text of them. The recursion is that of the printer. -/
theorem writes_compactItems : ∀ items : List Json,
    (∀ n ∈ Json.numbersOfItems items, n.ReadsBack) → items ≠ [] →
      WritesItems items (Json.compactItems items)
  | [], _, hne => absurd rfl hne
  | [v], hv, _ => by
    have hcs := writes_compactChars v fun n hn => hv n (List.mem_append_left _ hn)
    exact .last areBlank_nil hcs areBlank_nil
  | v :: w :: items, hv, _ => by
    have hcs := writes_compactChars v fun n hn => hv n (List.mem_append_left _ hn)
    have hrest := writes_compactItems (w :: items)
      (fun n hn => hv n (List.mem_append_right _ hn)) (by simp)
    exact .next areBlank_nil hcs hrest

/-- The compact form of fields is a text of them. The recursion is that of the printer. -/
theorem writes_compactFields : ∀ fields : List (String × Json),
    (∀ n ∈ Json.numbersOfFields fields, n.ReadsBack) → fields ≠ [] →
      WritesFields fields (Json.compactFields fields)
  | [], _, hne => absurd rfl hne
  | [(k, v)], hv, _ => by
    have hcs := writes_compactChars v fun n hn => hv n (List.mem_append_left _ hn)
    exact .last areBlank_nil areBlank_nil hcs areBlank_nil
  | (k, v) :: f :: fields, hv, _ => by
    have hcs := writes_compactChars v fun n hn => hv n (List.mem_append_left _ hn)
    have hrest := writes_compactFields (f :: fields)
      (fun n hn => hv n (List.mem_append_right _ hn)) (by simp)
    exact .next areBlank_nil areBlank_nil hcs hrest
end

/-- A line break with its indentation is blank. -/
theorem areBlank_breakAt (level : Nat) : AreBlank (Json.breakAt level) := by
  intro c hc
  rcases List.mem_cons.mp hc with rfl | hc
  · rfl
  · rw [List.eq_of_mem_replicate hc]
    rfl

/-- A single space is blank. -/
theorem areBlank_space : AreBlank [' '] := by
  simp [AreBlank, isJsonBlank]

mutual
/-- A value is written with one field or item a line. -/
theorem writes_prettyChars : ∀ (v : Json) (level : Nat), (∀ n ∈ v.numbers, n.ReadsBack) →
    Writes v (v.prettyChars level)
  | .null, _, _ => .null
  | .bool true, _, _ => .boolTrue
  | .bool false, _, _ => .boolFalse
  | .num n, _, hv => .num (hv n List.mem_cons_self)
  | .str s, _, _ => .str s
  | .arr [], _, _ => .noItems
  | .arr (v :: items), level, hv => .arr (writes_prettyItems (v :: items) level hv (by simp))
  | .obj [], _, _ => .noFields
  | .obj (f :: fields), level, hv => .obj (writes_prettyFields (f :: fields) level hv (by simp))

/-- The indented form of items is a text of them. The recursion is that of the printer. -/
theorem writes_prettyItems : ∀ (items : List Json) (level : Nat),
    (∀ n ∈ Json.numbersOfItems items, n.ReadsBack) → items ≠ [] →
      WritesItems items (Json.prettyItems level items)
  | [], _, _, hne => absurd rfl hne
  | [v], level, hv, _ => by
    have hcs := writes_prettyChars v (level + 1) fun n hn => hv n (List.mem_append_left _ hn)
    have hlast := WritesItems.last (areBlank_breakAt (level + 1)) hcs (areBlank_breakAt level)
    simpa [Json.prettyItems] using hlast
  | v :: w :: items, level, hv, _ => by
    have hcs := writes_prettyChars v (level + 1) fun n hn => hv n (List.mem_append_left _ hn)
    have hrest := writes_prettyItems (w :: items) level
      (fun n hn => hv n (List.mem_append_right _ hn)) (by simp)
    have hnext := WritesItems.next (areBlank_breakAt (level + 1)) hcs hrest
    simpa [Json.prettyItems] using hnext

/-- The indented form of fields is a text of them. The recursion is that of the printer. -/
theorem writes_prettyFields : ∀ (fields : List (String × Json)) (level : Nat),
    (∀ n ∈ Json.numbersOfFields fields, n.ReadsBack) → fields ≠ [] →
      WritesFields fields (Json.prettyFields level fields)
  | [], _, _, hne => absurd rfl hne
  | [(k, v)], level, hv, _ => by
    have hcs := writes_prettyChars v (level + 1) fun n hn => hv n (List.mem_append_left _ hn)
    have hlast := WritesFields.last (k := k) (areBlank_breakAt (level + 1)) areBlank_space hcs
      (areBlank_breakAt level)
    simpa [Json.prettyFields] using hlast
  | (k, v) :: f :: fields, level, hv, _ => by
    have hcs := writes_prettyChars v (level + 1) fun n hn => hv n (List.mem_append_left _ hn)
    have hrest := writes_prettyFields (f :: fields) level
      (fun n hn => hv n (List.mem_append_right _ hn)) (by simp)
    have hnext := WritesFields.next (k := k) (areBlank_breakAt (level + 1)) areBlank_space hcs
      hrest
    simpa [Json.prettyFields] using hnext
end

/-- The compact text of a value is read as the document of that value. -/
theorem ofJsonText_compact {v : Json} (hv : ∀ n ∈ v.numbers, n.ReadsBack) :
    ofJsonText v.compact = ⟨.ofJson v, true⟩ :=
  ofJsonText_of_writes (writes_compactChars v hv)

/-- The text of a value with one field or item a line is read as the document of that value. -/
theorem ofJsonText_pretty {v : Json} (hv : ∀ n ∈ v.numbers, n.ReadsBack) :
    ofJsonText v.pretty = ⟨.ofJson v, true⟩ :=
  ofJsonText_of_writes (writes_prettyChars v 0 hv)

end Doc

end ApprovalWorkflow
