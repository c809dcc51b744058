import ApprovalWorkflow.Condition.Evaluation
import Mathlib.Data.List.Chain
import Mathlib.Data.List.DropRight
import Mathlib.Logic.Function.Iterate

/-!
# Guards as expression trees

A guard that is written from a tree says what the tree says (`evaluate_text`). A tree is a
disjunction of conjunctions of literals, and a literal is an atom behind exclamation marks. An
atom may be any text in which neither connective occurs and that cannot be taken for a
negation; single bars and ampersands, quotes and blanks are allowed in it. The tree is read from
the left and part by part, without looking at the text of the whole.

The text is cut where the tree was joined (`splitAtDouble_pieces`): a piece cannot end within a
connective, because a blank stands on both sides of it. The pieces come back with these blanks
around them, and blanks around a piece make no difference (`Padded`).
-/

set_option autoImplicit false

namespace ApprovalWorkflow

/-! ## Blanks around a text -/

namespace Text

/-- Every character of the text is blank. -/
def IsBlanks (cs : List Char) : Prop := ∀ c ∈ cs, isBlank c = true

/-- A text with blanks around it. -/
def Padded (cs padded : List Char) : Prop :=
  ∃ front back, IsBlanks front ∧ IsBlanks back ∧ padded = front ++ cs ++ back

/-- The empty text is blank. -/
theorem IsBlanks.nil : IsBlanks [] := fun _ hc => absurd hc List.not_mem_nil

/-- A text has itself as one with blanks around it, though there are none. -/
theorem Padded.refl (cs : List Char) : Padded cs cs :=
  ⟨[], [], .nil, .nil, by simp⟩

/-- Blanks in front of a text are trimmed at its beginning. -/
theorem trimStart_append {front : List Char} (h : IsBlanks front) (cs : List Char) :
    trimStart (front ++ cs) = trimStart cs := by
  have hnil : front.dropWhile isBlank = [] := List.dropWhile_eq_nil_iff.mpr h
  rw [trimStart, List.dropWhile_append, hnil]
  rfl

/-- Blanks behind a text are trimmed at its end. -/
theorem trimEnd_append {back : List Char} (h : IsBlanks back) (cs : List Char) :
    trimEnd (cs ++ back) = trimEnd cs := by
  have hreverse : IsBlanks back.reverse := fun c hc => h c (List.mem_reverse.mp hc)
  have hstart := trimStart_append hreverse cs.reverse
  unfold trimStart at hstart
  rw [trimEnd, List.reverse_append, hstart, trimEnd]

/-- A character that is not blank stays in front of what is trimmed at its end. -/
theorem trimEnd_cons_of_not_blank {c : Char} (cs : List Char) (h : isBlank c = false) :
    trimEnd (c :: cs) = c :: trimEnd cs := by
  rw [trimEnd, List.reverse_cons, List.dropWhile_append, trimEnd]
  split
  · rename_i hempty
    rw [List.isEmpty_iff.mp hempty]
    simp [h]
  · rw [List.reverse_append]
    rfl

/-- Blanks around a text make no difference to what is left after trimming. -/
theorem trimChars_of_padded {cs padded : List Char} (h : Padded cs padded) :
    trimChars padded = trimChars cs := by
  obtain ⟨front, back, hfront, hback, rfl⟩ := h
  rw [trimChars, List.append_assoc, trimStart_append hfront, trimChars]
  by_cases hcs : trimStart cs = []
  · have hblank : IsBlanks (cs ++ back) := by
      intro c hc
      rcases List.mem_append.mp hc with hc | hc
      · exact List.dropWhile_eq_nil_iff.mp hcs c hc
      · exact hback c hc
    rw [hcs, show trimStart (cs ++ back) = [] from List.dropWhile_eq_nil_iff.mpr hblank]
  · have happend : trimStart (cs ++ back) = trimStart cs ++ back := by
      unfold trimStart at hcs ⊢
      rw [List.dropWhile_append, if_neg]
      rwa [List.isEmpty_iff]
    rw [happend, trimEnd_append hback]

/-- A text may be trimmed at its beginning before it is trimmed. -/
theorem trimChars_trimStart (cs : List Char) : trimChars (trimStart cs) = trimChars cs := by
  unfold trimChars trimStart
  rw [List.dropWhile_idempotent]

/-! ## A doubled character between pieces -/

/-- The character does not follow itself in the text. -/
def NoDouble (sep : Char) (cs : List Char) : Prop := ¬ [sep, sep] <:+: cs

instance (sep : Char) (cs : List Char) : Decidable (NoDouble sep cs) :=
  inferInstanceAs (Decidable (¬ _))

/-- The character does not follow itself exactly if no two neighbours both are this character. -/
theorem noDouble_iff (sep : Char) (cs : List Char) :
    NoDouble sep cs ↔ cs.IsChain fun a b => ¬ (a = sep ∧ b = sep) := by
  rw [List.isChain_iff_forall_rel_of_append_cons_cons]
  constructor
  · rintro h _ _ front back rfl ⟨rfl, rfl⟩
    exact h ⟨front, back, by simp⟩
  · rintro h ⟨front, back, rfl⟩
    exact h (by simp : _ = front ++ sep :: sep :: back) ⟨rfl, rfl⟩

/-- A text has no doubled character if its two parts have none and another character begins the
second part. -/
theorem NoDouble.append_cons {sep b : Char} {front back : List Char} (hb : b ≠ sep)
    (hfront : NoDouble sep front) (hback : NoDouble sep back) :
    NoDouble sep (front ++ b :: back) := by
  rw [noDouble_iff] at *
  have hcons : (b :: back).IsChain fun a b => ¬ (a = sep ∧ b = sep) :=
    List.isChain_cons.mpr ⟨fun _ _ h => hb h.1, hback⟩
  refine hfront.append hcons ?_
  intro _ _ c hc h
  rw [List.head?_cons, Option.mem_some_iff] at hc
  exact hb (hc.trans h.2)

/-- In the empty text nothing follows itself. -/
theorem noDouble_nil (sep : Char) : NoDouble sep [] := by
  simp [NoDouble]

/-- Another character in front makes no difference to a text without a doubled character. -/
theorem NoDouble.cons {sep b : Char} {cs : List Char} (hb : b ≠ sep) (h : NoDouble sep cs) :
    NoDouble sep (b :: cs) :=
  NoDouble.append_cons hb (noDouble_nil sep) h

/-- Characters in front of a text, none of them the one in question. -/
theorem NoDouble.append_of_notMem {sep : Char} {front cs : List Char} (hfront : sep ∉ front)
    (h : NoDouble sep cs) : NoDouble sep (front ++ cs) := by
  induction front with
  | nil => exact h
  | cons b front ih =>
    obtain ⟨hb, hrest⟩ := List.ne_and_not_mem_of_not_mem_cons hfront
    exact (ih hrest).cons hb.symm

/-- Characters behind a text, none of them the one in question. -/
theorem NoDouble.append_right {sep : Char} {cs back : List Char} (h : NoDouble sep cs)
    (hback : sep ∉ back) : NoDouble sep (cs ++ back) := by
  cases back with
  | nil => rwa [List.append_nil]
  | cons b back =>
    obtain ⟨hb, hrest⟩ := List.ne_and_not_mem_of_not_mem_cons hback
    have hnone : NoDouble sep (back ++ []) := (noDouble_nil sep).append_of_notMem hrest
    rw [List.append_nil] at hnone
    exact h.append_cons hb.symm hnone

/-- A character that is not blank does not occur among blanks. -/
theorem IsBlanks.notMem {cs : List Char} (h : IsBlanks cs) {c : Char} (hc : isBlank c = false) :
    c ∉ cs := by
  intro hmem
  have := h c hmem
  rw [hc] at this
  cases this

/-- Blanks around a text do not make a character follow itself that is not blank. -/
theorem NoDouble.of_padded {sep : Char} {cs padded : List Char} (h : NoDouble sep cs)
    (hsep : isBlank sep = false) (hpadded : Padded cs padded) : NoDouble sep padded := by
  obtain ⟨front, back, hfront, hback, rfl⟩ := hpadded
  rw [List.append_assoc]
  exact (h.append_right (hback.notMem hsep)).append_of_notMem (hfront.notMem hsep)

/-- A text without the doubled character is one piece. -/
theorem splitAtDouble_of_noDouble {sep : Char} {cs : List Char} (h : NoDouble sep cs) :
    splitAtDouble sep cs = [cs] := by
  rw [noDouble_iff] at h
  induction cs with
  | nil => rfl
  | cons c cs ih =>
    cases cs with
    | nil => rfl
    | cons d cs =>
      obtain ⟨hpair, hrest⟩ := List.isChain_cons_cons.mp h
      rw [splitAtDouble, if_neg hpair, ih hrest]

/-- A text is cut at the first doubled character, if another one stands before it. -/
theorem splitAtDouble_append {sep b : Char} {cs : List Char} (hb : b ≠ sep)
    (h : NoDouble sep (cs ++ [b])) (rest : List Char) :
    splitAtDouble sep (cs ++ b :: sep :: sep :: rest) = (cs ++ [b]) :: splitAtDouble sep rest := by
  rw [noDouble_iff] at h
  induction cs with
  | nil => simp [splitAtDouble, hb]
  | cons c cs ih =>
    cases cs with
    | nil =>
      obtain ⟨hpair, hrest⟩ := List.isChain_cons_cons.mp h
      have htail := ih hrest
      rw [List.nil_append] at htail
      rw [List.cons_append, List.nil_append, splitAtDouble, if_neg hpair, htail]
      rfl
    | cons d cs =>
      obtain ⟨hpair, hrest⟩ := List.isChain_cons_cons.mp h
      have htail := ih hrest
      rw [List.cons_append] at htail
      rw [List.cons_append, List.cons_append, splitAtDouble, if_neg hpair, htail]
      rfl

/-- The connective that doubles a character, between blanks. -/
def spaced (sep : Char) : List Char := [' ', sep, sep, ' ']

/-- Cutting undoes joining, up to blanks around the pieces. -/
theorem splitAtDouble_pieces {sep : Char} (hsep : isBlank sep = false) {pieces : List (List Char)}
    (hne : pieces ≠ []) (hpieces : ∀ piece ∈ pieces, NoDouble sep piece) {padded : List Char}
    (h : Padded (joinWith (spaced sep) pieces) padded) :
    List.Forall₂ Padded pieces (splitAtDouble sep padded) := by
  have hblank : (' ' : Char) ≠ sep := by
    rintro rfl
    exact absurd hsep (by decide)
  induction pieces generalizing padded with
  | nil => exact absurd rfl hne
  | cons piece pieces ih =>
    have hpiece := hpieces piece List.mem_cons_self
    cases pieces with
    | nil =>
      rw [splitAtDouble_of_noDouble (hpiece.of_padded hsep h)]
      exact .cons h .nil
    | cons next pieces =>
      obtain ⟨front, back, hfront, hback, rfl⟩ := h
      -- The blank behind the connective goes to the rest, which is padded again.
      have hrest : Padded (joinWith (spaced sep) (next :: pieces))
          (' ' :: joinWith (spaced sep) (next :: pieces) ++ back) :=
        ⟨[' '], back, by simp [IsBlanks]; decide, hback, rfl⟩
      have hfirst : Padded piece (front ++ piece ++ [' ']) :=
        ⟨front, [' '], hfront, by simp [IsBlanks]; decide, rfl⟩
      have htext : front ++ joinWith (spaced sep) (piece :: next :: pieces) ++ back =
          (front ++ piece) ++
            ' ' :: sep :: sep :: (' ' :: joinWith (spaced sep) (next :: pieces) ++ back) := by
        simp [joinWith, spaced]
      rw [htext, splitAtDouble_append hblank (hpiece.of_padded hsep hfirst)]
      refine .cons hfirst (ih (List.cons_ne_nil _ _) ?_ hrest)
      intro other hother
      exact hpieces other (List.mem_cons_of_mem _ hother)

/-- A character that is doubled in no piece is not doubled in the joined text. -/
theorem noDouble_joinWith {sep other : Char} (hblank : (' ' : Char) ≠ sep) (hother : other ≠ sep)
    {pieces : List (List Char)} (hpieces : ∀ piece ∈ pieces, NoDouble sep piece) :
    NoDouble sep (joinWith (spaced other) pieces) := by
  induction pieces with
  | nil => exact noDouble_nil sep
  | cons piece pieces ih =>
    have hpiece := hpieces piece List.mem_cons_self
    have hrest := ih fun other hother => hpieces other (List.mem_cons_of_mem _ hother)
    cases pieces with
    | nil => exact hpiece
    | cons next pieces =>
      rw [joinWith, spaced, List.append_assoc]
      · exact hpiece.append_cons hblank (((hrest.cons hblank).cons hother).cons hother)
      · exact List.cons_ne_nil _ _

/-- The characters of joined texts are those of the texts, joined by those of the separator. -/
theorem toList_joinStrings (sep : String) (texts : List String) :
    (joinStrings sep texts).toList = joinWith sep.toList (texts.map String.toList) := by
  induction texts with
  | nil => rfl
  | cons text texts ih =>
    cases texts with
    | nil => rfl
    | cons next texts =>
      rw [joinStrings, String.toList_append, String.toList_append, ih]
      · simp [joinWith]
      · exact List.cons_ne_nil _ _

/-- A text is blank when nothing is left of it after trimming. -/
theorem trimChars_eq_nil_iff (cs : List Char) : trimChars cs = [] ↔ IsBlanks cs := by
  constructor
  · intro h
    have hstart : IsBlanks (trimStart cs) := List.rdropWhile_eq_nil_iff.mp h
    refine List.dropWhile_eq_nil_iff.mp ?_
    -- What is left after trimming on the left begins with a character that is not blank.
    cases htrim : trimStart cs with
    | nil => exact htrim
    | cons c rest =>
      have hblank := hstart c (htrim ▸ List.mem_cons_self)
      have hfirst := List.head?_dropWhile_not isBlank cs
      unfold trimStart at htrim
      rw [htrim] at hfirst
      exact absurd hblank (by simpa using hfirst)
  · intro h
    rw [trimChars, show trimStart cs = [] from List.dropWhile_eq_nil_iff.mpr h]
    rfl

end Text

/-! ## Atoms and negations -/

section Parts

open Text

/-- Blanks around an atom make no difference. -/
theorem Atom.ofChars_of_padded {cs padded : List Char} (h : Padded cs padded) :
    Atom.ofChars padded = Atom.ofChars cs := by
  unfold Atom.ofChars
  rw [trimChars_of_padded h]

/-- Blanks in front make no difference to an atom. -/
theorem Atom.ofChars_trimStart (cs : List Char) :
    Atom.ofChars (trimStart cs) = Atom.ofChars cs := by
  unfold Atom.ofChars
  rw [trimChars_trimStart]

/-- A blank text is the blank atom. -/
theorem Atom.ofChars_of_isBlanks {cs : List Char} (h : IsBlanks cs) :
    Atom.ofChars cs = .blank := by
  rw [Atom.ofChars, (trimChars_eq_nil_iff cs).mpr h]
  rfl

namespace Conjunct

/-- The text does not begin like a negation: an exclamation mark in front is followed by an
equals sign. -/
def IsPlain (cs : List Char) : Prop :=
  (trimChars cs).head? = some '!' → (trimChars cs)[1]? = some '='

instance (cs : List Char) : Decidable (IsPlain cs) :=
  inferInstanceAs (Decidable (_ → _))

/-- An exclamation mark in front is one negation more, unless an equals sign follows it. -/
theorem stripNegations_mark {cs : List Char} (h : cs.head? ≠ some '=') :
    stripNegations ('!' :: cs) = ((stripNegations cs).1 + 1, (stripNegations cs).2) := by
  rw [stripNegations, if_pos rfl]
  rintro tail rfl
  exact h rfl

/-- A blank in front is not seen by the negations. -/
theorem stripNegations_blank {c : Char} (hc : isBlank c = true) (cs : List Char) :
    stripNegations (c :: cs) = stripNegations cs := by
  have hmark : c ≠ '!' := by
    rintro rfl
    exact absurd hc (by decide)
  rw [stripNegations.eq_def (c :: cs)]
  dsimp only
  rw [if_neg hmark, if_pos hc]

/-- Blanks in front are not seen by the negations. The induction is on the blanks. -/
theorem stripNegations_blanks {front : List Char} (h : IsBlanks front) (cs : List Char) :
    stripNegations (front ++ cs) = stripNegations cs := by
  induction front with
  | nil => rfl
  | cons c front ih =>
    rw [List.cons_append, stripNegations_blank (h c List.mem_cons_self)]
    exact ih fun d hd => h d (List.mem_cons_of_mem _ hd)

/-- A text that does not begin like a negation has none; only blanks in front are dropped. -/
theorem stripNegations_plain {cs : List Char} (h : IsPlain cs) :
    stripNegations cs = (0, trimStart cs) := by
  induction cs with
  | nil => rfl
  | cons c cs ih =>
    cases hc : isBlank c with
    | true =>
      have htrim : trimChars (c :: cs) = trimChars cs := by
        rw [trimChars, trimStart_cons_of_blank cs hc, trimChars]
      unfold IsPlain at h
      rw [htrim] at h
      rw [stripNegations_blank hc, trimStart_cons_of_blank cs hc, ih h]
    | false =>
      rw [trimStart_cons_of_not_blank cs hc]
      by_cases hmark : c = '!'
      · subst hmark
        -- The mark is followed by an equals sign, since the text is an inequality.
        have htrim : trimChars ('!' :: cs) = '!' :: trimEnd cs := by
          rw [trimChars, trimStart_cons_of_not_blank cs hc, trimEnd_cons_of_not_blank cs hc]
        have hsecond : (trimEnd cs).head? = some '=' := by
          have hplain := h (by rw [htrim]; rfl)
          rwa [htrim, List.getElem?_cons_succ, ← List.head?_eq_getElem?] at hplain
        obtain ⟨tail, htail⟩ := List.head?_eq_some_iff.mp hsecond
        obtain ⟨back, hback⟩ : trimEnd cs <+: cs := List.rdropWhile_prefix isBlank cs
        rw [htail] at hback
        subst hback
        rfl
      · unfold stripNegations
        rw [if_neg hmark, if_neg (by rw [hc]; exact Bool.false_ne_true)]

/-- So many exclamation marks in front are so many negations more. -/
theorem stripNegations_marks (n : Nat) {cs : List Char} (h : n ≠ 0 → cs.head? ≠ some '=') :
    stripNegations (List.replicate n '!' ++ cs) =
      ((stripNegations cs).1 + n, (stripNegations cs).2) := by
  induction n with
  | zero => rfl
  | succ n ih =>
    have hhead : (List.replicate n '!' ++ cs).head? ≠ some '=' := by
      cases n with
      | zero => exact h (Nat.succ_ne_zero _)
      | succ n => exact fun heq => by cases heq
    rw [List.replicate_succ, List.cons_append, stripNegations_mark hhead,
      ih fun _ => h (Nat.succ_ne_zero _)]
    rfl

end Conjunct

end Parts

/-! ## Trees -/

open Text

namespace Expression

/-- A literal of an expression tree: a text as an atom, behind a number of exclamation marks. -/
structure Literal where
  marks : Nat
  atom : String
  /-- No connective occurs in the atom. -/
  no_bars : NoDouble '|' atom.toList
  no_ampersands : NoDouble '&' atom.toList
  /-- The atom does not begin like a negation. -/
  plain : Conjunct.IsPlain atom.toList
  /-- The last mark and the atom do not form the operator of an inequality. -/
  apart : marks ≠ 0 → atom.toList.head? ≠ some '='

end Expression

/-- An expression tree: a disjunction of conjunctions of literals. -/
structure Expression where
  disjuncts : List (List Expression.Literal)
  nonempty : disjuncts ≠ []
  conjuncts_nonempty : ∀ conjuncts ∈ disjuncts, conjuncts ≠ []

namespace Expression

/-- The text of a literal. -/
def Literal.text (l : Literal) : String :=
  String.ofList (List.replicate l.marks '!') ++ l.atom

/-- The text of a conjunction. -/
def conjunctionText (conjuncts : List Literal) : String :=
  joinStrings " && " (conjuncts.map Literal.text)

/-- The text of an expression tree. -/
def text (t : Expression) : String :=
  joinStrings " || " (t.disjuncts.map conjunctionText)

/-- What the atom of a literal says. -/
def Literal.atomReading (s : Surroundings) (l : Literal) : Except ConditionError Bool :=
  if isBlankText l.atom then .error .empty
  else Condition.evaluateAtom s (.ofChars l.atom.toList)

/-- What a literal says: each mark turns an answer around and keeps an error. -/
def Literal.reading (s : Surroundings) (l : Literal) : Except ConditionError Bool :=
  (Except.map not)^[l.marks] (l.atomReading s)

/-- Whether a part settles a connective that stops at `b`: it says `b`, or it fails. -/
def settles (b : Bool) : Except ConditionError Bool → Bool
  | .ok answer => answer == b
  | .error _ => true

/-- The first answer that settles a connective, and otherwise the opposite of `b`. -/
def firstSettling (b : Bool) (answers : List (Except ConditionError Bool)) :
    Except ConditionError Bool :=
  (answers.find? (settles b)).getD (.ok !b)

/-- What a conjunction says. -/
def conjunctionReading (s : Surroundings) (conjuncts : List Literal) :
    Except ConditionError Bool :=
  firstSettling false (conjuncts.map (Literal.reading s))

/-- What an expression tree says. -/
def reading (s : Surroundings) (t : Expression) : Except ConditionError Bool :=
  firstSettling true (t.disjuncts.map (conjunctionReading s))

/-! ## What is read from the text of a tree -/

/-- The text of a literal is read as its marks and its atom, also between blanks. -/
theorem ofChars_of_padded_literal (l : Literal) {padded : List Char}
    (h : Padded l.text.toList padded) :
    Conjunct.ofChars padded = ⟨l.marks, .ofChars l.atom.toList⟩ := by
  obtain ⟨front, back, hfront, hback, rfl⟩ := h
  have htext : front ++ l.text.toList ++ back =
      front ++ (List.replicate l.marks '!' ++ (l.atom.toList ++ back)) := by
    simp [Literal.text]
  have hatom : Padded l.atom.toList (l.atom.toList ++ back) :=
    ⟨[], back, .nil, hback, rfl⟩
  have hplain : Conjunct.IsPlain (l.atom.toList ++ back) := by
    rw [Conjunct.IsPlain, trimChars_of_padded hatom]
    exact l.plain
  have hapart : l.marks ≠ 0 → (l.atom.toList ++ back).head? ≠ some '=' := by
    intro hmarks hhead
    cases hcs : l.atom.toList with
    | nil =>
      rw [hcs, List.nil_append] at hhead
      exact absurd (hback _ (List.mem_of_mem_head? hhead)) (by decide)
    | cons c cs =>
      rw [hcs] at hhead
      exact l.apart hmarks (hcs ▸ hhead)
  rw [htext, Conjunct.ofChars, Conjunct.stripNegations_blanks hfront,
    Conjunct.stripNegations_marks _ hapart, Conjunct.stripNegations_plain hplain, Nat.zero_add]
  dsimp only
  rw [Atom.ofChars_trimStart, Atom.ofChars_of_padded hatom]

/-- The atom of a literal says what is read of its text. -/
theorem atomReading_eq (s : Surroundings) (l : Literal) :
    l.atomReading s = Condition.evaluateAtom s (.ofChars l.atom.toList) := by
  unfold Literal.atomReading
  split
  · rename_i hblank
    have hblanks : IsBlanks l.atom.toList := List.all_eq_true.mp hblank
    rw [Atom.ofChars_of_isBlanks hblanks]
    rfl
  · rfl

/-- Marks in pairs cancel. -/
theorem iterate_not (n : Nat) (answer : Except ConditionError Bool) :
    (Except.map not)^[n] answer = answer.map fun b => b ^^ (n % 2 == 1) := by
  induction n with
  | zero => cases answer <;> simp [Except.map]
  | succ n ih =>
    rw [Function.iterate_succ_apply', ih]
    cases answer with
    | error e => rfl
    | ok b =>
      rcases Nat.mod_two_eq_zero_or_one n with hn | hn
      · have hsucc : (n + 1) % 2 = 1 := by omega
        simp [Except.map, hn, hsucc]
      · have hsucc : (n + 1) % 2 = 0 := by omega
        simp [Except.map, hn, hsucc]

/-- A literal with blanks around it is evaluated to what it says. -/
theorem evaluateConjunct_of_padded (s : Surroundings) (l : Literal) {padded : List Char}
    (h : Padded l.text.toList padded) :
    Condition.evaluateConjunct s (.ofChars padded) = l.reading s := by
  rw [ofChars_of_padded_literal l h, Literal.reading, iterate_not, atomReading_eq]
  rfl

/-- Evaluating a conjunction gives the first answer that settles it. -/
theorem evaluateAll_eq (s : Surroundings) (conjuncts : List Conjunct) :
    Condition.evaluateAll s conjuncts =
      firstSettling false (conjuncts.map (Condition.evaluateConjunct s)) := by
  induction conjuncts with
  | nil => rfl
  | cons c conjuncts ih =>
    rw [Condition.evaluateAll, List.map_cons, firstSettling, List.find?_cons, ih]
    cases Condition.evaluateConjunct s c with
    | error e => rfl
    | ok b => cases b <;> rfl

/-- Evaluating a disjunction gives the first answer that settles it. -/
theorem evaluateAny_eq (s : Surroundings) (disjuncts : List (List Conjunct)) :
    Condition.evaluateAny s disjuncts =
      firstSettling true (disjuncts.map (Condition.evaluateAll s)) := by
  induction disjuncts with
  | nil => rfl
  | cons c disjuncts ih =>
    rw [Condition.evaluateAny, List.map_cons, firstSettling, List.find?_cons, ih]
    cases Condition.evaluateAll s c with
    | error e => rfl
    | ok b => cases b <;> rfl

/-- The pieces of a joined text, evaluated one by one. -/
theorem map_pieces {α β : Type} {texts : α → List Char} {evaluated : List Char → β}
    {meaning : α → β} {parts : List α} {pieces : List (List Char)}
    (h : List.Forall₂ Padded (parts.map texts) pieces)
    (hpart : ∀ part ∈ parts, ∀ piece, Padded (texts part) piece → evaluated piece = meaning part) :
    pieces.map evaluated = parts.map meaning := by
  induction parts generalizing pieces with
  | nil =>
    cases h
    rfl
  | cons part parts ih =>
    cases h with
    | cons hpiece hrest =>
      rw [List.map_cons, List.map_cons, hpart part List.mem_cons_self _ hpiece,
        ih hrest fun other hother => hpart other (List.mem_cons_of_mem _ hother)]

/-- A text of a literal doubles no other character than the mark, if its atom does not. -/
theorem noDouble_text_of_notMark {sep : Char} (hsep : sep ≠ '!') {l : Literal}
    (h : NoDouble sep l.atom.toList) : NoDouble sep l.text.toList := by
  rw [Literal.text, String.toList_append, String.toList_ofList]
  refine h.append_of_notMem ?_
  intro hmem
  exact hsep (List.eq_of_mem_replicate hmem)

/-- The characters of a conjunction are those of its literals, with the connective between them.
-/
theorem toList_conjunctionText (conjuncts : List Literal) :
    (conjunctionText conjuncts).toList =
      joinWith (spaced '&') (conjuncts.map fun l => l.text.toList) := by
  rw [conjunctionText, toList_joinStrings, List.map_map]
  rfl

/-- The characters of an expression are those of its conjunctions, with the connective between
them. -/
theorem toList_text (t : Expression) :
    t.text.toList = joinWith (spaced '|') (t.disjuncts.map fun c => (conjunctionText c).toList) := by
  rw [text, toList_joinStrings, List.map_map]
  rfl

/-- The text of a conjunction says what the conjunction says, also between blanks. -/
theorem evaluateAll_of_padded (s : Surroundings) {conjuncts : List Literal}
    (hne : conjuncts ≠ []) {padded : List Char}
    (h : Padded (conjunctionText conjuncts).toList padded) :
    Condition.evaluateAll s ((splitAtDouble '&' padded).map Conjunct.ofChars) =
      conjunctionReading s conjuncts := by
  rw [toList_conjunctionText] at h
  have hampersand : isBlank '&' = false := by decide
  have hpieces := splitAtDouble_pieces hampersand (by simpa using hne) (fun piece hpiece => by
    obtain ⟨l, -, rfl⟩ := List.mem_map.mp hpiece
    exact noDouble_text_of_notMark (by decide) l.no_ampersands) h
  rw [evaluateAll_eq, List.map_map, conjunctionReading]
  congr 1
  refine map_pieces hpieces ?_
  intro l _ piece hpiece
  exact evaluateConjunct_of_padded s l hpiece

/-- No bar follows another one in the text of a conjunction. -/
theorem noDouble_conjunctionText (conjuncts : List Literal) :
    NoDouble '|' (conjunctionText conjuncts).toList := by
  rw [toList_conjunctionText]
  refine noDouble_joinWith (by decide) (by decide) ?_
  intro piece hpiece
  obtain ⟨l, -, rfl⟩ := List.mem_map.mp hpiece
  exact noDouble_text_of_notMark (by decide) l.no_bars

/-- The text of an expression tree says what the tree says: a disjunction the first of its parts
that is true or fails, a conjunction the first of its parts that is false or fails, and a literal
what its atom says, turned around by every mark. -/
theorem evaluate_text (s : Surroundings) (t : Expression) :
    Condition.evaluate s t.text = t.reading s := by
  have hpadded : Padded t.text.toList t.text.toList :=
    ⟨[], [], fun _ hc => absurd hc List.not_mem_nil, fun _ hc => absurd hc List.not_mem_nil, by simp⟩
  have hbar : isBlank '|' = false := by decide
  have hpieces := splitAtDouble_pieces hbar (by simpa using t.nonempty)
    (fun piece hpiece => by
      obtain ⟨conjuncts, -, rfl⟩ := List.mem_map.mp hpiece
      exact noDouble_conjunctionText conjuncts) (toList_text t ▸ hpadded)
  rw [Condition.evaluate, Condition.ofString, Condition.ofChars, evaluateAny_eq, List.map_map,
    reading]
  congr 1
  rw [toList_text]
  refine map_pieces hpieces ?_
  intro conjuncts hmem piece hpiece
  exact evaluateAll_of_padded s (t.conjuncts_nonempty conjuncts hmem) hpiece

/-- A single bar, an inequality sign in front of an atom, and a blank part. -/
example (s : Surroundings) :
    let bar : Literal := ⟨2, "a | b", by decide +kernel, by decide +kernel, by decide +kernel,
      by decide +kernel⟩
    let unequal : Literal := ⟨1, "!= ${x}", by decide +kernel, by decide +kernel,
      by decide +kernel, by decide +kernel⟩
    let blank : Literal := ⟨0, "", by decide +kernel, by decide +kernel, by decide +kernel,
      by decide +kernel⟩
    text ⟨[[bar, unequal], [blank]], by decide, by simp⟩ = "!!a | b && !!= ${x} || " ∧
      blank.reading s = .error .empty :=
  ⟨by decide +kernel, rfl⟩

end Expression

end ApprovalWorkflow
