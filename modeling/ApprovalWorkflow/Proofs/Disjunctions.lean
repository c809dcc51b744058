import ApprovalWorkflow.Proofs.Expressions

/-!
# Guards as disjunctions

A guard that is written as a disjunction says what the first of its parts says that is true or
fails (`evaluate_disjunction`). So a part that is true makes the guard hold unless a part before
it fails: then the guard fails as a whole, and the part that is true is not looked at
(`disjunction_holds`). Which parts these are depends on their order, and only if some part fails
and another one is true.

The parts may be any texts in which no two bars follow each other. Their own blanks, and those
around the bars, make no difference, because they end up at the outer ends of a first and of a
last conjunct (`splitAtDouble_of_padded`, `Conjunct.ofChars_of_padded`).
-/

set_option autoImplicit false

namespace ApprovalWorkflow

open Text

/-! ## Blanks around a conjunction -/

namespace Text

variable {sep : Char} {cs front back padded : List Char}

/-- Cutting a text gives one part at least. -/
theorem splitAtDouble_ne_nil (sep : Char) (cs : List Char) : splitAtDouble sep cs ≠ [] := by
  fun_induction splitAtDouble sep cs <;> simp

/-- A character in front that does not begin a doubled one goes to the first piece. -/
theorem splitAtDouble_cons {c : Char} (h : c = sep → cs.head? ≠ some sep) :
    ∃ piece pieces, splitAtDouble sep cs = piece :: pieces ∧
      splitAtDouble sep (c :: cs) = (c :: piece) :: pieces := by
  cases cs with
  | nil => exact ⟨[], [], rfl, rfl⟩
  | cons d cs =>
    obtain ⟨piece, pieces, hpieces⟩ :=
      List.exists_cons_of_ne_nil (splitAtDouble_ne_nil sep (d :: cs))
    refine ⟨piece, pieces, hpieces, ?_⟩
    have hpair : ¬ (c = sep ∧ d = sep) := by
      rintro ⟨hc, rfl⟩
      exact h hc rfl
    rw [splitAtDouble, if_neg hpair, hpieces]

/-- Blanks behind a text stand behind its last piece. -/
theorem splitAtDouble_append_blanks (hsep : isBlank sep = false) (hback : IsBlanks back)
    (cs : List Char) :
    List.Forall₂ (fun piece longer => ∃ tail, IsBlanks tail ∧ longer = piece ++ tail)
      (splitAtDouble sep cs) (splitAtDouble sep (cs ++ back)) := by
  have hnone : sep ∉ back := hback.notMem hsep
  have hsame : ∀ piece : List Char, ∃ tail, IsBlanks tail ∧ piece = piece ++ tail := fun piece =>
    ⟨[], .nil, by simp⟩
  induction cs using splitAtDouble.induct sep with
  | case1 =>
    have hblanks : NoDouble sep back := by
      simpa using (noDouble_nil sep).append_right hnone
    rw [List.nil_append, splitAtDouble_of_noDouble hblanks]
    exact .cons ⟨back, hback, rfl⟩ .nil
  | case2 c =>
    have hsingle : NoDouble sep ([c] ++ back) := NoDouble.append_right (by
      rw [noDouble_iff]
      exact List.isChain_singleton c) hnone
    rw [splitAtDouble_of_noDouble hsingle]
    exact .cons ⟨back, hback, rfl⟩ .nil
  | case3 c d cs hpair ih =>
    rw [List.cons_append, List.cons_append, splitAtDouble, if_pos hpair, splitAtDouble,
      if_pos hpair]
    exact .cons (hsame []) ih
  | case4 c d cs _ hnil => exact absurd hnil (splitAtDouble_ne_nil sep (d :: cs))
  | case5 c d cs hpair _ _ _ ih =>
    have hapart : ∀ rest : List Char, c = sep → (d :: cs ++ rest).head? ≠ some sep := by
      intro rest hc hhead
      exact hpair ⟨hc, Option.some_inj.mp hhead⟩
    have hapart' : c = sep → (d :: cs).head? ≠ some sep := by simpa using hapart []
    obtain ⟨piece, pieces, hpieces, hshort⟩ := splitAtDouble_cons hapart'
    obtain ⟨longer, others, hothers, hlong⟩ := splitAtDouble_cons (hapart back)
    rw [hpieces, hothers] at ih
    rw [List.cons_append, hshort, hlong]
    cases ih with
    | cons hfirst hrest =>
      obtain ⟨tail, htail, rfl⟩ := hfirst
      exact .cons ⟨tail, htail, rfl⟩ hrest

/-- Blanks around a text stand around its first and its last piece. -/
theorem splitAtDouble_of_padded (hsep : isBlank sep = false) (h : Padded cs padded) :
    List.Forall₂ Padded (splitAtDouble sep cs) (splitAtDouble sep padded) := by
  obtain ⟨front, back, hfront, hback, rfl⟩ := h
  rw [List.append_assoc]
  induction front with
  | nil =>
    refine (splitAtDouble_append_blanks hsep hback cs).imp ?_
    rintro piece longer ⟨tail, htail, rfl⟩
    exact ⟨[], tail, IsBlanks.nil, htail, rfl⟩
  | cons c front ih =>
    have hc : isBlank c = true := hfront c List.mem_cons_self
    have hne : c = sep → (front ++ (cs ++ back)).head? ≠ some sep := by
      rintro rfl
      rw [hsep] at hc
      cases hc
    obtain ⟨longer, others, hothers, hlong⟩ := splitAtDouble_cons hne
    have hrest := ih fun d hd => hfront d (List.mem_cons_of_mem _ hd)
    rw [hothers] at hrest
    rw [List.cons_append, hlong]
    generalize splitAtDouble sep cs = pieces at hrest
    cases hrest with
    | cons hfirst hrest =>
      obtain ⟨start, tail, hstart, htail, rfl⟩ := hfirst
      exact .cons ⟨c :: start, tail, List.forall_mem_cons.mpr ⟨hc, hstart⟩, htail, rfl⟩ hrest

end Text

namespace Conjunct

/-- Blanks behind a conjunct make no difference to its negations, and stay behind its atom. -/
theorem stripNegations_append_blanks {back : List Char} (hback : IsBlanks back) (cs : List Char) :
    ∃ tail, IsBlanks tail ∧ stripNegations (cs ++ back) =
      ((stripNegations cs).1, (stripNegations cs).2 ++ tail) := by
  induction cs with
  | nil =>
    have hnone := stripNegations_blanks hback []
    rw [List.append_nil] at hnone
    exact ⟨[], .nil, by rw [List.nil_append, hnone, List.append_nil]⟩
  | cons c cs ih =>
    obtain ⟨tail, htail, hrest⟩ := ih
    rw [List.cons_append]
    by_cases hmark : c = '!'
    · subst hmark
      by_cases hequals : cs.head? = some '='
      · obtain ⟨after, rfl⟩ := List.head?_eq_some_iff.mp hequals
        exact ⟨back, hback, rfl⟩
      · have hapart : (cs ++ back).head? ≠ some '=' := by
          rw [List.head?_append]
          cases cs with
          | nil => exact fun hhead => hback.notMem (by decide) (List.mem_of_mem_head? hhead)
          | cons d cs => exact hequals
        refine ⟨tail, htail, ?_⟩
        rw [stripNegations_mark hapart, stripNegations_mark hequals, hrest]
    · cases hc : isBlank c with
      | true =>
        refine ⟨tail, htail, ?_⟩
        rw [stripNegations_blank hc, stripNegations_blank hc, hrest]
      | false =>
        refine ⟨back, hback, ?_⟩
        unfold stripNegations
        rw [if_neg hmark, if_neg hmark, if_neg (by simp [hc]), if_neg (by simp [hc])]
        rfl

/-- Blanks around a conjunct make no difference. -/
theorem ofChars_of_padded {cs padded : List Char} (h : Padded cs padded) :
    ofChars padded = ofChars cs := by
  obtain ⟨front, back, hfront, hback, rfl⟩ := h
  obtain ⟨tail, htail, hstrip⟩ := stripNegations_append_blanks hback cs
  have hatom : Padded (stripNegations cs).2 ((stripNegations cs).2 ++ tail) :=
    ⟨[], tail, .nil, htail, rfl⟩
  rw [ofChars, List.append_assoc, stripNegations_blanks hfront, hstrip]
  dsimp only
  rw [Atom.ofChars_of_padded hatom, ofChars]

end Conjunct

/-! ## The answer that settles a disjunction -/

namespace Expression

section

variable {α : Type} {answer : α → Except ConditionError Bool} {parts : List α}

/-- A part that fails settles a disjunction, and what stands behind it does not count. -/
@[simp] theorem firstSettling_cons_error (e : ConditionError)
    (rest : List (Except ConditionError Bool)) :
    firstSettling true (.error e :: rest) = .error e := rfl

/-- A part that is true settles a disjunction, and what stands behind it does not count. -/
@[simp] theorem firstSettling_cons_true (rest : List (Except ConditionError Bool)) :
    firstSettling true (.ok true :: rest) = .ok true := rfl

/-- A part that is false leaves a disjunction to what stands behind it. -/
@[simp] theorem firstSettling_cons_false (rest : List (Except ConditionError Bool)) :
    firstSettling true (.ok false :: rest) = firstSettling true rest := rfl

/-- A disjunction is true if one of its parts is, and all parts before that one are false. -/
theorem firstSettling_eq_true_iff :
    firstSettling true (parts.map answer) = .ok true ↔
      ∃ before part after, parts = before ++ part :: after ∧ answer part = .ok true ∧
        ∀ earlier ∈ before, answer earlier = .ok false := by
  induction parts with
  | nil => simp [firstSettling]
  | cons first parts ih =>
    rw [List.map_cons]
    cases hfirst : answer first with
    | error e =>
      refine ⟨fun h => (by cases h), ?_⟩
      rintro ⟨before, part, after, hsplit, hpart, hbefore⟩
      cases before <;> cases hsplit
      · simp [hfirst] at hpart
      · simp [hfirst] at hbefore
    | ok b =>
      cases b with
      | false =>
        rw [firstSettling_cons_false, ih]
        constructor
        · rintro ⟨before, part, after, rfl, hpart, hbefore⟩
          exact ⟨first :: before, part, after, rfl, hpart,
            List.forall_mem_cons.mpr ⟨hfirst, hbefore⟩⟩
        · rintro ⟨before, part, after, hsplit, hpart, hbefore⟩
          cases before <;> cases hsplit
          · simp [hfirst] at hpart
          · exact ⟨_, part, after, rfl, hpart, (List.forall_mem_cons.mp hbefore).2⟩
      | true => exact ⟨fun _ => ⟨[], first, parts, rfl, hfirst, by simp⟩, fun _ => rfl⟩

/-- A disjunction with a part that is true is true, unless a part fails that no true one stands
before and some true one stands behind. -/
theorem firstSettling_eq_exists_true_iff :
    (firstSettling true (parts.map answer) = .ok true ↔ ∃ part ∈ parts, answer part = .ok true) ↔
      ∀ before part after e, parts = before ++ part :: after → answer part = .error e →
        (∃ earlier ∈ before, answer earlier = .ok true) ∨
          ∀ later ∈ after, answer later ≠ .ok true := by
  induction parts with
  | nil => simp [firstSettling]
  | cons first parts ih =>
    rw [List.map_cons]
    cases hfirst : answer first with
    | error e =>
      constructor
      · intro h before part after e' hsplit _
        refine .inr fun later hlater htrue => ?_
        have hmem : later ∈ first :: parts := by
          rw [hsplit]
          exact List.mem_append_right _ (List.mem_cons_of_mem _ hlater)
        cases h.mpr ⟨later, hmem, htrue⟩
      · intro h
        have hrest := (h [] first parts e rfl hfirst).resolve_left (by simp)
        refine ⟨fun hholds => (by cases hholds), ?_⟩
        rintro ⟨part, hpart, htrue⟩
        rcases List.mem_cons.mp hpart with rfl | hpart
        · simp [hfirst] at htrue
        · exact absurd htrue (hrest part hpart)
    | ok b =>
      cases b with
      | false =>
        have hexists : (∃ part ∈ first :: parts, answer part = .ok true) ↔
            ∃ part ∈ parts, answer part = .ok true := by simp [hfirst]
        rw [firstSettling_cons_false, hexists, ih]
        constructor
        · intro h before part after e hsplit hpart
          cases before <;> cases hsplit
          · simp [hfirst] at hpart
          · simpa [hfirst] using h _ part after e rfl hpart
        · rintro h before part after e rfl hpart
          simpa [hfirst] using h (first :: before) part after e rfl hpart
      | true =>
        refine ⟨?_, fun _ => ⟨fun _ => ⟨first, List.mem_cons_self, hfirst⟩, fun _ => rfl⟩⟩
        intro _ before part after e hsplit hpart
        cases before <;> cases hsplit
        · simp [hfirst] at hpart
        · exact .inl ⟨first, List.mem_cons_self, hfirst⟩

/-- If no part fails, the disjunction is true as soon as a part is. -/
theorem firstSettling_eq_true_iff_of_no_error
    (h : ∀ part ∈ parts, ∀ e, answer part ≠ .error e) :
    firstSettling true (parts.map answer) = .ok true ↔ ∃ part ∈ parts, answer part = .ok true :=
  firstSettling_eq_exists_true_iff.mpr fun _ part _ e hsplit hpart =>
    absurd hpart (h part (hsplit ▸ List.mem_append_right _ List.mem_cons_self) e)

/-- A disjunction is the same in every order of its parts if none of them fails or none of them
is true, and only then. -/
theorem firstSettling_perm_iff :
    (∀ other : List α, other.Perm parts → (firstSettling true (other.map answer) = .ok true ↔
        firstSettling true (parts.map answer) = .ok true)) ↔
      (∀ part ∈ parts, ∀ e, answer part ≠ .error e) ∨ ∀ part ∈ parts, answer part ≠ .ok true := by
  constructor
  · intro h
    by_contra hboth
    push Not at hboth
    obtain ⟨⟨bad, hbad, e, hfails⟩, good, hgood, htrue⟩ := hboth
    have hne : good ≠ bad := by
      rintro rfl
      simp [htrue] at hfails
    -- The failing part and the true one are brought to the front, in either order.
    obtain ⟨before, after, hsplit⟩ := List.append_of_mem hbad
    have hothers : good ∈ before ++ after := by
      rw [hsplit, List.mem_append, List.mem_cons] at hgood
      simpa [hne] using hgood
    obtain ⟨front, back, hrest⟩ := List.append_of_mem hothers
    have hbadFirst : (bad :: good :: (front ++ back)).Perm parts := by
      rw [hsplit]
      refine .trans (.cons bad ?_) List.perm_middle.symm
      rw [hrest]
      exact List.perm_middle.symm
    have hgoodFirst : (good :: bad :: (front ++ back)).Perm parts :=
      (List.Perm.swap bad good _).trans hbadFirst
    have hholds := (h _ hgoodFirst).mp (by simp [htrue])
    have hlost := (h _ hbadFirst).mpr hholds
    simp [hfails] at hlost
  · rintro (hnone | hnone) other hperm
    · rw [firstSettling_eq_true_iff_of_no_error hnone, firstSettling_eq_true_iff_of_no_error
        fun part hpart => hnone part (hperm.mem_iff.mp hpart)]
      simp only [hperm.mem_iff]
    · have hlost : ∀ texts : List α, (∀ part ∈ texts, answer part ≠ .ok true) →
          firstSettling true (texts.map answer) ≠ .ok true := by
        intro texts hnone hholds
        obtain ⟨before, part, after, rfl, hpart, -⟩ := firstSettling_eq_true_iff.mp hholds
        exact hnone part (by simp) hpart
      exact iff_of_false (hlost other fun part hpart => hnone part (hperm.mem_iff.mp hpart))
        (hlost parts hnone)

end

end Expression

/-! ## Disjunctions -/

namespace Condition

open Expression

/-- A text without a doubled bar says what its conjunction says, also between blanks. -/
theorem evaluate_of_noDouble (s : Surroundings) {text : String} (h : NoDouble '|' text.toList)
    {padded : List Char} (hpadded : Padded text.toList padded) :
    evaluateAll s ((splitAtDouble '&' padded).map Conjunct.ofChars) = evaluate s text := by
  have hpieces : List.Forall₂ Padded ((splitAtDouble '&' text.toList).map id)
      (splitAtDouble '&' padded) := by
    simpa using splitAtDouble_of_padded (by decide) hpadded
  have hconjuncts : (splitAtDouble '&' padded).map Conjunct.ofChars =
      (splitAtDouble '&' text.toList).map Conjunct.ofChars :=
    map_pieces hpieces fun _ _ _ hpiece => Conjunct.ofChars_of_padded hpiece
  rw [hconjuncts, evaluate, ofString, ofChars, splitAtDouble_of_noDouble h, List.map_singleton,
    evaluateAny]
  split <;> simp_all [evaluateAny]

/-- A disjunction says what the first of its parts says that is true or fails. -/
theorem evaluate_disjunction (s : Surroundings) {parts : List String} (hne : parts ≠ [])
    (hparts : ∀ part ∈ parts, NoDouble '|' part.toList) :
    evaluate s (joinStrings " || " parts) = firstSettling true (parts.map (evaluate s)) := by
  have hbar : isBlank '|' = false := by decide
  have htext : (joinStrings " || " parts).toList =
      joinWith (spaced '|') (parts.map String.toList) := toList_joinStrings _ _
  have hpieces : List.Forall₂ Padded (parts.map String.toList)
      (splitAtDouble '|' (joinWith (spaced '|') (parts.map String.toList))) :=
    splitAtDouble_pieces hbar (by simpa using hne) (fun piece hpiece => by
      obtain ⟨part, hpart, rfl⟩ := List.mem_map.mp hpiece
      exact hparts part hpart) (Padded.refl _)
  rw [evaluate, ofString, ofChars, htext, evaluateAny_eq, List.map_map]
  congr 1
  refine map_pieces hpieces ?_
  intro part hpart piece hpiece
  exact evaluate_of_noDouble s (hparts part hpart) hpiece

/-- A guard holds if and only if it says so without failing. -/
theorem holds_iff (s : Surroundings) (text : String) :
    (holds s text).value = true ↔ evaluate s text = .ok true := by
  unfold holds
  cases evaluate s text with
  | error e => simp
  | ok b => simp [pure]

/-- A guard that is a disjunction holds if and only if one of its parts is true and all parts
before that one are false. That any true part makes it hold is so exactly if every part that
fails has a true one before it or none behind it. And the order of the parts makes no difference
exactly if no part fails or no part is true. -/
theorem disjunction_holds (s : Surroundings) {parts : List String} (hne : parts ≠ [])
    (hparts : ∀ part ∈ parts, NoDouble '|' part.toList) :
    ((holds s (joinStrings " || " parts)).value = true ↔
      ∃ before part after, parts = before ++ part :: after ∧ evaluate s part = .ok true ∧
        ∀ earlier ∈ before, evaluate s earlier = .ok false) ∧
    (((holds s (joinStrings " || " parts)).value = true ↔
        ∃ part ∈ parts, evaluate s part = .ok true) ↔
      ∀ before part after e, parts = before ++ part :: after → evaluate s part = .error e →
        (∃ earlier ∈ before, evaluate s earlier = .ok true) ∨
          ∀ later ∈ after, evaluate s later ≠ .ok true) ∧
    ((∀ other : List String, other.Perm parts →
        (holds s (joinStrings " || " other)).value = (holds s (joinStrings " || " parts)).value) ↔
      (∀ part ∈ parts, ∀ e, evaluate s part ≠ .error e) ∨
        ∀ part ∈ parts, evaluate s part ≠ .ok true) := by
  have hiff : ∀ other : List String, other.Perm parts →
      ((holds s (joinStrings " || " other)).value = true ↔
        firstSettling true (other.map (evaluate s)) = .ok true) := by
    intro other hperm
    have hother : other ≠ [] := fun hnil => hne (hnil ▸ hperm).nil_eq.symm
    rw [holds_iff, evaluate_disjunction s hother fun part hpart =>
      hparts part (hperm.mem_iff.mp hpart)]
  have hself := hiff parts (.refl parts)
  refine ⟨hself.trans firstSettling_eq_true_iff, ?_, ?_⟩
  · rw [hself]
    exact firstSettling_eq_exists_true_iff
  · rw [← firstSettling_perm_iff]
    refine forall₂_congr fun other hperm => ?_
    rw [Bool.eq_iff_iff, hiff other hperm, hself]

/-- A part that fails behind a true one does no harm, also when another true one follows. -/
theorem disjunction_holds_vacation :
    let s : Surroundings := ⟨.obj [("urgent", .bool true)], []⟩
    let parts := ["${urgent} == false", "${urgent}", "${amount} > 1000", "${amount} == null"]
    evaluate s "${amount} > 1000" = .error (.notNumeric "null") ∧
      (holds s (joinStrings " || " parts)).value = true ∧
      ¬ ∀ other : List String, other.Perm parts →
        (holds s (joinStrings " || " other)).value = (holds s (joinStrings " || " parts)).value := by
  intro s parts
  have hne : parts ≠ [] := List.cons_ne_nil _ _
  obtain ⟨hholds, -, horder⟩ := disjunction_holds s hne (by decide +kernel)
  have hfails : evaluate s "${amount} > 1000" = .error (.notNumeric "null") := by decide +kernel
  have htrue : evaluate s "${urgent}" = .ok true := by decide +kernel
  have hfalse : evaluate s "${urgent} == false" = .ok false := by decide +kernel
  refine ⟨hfails, hholds.mpr ⟨["${urgent} == false"], "${urgent}", _, rfl, htrue, ?_⟩, ?_⟩
  · simpa using hfalse
  · intro hsame
    rcases horder.mp hsame with hnone | hnone
    · exact hnone _ (by simp [parts]) _ hfails
    · exact hnone _ (by simp [parts]) htrue

/-- A true part behind one that fails is lost, although the same parts the other way round
hold. -/
theorem disjunct_lost :
    let s : Surroundings := ⟨.obj [], []⟩
    let parts := ["${x} > 5", "true"]
    evaluate s "true" = .ok true ∧ (holds s (joinStrings " || " parts)).value = false ∧
      (holds s (joinStrings " || " parts.reverse)).value = true := by
  decide +kernel

end Condition

end ApprovalWorkflow
