import ApprovalWorkflow.Proofs.Expressions

/-!
# Quoted texts in comparisons

A comparison is cut at the first place where an operator of the search order is found, and
quotes protect nothing from being cut. So an entry of the input is compared with a quoted text
as it should be if the operator that is searched for first is not found within the quotes: with
`==` behind the name always, and otherwise unless the quoted text contains `==`, or `!=` if it
stands before `!=` (`quoted_comparisons`). Other operators within the quotes do no harm.

If the text is cut within the quotes, a quote is left on both sides of the cut
(`cut?_within_quotes`). Then neither side is a reference to the entry, and what the comparison
says does not depend on the entry at all (`IsCutWithinQuotes.evaluate_eq`).
-/

set_option autoImplicit false

namespace ApprovalWorkflow

/-! ## The first occurrence of a pattern -/

namespace Text

variable {pattern front cs before rest : List Char} {d : Char}

/-- There is nothing behind a pattern exactly if the text does not begin with it. -/
theorem after?_eq_none_iff : after? pattern cs = none ↔ ¬ pattern <+: cs := by
  rw [Option.eq_none_iff_forall_not_mem]
  constructor
  · rintro h ⟨rest, hrest⟩
    exact h rest (List.isPrefixOf?_eq_some_iff_append_eq.mpr hrest)
  · intro h rest hrest
    exact h ⟨rest, List.isPrefixOf?_eq_some_iff_append_eq.mp hrest⟩

/-- A text is not cut exactly if the pattern does not occur in it. -/
theorem cut?_eq_none_iff : cut? pattern cs = none ↔ ¬ pattern <:+: cs := by
  induction cs with
  | nil =>
    rw [cut?, Option.map_eq_none_iff, after?_eq_none_iff, List.prefix_nil, List.infix_nil]
  | cons c cs ih =>
    rw [List.infix_cons_iff, not_or, ← ih, ← after?_eq_none_iff, cut?]
    cases after? pattern (c :: cs) <;> simp

/-- A character that is not in the pattern keeps what stands behind it out of an occurrence that
begins before it. -/
theorem prefix_append_cons (front : List Char) (hd : d ∉ pattern)
    (h : pattern <+: front ++ d :: cs) : pattern <+: front := by
  rcases List.prefix_or_prefix_of_prefix h (List.prefix_append front (d :: cs)) with h' | h'
  · exact h'
  · obtain ⟨tail, rfl⟩ := h'
    cases tail with
    | nil => simp
    | cons e tail =>
      obtain ⟨rfl, -⟩ := List.cons_prefix_cons.mp ((List.prefix_append_right_inj front).mp h)
      simp at hd

/-- A pattern occurs in a text exactly if it occurs on one side of a character that it does not
have. -/
theorem infix_append_cons_iff (hd : d ∉ pattern) :
    pattern <:+: front ++ d :: cs ↔ pattern <:+: front ∨ pattern <:+: cs := by
  constructor
  · induction front with
    | nil =>
      intro h
      rcases List.infix_cons_iff.mp h with h | h
      · exact .inl (prefix_append_cons [] hd h).isInfix
      · exact .inr h
    | cons c front ih =>
      intro h
      rw [List.cons_append, List.infix_cons_iff] at h
      rcases h with h | h
      · exact .inl (prefix_append_cons (c :: front) hd h).isInfix
      · rw [List.infix_cons_iff]
        exact (ih h).imp .inr id
  · rintro (h | h)
    · exact List.infix_append_of_infix_left h
    · exact List.infix_append_of_infix_right (List.infix_cons h)

/-- Without an occurrence before a character that is not in the pattern, the first one is found
behind that character. -/
theorem cut?_append_cons (hd : d ∉ pattern) (hfront : ¬ pattern <:+: front) :
    cut? pattern (front ++ d :: cs) =
      (cut? pattern cs).map fun (before, rest) => (front ++ d :: before, rest) := by
  induction front with
  | nil =>
    have hnone : after? pattern (d :: cs) = none := by
      rw [after?_eq_none_iff]
      exact fun h => hfront (prefix_append_cons [] hd h).isInfix
    rw [List.nil_append, cut?, hnone]
    rfl
  | cons c front ih =>
    have hnone : after? pattern (c :: (front ++ d :: cs)) = none := by
      rw [after?_eq_none_iff]
      exact fun h => hfront (prefix_append_cons (c :: front) hd h).isInfix
    have hrest : ¬ pattern <:+: front := fun h => hfront (List.infix_cons h)
    rw [List.cons_append, cut?, hnone]
    dsimp only
    rw [ih hrest, Option.map_map]
    rfl

/-- A text that begins with the pattern is cut at its beginning. -/
theorem cut?_self (pattern rest : List Char) :
    cut? pattern (pattern ++ rest) = some ([], rest) := by
  have hafter : after? pattern (pattern ++ rest) = some rest :=
    List.isPrefixOf?_eq_some_iff_append_eq.mpr rfl
  cases h : pattern ++ rest with
  | nil =>
    rw [h] at hafter
    rw [cut?, hafter]
    rfl
  | cons c cs =>
    rw [h] at hafter
    rw [cut?, hafter]

/-- The first occurrence stays the first one when the text goes on. -/
theorem cut?_append_right (h : cut? pattern cs = some (before, rest)) (back : List Char) :
    cut? pattern (cs ++ back) = some (before, rest ++ back) := by
  induction cs generalizing before with
  | nil =>
    obtain ⟨tail, hafter, hpair⟩ := Option.map_eq_some_iff.mp h
    obtain ⟨rfl, rfl⟩ := Prod.mk.inj hpair
    obtain ⟨rfl, rfl⟩ := List.append_eq_nil_iff.mp
      (List.isPrefixOf?_eq_some_iff_append_eq.mp hafter)
    exact cut?_self [] back
  | cons c cs ih =>
    rw [cut?] at h
    cases hafter : after? pattern (c :: cs) with
    | some tail =>
      rw [hafter] at h
      obtain ⟨rfl, rfl⟩ := Prod.mk.inj (Option.some.inj h)
      rw [← List.isPrefixOf?_eq_some_iff_append_eq.mp hafter, List.append_assoc]
      exact cut?_self pattern (tail ++ back)
    | none =>
      rw [hafter] at h
      obtain ⟨⟨before, _⟩, hcut, hpair⟩ := Option.map_eq_some_iff.mp h
      obtain ⟨rfl, rfl⟩ := Prod.mk.inj hpair
      -- The pattern is found in the rest of the text, so that it is too short to reach its end.
      have hinfix : pattern <:+: cs := by
        by_contra hnone
        rw [cut?_eq_none_iff.mpr hnone] at hcut
        cases hcut
      have hnone : after? pattern (c :: (cs ++ back)) = none := by
        rw [after?_eq_none_iff] at hafter ⊢
        intro hprefix
        refine hafter (List.prefix_of_prefix_length_le hprefix
          (List.prefix_append (c :: cs) back) ?_)
        exact hinfix.length_le.trans (Nat.le_succ _)
      rw [List.cons_append, cut?, hnone]
      dsimp only
      rw [ih hcut]
      rfl

/-- A pattern that occurs within quotes is found there if it does not occur before them, and a
quote is left on both sides. -/
theorem cut?_within_quotes (hquote : '"' ∉ pattern) (hfront : ¬ pattern <:+: front)
    (hcs : pattern <:+: cs) (back : List Char) :
    ∃ before rest, cut? pattern (front ++ '"' :: (cs ++ '"' :: back)) = some (before, rest) ∧
      '"' ∈ before ∧ '"' ∈ rest := by
  cases hcut : cut? pattern cs with
  | none => exact absurd hcs (cut?_eq_none_iff.mp hcut)
  | some parts =>
    obtain ⟨before, rest⟩ := parts
    refine ⟨front ++ '"' :: before, rest ++ '"' :: back, ?_, by simp, by simp⟩
    rw [cut?_append_cons hquote hfront, cut?_append_right hcut]
    rfl

/-- A text that begins and ends with characters that are not blank has no blanks around it. -/
theorem trimChars_of_ends {c : Char} (hc : isBlank c = false) (hd : isBlank d = false)
    (cs : List Char) : trimChars (c :: (cs ++ [d])) = c :: (cs ++ [d]) := by
  rw [trimChars, trimStart_cons_of_not_blank _ hc, trimEnd_cons_of_not_blank _ hc, trimEnd,
    List.reverse_append, List.reverse_singleton, List.singleton_append, List.dropWhile_cons_of_neg,
    List.reverse_cons, List.reverse_reverse]
  simp [hd]

/-- A text without blanks stays as it is when it is trimmed. -/
theorem trimChars_of_no_blanks (h : ∀ c ∈ cs, isBlank c = false) : trimChars cs = cs := by
  have hdrop : ∀ l : List Char, (∀ c ∈ l, isBlank c = false) → l.dropWhile isBlank = l := by
    rintro (_ | ⟨c, l⟩) hl
    · rfl
    · rw [List.dropWhile_cons_of_neg]
      simp [hl c]
  rw [trimChars, trimEnd, trimStart, hdrop cs h, hdrop cs.reverse (by simpa using h),
    List.reverse_reverse]

/-- Trimming keeps every character that is not blank. -/
theorem mem_trimChars (hd : isBlank d = false) : d ∈ trimChars cs ↔ d ∈ cs := by
  have hdrop : ∀ l : List Char, d ∈ l.dropWhile isBlank ↔ d ∈ l := by
    intro l
    refine ⟨fun h => (List.dropWhile_sublist isBlank).mem h, fun h => ?_⟩
    rw [← List.takeWhile_append_dropWhile (p := isBlank) (l := l), List.mem_append] at h
    refine h.resolve_left fun hfront => ?_
    have := List.mem_takeWhile_imp hfront
    rw [hd] at this
    cases this
  rw [trimChars, trimEnd, List.mem_reverse, hdrop, List.mem_reverse, trimStart, hdrop]

end Text

/-! ## Sides of a comparison -/

open Text

namespace Term

/-- Blanks around a term make no difference. -/
theorem ofChars_of_padded {cs padded : List Char} (h : Padded cs padded) :
    ofChars padded = ofChars cs := by
  unfold ofChars
  rw [trimChars_of_padded h]

/-- A text between quotes is read as what stands between them. -/
theorem ofChars_quoted (cs : List Char) :
    ofChars ('"' :: (cs ++ ['"'])) = .text (String.ofList cs) := by
  have hquote : isBlank '"' = false := by decide
  simp [ofChars, trimChars_of_ends hquote hquote, unquoted?]

/-- A reference is read as the name between its braces. -/
theorem ofChars_reference {name : List Char} (h : trimChars name = name) :
    ofChars ('$' :: '{' :: (name ++ ['}'])) = .reference (String.ofList name) := by
  have hends : trimChars ('$' :: '{' :: (name ++ ['}'])) =
      '$' :: '{' :: (name ++ ['}']) :=
    trimChars_of_ends (c := '$') (by decide) (by decide) ('{' :: name)
  have hnumber : number? ('$' :: '{' :: (name ++ ['}'])) = none := rfl
  simp [ofChars, hends, unquoted?, hnumber, referenceName?, h]

/-- A text with a quote in it is no reference to a name without one. -/
theorem ofChars_ne_reference {cs : List Char} {name : String} (hcs : '"' ∈ cs)
    (hname : '"' ∉ name.toList) : ofChars cs ≠ .reference name := by
  intro h
  have hquote : isBlank '"' = false := by decide
  have hfound : referenceName? (trimChars cs) = some name.toList := by
    unfold ofChars at h
    dsimp only at h
    split at h
    · cases h
    · split_ifs at h
      split at h
      · cases h
      · split at h
        · rename_i inner hinner
          cases h
          rwa [String.toList_ofList]
        · cases h
  rw [← mem_trimChars hquote] at hcs
  unfold referenceName? at hfound
  split at hfound
  · rename_i rest htrim
    split_ifs at hfound with hlast
    have hinner : trimChars rest.dropLast = name.toList := Option.some.inj hfound
    refine hname ?_
    rw [htrim] at hcs
    obtain ⟨front, rfl⟩ := List.getLast?_eq_some_iff.mp hlast
    rw [← hinner, mem_trimChars hquote, List.dropLast_concat]
    simpa using hcs
  · cases hfound

end Term

/-! ## The text of a comparison -/

namespace Condition

/-- A name of an entry of the input, such as a word of letters: it has no blanks, and no
characters that stand for something in a guard. -/
def IsName (name : String) : Prop :=
  ∀ c ∈ name.toList, isBlank c = false ∧ c ∉ ['.', '=', '!', '&', '|', '"']

instance (name : String) : Decidable (IsName name) := List.decidableBAll _ name.toList

/-- The text of a reference to an entry of the input. -/
def referenceText (name : String) : String := "$\x7b" ++ name ++ "\x7d"

/-- A text between quotes. -/
def quotedText (literal : String) : String := "\"" ++ literal ++ "\""

/-- The text of a comparison. -/
def comparisonText (op : Comparator) (left right : String) : String :=
  left ++ " " ++ String.ofList op.symbol ++ " " ++ right

/-- The text of an atom or of a side of it. No connective occurs in it, it begins and ends with
characters that are not blank, and it is no negation. -/
structure IsAtomic (text : String) : Prop where
  no_bars : NoDouble '|' text.toList
  no_ampersands : NoDouble '&' text.toList
  ends : ∃ c inner d, text.toList = c :: (inner ++ [d]) ∧ isBlank c = false ∧ isBlank d = false ∧
    c ≠ '!'

section

variable {name literal left right : String} {op : Comparator} {pattern : List Char}

/-- The characters of a reference are those of its name, between braces. -/
theorem toList_referenceText (name : String) :
    (referenceText name).toList = '$' :: '{' :: (name.toList ++ ['}']) := by
  simp [referenceText]

/-- The characters of a quoted text are its own, between quotes. -/
theorem toList_quotedText (literal : String) :
    (quotedText literal).toList = '"' :: (literal.toList ++ ['"']) := by
  simp [quotedText]

/-- The characters of a comparison are those of its sides, with the operator between blanks. -/
theorem toList_comparisonText (op : Comparator) (left right : String) :
    (comparisonText op left right).toList =
      left.toList ++ ' ' :: (op.symbol ++ ' ' :: right.toList) := by
  simp [comparisonText]

/-- A pattern without blanks occurs in a comparison if it occurs in a side or in the operator. -/
theorem infix_comparisonText_iff (hblank : ' ' ∉ pattern) :
    pattern <:+: (comparisonText op left right).toList ↔
      pattern <:+: left.toList ∨ pattern <:+: op.symbol ∨ pattern <:+: right.toList := by
  rw [toList_comparisonText, infix_append_cons_iff hblank, infix_append_cons_iff hblank]

/-- A pattern without quotes occurs in a quoted text if it occurs within the quotes. -/
theorem infix_quotedText_iff (hne : pattern ≠ []) (hquote : '"' ∉ pattern) :
    pattern <:+: (quotedText literal).toList ↔ pattern <:+: literal.toList := by
  rw [toList_quotedText, ← List.nil_append ('"' :: _), infix_append_cons_iff hquote,
    infix_append_cons_iff hquote, List.infix_nil]
  simp [hne]

/-- Neither a connective nor the operator of an equation or an inequality occurs in a
reference. -/
theorem not_infix_referenceText (hname : IsName name) (hne : pattern ≠ [])
    (hpattern : ∀ c ∈ pattern, c ∈ ['=', '!', '&', '|']) :
    ¬ pattern <:+: (referenceText name).toList := by
  intro h
  obtain ⟨c, cs, rfl⟩ := List.exists_cons_of_ne_nil hne
  have hmark := hpattern c List.mem_cons_self
  have hmem : c ∈ (referenceText name).toList := h.subset List.mem_cons_self
  rw [toList_referenceText] at hmem
  have hcases : c = '$' ∨ c = '{' ∨ c ∈ name.toList ∨ c = '}' := by simpa using hmem
  rcases hcases with rfl | rfl | hc | rfl
  · exact absurd hmark (by decide)
  · exact absurd hmark (by decide)
  · refine (hname c hc).2 (List.mem_cons_of_mem _ ?_)
    simp only [List.mem_cons, List.not_mem_nil, or_false] at hmark ⊢
    tauto
  · exact absurd hmark (by decide)

/-- A reference to an entry may stand as a side of an atom. -/
theorem isAtomic_referenceText (hname : IsName name) : IsAtomic (referenceText name) where
  no_bars := not_infix_referenceText hname (by simp) (by simp)
  no_ampersands := not_infix_referenceText hname (by simp) (by simp)
  ends := ⟨'$', '{' :: name.toList, '}', toList_referenceText name, by decide, by decide, by decide⟩

/-- A quoted text may stand as a side of an atom if no connective occurs in it. -/
theorem isAtomic_quotedText (hbars : NoDouble '|' literal.toList)
    (hampersands : NoDouble '&' literal.toList) : IsAtomic (quotedText literal) where
  no_bars := by rwa [NoDouble, infix_quotedText_iff (by simp) (by simp)]
  no_ampersands := by rwa [NoDouble, infix_quotedText_iff (by simp) (by simp)]
  ends := ⟨'"', literal.toList, '"', toList_quotedText literal, by decide, by decide, by decide⟩

/-- A comparison of two sides of an atom may itself stand as an atom. -/
theorem IsAtomic.comparisonText (hleft : IsAtomic left) (hright : IsAtomic right)
    (op : Comparator) : IsAtomic (comparisonText op left right) := by
  have hdouble : ∀ sep : Char, sep ≠ ' ' → sep ∉ op.symbol → NoDouble sep left.toList →
      NoDouble sep right.toList → NoDouble sep (Condition.comparisonText op left right).toList := by
    intro sep hblank hsymbol hl hr
    rw [toList_comparisonText]
    exact hl.append_cons hblank.symm ((hr.cons hblank.symm).append_of_notMem hsymbol)
  obtain ⟨c, front, e, hfront, hc, -, hmark⟩ := hleft.ends
  obtain ⟨f, back, d, hback, -, hd, -⟩ := hright.ends
  refine ⟨hdouble '|' (by decide) (by cases op <;> decide) hleft.no_bars hright.no_bars,
    hdouble '&' (by decide) (by cases op <;> decide) hleft.no_ampersands hright.no_ampersands,
    c, front ++ e :: ' ' :: (op.symbol ++ ' ' :: f :: back), d, ?_, hc, hd, hmark⟩
  rw [toList_comparisonText, hfront, hback]
  simp

/-- An atom in which an operator occurs is cut at the first one of the search order. -/
theorem IsAtomic.evaluate_eq (s : Surroundings) {text : String} (htext : IsAtomic text)
    {atom : Atom} (hatom : Atom.comparison? text.toList Comparator.searchOrder = some atom) :
    evaluate s text = evaluateAtom s atom := by
  obtain ⟨c, inner, d, hends, hc, hd, hmark⟩ := htext.ends
  have htrim : trimChars text.toList = text.toList := by
    rw [hends]
    exact trimChars_of_ends hc hd inner
  have hplain : Conjunct.IsPlain text.toList := by
    intro hhead
    rw [htrim, hends] at hhead
    exact absurd (Option.some.inj hhead) hmark
  have hparsed : Atom.ofChars text.toList = atom := by
    rw [Atom.ofChars, htrim, hatom, if_neg (by simp [hends]), Option.getD_some]
  have hconjunct : Conjunct.ofChars text.toList = ⟨0, atom⟩ := by
    rw [Conjunct.ofChars, Conjunct.stripNegations_plain hplain]
    dsimp only
    rw [Atom.ofChars_trimStart, hparsed]
  rw [evaluate, ofString, ofChars, splitAtDouble_of_noDouble htext.no_bars, List.map_singleton,
    splitAtDouble_of_noDouble htext.no_ampersands, List.map_singleton, hconjunct]
  cases h : evaluateAtom s atom with
  | error e => simp [evaluateAny, evaluateAll, evaluateConjunct, Except.map, h]
  | ok b => cases b <;> simp [evaluateAny, evaluateAll, evaluateConjunct, Except.map, h]

/-- If an operator does not occur on the left, the comparison is cut between its sides. -/
theorem cut?_comparisonText (op : Comparator) (hleft : ¬ op.symbol <:+: left.toList) :
    cut? op.symbol (comparisonText op left right).toList =
      some (left.toList ++ [' '], ' ' :: right.toList) := by
  rw [toList_comparisonText, cut?_append_cons (by cases op <;> decide) hleft, cut?_self]
  rfl

/-- The atom of a comparison that is cut between its sides. -/
theorem comparison?_of_sides (op : Comparator) (ops : List Comparator)
    (hleft : ¬ op.symbol <:+: left.toList) :
    Atom.comparison? (comparisonText op left right).toList (op :: ops) =
      some (.comparison op (.ofChars left.toList) (.ofChars right.toList)) := by
  have hblank : IsBlanks [' '] := by
    simp only [IsBlanks, List.mem_singleton, forall_eq]
    decide
  have hl : Term.ofChars (left.toList ++ [' ']) = .ofChars left.toList :=
    Term.ofChars_of_padded ⟨[], [' '], .nil, hblank, rfl⟩
  have hr : Term.ofChars (' ' :: right.toList) = .ofChars right.toList :=
    Term.ofChars_of_padded ⟨[' '], [], hblank, .nil, by simp⟩
  rw [Atom.comparison?, cut?_comparisonText op hleft]
  dsimp only
  rw [hl, hr]

/-! ## What a comparison says of an entry -/

/-- The value of a quoted text is what stands between the quotes. -/
theorem value_ofChars_quotedText (s : Surroundings) (literal : String) :
    s.value (.ofChars (quotedText literal).toList) = .str literal := by
  rw [toList_quotedText, Term.ofChars_quoted, Surroundings.value, String.ofList_toList]

/-- The value of a reference is the text that the input has under its name. -/
theorem value_ofChars_referenceText (hname : IsName name) {s : Surroundings} {v : String}
    (hv : s.input.get? name = some (.str v)) :
    s.value (.ofChars (referenceText name).toList) = .str v := by
  have htrim : trimChars name.toList = name.toList :=
    trimChars_of_no_blanks fun c hc => (hname c hc).1
  have hpoint : cut? ['.'] name.toList = none := by
    rw [cut?_eq_none_iff]
    intro h
    exact (hname '.' (h.subset List.mem_cons_self)).2 List.mem_cons_self
  rw [toList_referenceText, Term.ofChars_reference htrim, String.ofList_toList,
    Surroundings.value, Surroundings.lookup, hpoint, hv]
  rfl

/-- The guard says of every text that is an entry of the input whether it is one of those for
which `p` is true. -/
def SaysOfEntry (guard name : String) (p : String → Bool) : Prop :=
  ∀ (s : Surroundings) (v : String), s.input.get? name = some (.str v) →
    evaluate s guard = .ok (p v)

/-- The value of a term does not depend on an entry to which the term is no reference. -/
theorem value_of_ne_reference {t : Term} (ht : t ≠ .reference name) (v w : String) :
    Surroundings.value ⟨.obj [(name, .str v)], []⟩ t =
      Surroundings.value ⟨.obj [(name, .str w)], []⟩ t := by
  cases t with
  | reference other =>
    have hother : name ≠ other := by
      rintro rfl
      exact ht rfl
    simp [Surroundings.value, Surroundings.lookup, Surroundings.output?, Surroundings.latest?,
      Json.get?, Json.lookup, hother]
  | _ => rfl

/-- The first operator of the search order that is found in the guard stands within quotes. -/
def IsCutWithinQuotes (guard : String) : Prop :=
  ∃ op before rest, Atom.comparison? guard.toList Comparator.searchOrder =
    some (.comparison op (.ofChars before) (.ofChars rest)) ∧ '"' ∈ before ∧ '"' ∈ rest

/-- A comparison that is cut within quotes says the same whatever the entry is. -/
theorem IsCutWithinQuotes.evaluate_eq {guard : String} (hcut : IsCutWithinQuotes guard)
    (hguard : IsAtomic guard) (hname : '"' ∉ name.toList) (v w : String) :
    evaluate ⟨.obj [(name, .str v)], []⟩ guard = evaluate ⟨.obj [(name, .str w)], []⟩ guard := by
  obtain ⟨op, before, rest, hcut, hbefore, hrest⟩ := hcut
  rw [hguard.evaluate_eq _ hcut, hguard.evaluate_eq _ hcut, evaluateAtom, evaluateAtom,
    value_of_ne_reference (Term.ofChars_ne_reference hbefore hname) v w,
    value_of_ne_reference (Term.ofChars_ne_reference hrest hname) v w]

/-- A comparison that is cut within quotes does not say what it should of every entry. -/
theorem IsCutWithinQuotes.not_saysOfEntry {guard : String} (hcut : IsCutWithinQuotes guard)
    (hguard : IsAtomic guard) (hname : '"' ∉ name.toList) {p : String → Bool} {v w : String}
    (hp : p v ≠ p w) : ¬ SaysOfEntry guard name p := by
  intro hsays
  have hentry : ∀ u : String, Json.get? name (.obj [(name, .str u)]) = some (.str u) := by
    intro u
    simp [Json.get?, Json.lookup]
  have hv := hsays ⟨.obj [(name, .str v)], []⟩ v (hentry v)
  have hw := hsays ⟨.obj [(name, .str w)], []⟩ w (hentry w)
  rw [hcut.evaluate_eq hguard hname v w, hw] at hv
  exact hp (Except.ok.inj hv).symm

/-- An operator within quotes on the left is found there. -/
theorem cut?_quoted_left (hne : pattern ≠ []) (hquote : '"' ∉ pattern)
    (hliteral : pattern <:+: literal.toList) (op : Comparator) (right : String) :
    ∃ before rest, cut? pattern (comparisonText op (quotedText literal) right).toList =
      some (before, rest) ∧ '"' ∈ before ∧ '"' ∈ rest := by
  have hfront : ¬ pattern <:+: [] := by simpa using hne
  have hcut := cut?_within_quotes hquote hfront hliteral (' ' :: (op.symbol ++ ' ' :: right.toList))
  rw [toList_comparisonText, toList_quotedText]
  simpa using hcut

/-- An operator within quotes on the right is found there if it is found nowhere before. -/
theorem cut?_quoted_right (op : Comparator) (hblank : ' ' ∉ pattern) (hquote : '"' ∉ pattern)
    (hliteral : pattern <:+: literal.toList) (hleft : ¬ pattern <:+: left.toList)
    (hop : ¬ pattern <:+: op.symbol) :
    ∃ before rest, cut? pattern (comparisonText op left (quotedText literal)).toList =
      some (before, rest) ∧ '"' ∈ before ∧ '"' ∈ rest := by
  have hne : pattern ≠ [] := by
    rintro rfl
    exact hop (List.nil_infix)
  have hfront : ¬ pattern <:+: left.toList ++ ' ' :: (op.symbol ++ [' ']) := by
    rw [infix_append_cons_iff hblank, infix_append_cons_iff hblank, List.infix_nil]
    simp [hleft, hop, hne]
  have hcut := cut?_within_quotes hquote hfront hliteral []
  rw [toList_comparisonText, toList_quotedText]
  simpa using hcut

/-- As `==` is searched for first, a quoted text with `==` in it is cut there on the left. -/
theorem isCutWithinQuotes_left (hin : ['=', '='] <:+: literal.toList) (op : Comparator)
    (right : String) : IsCutWithinQuotes (comparisonText op (quotedText literal) right) := by
  obtain ⟨before, rest, hcut, hquotes⟩ := cut?_quoted_left (by simp) (by decide) hin op right
  refine ⟨.eq, before, rest, ?_, hquotes⟩
  rw [Comparator.searchOrder, Atom.comparison?, Comparator.symbol, hcut]

/-- It is cut there on the right as well if no `==` stands before. -/
theorem isCutWithinQuotes_right (hin : ['=', '='] <:+: literal.toList) {op : Comparator}
    (hleft : ¬ ['=', '='] <:+: left.toList) (hop : ¬ ['=', '='] <:+: op.symbol) :
    IsCutWithinQuotes (comparisonText op left (quotedText literal)) := by
  obtain ⟨before, rest, hcut, hquotes⟩ :=
    cut?_quoted_right op (by decide) (by decide) hin hleft hop
  refine ⟨.eq, before, rest, ?_, hquotes⟩
  rw [Comparator.searchOrder, Atom.comparison?, Comparator.symbol, hcut]

/-- No `==` is found in an inequality if it occurs on neither side. -/
theorem cut?_equals_eq_none (hleft : ¬ ['=', '='] <:+: left.toList)
    (hright : ¬ ['=', '='] <:+: right.toList) :
    cut? Comparator.eq.symbol (comparisonText .ne left right).toList = none := by
  rw [cut?_eq_none_iff, Comparator.symbol, infix_comparisonText_iff (by decide)]
  exact not_or.mpr ⟨hleft, not_or.mpr ⟨by decide, hright⟩⟩

/-- A quoted text with `!=` in it is cut there in front of `!=` if no `==` occurs. -/
theorem isCutWithinQuotes_unequal (hin : ['!', '='] <:+: literal.toList)
    (hleft : ¬ ['=', '='] <:+: (quotedText literal).toList)
    (hright : ¬ ['=', '='] <:+: right.toList) :
    IsCutWithinQuotes (comparisonText .ne (quotedText literal) right) := by
  obtain ⟨before, rest, hcut, hquotes⟩ := cut?_quoted_left (by simp) (by decide) hin .ne right
  refine ⟨.ne, before, rest, ?_, hquotes⟩
  rw [Comparator.searchOrder, Atom.comparison?, cut?_equals_eq_none hleft hright]
  dsimp only
  rw [Atom.comparison?, Comparator.symbol, hcut]

/-- An equation is cut between its sides if `==` does not occur on the left. -/
theorem comparison?_eq (right : String) (hleft : ¬ ['=', '='] <:+: left.toList) :
    Atom.comparison? (comparisonText .eq left right).toList Comparator.searchOrder =
      some (.comparison .eq (.ofChars left.toList) (.ofChars right.toList)) :=
  comparison?_of_sides .eq _ hleft

/-- An inequality is cut between its sides if `==` occurs in neither and `!=` does not occur on
the left. -/
theorem comparison?_ne (hleft : ¬ ['=', '='] <:+: left.toList)
    (hright : ¬ ['=', '='] <:+: right.toList) (hne : ¬ ['!', '='] <:+: left.toList) :
    Atom.comparison? (comparisonText .ne left right).toList Comparator.searchOrder =
      some (.comparison .ne (.ofChars left.toList) (.ofChars right.toList)) := by
  rw [Comparator.searchOrder, Atom.comparison?, cut?_equals_eq_none hleft hright]
  exact comparison?_of_sides .ne _ hne

/-- No quote occurs in the name of an entry. -/
theorem quote_not_mem_name (hname : IsName name) : '"' ∉ name.toList :=
  fun h => (hname _ h).2 (by decide)

/-- Two texts are equal exactly if they are the same. -/
theorem compare_eq_str (v w : String) :
    compare .eq (.str v) (.str w) = .ok (decide (v = w)) := by
  simp [compare, comparedText, beq_eq_decide]

/-- Two texts are unequal exactly if they are not the same. -/
theorem compare_ne_str (v w : String) :
    compare .ne (.str v) (.str w) = .ok (decide (v ≠ w)) := by
  simp [compare, comparedText, bne, beq_eq_decide]

variable (hname : IsName name) (hbars : NoDouble '|' literal.toList)
  (hampersands : NoDouble '&' literal.toList)

include hname hbars hampersands in
/-- An entry is compared with a quoted text behind `==` as it should be. -/
theorem says_reference_eq_quoted :
    SaysOfEntry (comparisonText .eq (referenceText name) (quotedText literal)) name
      (fun v => decide (v = literal)) := by
  have hatomic := (isAtomic_referenceText hname).comparisonText
    (isAtomic_quotedText hbars hampersands) .eq
  have hcut := comparison?_eq (quotedText literal)
    (not_infix_referenceText hname (by simp) (by simp))
  intro s v hv
  rw [hatomic.evaluate_eq s hcut, evaluateAtom, value_ofChars_referenceText hname hv,
    value_ofChars_quotedText, compare_eq_str]

include hname hbars hampersands in
/-- In front of `==` a quoted text is compared as it should be unless it contains `==`. -/
theorem says_quoted_eq_reference_iff :
    SaysOfEntry (comparisonText .eq (quotedText literal) (referenceText name)) name
      (fun v => decide (v = literal)) ↔ ¬ ['=', '='] <:+: literal.toList := by
  have hatomic := (isAtomic_quotedText hbars hampersands).comparisonText
    (isAtomic_referenceText hname) .eq
  constructor
  · intro hsays hin
    exact (isCutWithinQuotes_left hin .eq _).not_saysOfEntry hatomic (quote_not_mem_name hname)
      (v := literal) (w := literal ++ "x") (by simp) hsays
  · intro hnone s v hv
    have hcut := comparison?_eq (referenceText name)
      (mt (infix_quotedText_iff (by simp) (by decide)).mp hnone)
    rw [hatomic.evaluate_eq s hcut, evaluateAtom, value_ofChars_referenceText hname hv,
      value_ofChars_quotedText, compare_eq_str]
    simp [eq_comm]

include hname hbars hampersands in
/-- Behind `!=` a quoted text is compared as it should be unless it contains `==`. -/
theorem says_reference_ne_quoted_iff :
    SaysOfEntry (comparisonText .ne (referenceText name) (quotedText literal)) name
      (fun v => decide (v ≠ literal)) ↔ ¬ ['=', '='] <:+: literal.toList := by
  have hatomic := (isAtomic_referenceText hname).comparisonText
    (isAtomic_quotedText hbars hampersands) .ne
  have hequals : ¬ ['=', '='] <:+: (referenceText name).toList :=
    not_infix_referenceText hname (by simp) (by simp)
  constructor
  · intro hsays hin
    exact (isCutWithinQuotes_right hin hequals (by decide)).not_saysOfEntry hatomic
      (quote_not_mem_name hname) (v := literal) (w := literal ++ "x") (by simp) hsays
  · intro hnone s v hv
    have hcut := comparison?_ne hequals
      (mt (infix_quotedText_iff (by simp) (by decide)).mp hnone)
      (not_infix_referenceText hname (by simp) (by simp))
    rw [hatomic.evaluate_eq s hcut, evaluateAtom, value_ofChars_referenceText hname hv,
      value_ofChars_quotedText, compare_ne_str]

include hname hbars hampersands in
/-- In front of `!=` a quoted text is compared as it should be unless it contains `==` or `!=`. -/
theorem says_quoted_ne_reference_iff :
    SaysOfEntry (comparisonText .ne (quotedText literal) (referenceText name)) name
      (fun v => decide (v ≠ literal)) ↔
        ¬ ['=', '='] <:+: literal.toList ∧ ¬ ['!', '='] <:+: literal.toList := by
  have hatomic := (isAtomic_quotedText hbars hampersands).comparisonText
    (isAtomic_referenceText hname) .ne
  have hequals : ¬ ['=', '='] <:+: (referenceText name).toList :=
    not_infix_referenceText hname (by simp) (by simp)
  have hquoted : ∀ {pattern : List Char}, pattern ≠ [] → '"' ∉ pattern →
      ¬ pattern <:+: literal.toList → ¬ pattern <:+: (quotedText literal).toList :=
    fun hne hquote => mt (infix_quotedText_iff hne hquote).mp
  constructor
  · intro hsays
    have hwhole : ¬ IsCutWithinQuotes
        (comparisonText .ne (quotedText literal) (referenceText name)) := fun hcut =>
      hcut.not_saysOfEntry hatomic (quote_not_mem_name hname)
        (v := literal) (w := literal ++ "x") (by simp) hsays
    have hnone : ¬ ['=', '='] <:+: literal.toList := fun hin =>
      hwhole (isCutWithinQuotes_left hin .ne _)
    exact ⟨hnone, fun hin => hwhole
      (isCutWithinQuotes_unequal hin (hquoted (by simp) (by decide) hnone) hequals)⟩
  · rintro ⟨hnone, hunequal⟩ s v hv
    have hcut := comparison?_ne (hquoted (by simp) (by decide) hnone) hequals
      (hquoted (by simp) (by decide) hunequal)
    rw [hatomic.evaluate_eq s hcut, evaluateAtom, value_ofChars_referenceText hname hv,
      value_ofChars_quotedText, compare_ne_str]
    simp [eq_comm]

end

/-- An entry of the input is compared with a quoted text as it should be, whatever operators the
text contains: behind the name and `==` always, and otherwise exactly if the text does not
contain `==`, nor `!=` if it stands in front of `!=`. -/
theorem quoted_comparisons {name literal : String} (hname : IsName name)
    (hbars : NoDouble '|' literal.toList) (hampersands : NoDouble '&' literal.toList) :
    SaysOfEntry (comparisonText .eq (referenceText name) (quotedText literal)) name
      (fun v => decide (v = literal)) ∧
    (SaysOfEntry (comparisonText .eq (quotedText literal) (referenceText name)) name
      (fun v => decide (v = literal)) ↔ ¬ ['=', '='] <:+: literal.toList) ∧
    (SaysOfEntry (comparisonText .ne (referenceText name) (quotedText literal)) name
      (fun v => decide (v ≠ literal)) ↔ ¬ ['=', '='] <:+: literal.toList) ∧
    (SaysOfEntry (comparisonText .ne (quotedText literal) (referenceText name)) name
      (fun v => decide (v ≠ literal)) ↔
        ¬ ['=', '='] <:+: literal.toList ∧ ¬ ['!', '='] <:+: literal.toList) :=
  ⟨says_reference_eq_quoted hname hbars hampersands,
    says_quoted_eq_reference_iff hname hbars hampersands,
    says_reference_ne_quoted_iff hname hbars hampersands,
    says_quoted_ne_reference_iff hname hbars hampersands⟩

/-- Marks, signs of order, single bars and single equals signs within the quotes do no harm. -/
theorem quoted_comparisons_formula :
    let literal := "!(a >= b) | c = d"
    let guard := comparisonText .ne (quotedText literal) (referenceText "rule")
    guard = "\"!(a >= b) | c = d\" != ${rule}" ∧
      SaysOfEntry guard "rule" (fun v => decide (v ≠ literal)) := by
  intro literal guard
  have hname : IsName "rule" := by decide +kernel
  have hbars : NoDouble '|' literal.toList := by decide +kernel
  have hampersands : NoDouble '&' literal.toList := by decide +kernel
  have hsays := (quoted_comparisons hname hbars hampersands).2.2.2
  exact ⟨by decide +kernel, hsays.mpr ⟨by decide +kernel, by decide +kernel⟩⟩

/-- A quoted text with `==` in it is cut there in front of an equation and on both sides of an
inequality, and one with `!=` in it in front of an inequality. -/
theorem quoted_text_cut :
    let s : Surroundings := ⟨.obj [("x", .str "a==b"), ("y", .str "c"), ("z", .str "a!=b")], []⟩
    evaluate s "\"a==b\" == ${x}" = .ok false ∧ evaluate s "${y} != \"a==b\"" = .ok false ∧
      evaluate s "\"a==b\" != ${y}" = .ok false ∧ evaluate s "\"a!=b\" != ${z}" = .ok true := by
  decide +kernel

end Condition

end ApprovalWorkflow
