import ApprovalWorkflow.Assignee
import Mathlib.Data.List.Chain
import Mathlib.Data.List.Forall2
import Mathlib.Data.List.Infix

/-!
# Templates

A template consists of literals and references. A literal may have any characters in it, also
single dollar signs and braces, but no `${`, and the name in a reference goes up to the first
closing brace, whatever stands before that. Two literals in a row would be one, so they do not
occur (`IsTemplate`). Every text is written in this way, if not for a reference at the end that is
not closed (`exists_template`).

The scanner finds just these parts (`TemplatePiece.scan?_templateChars`). So each reference is
filled in with what the input holds under its name, once and as it is, and a text with a reference
that is not closed stands for nobody.
-/

set_option autoImplicit false

namespace ApprovalWorkflow

open Text

/-- A part of a template as it is written. -/
inductive TemplatePart where
  | literal (text : String)
  | reference (name : String)
deriving DecidableEq, Repr

/-- The input has nothing under a name, blanks around it aside. -/
def Json.Lacks (input : Json) (name : String) : Prop :=
  input.isObject = false ∨ input.get? (trim name) = none ∨ input.get? (trim name) = some .null

instance (input : Json) (name : String) : Decidable (input.Lacks name) :=
  inferInstanceAs (Decidable (_ ∨ _))

namespace TemplatePart

/-- How the part is written. -/
def chars : TemplatePart → List Char
  | literal text => text.toList
  | reference name => '$' :: '{' :: (name.toList ++ ['}'])

/-- A literal begins no reference, and the name in a reference does not end before the brace. -/
def IsSound : TemplatePart → Prop
  | literal text => ¬ ['$', '{'] <:+: text.toList
  | reference name => '}' ∉ name.toList

instance : DecidablePred IsSound
  | literal text => inferInstanceAs (Decidable (¬ ['$', '{'] <:+: text.toList))
  | reference name => inferInstanceAs (Decidable ('}' ∉ name.toList))

/-- The parts are not both literals. -/
def Apart : TemplatePart → TemplatePart → Prop
  | literal _, literal _ => False
  | _, _ => True

instance : DecidableRel Apart
  | literal _, literal _ => inferInstanceAs (Decidable False)
  | literal _, reference _ => inferInstanceAs (Decidable True)
  | reference _, _ => inferInstanceAs (Decidable True)

/-- The text that a part stands for: a literal for itself, and a reference for what the input holds
under its name, which is a text as it is or another value as JSON. -/
inductive Fills (input : Json) : TemplatePart → String → Prop
  | literal (text : String) : Fills input (.literal text) text
  | text {name text : String} (h : input.get? (trim name) = some (.str text)) :
    Fills input (.reference name) text
  | value {name : String} {v : Json} (h : input.get? (trim name) = some v) (hnull : v ≠ .null)
    (hstr : v.str? = none) : Fills input (.reference name) v.compact

/-- The pieces that the scanner makes of a part. -/
def pieces : TemplatePart → List TemplatePiece
  | literal text => text.toList.map .character
  | reference name => [.reference (trim name)]

end TemplatePart

/-- The parts are sound, and no two literals stand side by side. -/
structure IsTemplate (parts : List TemplatePart) : Prop where
  sound : ∀ p ∈ parts, p.IsSound
  apart : parts.IsChain TemplatePart.Apart

instance (parts : List TemplatePart) : Decidable (IsTemplate parts) :=
  decidable_of_iff ((∀ p ∈ parts, p.IsSound) ∧ parts.IsChain TemplatePart.Apart)
    ⟨fun h => ⟨h.1, h.2⟩, fun h => ⟨h.sound, h.apart⟩⟩

/-- The text of a template. -/
def templateText (parts : List TemplatePart) : String :=
  String.ofList (parts.flatMap TemplatePart.chars)

/-! ## Every text is a template -/

/-- Where references begin in a text, one of them is the first. -/
theorem exists_first_reference {cs : List Char} (h : ['$', '{'] <:+: cs) :
    ∃ before rest, cs = before ++ '$' :: '{' :: rest ∧ ¬ ['$', '{'] <:+: before := by
  induction cs with
  | nil => simp at h
  | cons c cs ih =>
    by_cases hfirst : ['$', '{'] <+: c :: cs
    · obtain ⟨rest, hrest⟩ := hfirst
      exact ⟨[], rest, hrest.symm, by simp⟩
    · obtain ⟨before, rest, rfl, hbefore⟩ := ih ((List.infix_cons_iff.mp h).resolve_left hfirst)
      refine ⟨c :: before, rest, rfl, fun h => ?_⟩
      rcases List.infix_cons_iff.mp h with hfront | hinside
      · exact hfirst (hfront.trans (List.prefix_append (c :: before) ('$' :: '{' :: rest)))
      · exact hbefore hinside

/-- A sound part in front of a template makes a template if it stands apart from the part behind
it. -/
theorem IsTemplate.cons {p : TemplatePart} {parts : List TemplatePart} (hp : p.IsSound)
    (h : IsTemplate parts) (hnext : ∀ q ∈ parts.head?, p.Apart q) : IsTemplate (p :: parts) where
  sound := List.forall_mem_cons.mpr ⟨hp, h.sound⟩
  apart := List.isChain_cons.mpr ⟨hnext, h.apart⟩

/-- Every text is that of a template, perhaps with a reference behind it that is not closed. -/
theorem exists_template (cs : List Char) : ∃ parts, IsTemplate parts ∧
    (cs = parts.flatMap TemplatePart.chars ∨
      ∃ tail, '}' ∉ tail ∧ cs = parts.flatMap TemplatePart.chars ++ '$' :: '{' :: tail) := by
  -- What stands behind the first reference is shorter.
  induction hlength : cs.length using Nat.strongRecOn generalizing cs with
  | ind n ih =>
    by_cases hopen : ['$', '{'] <:+: cs
    · obtain ⟨before, rest, rfl, hbefore⟩ := exists_first_reference hopen
      have hsound : (TemplatePart.literal (String.ofList before)).IsSound := by
        rwa [TemplatePart.IsSound, String.toList_ofList]
      by_cases hclosed : '}' ∈ rest
      · obtain ⟨name, others, rfl, hname⟩ := List.eq_append_cons_of_mem hclosed
        obtain ⟨parts, hparts, hothers⟩ :=
          ih others.length (by
            rw [← hlength]
            simp only [List.length_append, List.length_cons]
            omega) others rfl
        have hreference : IsTemplate (.reference (String.ofList name) :: parts) :=
          hparts.cons (by rwa [TemplatePart.IsSound, String.toList_ofList]) fun _ _ => trivial
        refine ⟨.literal (String.ofList before) :: .reference (String.ofList name) :: parts,
          hreference.cons hsound (by rintro q ⟨⟩; trivial), ?_⟩
        rcases hothers with rfl | ⟨tail, htail, rfl⟩
        · exact .inl (by simp [TemplatePart.chars])
        · exact .inr ⟨tail, htail, by simp [TemplatePart.chars]⟩
      · refine ⟨[.literal (String.ofList before)], ⟨by simpa using hsound, .singleton _⟩, .inr ?_⟩
        exact ⟨rest, hclosed, by simp [TemplatePart.chars]⟩
    · refine ⟨[.literal (String.ofList cs)], ⟨?_, .singleton _⟩,
        .inl (by simp [TemplatePart.chars])⟩
      simpa [TemplatePart.IsSound] using hopen

/-! ## Scanning -/

namespace TemplatePiece

variable {cs rest name : List Char}

/-- A reference ends at its first closing brace. -/
theorem scan?_name (h : '}' ∉ name) (front rest : List Char) :
    scan? (some front) (name ++ '}' :: rest) =
      (scan? none rest).map
        (.reference (String.ofList (trimChars (front.reverse ++ name))) :: ·) := by
  induction name generalizing front with
  | nil => simp [scan?]
  | cons c name ih =>
    obtain ⟨hc, hname⟩ := not_or.mp (List.mem_cons.not.mp h)
    rw [List.cons_append, scan?, if_neg (Ne.symm hc), ih hname]
    simp

/-- Without a closing brace there is no template. -/
theorem scan?_unclosed (h : '}' ∉ cs) (front : List Char) : scan? (some front) cs = none := by
  induction cs generalizing front with
  | nil => rfl
  | cons c cs ih =>
    obtain ⟨hc, hcs⟩ := not_or.mp (List.mem_cons.not.mp h)
    rw [scan?, if_neg (Ne.symm hc), ih hcs]

/-- A character that does not begin a reference stands for itself. -/
theorem scan?_character {c : Char} (h : ¬ ['$', '{'] <+: c :: cs) :
    scan? none (c :: cs) = (scan? none cs).map (.character c :: ·) := by
  rw [scan?]
  rintro cs' rfl rfl
  exact h ⟨cs', rfl⟩

/-- The characters of a literal stand for themselves, unless a brace follows. -/
theorem scan?_literal {text : List Char} (h : ¬ ['$', '{'] <:+: text)
    (hrest : rest.head? ≠ some '{') :
    scan? none (text ++ rest) = (scan? none rest).map (text.map character ++ ·) := by
  induction text with
  | nil => simp
  | cons c text ih =>
    rw [List.infix_cons_iff, not_or] at h
    have hfirst : ¬ ['$', '{'] <+: c :: (text ++ rest) := by
      intro hfront
      obtain ⟨rfl, hbrace⟩ := List.cons_prefix_cons.mp hfront
      cases text with
      | nil =>
        -- A dollar sign at the end would need the brace behind the literal.
        obtain ⟨more, rfl⟩ := hbrace
        exact hrest rfl
      | cons d text =>
        obtain ⟨rfl, -⟩ := List.cons_prefix_cons.mp hbrace
        exact h.1 (List.prefix_append ['$', '{'] text)
    rw [List.cons_append, scan?_character hfirst, ih h.2]
    simp [Function.comp_def]

/-- What stands behind a literal does not begin with a brace. -/
theorem head?_templateChars {text : String} {parts : List TemplatePart}
    (h : IsTemplate (.literal text :: parts)) (hrest : rest.head? ≠ some '{') :
    (parts.flatMap TemplatePart.chars ++ rest).head? ≠ some '{' := by
  cases parts with
  | nil => exact hrest
  | cons p parts =>
    cases p with
    | literal other => exact absurd (List.isChain_cons_cons.mp h.apart).1 id
    | reference name => simp [TemplatePart.chars]

/-- The scanner finds the parts of a template, and what it finds behind it, unless that begins with
a brace. -/
theorem scan?_templateChars {parts : List TemplatePart} (h : IsTemplate parts)
    (hrest : rest.head? ≠ some '{') :
    scan? none (parts.flatMap TemplatePart.chars ++ rest) =
      (scan? none rest).map (parts.flatMap TemplatePart.pieces ++ ·) := by
  induction parts with
  | nil => simp
  | cons p parts ih =>
    obtain ⟨hp, hsound⟩ := List.forall_mem_cons.mp h.sound
    have hparts := ih ⟨hsound, (List.isChain_cons.mp h.apart).2⟩
    rw [List.flatMap_cons, List.flatMap_cons, List.append_assoc]
    cases p with
    | literal text =>
      rw [TemplatePart.chars, scan?_literal hp (head?_templateChars h hrest), hparts]
      simp [TemplatePart.pieces, Function.comp_def]
    | reference name =>
      have hname : '}' ∉ name.toList := hp
      simp only [TemplatePart.chars, List.cons_append, List.append_assoc, List.nil_append, scan?]
      rw [scan?_name hname, hparts]
      simp [TemplatePart.pieces, trim, Function.comp_def]

/-! ## Filling in -/

section

variable {input : Json} {parts : List TemplatePart}

/-- To fill in pieces is to fill in the first ones and then the others, all of which have to be
known. -/
theorem fillAll?_append (input : Json) (first others : List TemplatePiece) :
    fillAll? input (first ++ others) =
      (fillAll? input first).bind fun cs => (fillAll? input others).map (cs ++ ·) := by
  induction first with
  | nil => simp [fillAll?]
  | cons p first ih =>
    rw [List.cons_append, fillAll?, fillAll?, ih]
    cases p.fill? input with
    | none => rfl
    | some cs => cases fillAll? input first <;> simp [Function.comp_def]

/-- Characters stand for themselves, whatever the input is. -/
theorem fillAll?_characters (input : Json) (cs : List Char) :
    fillAll? input (cs.map .character) = some cs := by
  induction cs with
  | nil => rfl
  | cons c cs ih => simp [fillAll?, fill?, ih]

/-- A single reference is filled in with its value. -/
theorem fillAll?_reference (input : Json) (name : String) :
    fillAll? input [.reference name] = fill? input (.reference name) := by
  rw [fillAll?, fillAll?]
  cases fill? input (.reference name) <;> simp

/-- A reference to nothing cannot be filled in. -/
theorem fill?_of_lacks {name : String} (h : input.Lacks name) :
    fill? input (.reference (trim name)) = none := by
  have hget : input.get? (trim name) = none ∨ input.get? (trim name) = some .null := by
    rcases h with hobject | h
    · cases input with
      | obj fields => cases hobject
      | _ => exact .inl rfl
    · exact h
  rcases hget with hget | hget <;> simp only [fill?, hget]

/-- Everything else is filled in with what the part stands for. -/
theorem fillAll?_of_held {p : TemplatePart} (h : ∀ name, p = .reference name → ¬ input.Lacks name) :
    ∃ text, p.Fills input text ∧ fillAll? input p.pieces = some text.toList := by
  cases p with
  | literal text => exact ⟨text, .literal text, fillAll?_characters input text.toList⟩
  | reference name =>
    have hheld := h name rfl
    rw [TemplatePart.pieces, fillAll?_reference]
    cases hget : input.get? (trim name) with
    | none => exact absurd (.inr (.inl hget)) hheld
    | some v =>
      cases v with
      | null => exact absurd (.inr (.inr hget)) hheld
      | str text => exact ⟨text, .text hget, by simp only [fill?, hget]⟩
      | _ => exact ⟨_, .value hget (by simp) rfl, by simp [fill?, hget, Json.compact]⟩

/-- One reference to nothing spoils the whole template. -/
theorem fillAll?_of_lacks {name : String} (hmem : .reference name ∈ parts)
    (h : input.Lacks name) : fillAll? input (parts.flatMap TemplatePart.pieces) = none := by
  obtain ⟨front, others, rfl⟩ := List.append_of_mem hmem
  rw [List.flatMap_append, List.flatMap_cons, fillAll?_append, fillAll?_append,
    TemplatePart.pieces, fillAll?_reference, fill?_of_lacks h]
  cases fillAll? input (front.flatMap TemplatePart.pieces) <;> rfl

/-- A template that refers to nothing that is missing is filled in part by part. -/
theorem fillAll?_template (h : ∀ name, .reference name ∈ parts → ¬ input.Lacks name) :
    ∃ texts, List.Forall₂ (TemplatePart.Fills input) parts texts ∧
      fillAll? input (parts.flatMap TemplatePart.pieces) = some (String.join texts).toList := by
  induction parts with
  | nil => exact ⟨[], .nil, by simp [fillAll?]⟩
  | cons p parts ih =>
    obtain ⟨text, htext, hfirst⟩ := fillAll?_of_held fun name (hp : p = .reference name) =>
      h name (hp ▸ List.mem_cons_self)
    obtain ⟨texts, htexts, hothers⟩ := ih fun name hname => h name (List.mem_cons_of_mem p hname)
    refine ⟨text :: texts, .cons htext htexts, ?_⟩
    rw [List.flatMap_cons, fillAll?_append, hfirst, hothers]
    simp [String.toList_join]

end

end TemplatePiece

/-! ## The assignee -/

open TemplatePiece

/-- A template with a reference to nothing stands for nobody. Otherwise each part is replaced once
by the text that it stands for, and the assignee is the whole without the blanks around it, if that
leaves something. A text with a reference that is not closed stands for nobody either, and every
other text is a template. -/
theorem resolveAssignee_template {parts : List TemplatePart} (h : IsTemplate parts) (input : Json) :
    ((∃ name, .reference name ∈ parts ∧ input.Lacks name) →
      resolveAssignee (templateText parts) input = none) ∧
    ((∀ name, .reference name ∈ parts → ¬ input.Lacks name) →
      ∃ texts, List.Forall₂ (TemplatePart.Fills input) parts texts ∧
        resolveAssignee (templateText parts) input =
          if trim (String.join texts) = "" then none else some (trim (String.join texts))) ∧
    (∀ tail : String, '}' ∉ tail.toList →
      resolveAssignee (templateText parts ++ "$\x7b" ++ tail) input = none) ∧
    ∀ text : String, ∃ parts, IsTemplate parts ∧ (text = templateText parts ∨
      ∃ tail : String, '}' ∉ tail.toList ∧ text = templateText parts ++ "$\x7b" ++ tail) := by
  have hscan : scan? none (templateText parts).toList =
      some (parts.flatMap TemplatePart.pieces) := by
    have hparts := scan?_templateChars h (show ([] : List Char).head? ≠ some '{' by simp)
    simpa [templateText, scan?] using hparts
  refine ⟨?_, ?_, ?_, ?_⟩
  · rintro ⟨name, hmem, hlacks⟩
    rw [resolveAssignee, hscan, Option.bind_some, fillAll?_of_lacks hmem hlacks]
  · intro hheld
    obtain ⟨texts, htexts, hfill⟩ := fillAll?_template hheld
    refine ⟨texts, htexts, ?_⟩
    have hempty : trim (String.join texts) = "" ↔ trimChars (String.join texts).toList = [] := by
      rw [trim, ← String.toList_inj, String.toList_ofList]
      rfl
    rw [resolveAssignee, hscan, Option.bind_some, hfill]
    simp only [hempty]
    rfl
  · intro tail htail
    have hparts := scan?_templateChars h
      (show ('$' :: '{' :: tail.toList).head? ≠ some '{' by simp)
    rw [scan?, scan?_unclosed htail, Option.map_none] at hparts
    have htext : (templateText parts ++ "$\x7b" ++ tail).toList =
        parts.flatMap TemplatePart.chars ++ '$' :: '{' :: tail.toList := by simp [templateText]
    rw [resolveAssignee, htext, hparts, Option.bind_none]
  · intro text
    obtain ⟨others, hothers, htext⟩ := exists_template text.toList
    refine ⟨others, hothers, ?_⟩
    rcases htext with htext | ⟨tail, htail, htext⟩
    · exact .inl (by rw [templateText, ← htext, String.ofList_toList])
    · refine .inr ⟨String.ofList tail, by rwa [String.toList_ofList], ?_⟩
      rw [← String.toList_inj, htext]
      simp [templateText]

/-- Dollar signs and braces that begin no reference are kept, a name may have the beginning of a
reference in it, and what is put in is not looked at again. -/
theorem resolveAssignee_template_nested :
    let parts : List TemplatePart :=
      [.literal "$", .reference " a ", .literal "\x7d", .reference "$\x7bb", .reference "n"]
    let input : Json :=
      .obj [("$\x7bb", .str " $\x7ba\x7d"), ("a", .str "$\x7bn\x7d"), ("n", .int 7)]
    templateText parts = "$$\x7b a \x7d\x7d$\x7b$\x7bb\x7d$\x7bn\x7d" ∧
      (∃ texts, List.Forall₂ (TemplatePart.Fills input) parts texts ∧
        resolveAssignee (templateText parts) input = some (trim (String.join texts))) ∧
      resolveAssignee (templateText parts) input = some "$$\x7bn\x7d\x7d $\x7ba\x7d7" ∧
      resolveAssignee (templateText parts) (.obj [("a", .str "x"), ("n", .int 7)]) = none ∧
      resolveAssignee (templateText parts ++ "$\x7b" ++ "n") input = none := by
  intro parts input
  have hparts : IsTemplate parts := by decide +kernel
  have hresolved : resolveAssignee (templateText parts) input =
      some "$$\x7bn\x7d\x7d $\x7ba\x7d7" := by decide +kernel
  obtain ⟨-, hfilled, hopen, -⟩ := resolveAssignee_template hparts input
  obtain ⟨texts, htexts, hresult⟩ := hfilled fun name hname => by
    have hnames : name = " a " ∨ name = "$\x7bb" ∨ name = "n" := by simpa [parts] using hname
    rcases hnames with rfl | rfl | rfl <;> decide +kernel
  refine ⟨by decide +kernel, ⟨texts, htexts, ?_⟩, hresolved, ?_, hopen "n" (by decide)⟩
  · rw [hresult] at hresolved ⊢
    split at hresolved
    · cases hresolved
    · next hne => rw [if_neg hne]
  · exact (resolveAssignee_template hparts _).1
      ⟨"$\x7bb", by simp [parts], by decide +kernel⟩

end ApprovalWorkflow
