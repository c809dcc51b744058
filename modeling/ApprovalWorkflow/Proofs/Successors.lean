import ApprovalWorkflow.Proofs.GuardedSteps

/-!
# What follows a step, recursively

`Definition.Follows` says what follows a step without searching for it: of declared successors
the first that may be executed, and otherwise the next step in the order of the document or, if
that one may not be executed, what follows it. In a sound definition exactly one thing follows
every step, and it is what is found (`HasDistinctIds.follows_iff`).

The search may also be told as a loop that keeps nothing but the id of the step which it has got
to and what that step declares, and finds the place of the step anew in each turn
(`Definition.search`). As long as no id is repeated, each turn gets to a later step, so that the
loop ends in no more turns than there are steps (`HasDistinctIds.search_eq`); with a repeated id it
may go back, and never end (`search_endless`). Every id that a sound definition declares is the
id of a step, so that no successor is ever reported as unknown.
-/

set_option autoImplicit false

namespace ApprovalWorkflow

open Operation

/-- A step is passed over exactly if it may not be executed. -/
theorem Step.passes_eq_false_iff {around : Surroundings} {s : Step} :
    (s.passes around).value = false ↔ ¬ s.IsAllowed around := by
  rw [← Step.passes_iff, Bool.not_eq_true]

/-! ## The recursion -/

namespace Definition

/-- What follows a step. -/
inductive Follows (d : Definition) (around : Surroundings) : Step → Option Step → Prop
  /-- The first declared successor that may be executed. -/
  | declared {s next : Step} {before after : List String}
      (hids : s.nextSteps = before ++ next.id :: after) (hnext : next ∈ d.steps)
      (hallowed : next.IsAllowed around)
      (hbefore : ∀ t ∈ d.steps, t.id ∈ before → ¬ t.IsAllowed around) :
      Follows d around s (some next)
  /-- Successors are declared, and none of them may be executed. -/
  | noneDeclared {s : Step} (hids : s.nextSteps ≠ [])
      (hnone : ∀ t ∈ d.steps, t.id ∈ s.nextSteps → ¬ t.IsAllowed around) :
      Follows d around s none
  /-- Nothing is declared, and the step is the last one. -/
  | last {s : Step} {before : List Step} (hids : s.nextSteps = [])
      (hsteps : d.steps = before ++ [s]) : Follows d around s none
  /-- Nothing is declared, and the step behind may be executed. -/
  | next {s c : Step} {before after : List Step} (hids : s.nextSteps = [])
      (hsteps : d.steps = before ++ s :: c :: after) (hallowed : c.IsAllowed around) :
      Follows d around s (some c)
  /-- Nothing is declared, and the step behind is passed over. -/
  | passedOver {s c : Step} {found : Option Step} {before after : List Step}
      (hids : s.nextSteps = []) (hsteps : d.steps = before ++ s :: c :: after)
      (hskipped : ¬ c.IsAllowed around) (h : Follows d around c found) :
      Follows d around s found

section

variable {d : Definition} {around : Surroundings} {s c : Step} {found : Option Step}
  {before after : List Step}

/-- The declared successors that are steps of the definition, in order, and of these the first
that may be executed. -/
theorem firstDeclared_value (origin : String) (ids : List String) :
    (d.firstDeclared around origin ids).value =
      (ids.filterMap d.find?).find? fun t => (t.passes around).value := by
  induction ids with
  | nil => rfl
  | cons id ids ih =>
    rw [firstDeclared]
    cases hfound : d.find? id with
    | none =>
      rw [List.filterMap_cons_none hfound]
      exact ih
    | some t =>
      rw [List.filterMap_cons_some hfound, List.find?_cons, Logged.value_bind]
      cases (t.passes around).value with
      | true => rfl
      | false => exact ih

/-- With distinct ids a declared successor is a step if its id is declared. -/
theorem HasDistinctIds.mem_filterMap (h : d.HasDistinctIds) {ids : List String} {t : Step} :
    t ∈ ids.filterMap d.find? ↔ t ∈ d.steps ∧ t.id ∈ ids := by
  rw [List.mem_filterMap]
  constructor
  · rintro ⟨id, hid, hfound⟩
    obtain ⟨ht, rfl⟩ := of_find?_eq_some hfound
    exact ⟨ht, hid⟩
  · rintro ⟨ht, hid⟩
    exact ⟨t.id, hid, h.find?_eq ht⟩

/-- Nothing is found among declared successors exactly if none of these steps may be executed. -/
theorem HasDistinctIds.firstDeclared_eq_none_iff (h : d.HasDistinctIds) (origin : String)
    (ids : List String) :
    (d.firstDeclared around origin ids).value = none ↔
      ∀ t ∈ d.steps, t.id ∈ ids → ¬ t.IsAllowed around := by
  rw [firstDeclared_value, List.find?_eq_none]
  simp only [h.mem_filterMap, Step.passes_iff, and_imp]

/-- What is found among declared successors is the first of these steps that may be executed. -/
theorem HasDistinctIds.firstDeclared_eq_some_iff (h : d.HasDistinctIds) (origin : String)
    (ids : List String) {next : Step} :
    (d.firstDeclared around origin ids).value = some next ↔
      ∃ before after, ids = before ++ next.id :: after ∧ next ∈ d.steps ∧
        next.IsAllowed around ∧ ∀ t ∈ d.steps, t.id ∈ before → ¬ t.IsAllowed around := by
  rw [firstDeclared_value, List.find?_eq_some_iff_append, Step.passes_iff]
  constructor
  · rintro ⟨hallowed, front, back, hsplit, hfront⟩
    obtain ⟨before, rest, rfl, hbefore, hrest⟩ := List.filterMap_eq_append_iff.mp hsplit
    obtain ⟨unknown, id, after, rfl, hunknown, hfound, -⟩ := List.filterMap_eq_cons_iff.mp hrest
    obtain ⟨hnext, rfl⟩ := of_find?_eq_some hfound
    -- Unknown ids are passed over, so that they stand before the step that is found, too.
    refine ⟨before ++ unknown, after, by simp, hnext, hallowed, ?_⟩
    intro t ht hid
    rcases List.mem_append.mp hid with hid | hid
    · have hmem : t ∈ front := hbefore ▸ h.mem_filterMap.mpr ⟨ht, hid⟩
      exact Step.passes_eq_false_iff.mp (by simpa using hfront t hmem)
    · have hnone := hunknown t.id hid
      rw [h.find?_eq ht] at hnone
      cases hnone
  · rintro ⟨before, after, rfl, hnext, hallowed, hbefore⟩
    refine ⟨hallowed, before.filterMap d.find?, after.filterMap d.find?, ?_, ?_⟩
    · rw [List.filterMap_append, List.filterMap_cons_some (h.find?_eq hnext)]
    · intro t ht
      obtain ⟨ht, hid⟩ := h.mem_filterMap.mp ht
      simpa using Step.passes_eq_false_iff.mpr (hbefore t ht hid)

/-- With distinct ids a step is found at its own place. -/
theorem HasDistinctIds.position?_eq (h : d.HasDistinctIds)
    (hsteps : d.steps = before ++ s :: after) : d.position? s.id = some before.length := by
  have hnodup := h.steps
  rw [hsteps, List.map_append, List.map_cons, List.nodup_middle, List.nodup_cons] at hnodup
  have hearlier : ∀ t ∈ before, t.id ≠ s.id := by
    intro t ht hid
    exact hnodup.1 (List.mem_append_left _ (hid ▸ List.mem_map_of_mem ht))
  rw [position?, hsteps, List.findIdx?_append, List.findIdx?_cons, List.findIdx?_eq_none_iff.mpr]
  · simp
  · simpa using hearlier

/-- The steps behind a step. -/
theorem HasDistinctIds.stepsAfter_eq (h : d.HasDistinctIds)
    (hsteps : d.steps = before ++ s :: after) : d.stepsAfter s.id = after := by
  rw [stepsAfter, h.position?_eq hsteps, hsteps]
  simp

/-- Behind a step that declares nothing, a step that may be executed follows. -/
theorem HasDistinctIds.successor_of_allowed (h : d.HasDistinctIds) (hids : s.nextSteps = [])
    (hsteps : d.steps = before ++ s :: c :: after) (hallowed : c.IsAllowed around) :
    (d.successor around s).value = some c := by
  rw [successor, hids, h.stepsAfter_eq hsteps, firstInRow]
  simp only [List.isEmpty_nil, if_true, Logged.value_bind]
  rw [if_pos (Step.passes_iff.mpr hallowed)]
  rfl

/-- Behind a step that declares nothing, a step that may not be executed is passed over in favour
of what follows it. -/
theorem HasDistinctIds.successor_of_skipped (h : d.HasDistinctIds) (hids : s.nextSteps = [])
    (hsteps : d.steps = before ++ s :: c :: after) (hskipped : ¬ c.IsAllowed around) :
    (d.successor around s).value = (d.successor around c).value := by
  have hbehind : d.steps = (before ++ [s]) ++ c :: after := by simp [hsteps]
  rw [successor, hids, h.stepsAfter_eq hsteps, firstInRow, successor, h.stepsAfter_eq hbehind]
  simp only [List.isEmpty_nil, if_true, Logged.value_bind]
  rw [if_neg (mt Step.passes_iff.mp hskipped)]
  split <;> rfl

/-- What follows the last step if it declares nothing. -/
theorem HasDistinctIds.successor_of_last (h : d.HasDistinctIds) (hids : s.nextSteps = [])
    (hsteps : d.steps = before ++ [s]) : (d.successor around s).value = none := by
  rw [successor, hids, h.stepsAfter_eq hsteps]
  rfl

/-- The successor of a step with declared ones is searched for among these. -/
theorem successor_of_declared (hids : s.nextSteps ≠ []) :
    d.successor around s = d.firstDeclared around s.id s.nextSteps := by
  rw [successor, if_neg (by simpa using hids)]

/-- Only what is found follows. -/
theorem Follows.eq_successor (h : d.HasDistinctIds) (hfollows : d.Follows around s found) :
    found = (d.successor around s).value := by
  induction hfollows with
  | declared hids hnext hallowed hbefore =>
    rw [successor_of_declared (by simp [hids])]
    exact ((h.firstDeclared_eq_some_iff _ _).mpr ⟨_, _, hids, hnext, hallowed, hbefore⟩).symm
  | noneDeclared hids hnone =>
    rw [successor_of_declared hids]
    exact ((h.firstDeclared_eq_none_iff _ _).mpr hnone).symm
  | last hids hsteps => exact (h.successor_of_last hids hsteps).symm
  | next hids hsteps hallowed => exact (h.successor_of_allowed hids hsteps hallowed).symm
  | passedOver hids hsteps hskipped _ ih =>
    exact ih.trans (h.successor_of_skipped hids hsteps hskipped).symm

/-- What is found among the declared successors of a step follows it. -/
theorem HasDistinctIds.follows_of_declared (h : d.HasDistinctIds) (hids : s.nextSteps ≠ []) :
    d.Follows around s (d.successor around s).value := by
  rw [successor_of_declared hids]
  cases hfound : (d.firstDeclared around s.id s.nextSteps).value with
  | none => exact .noneDeclared hids ((h.firstDeclared_eq_none_iff _ _).mp hfound)
  | some next =>
    obtain ⟨before, after, hsplit, hnext, hallowed, hbefore⟩ :=
      (h.firstDeclared_eq_some_iff _ _).mp hfound
    exact .declared hsplit hnext hallowed hbefore

/-- What is found follows. The induction is on the steps behind. -/
theorem HasDistinctIds.follows_successor (h : d.HasDistinctIds)
    (hsteps : d.steps = before ++ s :: after) :
    d.Follows around s (d.successor around s).value := by
  induction after generalizing before s with
  | nil =>
    by_cases hids : s.nextSteps = []
    · rw [h.successor_of_last hids hsteps]
      exact .last hids hsteps
    · exact h.follows_of_declared hids
  | cons c after ih =>
    by_cases hids : s.nextSteps = []
    · by_cases hallowed : c.IsAllowed around
      · rw [h.successor_of_allowed hids hsteps hallowed]
        exact .next hids hsteps hallowed
      · rw [h.successor_of_skipped hids hsteps hallowed]
        have hrest : d.steps = (before ++ [s]) ++ c :: after := by simp [hsteps]
        exact .passedOver hids hsteps hallowed (ih hrest)
    · exact h.follows_of_declared hids

/-- Exactly what is found follows a step. -/
theorem HasDistinctIds.follows_iff (h : d.HasDistinctIds) (hs : s ∈ d.steps) :
    d.Follows around s found ↔ found = (d.successor around s).value := by
  refine ⟨fun hfollows => hfollows.eq_successor h, ?_⟩
  rintro rfl
  obtain ⟨before, after, hsteps⟩ := List.append_of_mem hs
  exact h.follows_successor hsteps

end

/-! ## The loop -/

/-- How far the search for a successor has got: the id of a step and what that step declares. -/
structure Search where
  origin : String
  declared : List String

/-- Where the search begins that is made for a step, or goes on behind one. -/
def Search.behind (s : Step) : Search := ⟨s.id, s.nextSteps⟩

/-- One turn of the search. It ends with what it has found, or goes on behind a step that is
passed over. -/
def turn (d : Definition) (around : Surroundings) (q : Search) : Option Step ⊕ Search :=
  if q.declared.isEmpty then
    match (d.position? q.origin).bind fun position => d.steps[position + 1]? with
    | none => .inl none
    | some c => if (c.passes around).value then .inl (some c) else .inr (.behind c)
  else .inl (d.firstDeclared around q.origin q.declared).value

/-- What the search finds in so many turns, if it ends within them. -/
def search (d : Definition) (around : Surroundings) : Nat → Search → Option (Option Step)
  | 0, _ => none
  | turns + 1, q =>
    match d.turn around q with
    | .inl found => some found
    | .inr q => search d around turns q

section

variable {d : Definition} {around : Surroundings} {s : Step} {before after : List Step}

/-- A turn behind a step with declared successors ends with what is found among them. -/
theorem turn_of_declared (hids : s.nextSteps ≠ []) :
    d.turn around (.behind s) = .inl (d.successor around s).value := by
  rw [successor_of_declared hids, turn, Search.behind, if_neg (by simpa using hids)]

/-- A turn looks at the step behind the first one with the id, if there is one. -/
theorem turn_of_nothing_declared (hids : s.nextSteps = []) :
    d.turn around (.behind s) =
      match (d.position? s.id).bind fun position => d.steps[position + 1]? with
      | none => .inl none
      | some c => if (c.passes around).value then .inl (some c) else .inr (.behind c) := by
  rw [turn, Search.behind, hids]
  rfl

/-- A turn behind a step without declared successors looks at the next step of the document, and
ends there or goes on behind it. -/
theorem HasDistinctIds.turn_eq (h : d.HasDistinctIds) (hids : s.nextSteps = [])
    (hsteps : d.steps = before ++ s :: after) :
    d.turn around (.behind s) =
      match after.head? with
      | none => .inl none
      | some c => if (c.passes around).value then .inl (some c) else .inr (.behind c) := by
  have hbehind :
      (d.position? s.id).bind (fun position => d.steps[position + 1]?) = after.head? := by
    rw [h.position?_eq hsteps, Option.bind_some, hsteps, List.getElem?_append_right (by omega),
      Nat.add_sub_cancel_left, List.getElem?_cons_succ, List.head?_eq_getElem?]
  rw [turn_of_nothing_declared hids, hbehind]

/-- The search ends within as many turns as there are steps behind its origin and one more, and
finds what follows. -/
theorem HasDistinctIds.search_eq (h : d.HasDistinctIds)
    (hsteps : d.steps = before ++ s :: after) {turns : Nat} (hturns : after.length < turns) :
    d.search around turns (.behind s) = some (d.successor around s).value := by
  -- Every turn that goes on leaves one of the steps behind the origin.
  induction after generalizing before s turns with
  | nil =>
    obtain ⟨turns, rfl⟩ := Nat.exists_eq_succ_of_ne_zero (Nat.ne_of_gt hturns)
    rw [search]
    by_cases hids : s.nextSteps = []
    · rw [h.turn_eq hids hsteps, h.successor_of_last hids hsteps]
      rfl
    · rw [turn_of_declared hids]
  | cons c after ih =>
    obtain ⟨turns, rfl⟩ := Nat.exists_eq_succ_of_ne_zero (Nat.ne_zero_of_lt hturns)
    rw [search]
    by_cases hids : s.nextSteps = []
    · rw [h.turn_eq hids hsteps, List.head?_cons]
      dsimp only
      by_cases hallowed : c.IsAllowed around
      · rw [if_pos (Step.passes_iff.mpr hallowed), h.successor_of_allowed hids hsteps hallowed]
      · rw [if_neg (mt Step.passes_iff.mp hallowed), h.successor_of_skipped hids hsteps hallowed]
        have hrest : d.steps = (before ++ [s]) ++ c :: after := by simp [hsteps]
        exact ih hrest (Nat.lt_of_succ_lt_succ hturns)
    · rw [turn_of_declared hids]

end

/-- With a repeated id the search may never end: behind the second step it goes on behind the
first one. -/
theorem search_endless :
    let a := Step.process "a"
    let d := ofSteps "w" [a, a.withCondition "false"]
    ∀ turns, d.search ⟨.null, []⟩ turns (.behind a) = none := by
  intro a d turns
  have hskipped : ((a.withCondition "false").passes ⟨.null, []⟩).value = false := by
    decide +kernel
  have hbehind : (d.position? a.id).bind (fun position => d.steps[position + 1]?) =
      some (a.withCondition "false") := rfl
  have hturn : d.turn ⟨.null, []⟩ (.behind a) = .inr (.behind a) := by
    rw [turn_of_nothing_declared rfl, hbehind]
    dsimp only
    rw [hskipped]
    rfl
  induction turns with
  | zero => rfl
  | succ turns ih =>
    rw [search, hturn]
    exact ih

end Definition

/-! ## No successor is unknown -/

/-- The line that reports a declared successor as unknown. -/
def LogLine.unknownSuccessor (origin id : String) : LogLine :=
  ⟨.warn, "Step '" ++ origin ++ "' names unknown successor '" ++ id ++ "'"⟩

/-- A line that begins with another letter does not report an unknown successor. -/
theorem LogLine.ne_unknownSuccessor {l : LogLine} (letter : Char)
    (h : l.text.toList.head? = some letter) (hletter : letter ≠ 'S') (origin id : String) :
    unknownSuccessor origin id ≠ l := by
  rintro rfl
  have hinitial : (unknownSuccessor origin id).text.toList.head? = some 'S' :=
    Text.head?_append (Text.head?_append (Text.head?_append (Text.head?_append
      (by decide) _) _) _) _
  rw [hinitial] at h
  exact hletter (Option.some.inj h).symm

/-- No successor is reported as unknown. -/
def Logged.KnowsSuccessors {α : Type} (x : Logged α) : Prop :=
  ∀ origin id, LogLine.unknownSuccessor origin id ∉ x.lines

namespace Logged.KnowsSuccessors

variable {α β : Type}

/-- A value without lines reports no successor as unknown. -/
theorem pure (a : α) : (Pure.pure a : Logged α).KnowsSuccessors :=
  fun _ _ => List.not_mem_nil

/-- Two logged values in a row report none as unknown if neither does. -/
theorem bind {x : Logged α} {f : α → Logged β} (hx : x.KnowsSuccessors)
    (hf : (f x.value).KnowsSuccessors) : (x >>= f).KnowsSuccessors :=
  fun origin id hmem => (List.mem_append.mp hmem).elim (hx origin id) (hf origin id)

end Logged.KnowsSuccessors

/-- Asking the guard of a step reports no successor as unknown. -/
theorem Step.passes_knowsSuccessors (around : Surroundings) (s : Step) :
    (s.passes around).KnowsSuccessors := by
  unfold passes
  cases s.guard? with
  | none => exact .pure true
  | some guard =>
    dsimp only [Condition.holds]
    cases Condition.evaluate around guard with
    | ok b => exact .pure b
    | error error =>
      intro origin id hmem
      refine LogLine.ne_unknownSuccessor 'C' ?_ (by decide) origin id
        (List.mem_singleton.mp hmem)
      exact Text.head?_append (Text.head?_append (Text.head?_append (Text.head?_append
        (by decide) _) _) _) _

namespace Definition

variable {d : Definition} {around : Surroundings} {s : Step}

/-- Passing a step over reports no successor as unknown. -/
theorem skipped_knowsSuccessors (s : Step) : (Logged.write [skipped s]).KnowsSuccessors := by
  intro origin id hmem
  cases congrArg LogLine.level (List.mem_singleton.mp hmem)

/-- Every id that a sound definition declares is the id of a step. -/
theorem find?_of_declared (hd : d.isSound) (hs : s ∈ d.steps) {id : String}
    (hid : id ∈ s.nextSteps) : (d.find? id).isSome := by
  have hproblems : d.problems = [] := List.isEmpty_iff.mp hd
  rw [problems] at hproblems
  split at hproblems
  · cases hproblems
  obtain ⟨-, hsteps⟩ := List.append_eq_nil_iff.mp hproblems
  have hreferences := (List.append_eq_nil_iff.mp (List.flatMap_eq_nil_iff.mp hsteps s hs)).2
  have hknown := List.filter_eq_nil_iff.mp (List.map_eq_nil_iff.mp hreferences) id hid
  have hmem : id ∈ d.stepIds := by simpa using hknown
  obtain ⟨t, ht, rfl⟩ := List.mem_map.mp (List.mem_filter.mp hmem).1
  rw [find?, List.find?_isSome]
  exact ⟨t, ht, by simp⟩

/-- The search among declared successors reports none as unknown if each of them is found. -/
theorem firstDeclared_knowsSuccessors {ids : List String} (origin : String)
    (h : ∀ id ∈ ids, (d.find? id).isSome) :
    (d.firstDeclared around origin ids).KnowsSuccessors := by
  induction ids with
  | nil => exact .pure none
  | cons id ids ih =>
    obtain ⟨t, ht⟩ := Option.isSome_iff_exists.mp (h id List.mem_cons_self)
    rw [firstDeclared, ht]
    refine .bind (t.passes_knowsSuccessors around) ?_
    split
    · exact .pure _
    · exact .bind (skipped_knowsSuccessors t) (ih fun id hid => h id (List.mem_cons_of_mem _ hid))

/-- The search in the row of steps reports no successor as unknown. The induction is on the row.
-/
theorem firstInRow_knowsSuccessors (hd : d.isSound) {steps : List Step}
    (hsteps : ∀ t ∈ steps, t ∈ d.steps) : (d.firstInRow around steps).KnowsSuccessors := by
  induction steps with
  | nil => exact .pure none
  | cons t steps ih =>
    rw [firstInRow]
    refine .bind (t.passes_knowsSuccessors around) ?_
    split
    · exact .pure _
    · refine .bind (skipped_knowsSuccessors t) ?_
      split
      · exact ih fun u hu => hsteps u (List.mem_cons_of_mem _ hu)
      · exact firstDeclared_knowsSuccessors t.id fun id hid =>
          find?_of_declared hd (hsteps t List.mem_cons_self) hid

/-- The search for a successor in a sound definition knows all of them. -/
theorem successor_knowsSuccessors (hd : d.isSound) (hs : s ∈ d.steps) :
    (d.successor around s).KnowsSuccessors := by
  unfold successor
  split
  · obtain ⟨before, after, hsteps⟩ := List.append_of_mem hs
    rw [(hasDistinctIds_of_isSound hd).stepsAfter_eq hsteps]
    refine firstInRow_knowsSuccessors hd fun t ht => ?_
    rw [hsteps]
    exact List.mem_append_right _ (List.mem_cons_of_mem _ ht)
  · exact firstDeclared_knowsSuccessors s.id fun id hid => find?_of_declared hd hs hid

end Definition

/-! ## The search of the engine -/

namespace Operation

variable {α β : Type}

/-- The operation leaves the log as it is. -/
def IsSilent (x : Operation α) : Prop := ∀ env, (x.leaves env).log = env.log

namespace IsSilent

/-- Giving a value at once leaves the log as it is. -/
theorem pure (a : α) : (Pure.pure a : Operation α).IsSilent := fun _ => rfl

/-- Two operations in a row leave the log as it is if both do. -/
theorem bind {x : Operation α} {f : α → Operation β} (hx : x.IsSilent)
    (hf : ∀ a, (f a).IsSilent) : (x >>= f).IsSilent := by
  intro env
  have hfirst := hx env
  rw [leaves] at hfirst ⊢
  rw [runIn_bind]
  rcases hrun : x.runIn env with ⟨error | a, env'⟩
  · rwa [hrun] at hfirst
  · rw [hrun] at hfirst
    exact (hf a env').trans hfirst

/-- Looking at the environment leaves the log as it is. -/
theorem get : (MonadState.get : Operation Environment).IsSilent := fun _ => rfl

/-- A call of the store leaves the log as it is. -/
theorem perform (call : StoreCall) (run : Store → Except EngineError (α × Store)) :
    (Operation.perform call run).IsSilent := by
  intro env
  change (Operation.perform call run env).2.log = env.log
  unfold Operation.perform
  dsimp only
  split <;> rfl

/-- An operation that leaves the log as it is does exactly what it yields. -/
theorem runIn_eq {x : Operation α} (hx : x.IsSilent) {env env' : Environment}
    {r : Except EngineError α} (h : x.Yields env r env') (hlog : env'.log = env.log) :
    x.runIn env = (r, env') := by
  obtain ⟨log, hrun⟩ := h.runIn_eq
  have hsame := hx env
  rw [leaves, hrun] at hsame
  rw [hrun, ← show env'.log = log from hlog.trans hsame.symm]

end IsSilent

end Operation

namespace Engine

/-- Reading the tasks from a page on leaves the log as it is. The induction is on the pages that
may be read. -/
theorem tasksFrom_isSilent (i : Uuid) (pages : Nat) (page : Page) :
    (Repository.tasksFrom i pages page).IsSilent := by
  induction pages generalizing page with
  | zero => exact .pure []
  | succ pages ih =>
    refine .bind (.perform _ _) fun batch => ?_
    split
    · exact .pure batch
    · exact .bind (ih page.next) fun others => .pure (batch ++ others)

/-- Reading the tasks of an instance leaves the log as it is. -/
theorem tasksOf_isSilent (e : Engine) (i : Uuid) : (e.tasksOf i).IsSilent :=
  .bind .get fun _ => tasksFrom_isSilent i _ _

/-- What the engine takes for the next step, and what it writes to the log. -/
theorem nextStep_runIn (e : Engine) {env : Environment} (h : env.outage = none) (d : Definition)
    (s : Step) (i : Instance) :
    (e.nextStep d s i).runIn env =
      (.ok (d.successor ⟨i.input, env.store.tasksOf i.id⟩ s).value,
        { env with
          log := env.log ++ (d.successor ⟨i.input, env.store.tasksOf i.id⟩ s).lines }) := by
  rw [nextStep, runIn_bind,
    (e.tasksOf_isSilent i.id).runIn_eq (e.tasksOf_yields i.id h) rfl]
  rfl

end Engine

/-- In a sound definition the search for what follows a step comes to an end and finds it: told as
a loop that finds the place of the step anew in each turn, it ends within as many turns as there
are steps. No successor is reported as unknown. -/
theorem successor_found (e : Engine) {env : Environment} (h : env.outage = none)
    {d : Definition} (hd : d.isSound) {s : Step} (hs : s ∈ d.steps) (i : Instance) :
    let around : Surroundings := ⟨i.input, env.store.tasksOf i.id⟩
    ∃ next lines,
      (e.nextStep d s i).runIn env = (.ok next, { env with log := env.log ++ lines }) ∧
      (∀ found, d.Follows around s found ↔ found = next) ∧
      d.search around d.steps.length (.behind s) = some next ∧
      ∀ origin id, LogLine.unknownSuccessor origin id ∉ lines := by
  intro around
  have hdistinct := Definition.hasDistinctIds_of_isSound hd
  obtain ⟨before, after, hsteps⟩ := List.append_of_mem hs
  have hlength : after.length < d.steps.length := by
    rw [hsteps, List.length_append, List.length_cons]
    omega
  exact ⟨(d.successor around s).value, (d.successor around s).lines, e.nextStep_runIn h d s i,
    fun found => hdistinct.follows_iff hs, hdistinct.search_eq hsteps hlength,
    Definition.successor_knowsSuccessors hd hs⟩

/-- A step that is passed over declares an earlier one, so that a task follows itself. -/
theorem successor_found_circle :
    let a := Step.userTask "a"
    let b := ((Step.process "b").withCondition "false").andThen "a"
    let d := Definition.ofSteps "w" [a, b]
    let i : Instance := .new (IdSource.issue 0 .run 0) (IdSource.issue 0 .workflow 0) .null ⟨0, 0⟩
    ∃ lines, (Engine.default.nextStep d a i).runIn (Environment.fresh 0 ⟨0, 0⟩) =
      (.ok (some a), { Environment.fresh 0 ⟨0, 0⟩ with log := lines }) := by
  intro a b d i
  have houtage : (Environment.fresh 0 ⟨0, 0⟩).outage = none := rfl
  have hd : d.isSound := by decide +kernel
  have ha : a ∈ d.steps := List.mem_cons_self
  obtain ⟨next, lines, hrun, hfollows, -, -⟩ := successor_found .default houtage hd ha i
  have hskipped : ¬ b.IsAllowed ⟨i.input, (Environment.fresh 0 ⟨0, 0⟩).store.tasksOf i.id⟩ :=
    Step.passes_eq_false_iff.mp (by decide +kernel)
  have hb : d.Follows ⟨i.input, (Environment.fresh 0 ⟨0, 0⟩).store.tasksOf i.id⟩ b (some a) :=
    .declared (show b.nextSteps = [] ++ a.id :: [] by decide +kernel) ha
      (fun guard hguard => nomatch hguard) (by simp)
  have hsteps : d.steps = [] ++ a :: b :: [] := rfl
  obtain rfl := (hfollows _).mp (.passedOver rfl hsteps hskipped hb)
  exact ⟨_, hrun⟩

end ApprovalWorkflow
