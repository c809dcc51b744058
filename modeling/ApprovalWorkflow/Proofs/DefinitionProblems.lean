import ApprovalWorkflow.Proofs.Expressions
import ApprovalWorkflow.Proofs.Origins

/-!
# What is wrong with a definition

`Definition.IsWellFormed` says what a sound definition looks like, and `Definition.violations` lists
what is wrong with any other one, both without a word about how this is found out: an id is repeated
if it stands at an earlier place (`reportEach`), wherever that is. Going through the steps with the
ids that have been seen so far finds exactly these repetitions (`repeatedIds_eq`,
`branchProblems_eq`), although empty ids are passed over among the steps, and blank ones among
branches. So a definition is accepted exactly if it is well formed, and otherwise its violations are
reported, each as often as it occurs (`check_exact`).

What counts are the steps of the definition and the branches of these. What a branch has for
branches of its own is not looked at.
-/

set_option autoImplicit false

namespace ApprovalWorkflow

namespace Definition

/-! ## Well-formed definitions and their violations -/

/-- What a sound definition looks like. -/
structure IsWellFormed (d : Definition) : Prop where
  /-- There is a step. -/
  nonempty : d.steps ≠ []
  /-- No id of a step is blank. -/
  ids : ∀ s ∈ d.steps, Text.trim s.id ≠ ""
  /-- No id of a branch is blank. -/
  branchIds : ∀ s ∈ d.steps, ∀ b ∈ s.branches, Text.trim b.id ≠ ""
  /-- Different steps have different ids, and so have different branches of one step. -/
  distinct : d.HasDistinctIds
  /-- A parallel step has a branch. -/
  branches : ∀ s ∈ d.steps, s.isParallel → s.branches ≠ []
  /-- Every declared successor is a step. -/
  successors : ∀ s ∈ d.steps, ∀ next ∈ s.nextSteps, ∃ u ∈ d.steps, u.id = next

/-- What is reported of each item, which may depend on the items before it. -/
def reportEach {α β : Type} (report : List α → α → Option β) (items : List α) : List β :=
  items.zipIdx.filterMap fun (a, place) => report (items.take place) a

/-- A step is reported if its id is not empty and an earlier step has it. -/
def repetition? (before : List Step) (s : Step) : Option DefinitionProblem :=
  if s.id ≠ "" ∧ s.id ∈ before.map Step.id then some (.duplicateStepId s.id) else none

/-- A branch is reported if its id is blank, or if an earlier branch has it. -/
def branchViolation? (stepId : String) (before : List Step) (b : Step) :
    Option DefinitionProblem :=
  if Text.trim b.id = "" then some .emptyStepId
  else if b.id ∈ before.map Step.id then some (.duplicateBranchId stepId b.id)
  else none

/-- What is wrong with a step by itself. -/
def stepViolations (s : Step) : List DefinitionProblem :=
  if Text.trim s.id = "" then [.emptyStepId]
  else
    (if s.isParallel ∧ s.branches = [] then [.noBranches s.id] else [])
      ++ reportEach (branchViolation? s.id) s.branches

/-- The declared successors of a step that are no steps with an id. -/
def strayReferences (d : Definition) (s : Step) : List DefinitionProblem :=
  (s.nextSteps.filter fun next => ∀ u ∈ d.steps, u.id ≠ "" → u.id ≠ next).map
    (.unknownReference s.id)

/-- Everything that is wrong with a definition that has steps: first the repetitions, then step by
step what is wrong with the step and with the successors that it declares. -/
def violations (d : Definition) : List DefinitionProblem :=
  reportEach repetition? d.steps
    ++ d.steps.flatMap fun s => stepViolations s ++ d.strayReferences s

/-! ## Reports -/

section Reports

variable {α β : Type} {report report' : List α → α → Option β}

/-- What is reported of the items behind the first one is reported as of items that it stands
before. -/
theorem reportEach_tail (a : α) (items : List α) :
    (items.zipIdx 1).filterMap (fun (b, place) => report ((a :: items).take place) b) =
      reportEach (fun before => report (a :: before)) items := by
  rw [show 1 = 0 + 1 from rfl, List.zipIdx_succ, List.filterMap_map]
  rfl

/-- If nothing is reported of the first item, the reports are those of the others behind it. -/
theorem reportEach_cons_of_none {a : α} (items : List α) (h : report [] a = none) :
    reportEach report (a :: items) = reportEach (fun before => report (a :: before)) items := by
  rw [← reportEach_tail, reportEach, List.zipIdx_cons]
  exact List.filterMap_cons_none h

/-- If something is reported of the first item, this is the first report. -/
theorem reportEach_cons_of_some {a : α} {b : β} (items : List α) (h : report [] a = some b) :
    reportEach report (a :: items) =
      b :: reportEach (fun before => report (a :: before)) items := by
  rw [← reportEach_tail, reportEach, List.zipIdx_cons]
  exact List.filterMap_cons_some h

/-- Reports that agree on every item are the same as a whole. -/
theorem reportEach_congr {items : List α}
    (h : ∀ before, ∀ a ∈ items, report before a = report' before a) :
    reportEach report items = reportEach report' items := by
  refine List.filterMap_congr fun (a, place) hmem => ?_
  exact h _ a (List.fst_mem_of_mem_zipIdx hmem)

/-- Nothing is reported if nothing is reported of any item. -/
theorem reportEach_eq_nil_iff {items : List α} :
    reportEach report items = [] ↔
      ∀ place a, items[place]? = some a → report (items.take place) a = none := by
  rw [reportEach, List.filterMap_eq_nil_iff]
  constructor
  · intro h place a ha
    exact h (a, place) (List.mem_zipIdx_iff_getElem?.mpr ha)
  · rintro h ⟨a, place⟩ hmem
    exact h place a (List.mem_zipIdx_iff_getElem?.mp hmem)

/-- Keys are different if none of them stands at an earlier place. -/
theorem nodup_map_iff {key : α → String} {items : List α} :
    (items.map key).Nodup ↔
      ∀ place a, items[place]? = some a → key a ∉ (items.take place).map key := by
  rw [List.Nodup, List.pairwise_map, List.pairwise_iff_getElem]
  constructor
  · intro h place a ha hmem
    obtain ⟨hplace, rfl⟩ := List.getElem?_eq_some_iff.mp ha
    obtain ⟨b, hb, hkey⟩ := List.mem_map.mp hmem
    obtain ⟨earlier, hearlier, rfl⟩ := List.mem_take_iff_getElem.mp hb
    exact h earlier place (by omega) hplace (by omega) hkey
  · intro h i j hi hj hij hkey
    refine h j items[j] (List.getElem?_eq_getElem hj) (List.mem_map.mpr ⟨items[i], ?_, hkey⟩)
    exact List.mem_take_iff_getElem.mpr ⟨i, by omega, rfl⟩

end Reports

/-! ## Going through steps and branches -/

/-- A blank text is one of which nothing is left after trimming. -/
theorem isBlankText_iff (text : String) : Text.isBlankText text = true ↔ Text.trim text = "" := by
  rw [Text.isBlankText, List.all_eq_true, Text.trim, String.ofList_eq_empty_iff,
    Text.trimChars_eq_nil_iff]
  rfl

/-- The steps with repeated ids, when some ids have been seen before. -/
theorem repeatedIds_eq (seen : List String) (steps : List Step) :
    repeatedIds seen steps = reportEach (fun before s =>
      if s.id ≠ "" ∧ (s.id ∈ seen ∨ s.id ∈ before.map Step.id) then some (.duplicateStepId s.id)
      else none) steps := by
  induction steps generalizing seen with
  | nil => rfl
  | cons s steps ih =>
    rw [repeatedIds]
    by_cases hempty : s.id = ""
    · -- an empty id is not put down, and no other id can be equal to it
      rw [if_pos hempty, ih seen, reportEach_cons_of_none _ (if_neg fun h => h.1 hempty)]
      refine reportEach_congr fun before u _ => ?_
      by_cases hu : u.id = "" <;> simp [hu, hempty]
    · by_cases hseen : s.id ∈ seen
      · rw [if_neg hempty, if_pos (by simpa using hseen), ih seen,
          reportEach_cons_of_some _ (if_pos ⟨hempty, .inl hseen⟩)]
        refine congrArg (_ :: ·) (reportEach_congr fun before u _ => ?_)
        by_cases hu : u.id = s.id <;> simp [hu, hseen]
      · rw [if_neg hempty, if_neg (by simpa using hseen), ih (s.id :: seen),
          reportEach_cons_of_none _ (if_neg (by simp [hseen]))]
        refine reportEach_congr fun before u _ => ?_
        simp [or_assoc, or_left_comm]

/-- The branches with blank or repeated ids, when some ids have been seen before. -/
theorem branchProblems_eq (stepId : String) (seen : List String) (branches : List Step) :
    branchProblems stepId seen branches = reportEach (fun before b =>
      if Text.trim b.id = "" then some .emptyStepId
      else if b.id ∈ seen ∨ b.id ∈ before.map Step.id then some (.duplicateBranchId stepId b.id)
      else none) branches := by
  induction branches generalizing seen with
  | nil => rfl
  | cons b branches ih =>
    rw [branchProblems]
    by_cases hblank : Text.trim b.id = ""
    · -- a blank id is not put down either
      rw [if_pos ((isBlankText_iff b.id).mpr hblank), ih seen,
        reportEach_cons_of_some _ (if_pos hblank)]
      refine congrArg (_ :: ·) (reportEach_congr fun before c _ => ?_)
      by_cases hc : c.id = b.id <;> simp [hc, hblank]
    · rw [if_neg (mt (isBlankText_iff b.id).mp hblank)]
      by_cases hseen : b.id ∈ seen
      · rw [if_pos (by simpa using hseen), ih seen,
          reportEach_cons_of_some _ (by rw [if_neg hblank, if_pos (.inl hseen)])]
        refine congrArg (_ :: ·) (reportEach_congr fun before c _ => ?_)
        by_cases hc : c.id = b.id <;> simp [hc, hseen]
      · rw [if_neg (by simpa using hseen), ih (b.id :: seen),
          reportEach_cons_of_none _ (by simp [hblank, hseen])]
        refine reportEach_congr fun before c _ => ?_
        simp [or_assoc, or_left_comm]

/-- What is found wrong with a step is what is wrong with it. -/
theorem stepProblems_eq (s : Step) : stepProblems s = stepViolations s := by
  unfold stepProblems stepViolations
  by_cases hblank : Text.trim s.id = ""
  · rw [if_pos ((isBlankText_iff s.id).mpr hblank), if_pos hblank]
  · rw [if_neg (mt (isBlankText_iff s.id).mp hblank), if_neg hblank]
    unfold Step.isParallel Step.branches
    cases s.kind with
    | parallel branches =>
      have hbranches : branchProblems s.id [] branches =
          reportEach (branchViolation? s.id) branches := by
        rw [branchProblems_eq]
        refine reportEach_congr fun before b _ => ?_
        simp [branchViolation?]
      dsimp only
      rw [hbranches]
      cases branches <;> rfl
    | _ => rfl

/-- The successors that are not found are those that are no steps with an id. -/
theorem referenceProblems_eq (d : Definition) (s : Step) :
    referenceProblems d.stepIds s = d.strayReferences s := by
  unfold referenceProblems strayReferences stepIds
  congr 1
  refine List.filter_congr fun next _ => ?_
  rw [Bool.eq_iff_iff]
  simp only [Bool.not_eq_true', List.contains_eq_mem, decide_eq_false_iff_not, List.mem_filter,
    List.mem_map, decide_eq_true_eq]
  constructor
  · rintro h u hu hne rfl
    exact h ⟨⟨u, hu, rfl⟩, by simpa using hne⟩
  · rintro h ⟨⟨u, hu, rfl⟩, hne⟩
    exact h u hu (by simpa using hne) rfl

/-- What is found wrong with a definition is what is wrong with it. -/
theorem problems_eq (d : Definition) :
    d.problems = if d.steps = [] then [.noSteps] else d.violations := by
  unfold problems violations
  by_cases hsteps : d.steps = []
  · rw [if_pos hsteps, if_pos (by simp [hsteps])]
  · rw [if_neg hsteps, if_neg (by simpa using hsteps), repeatedIds_eq]
    congr 1
    · refine reportEach_congr fun before s _ => ?_
      simp [repetition?]
    · refine List.flatMap_congr fun s _ => ?_
      rw [stepProblems_eq, referenceProblems_eq]

/-! ## Definitions without violations -/

/-- No step is a repetition if all ids are different. -/
theorem repetitions_eq_nil_iff {steps : List Step} (hids : ∀ s ∈ steps, s.id ≠ "") :
    reportEach repetition? steps = [] ↔ (steps.map Step.id).Nodup := by
  rw [reportEach_eq_nil_iff, nodup_map_iff]
  refine forall₃_congr fun place s hs => ?_
  simp [repetition?, hids s (List.mem_of_getElem? hs)]

/-- Nothing is wrong with branches that have different ids, none of them blank. -/
theorem branchViolations_eq_nil_iff (stepId : String) {branches : List Step} :
    reportEach (branchViolation? stepId) branches = [] ↔
      (∀ b ∈ branches, Text.trim b.id ≠ "") ∧ (branches.map Step.id).Nodup := by
  have hblank : (∀ b ∈ branches, Text.trim b.id ≠ "") ↔
      ∀ place (b : Step), branches[place]? = some b → Text.trim b.id ≠ "" :=
    ⟨fun h place b hb => h b (List.mem_of_getElem? hb), fun h b hb =>
      have ⟨place, hplace⟩ := List.mem_iff_getElem?.mp hb
      h place b hplace⟩
  rw [reportEach_eq_nil_iff, nodup_map_iff, hblank]
  simp only [← forall_and]
  refine forall₃_congr fun place b _ => ?_
  by_cases hb : Text.trim b.id = "" <;> simp [branchViolation?, hb]

/-- Nothing is wrong with a step by itself exactly if its ids are not blank, a parallel one has
branches, and these differ in their ids. -/
theorem stepViolations_eq_nil_iff {s : Step} :
    stepViolations s = [] ↔
      Text.trim s.id ≠ "" ∧ (s.isParallel → s.branches ≠ []) ∧
        (∀ b ∈ s.branches, Text.trim b.id ≠ "") ∧ (s.branches.map Step.id).Nodup := by
  rw [← branchViolations_eq_nil_iff s.id]
  by_cases hblank : Text.trim s.id = ""
  · simp [stepViolations, hblank]
  · simp [stepViolations, hblank]

/-- No successor is stray if each of them is a step with an id. -/
theorem strayReferences_eq_nil_iff {d : Definition} {s : Step} :
    d.strayReferences s = [] ↔ ∀ next ∈ s.nextSteps, ∃ u ∈ d.steps, u.id ≠ "" ∧ u.id = next := by
  simp [strayReferences, List.filter_eq_nil_iff]

/-- Only what is blank can be empty. -/
theorem ne_empty_of_trim {text : String} (h : Text.trim text ≠ "") : text ≠ "" := by
  rintro rfl
  exact h rfl

/-- A definition that has steps is well formed if nothing is wrong with it. -/
theorem violations_eq_nil_iff {d : Definition} (hsteps : d.steps ≠ []) :
    d.violations = [] ↔ d.IsWellFormed := by
  rw [violations, List.append_eq_nil_iff, List.flatMap_eq_nil_iff]
  constructor
  · rintro ⟨hrepetitions, hstep⟩
    have hsound : ∀ s ∈ d.steps, stepViolations s = [] ∧ d.strayReferences s = [] :=
      fun s hs => List.append_eq_nil_iff.mp (hstep s hs)
    have hids : ∀ s ∈ d.steps, Text.trim s.id ≠ "" := fun s hs =>
      (stepViolations_eq_nil_iff.mp (hsound s hs).1).1
    refine ⟨hsteps, hids, fun s hs => ?_, ⟨?_, fun s hs => ?_⟩, fun s hs => ?_, fun s hs => ?_⟩
    · exact (stepViolations_eq_nil_iff.mp (hsound s hs).1).2.2.1
    · exact (repetitions_eq_nil_iff fun s hs => ne_empty_of_trim (hids s hs)).mp hrepetitions
    · exact (stepViolations_eq_nil_iff.mp (hsound s hs).1).2.2.2
    · exact (stepViolations_eq_nil_iff.mp (hsound s hs).1).2.1
    · intro next hnext
      obtain ⟨u, hu, -, hid⟩ := strayReferences_eq_nil_iff.mp (hsound s hs).2 next hnext
      exact ⟨u, hu, hid⟩
  · intro h
    refine ⟨(repetitions_eq_nil_iff fun s hs => ne_empty_of_trim (h.ids s hs)).mpr
      h.distinct.steps, fun s hs => List.append_eq_nil_iff.mpr ⟨?_, ?_⟩⟩
    · exact stepViolations_eq_nil_iff.mpr
        ⟨h.ids s hs, h.branches s hs, h.branchIds s hs, h.distinct.branches s hs⟩
    · refine strayReferences_eq_nil_iff.mpr fun next hnext => ?_
      obtain ⟨u, hu, hid⟩ := h.successors s hs next hnext
      exact ⟨u, hu, ne_empty_of_trim (h.ids u hu), hid⟩

/-- Only sound definitions are well formed, and all of them are. -/
theorem isSound_iff (d : Definition) : d.isSound = true ↔ d.IsWellFormed := by
  rw [isSound, List.isEmpty_iff, problems_eq]
  by_cases hsteps : d.steps = []
  · rw [if_pos hsteps]
    exact ⟨nofun, fun h => absurd hsteps h.nonempty⟩
  · rw [if_neg hsteps, violations_eq_nil_iff hsteps]

end Definition

/-- A definition is accepted exactly if it is well formed. Otherwise it is refused with the only
problem that it has no steps, or else with everything that is wrong with it, in the order of the
document. -/
theorem check_exact (d : Definition) :
    (d.check.value = .ok d ↔ d.IsWellFormed) ∧
      ∀ problems, d.check.value = .error problems ↔
        ¬ d.IsWellFormed ∧ problems = if d.steps = [] then [.noSteps] else d.violations := by
  rw [← d.isSound_iff, ← d.problems_eq, Definition.check]
  by_cases h : d.isSound <;> simp [h, eq_comm]

/-- Repetitions come first. A blank id hides what else is wrong with a step, but not its stray
successors. -/
example :
    (Definition.ofSteps "w" [(Step.process "a").andThen "b",
      .parallel "a" [.userTask "x", .userTask "y", .userTask "x"],
      (Step.parallel " " []).andThen "c"]).violations =
      [.duplicateStepId "a", .unknownReference "a" "b", .duplicateBranchId "a" "x",
        .emptyStepId, .unknownReference "" "c"] := by
  decide +kernel

end ApprovalWorkflow
