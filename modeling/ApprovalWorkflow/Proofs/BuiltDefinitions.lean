import ApprovalWorkflow.Proofs.DefinitionText

/-!
# Definitions that are built

A definition may be built step by step (`Step.userTask`, `Step.parallel`, `Step.andThen` and their
kin) instead of being read from a text. Whether it is sound is then asked of the steps themselves,
while reading its text has rules of its own for branches. The two do not agree: a sound definition
is read from its text, with the ids, types and successors that it was built with, exactly if every
branch of every parallel step is a user task (`built_definition_read`).

* If it is so, every step is legible, and `Step.settled` is what is read: a name has been chosen,
  and no assignee is blank. Neither is seen in the outline (`Step.outline_settled`) or by the rules
  of sound definitions (`Definition.problems_settled`).
* If it is not, reading fails however deep the branches are nested. Whatever is read from the value
  of a step has the type of that step, its branches have the types of its branches
  (`WrittenStep.of_decodeNested_toJson`), and understanding asks that they be user tasks.
* The problem that is reported is the type of the first branch that is no user task, also if that
  branch is itself a parallel step (`misplaced_branch_reported`).
-/

set_option autoImplicit false

namespace ApprovalWorkflow

/-! ## Built steps -/

/-- What a reader looks for in a definition: ids, types and successors, with all branches. -/
structure StepOutline where
  id : String
  typeName : String
  nextSteps : List String
  branches : List StepOutline

mutual
/-- The outline of a step. -/
def Step.outline : Step → StepOutline
  | ⟨id, _, _, _, _, _, nextSteps, kind⟩ => ⟨id, kind.typeName, nextSteps, kind.outlines⟩

/-- The outlines of the branches of a step of some kind. -/
def StepKind.outlines : StepKind Step → List StepOutline
  | .parallel branches => Step.outlineList branches
  | _ => []

/-- The outlines of steps. -/
def Step.outlineList : List Step → List StepOutline
  | [] => []
  | s :: steps => s.outline :: Step.outlineList steps
end

namespace Step

/-- Steps that are made by the builders, of steps that are made by them. -/
inductive IsBuilt : Step → Prop
  | userTask (id : String) : IsBuilt (.userTask id)
  | process (id : String) : IsBuilt (.process id)
  | complete (id : String) : IsBuilt (.complete id)
  | parallel (id : String) {branches : List Step} (h : ∀ b ∈ branches, IsBuilt b) :
    IsBuilt (.parallel id branches)
  | withName {s : Step} (h : IsBuilt s) (name : String) : IsBuilt (s.withName name)
  | withDescription {s : Step} (h : IsBuilt s) (description : String) :
    IsBuilt (s.withDescription description)
  | withCondition {s : Step} (h : IsBuilt s) (condition : String) :
    IsBuilt (s.withCondition condition)
  | withParams {s : Step} (h : IsBuilt s) (params : TaskParams) : IsBuilt (s.withParams params)
  | andThen {s : Step} (h : IsBuilt s) (next : String) : IsBuilt (s.andThen next)

/-- What the builders have in common: ids are trimmed, nothing is said about timeouts and
retries, and every kind has a name of its own. -/
structure IsPlain (s : Step) : Prop where
  id : Text.trim s.id = s.id
  timeout : s.timeout = none
  retries : s.retries = none
  kind : ∀ typeName, s.kind ≠ .unknown typeName
  branches : ∀ b ∈ s.branches, b.IsBuilt

/-- What the builders make of an id and a kind with a name of its own is plain. -/
theorem isPlain_ofKind (id : String) {kind : StepKind Step}
    (hkind : ∀ typeName, kind ≠ .unknown typeName)
    (hbranches : ∀ b ∈ (ofKind id kind).branches, b.IsBuilt) : (ofKind id kind).IsPlain where
  id := Text.trim_trim id
  timeout := rfl
  retries := rfl
  kind := hkind
  branches := hbranches

variable {s : Step}

/-- A built step is plain. The induction is on the way it was built. -/
theorem IsBuilt.isPlain (h : s.IsBuilt) : s.IsPlain := by
  induction h with
  | userTask id => exact isPlain_ofKind id (by simp) (by simp [ofKind, branches])
  | process id => exact isPlain_ofKind id (by simp) (by simp [ofKind, branches])
  | complete id => exact isPlain_ofKind id (by simp) (by simp [ofKind, branches])
  | parallel id h _ => exact isPlain_ofKind id (by simp) h
  | withName h name ih => exact ⟨ih.id, ih.timeout, ih.retries, ih.kind, ih.branches⟩
  | withDescription h description ih =>
    exact ⟨ih.id, ih.timeout, ih.retries, ih.kind, ih.branches⟩
  | withCondition h condition ih => exact ⟨ih.id, ih.timeout, ih.retries, ih.kind, ih.branches⟩
  | @withParams s h params ih =>
    -- only user tasks take parameters
    cases hkind : s.kind with
    | userTask _ =>
      simp only [Step.withParams, hkind]
      exact ⟨ih.id, ih.timeout, ih.retries, by simp, by simp [branches]⟩
    | _ => simpa only [Step.withParams, hkind] using ih
  | andThen h next ih => exact ⟨ih.id, ih.timeout, ih.retries, ih.kind, ih.branches⟩

/-- A plain step of the type of user tasks is one. -/
theorem IsPlain.exists_params (hs : s.IsPlain) (htype : s.typeName = "user_task") :
    ∃ params, s.kind = .userTask params := by
  cases hkind : s.kind with
  | userTask params => exact ⟨params, rfl⟩
  | unknown typeName => exact absurd hkind (hs.kind typeName)
  | _ => simp [typeName, hkind, StepKind.typeName] at htype

/-- Every plain step has a type that is not empty. -/
theorem IsPlain.typeName_ne (hs : s.IsPlain) : s.typeName ≠ "" := by
  cases hkind : s.kind with
  | unknown typeName => exact absurd hkind (hs.kind typeName)
  | _ => simp [typeName, hkind, StepKind.typeName]

/-- Only parallel steps have branches. -/
theorem kind_of_mem_branches {b : Step} (hb : b ∈ s.branches) :
    s.kind = .parallel s.branches := by
  unfold branches at hb ⊢
  cases hkind : s.kind with
  | parallel branches => simp
  | _ => simp [hkind] at hb

end Step

/-! ## Outlines -/

/-- Reading does not change the type of a step. -/
theorem StepKind.typeName_settled (kind : StepKind Step) :
    kind.settled.typeName = kind.typeName := by
  cases kind <;> simp [settled, typeName]

mutual
/-- Reading does not change the outline of a step, that of its branches included. -/
theorem Step.outline_settled : ∀ s : Step, s.settled.outline = s.outline
  | ⟨_, _, _, _, _, _, _, kind⟩ => by
    simp [Step.settled, Step.outline, kind.typeName_settled, StepKind.outlines_settled kind]

/-- Reading does not change the outlines of the branches of a step. -/
theorem StepKind.outlines_settled : ∀ kind : StepKind Step, kind.settled.outlines = kind.outlines
  | .parallel branches => by
    simp [StepKind.settled, StepKind.outlines, Step.outlineList_settledList branches]
  | .userTask _ => by simp [StepKind.settled, StepKind.outlines]
  | .process => by simp [StepKind.settled]
  | .complete => by simp [StepKind.settled]
  | .unknown _ => by simp [StepKind.settled]

/-- Reading does not change the outlines of a list of steps. -/
theorem Step.outlineList_settledList : ∀ steps : List Step,
    Step.outlineList (Step.settledList steps) = Step.outlineList steps
  | [] => by simp [Step.settledList]
  | s :: steps => by
    simp [Step.settledList, Step.outlineList, Step.outline_settled s,
      Step.outlineList_settledList steps]
end

/-! ## Sound definitions stay sound -/

namespace Definition

/-- What is read of a definition that has been written. -/
def settled (d : Definition) : Definition := { d with steps := d.steps.map Step.settled }

/-- The outline of a definition. -/
def outline (d : Definition) : List StepOutline := d.steps.map Step.outline

/-- Reading does not change the outline of a definition. -/
theorem outline_settled (d : Definition) : d.settled.outline = d.outline := by
  simp [outline, settled, Step.outline_settled]

/-- Reading does not change which ids are repeated. -/
theorem repeatedIds_settled (seen : List String) (steps : List Step) :
    repeatedIds seen (steps.map Step.settled) = repeatedIds seen steps := by
  induction steps generalizing seen with
  | nil => rfl
  | cons s steps ih => simp only [List.map_cons, repeatedIds, Step.settled_id, ih]

/-- Reading does not change the problems of the branches. -/
theorem branchProblems_settled (id : String) (seen : List String) (branches : List Step) :
    branchProblems id seen (branches.map Step.settled) = branchProblems id seen branches := by
  induction branches generalizing seen with
  | nil => rfl
  | cons b branches ih => simp only [List.map_cons, branchProblems, Step.settled_id, ih]

/-- Reading does not change the problems of a step. -/
theorem stepProblems_settled (s : Step) : stepProblems s.settled = stepProblems s := by
  simp only [stepProblems, Step.settled_id, Step.settled_kind]
  cases s.kind with
  | parallel branches =>
    simp [StepKind.settled, Step.settledList_eq, branchProblems_settled]
  | _ => rfl

/-- The problems of a definition are found by what reading leaves alone. -/
theorem problems_settled (d : Definition) : d.settled.problems = d.problems := by
  have hids : d.settled.stepIds = d.stepIds := by simp [stepIds, settled, Function.comp_def]
  have hreferences (s : Step) :
      referenceProblems d.stepIds s.settled = referenceProblems d.stepIds s := by
    simp [referenceProblems]
  simp only [problems, hids]
  simp [settled, repeatedIds_settled, List.flatMap_map, stepProblems_settled, hreferences]

end Definition

/-! ## What is read -/

namespace Step

variable {s : Step}

/-- A plain step can be read if its branches are user tasks. -/
theorem IsPlain.isLegible (hs : s.IsPlain) (hask : ∀ b ∈ s.branches, b.typeName = "user_task") :
    s.IsLegible where
  id := hs.id
  unknown := fun typeName hkind => absurd hkind (hs.kind typeName)
  branches := by
    intro b hb
    have hplain := (hs.branches b hb).isPlain
    exact ⟨hplain.id, hplain.exists_params (hask b hb)⟩

/-- A plain step is read at a level that has room for its parameters. -/
theorem IsPlain.isRead {levels : Nat} (hs : s.IsPlain)
    (hparams : s.writtenParams.IsRead (levels - 1)) : s.IsRead levels where
  timeout := by simp [hs.timeout]
  retries := by simp [hs.retries]
  params := hparams

end Step

namespace WrittenStep

variable {s : Step} {w : WrittenStep}

/-- What is read from the value of a step has its type, and for each branch of the step something
has been read from the value of that branch. -/
theorem of_decodeNested_toJson {depth levels : Nat} {o : Origin}
    (h : decodeNested depth o levels (.ofJson s.toJson) = .ok w) :
    w.typeName = s.typeName ∧ ∃ depth o levels, ∀ b ∈ s.branches, ∃ v ∈ w.branches,
      decodeNested depth o levels (.ofJson b.toJson) = .ok v := by
  cases depth with
  | zero => cases h
  | succ depth =>
    obtain ⟨r, -, hr, h⟩ := Decode.of_record_present s.values (by decide) rfl s.toFields_eq h
    obtain ⟨f₉, branches, h₉, hbranches, rfl⟩ := Slot.ap_eq_ok.mp h
    obtain ⟨f₈, nextSteps, h₈, -, rfl⟩ := Slot.ap_eq_ok.mp h₉
    obtain ⟨f₇, params, h₇, -, rfl⟩ := Slot.ap_eq_ok.mp h₈
    obtain ⟨f₆, retries, h₆, -, rfl⟩ := Slot.ap_eq_ok.mp h₇
    obtain ⟨f₅, timeout, h₅, -, rfl⟩ := Slot.ap_eq_ok.mp h₆
    obtain ⟨f₄, condition, h₄, -, rfl⟩ := Slot.ap_eq_ok.mp h₅
    obtain ⟨f₃, description, h₃, -, rfl⟩ := Slot.ap_eq_ok.mp h₄
    obtain ⟨f₂, name, h₂, -, rfl⟩ := Slot.ap_eq_ok.mp h₃
    obtain ⟨f₁, typeName, h₁, htype, rfl⟩ := Slot.ap_eq_ok.mp h₂
    obtain ⟨f₀, id, h₀, -, rfl⟩ := Slot.ap_eq_ok.mp h₁
    cases h₀
    constructor
    · have hread : Decode.string r.origin r.levels (.ofJson (.str s.typeName)) = .ok typeName :=
        hr.of_field rfl htype
      exact (Except.ok.inj hread).symm
    · -- a step without branches is written without their field
      by_cases hnone : s.branches = []
      · exact ⟨0, o, 0, by simp [hnone]⟩
      · have hlist : Decode.list (decodeNested depth) r.origin r.levels
            (.ofJson (.arr (s.branches.map Step.toJson))) = .ok branches :=
          hr.of_field (by simp [Step.values, hnone]) hbranches
        exact ⟨depth, r.origin, Decode.mem_of_list_map hlist⟩

/-- Branches are understood only if they are user tasks, said or unsaid. -/
theorem typeName_of_toBranches {parent : String} {ws : List WrittenStep} {bs : List Step}
    (h : toBranches parent ws = .ok bs) :
    ∀ w ∈ ws, w.typeName = "" ∨ w.typeName = "user_task" := by
  induction ws generalizing bs with
  | nil => simp
  | cons w ws ih =>
    obtain ⟨b, hb, h⟩ := Except.bind_eq_ok.mp h
    obtain ⟨cs, hcs, -⟩ := Except.bind_eq_ok.mp h
    refine List.forall_mem_cons.mpr ⟨?_, ih hcs⟩
    by_contra hother
    rw [not_or] at hother
    simp [toBranch, hother] at hb

/-- A parallel step that is understood has branches that are understood. -/
theorem toBranches_of_toStep (htype : w.typeName = "parallel") (h : w.toStep = .ok s) :
    ∃ bs, toBranches (Text.trim w.id) w.branches = .ok bs := by
  simp only [toStep, htype] at h
  obtain ⟨bs, hbs, -⟩ := Except.bind_eq_ok.mp h
  exact ⟨bs, hbs⟩

end WrittenStep

/-- If a step is read from its value, each of its branches is a user task or has no type. -/
theorem Step.typeName_of_decode_toJson {s t : Step} {o : Origin} {levels : Nat}
    (h : decode o levels (.ofJson s.toJson) = .ok t) :
    ∀ b ∈ s.branches, b.typeName = "" ∨ b.typeName = "user_task" := by
  intro b hb
  obtain ⟨w, hw, h⟩ := Except.bind_eq_ok.mp h
  obtain ⟨htype, depth, o, levels, hnested⟩ := WrittenStep.of_decodeNested_toJson hw
  have hparallel : w.typeName = "parallel" := by
    rw [htype, Step.typeName, kind_of_mem_branches hb, StepKind.typeName]
  obtain ⟨bs, hbs⟩ := WrittenStep.toBranches_of_toStep hparallel (Except.mapError_eq_ok.mp h)
  obtain ⟨v, hv, hread⟩ := hnested b hb
  rw [← (WrittenStep.of_decodeNested_toJson hread).1]
  exact WrittenStep.typeName_of_toBranches hbs v hv

/-! ## Definitions -/

namespace Definition

variable {d : Definition}

/-- A definition of built steps. -/
def IsBuilt (d : Definition) : Prop := ∀ s ∈ d.steps, s.IsBuilt

/-- Every branch of a parallel step is a user task. -/
def BranchesAsk (d : Definition) : Prop :=
  ∀ s ∈ d.steps, ∀ b ∈ s.branches, b.typeName = "user_task"

/-- The parameters of all steps and branches can be read where a text has them: what they keep
besides the entries that every user task has goes by names of its own and is not nested too deep. -/
def KeepsParams (d : Definition) : Prop :=
  ∀ s ∈ d.steps, s.writtenParams.IsRead (textLevels - 3) ∧
    ∀ b ∈ s.branches, b.writtenParams.IsRead (textLevels - 5)

/-- Parameters without forms and unknown entries can be read anywhere. -/
theorem keepsParams_of_plain (h : ∀ s ∈ d.steps, ∀ t ∈ s :: s.branches,
    t.writtenParams.formFields = [] ∧ t.writtenParams.extra = []) : d.KeepsParams := by
  intro s hs
  obtain ⟨⟨hform, hextra⟩, hbranches⟩ := List.forall_mem_cons.mp (h s hs)
  refine ⟨WrittenParams.isRead_of_plain _ hform hextra, fun b hb => ?_⟩
  obtain ⟨hform, hextra⟩ := hbranches b hb
  exact WrittenParams.isRead_of_plain _ hform hextra

/-- A built definition is read from its value if every branch is a user task. -/
theorem reads_settled (hbuilt : d.IsBuilt) (hparams : d.KeepsParams) (hask : d.BranchesAsk) :
    Decode.Reads decode textLevels d.toJson d.settled := by
  refine reads Step.settled fun s hs => ?_
  have hplain := (hbuilt s hs).isPlain
  obtain ⟨hs', hbranches⟩ := hparams s hs
  have hlegible := hplain.isLegible (hask s hs)
  refine (hlegible.isReadThroughout (by decide) (hplain.isRead hs') ?_).reads_settled hlegible
  intro b hb
  exact (hplain.branches b hb).isPlain.isRead (hbranches b hb)

/-- If a built definition is read from its value, every branch is a user task. -/
theorem branchesAsk_of_decode_toJson {e : Definition} {o : Origin} {levels : Nat}
    (hbuilt : d.IsBuilt) (h : decode o levels (.ofJson d.toJson) = .ok e) : d.BranchesAsk := by
  intro s hs b hb
  rw [toJson_eq] at h
  obtain ⟨r, -, hr, h⟩ := Decode.of_record_present d.values (by decide) rfl rfl h
  obtain ⟨f₂, steps, h₂, hsteps, rfl⟩ := Slot.ap_eq_ok.mp h
  obtain ⟨inner, hread⟩ := Decode.mem_of_list_map (hr.of_field rfl hsteps)
  obtain ⟨t, -, hstep⟩ := hread s hs
  have hplain := ((hbuilt s hs).isPlain.branches b hb).isPlain
  exact (Step.typeName_of_decode_toJson hstep b hb).resolve_left hplain.typeName_ne

end Definition

/-- A sound definition that has been built is read from its own text, with the ids, types and
successors of all its steps and branches, exactly if every branch is a user task; otherwise its text
is refused as unreadable, although nothing in the rules of sound definitions speaks against it. -/
theorem built_definition_read {d : Definition} (hbuilt : d.IsBuilt) (hsound : d.isSound = true)
    (hparams : d.KeepsParams) (hnumbers : ∀ n ∈ d.toJson.numbers, n.ReadsBack) :
    (d.BranchesAsk → ∃ e, (Definition.parse d.toText).value = .ok e ∧ e.outline = d.outline) ∧
      (¬ d.BranchesAsk → ∃ problem, (Definition.parse d.toText).value
        = .error (.invalidDefinition [.unreadable .json problem])) := by
  have htext := Definition.read?_toText_eq hnumbers
  constructor
  · -- what is read is settled, and settling neither mends nor breaks the rules
    intro hask
    have hread : Definition.read? d.toText = .ok d.settled :=
      htext.trans (Definition.reads_settled hbuilt hparams hask .text)
    have hsettled : d.settled.isSound = true := by
      rw [Definition.isSound, Definition.problems_settled]
      exact hsound
    exact ⟨d.settled, Definition.parse_eq_ok.mpr ⟨hread, hsettled⟩, d.outline_settled⟩
  · -- whatever was read would have had branches of the types that were written
    intro hask
    cases hread : Definition.read? d.toText with
    | ok e => exact absurd (Definition.branchesAsk_of_decode_toJson hbuilt (htext ▸ hread)) hask
    | error problem => exact ⟨problem, by simp [Definition.parse, hread]⟩

/-- A definition with a blank assignee, a step without a name and two branches that are user
tasks. -/
def reviewDefinition : Definition :=
  .ofSteps "sample" [
    ((Step.userTask " submit ").withParams (.withAssignee .default " ")).andThen "review",
    (Step.parallel "review" [(Step.userTask "legal").withName "",
      (Step.userTask "finance").withCondition "$\x7bamount\x7d > 100"]).andThen "done",
    Step.complete "done"]

/-- A sound definition of which one branch is done by itself. -/
def strayDefinition : Definition := .ofSteps "w" [Step.parallel "fan" [Step.process "p"]]

/-- All steps of the example with user tasks as branches are built. -/
theorem reviewDefinition_isBuilt : reviewDefinition.IsBuilt := by
  intro s hs
  simp only [reviewDefinition, Definition.ofSteps, List.mem_cons, List.not_mem_nil, or_false] at hs
  rcases hs with rfl | rfl | rfl
  · exact ((Step.IsBuilt.userTask _).withParams _).andThen _
  · refine (Step.IsBuilt.parallel _ fun b hb => ?_).andThen _
    simp only [List.mem_cons, List.not_mem_nil, or_false] at hb
    rcases hb with rfl | rfl
    · exact (Step.IsBuilt.userTask _).withName _
    · exact (Step.IsBuilt.userTask _).withCondition _
  · exact .complete _

/-- All steps of the example with a stray branch are built. -/
theorem strayDefinition_isBuilt : strayDefinition.IsBuilt := by
  intro s hs
  obtain rfl := List.mem_singleton.mp hs
  refine .parallel _ fun b hb => ?_
  obtain rfl := List.mem_singleton.mp hb
  exact .process _

/-- The definition with two user tasks is read as it was built, and the other one is refused. -/
theorem built_definition_read_review :
    reviewDefinition.IsBuilt ∧ reviewDefinition.isSound = true ∧ reviewDefinition.KeepsParams ∧
      (∀ n ∈ reviewDefinition.toJson.numbers, n.ReadsBack) ∧ reviewDefinition.BranchesAsk ∧
      (∃ e, (Definition.parse reviewDefinition.toText).value = .ok e ∧
        e.outline = reviewDefinition.outline) ∧
      strayDefinition.IsBuilt ∧ strayDefinition.isSound = true ∧ strayDefinition.KeepsParams ∧
      (∀ n ∈ strayDefinition.toJson.numbers, n.ReadsBack) ∧ ¬ strayDefinition.BranchesAsk ∧
      ∃ problem, (Definition.parse strayDefinition.toText).value
        = .error (.invalidDefinition [.unreadable .json problem]) := by
  have hsound : reviewDefinition.isSound = true := by decide +kernel
  have hparams : reviewDefinition.KeepsParams :=
    Definition.keepsParams_of_plain (by decide +kernel)
  have hnumbers : ∀ n ∈ reviewDefinition.toJson.numbers, n.ReadsBack := by
    have hnone : reviewDefinition.toJson.numbers = [] := by decide +kernel
    simp [hnone]
  have hask : reviewDefinition.BranchesAsk := by
    unfold Definition.BranchesAsk
    decide +kernel
  have hsound' : strayDefinition.isSound = true := by decide +kernel
  have hparams' : strayDefinition.KeepsParams :=
    Definition.keepsParams_of_plain (by decide +kernel)
  have hnumbers' : ∀ n ∈ strayDefinition.toJson.numbers, n.ReadsBack := by
    have hnone : strayDefinition.toJson.numbers = [] := by decide +kernel
    simp [hnone]
  have hask' : ¬ strayDefinition.BranchesAsk := by
    unfold Definition.BranchesAsk
    decide +kernel
  exact ⟨reviewDefinition_isBuilt, hsound, hparams, hnumbers, hask,
    (built_definition_read reviewDefinition_isBuilt hsound hparams hnumbers).1 hask,
    strayDefinition_isBuilt, hsound', hparams', hnumbers', hask',
    (built_definition_read strayDefinition_isBuilt hsound' hparams' hnumbers').2 hask'⟩

/-- A built definition may be sound although its text is not read. -/
theorem sound_definition_not_read :
    strayDefinition.IsBuilt ∧ strayDefinition.isSound = true ∧
      (Definition.parse strayDefinition.toText).value = .error (.invalidDefinition
        [.unreadable .json (.refused
          (DefinitionProblem.invalidBranchType "fan" "p" "process").message)]) := by
  have hread : Definition.read? strayDefinition.toText = .error (.refused
      (DefinitionProblem.invalidBranchType "fan" "p" "process").message) := by decide +kernel
  exact ⟨strayDefinition_isBuilt, by decide +kernel, by simp [Definition.parse, hread]⟩

/-! ## The problem that is reported -/

namespace Step

variable {s b : Step} {levels : Nat} {first rest : List Step}

/-- Of the branches that are no user tasks the first one is reported. -/
theorem toBranches_misplaced {parent : String} (hfirst : ∀ c ∈ first, c.IsLegibleBranch)
    (hempty : b.typeName ≠ "") (htype : b.typeName ≠ "user_task") :
    WrittenStep.toBranches parent ((first ++ b :: rest).map .ofTree)
      = .error (.invalidBranchType parent b.id b.typeName) := by
  induction first with
  | nil =>
    simp [WrittenStep.toBranches, WrittenStep.toBranch, hempty, htype, bind, Except.bind]
  | cons c first ih =>
    obtain ⟨hc, hfirst⟩ := List.forall_mem_cons.mp hfirst
    rw [List.cons_append, List.map_cons, WrittenStep.toBranches, WrittenStep.toBranch_ofTree hc,
      ih hfirst]
    rfl

/-- A plain step is refused for its first branch that is no user task, with the type of that
branch. -/
theorem IsPlain.refuses (hplain : s.IsPlain) (hread : s.IsReadThroughout levels)
    (hbranches : s.branches = first ++ b :: rest)
    (hfirst : ∀ c ∈ first, c.typeName = "user_task") (htype : b.typeName ≠ "user_task") :
    Decode.Refuses decode levels s.toJson
      (.refused (DefinitionProblem.invalidBranchType s.id b.id b.typeName).message) := by
  intro o
  have hb : b ∈ s.branches := by simp [hbranches]
  have hlegible : ∀ c ∈ first, c.IsLegibleBranch := by
    intro c hc
    have hplainc := (hplain.branches c (by simp [hbranches, hc])).isPlain
    exact ⟨hplainc.id, hplainc.exists_params (hfirst c hc)⟩
  have hproblem : (WrittenStep.ofTree s).toStep
      = .error (.invalidBranchType s.id b.id b.typeName) := by
    have hreported : WrittenStep.toBranches s.id (s.branches.map .ofTree)
        = .error (.invalidBranchType s.id b.id b.typeName) := by
      rw [hbranches]
      exact toBranches_misplaced hlegible (hplain.branches b hb).isPlain.typeName_ne htype
    simp [WrittenStep.toStep, typeName, kind_of_mem_branches hb, StepKind.typeName, hplain.id,
      hreported, bind, Except.bind]
  rw [decode, WrittenStep.decode, hread.reads (Nat.le_succ levels) o]
  simp [bind, Except.bind, hproblem, Except.mapError]

end Step

/-- A definition is refused for the first of its steps that is refused. -/
theorem Definition.refuses {d : Definition} {levels : Nat} {before after : List Step} {s : Step}
    {e : DecodeError} (hsteps : d.steps = before ++ s :: after)
    (hbefore : ∀ t ∈ before, Decode.Reads Step.decode levels t.toJson t.settled)
    (hs : Decode.Refuses Step.decode levels s.toJson e) :
    Decode.Refuses decode (levels + 2) d.toJson e := by
  rw [toJson_eq]
  refine Decode.refuses_record _ (by decide) rfl rfl fun r _ hlevels hr => ?_
  have hname : r.withDefault 0 "" Decode.string = .ok d.name :=
    hr.field rfl (Decode.reads_string _)
  have hdescription : r.withDefault 1 "" Decode.string = .ok d.description :=
    hr.withDefault rfl Eq.symm fun _ => Decode.reads_string _
  have hlist : Decode.Refuses (Decode.list Step.decode) r.levels
      (.arr (d.steps.map Step.toJson)) e := by
    rw [hlevels, hsteps]
    exact Decode.refuses_map hbefore hs
  have hlast : d.values[2]? = some (some (.arr (d.steps.map Step.toJson))) := rfl
  obtain ⟨place, hrefusal⟩ := hr.field_refused hlast hlist
  have hfield : r.withDefault 2 [] (Decode.list Step.decode) = .error (place, e) := hrefusal
  refine ⟨place, ?_⟩
  rw [hname, hdescription, hfield]
  rfl

/-- Of the branches that are no user tasks the first one is what is reported of a built definition,
also if it is a parallel step itself. -/
theorem misplaced_branch_reported {d : Definition} (hbuilt : d.IsBuilt)
    (hread : ∀ s ∈ d.steps, s.IsReadThroughout (textLevels - 2))
    (hnumbers : ∀ n ∈ d.toJson.numbers, n.ReadsBack) {before after : List Step} {s : Step}
    (hsteps : d.steps = before ++ s :: after)
    (hbefore : ∀ t ∈ before, ∀ b ∈ t.branches, b.typeName = "user_task")
    {first rest : List Step} {b : Step} (hbranches : s.branches = first ++ b :: rest)
    (hfirst : ∀ c ∈ first, c.typeName = "user_task") (htype : b.typeName ≠ "user_task") :
    (Definition.parse d.toText).value = .error (.invalidDefinition [.unreadable .json
      (.refused (DefinitionProblem.invalidBranchType s.id b.id b.typeName).message)]) := by
  have hs : s ∈ d.steps := by simp [hsteps]
  have hrefused := (hbuilt s hs).isPlain.refuses (hread s hs) hbranches hfirst htype
  have hsettled : ∀ t ∈ before, Decode.Reads Step.decode (textLevels - 2) t.toJson t.settled := by
    intro t ht
    have htd : t ∈ d.steps := by simp [hsteps, ht]
    exact (hread t htd).reads_settled ((hbuilt t htd).isPlain.isLegible (hbefore t ht))
  have hrefuses : Decode.Refuses Definition.decode textLevels d.toJson
      (.refused (DefinitionProblem.invalidBranchType s.id b.id b.typeName).message) :=
    Definition.refuses hsteps hsettled hrefused
  simp [Definition.parse, Definition.read?_toText_eq hnumbers, hrefuses .text]

end ApprovalWorkflow
