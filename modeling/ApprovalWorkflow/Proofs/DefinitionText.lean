import ApprovalWorkflow.Definition.Source
import ApprovalWorkflow.Proofs.Reading
import Mathlib.Data.List.DropRight

/-!
# Definitions that survive being written

A definition that has been read from a text is written as a text from which the same definition
is read (`definition_round_trip`). Reading settles what may be written in several ways: ids are
trimmed, a step without a name is shown by its id, blank assignees and medium priorities are
dropped, texts with commas become lists. What has been settled once stays as it is
(`WrittenStep.Makes.settled_eq`), and what is left out on writing is what reading fills in
(`WrittenStep.reads`).
-/

set_option autoImplicit false

namespace ApprovalWorkflow

/-! ## Settled texts -/

namespace Text

/-- What is left after leading blanks begins with a character that is not blank. -/
theorem isBlank_of_trimStart {cs rest : List Char} {c : Char} (h : trimStart cs = c :: rest) :
    isBlank c = false := by
  induction cs with
  | nil => cases h
  | cons d cs ih =>
    cases hd : isBlank d with
    | true => exact ih (trimStart_cons_of_blank cs hd ▸ h)
    | false =>
      rw [trimStart_cons_of_not_blank cs hd] at h
      cases h
      exact hd

/-- Trimming a second time changes nothing. -/
theorem trimChars_trimChars (cs : List Char) : trimChars (trimChars cs) = trimChars cs := by
  have hend : trimEnd (trimChars cs) = trimChars cs :=
    List.rdropWhile_idempotent isBlank (trimStart cs)
  have hstart : trimStart (trimChars cs) = trimChars cs := by
    cases htrim : trimChars cs with
    | nil => rfl
    | cons c tail =>
      obtain ⟨others, hothers⟩ : trimChars cs <+: trimStart cs :=
        List.rdropWhile_prefix (p := isBlank) (l := trimStart cs)
      rw [htrim, List.cons_append] at hothers
      exact trimStart_cons_of_not_blank tail (isBlank_of_trimStart hothers.symm)
  rw [trimChars, hstart, hend]

/-- A string that has been trimmed stays as it is. -/
theorem trim_trim (s : String) : trim (trim s) = trim s := by
  simp [trim, trimChars_trimChars]

end Text

namespace Priority

/-- The name of a priority stands for it. -/
theorem ofWord_name (p : Priority) : ofWord p.name = .ok p := by
  cases p <;> decide +kernel

end Priority

/-- The parameters without a blank assignee. -/
def TaskParams.settled (p : TaskParams) : TaskParams :=
  { p with assignee := p.assignee.filter fun a => !Text.isBlankText a }

mutual
/-- What is read of a step that has been written: it has a name. -/
def Step.settled : Step → Step
  | ⟨id, name, description, condition, timeout, retries, nextSteps, kind⟩ =>
    ⟨id, WrittenStep.shownName id name, description, condition, timeout, retries, nextSteps,
      kind.settled⟩

/-- What is read of a kind that has been written: no assignee is blank. -/
def StepKind.settled : StepKind Step → StepKind Step
  | .userTask params => .userTask params.settled
  | .parallel branches => .parallel (Step.settledList branches)
  | kind => kind

/-- What is read of steps that have been written. -/
def Step.settledList : List Step → List Step
  | [] => []
  | s :: steps => s.settled :: Step.settledList steps
end

namespace Step

variable {s : Step}

/-- Reading a step that has been written changes its name and its kind at most. -/
theorem settled_eq (s : Step) :
    s.settled = { s with name := WrittenStep.shownName s.id s.name, kind := s.kind.settled } := by
  cases s; rfl

/-- Reading does not change the id of a step. -/
@[simp] theorem settled_id (s : Step) : s.settled.id = s.id := by cases s; rfl

/-- Reading does not change the successors that a step names. -/
@[simp] theorem settled_nextSteps (s : Step) : s.settled.nextSteps = s.nextSteps := by
  cases s; rfl

/-- Reading a step settles its kind. -/
@[simp] theorem settled_kind (s : Step) : s.settled.kind = s.kind.settled := by cases s; rfl

/-- Reading a list of steps settles each of them. -/
theorem settledList_eq (steps : List Step) : settledList steps = steps.map settled := by
  induction steps with
  | nil => rfl
  | cons s steps ih => simp [settledList, ih]

/-- A branch of which the written form is understood. -/
structure IsLegibleBranch (s : Step) : Prop where
  id : Text.trim s.id = s.id
  kind : ∃ params, s.kind = .userTask params

/-- A step of which the written form is understood: its id is trimmed, no known type passes for an
unknown one, and its branches are user tasks. -/
structure IsLegible (s : Step) : Prop where
  id : Text.trim s.id = s.id
  unknown : ∀ typeName, s.kind = .unknown typeName →
    typeName ∉ ["user_task", "process", "complete", "parallel"]
  branches : ∀ b ∈ s.branches, b.IsLegibleBranch

/-- A branch that is understood has no branches itself. -/
theorem IsLegibleBranch.branches_eq (hs : s.IsLegibleBranch) : s.branches = [] := by
  obtain ⟨params, hkind⟩ := hs.kind
  simp [branches, hkind]

end Step

namespace WrittenParams

variable {p : WrittenParams} {q : TaskParams} {id : String}

/-- Parameters that have been understood: what was written, with some priority and without a
blank assignee. -/
theorem eq_of_toParams (h : p.toParams id = .ok q) :
    ∃ priority, q = ⟨p.assignee.filter fun a => !Text.isBlankText a, p.candidateUsers,
      p.candidateGroups, priority, p.formFields, p.extra⟩ := by
  unfold toParams at h
  cases hpriority : p.priority with
  | none =>
    rw [hpriority] at h
    cases h
    exact ⟨.medium, rfl⟩
  | some word =>
    rw [hpriority] at h
    obtain ⟨priority, -, h⟩ := Except.bind_eq_ok.mp h
    cases h
    exact ⟨priority, rfl⟩

/-- Parameters that have been understood are settled already. -/
theorem settled_of_toParams (h : p.toParams id = .ok q) : q.settled = q := by
  obtain ⟨priority, rfl⟩ := eq_of_toParams h
  simp [TaskParams.settled, Option.filter_filter]

/-- The written form of parameters is understood; a blank assignee is dropped. -/
theorem toParams_ofParams (q : TaskParams) (id : String) :
    (ofParams q).toParams id = .ok q.settled := by
  by_cases hmedium : q.priority = .medium
  · simp [ofParams, toParams, TaskParams.settled, hmedium, bind, Except.bind]
  · simp [ofParams, toParams, TaskParams.settled, hmedium, Priority.ofWord_name, Except.mapError,
      bind, Except.bind]

end WrittenParams

namespace WrittenStep

variable {w : WrittenStep} {s : Step} {parent : String}

/-- The written form of a step, with some branches. -/
def ofStep (branches : List WrittenStep) (s : Step) : WrittenStep :=
  ⟨s.id, s.typeName, s.name, s.description, s.condition, s.timeout, s.retries,
    s.params?.elim .none WrittenParams.ofParams, s.nextSteps, branches⟩

mutual
/-- The written form of a step with all its branches, however deep they are nested. -/
def ofTree : Step → WrittenStep
  | ⟨id, name, description, condition, timeout, retries, nextSteps, kind⟩ =>
    ofStep (ofKind kind) ⟨id, name, description, condition, timeout, retries, nextSteps, kind⟩

/-- The written forms of the branches of a step of some kind. -/
def ofKind : StepKind Step → List WrittenStep
  | .parallel branches => ofTrees branches
  | _ => []

/-- The written forms of steps. -/
def ofTrees : List Step → List WrittenStep
  | [] => []
  | s :: steps => ofTree s :: ofTrees steps
end

/-- The written forms of a list of steps are those of each of them. -/
theorem ofTrees_eq (steps : List Step) : ofTrees steps = steps.map ofTree := by
  induction steps with
  | nil => rfl
  | cons s steps ih => simp [ofTrees, ih]

/-- The written form of a step has those of its branches as its branches. -/
theorem ofTree_eq (s : Step) : ofTree s = ofStep (s.branches.map ofTree) s := by
  obtain ⟨id, name, description, condition, timeout, retries, nextSteps, kind⟩ := s
  cases kind with
  | parallel branches => simp [ofTree, ofKind, ofTrees_eq, Step.branches]
  | _ => simp [ofTree, ofKind, Step.branches]

/-- The written form of a step has its id. -/
@[simp] theorem ofTree_id (s : Step) : (ofTree s).id = s.id := by rw [ofTree_eq]; rfl

/-- The written form of a step has its type. -/
@[simp] theorem ofTree_typeName (s : Step) : (ofTree s).typeName = s.typeName := by
  rw [ofTree_eq]; rfl

/-- The written form of a step has its parameters, if it is a user task. -/
@[simp] theorem ofTree_params (s : Step) :
    (ofTree s).params = s.params?.elim .none WrittenParams.ofParams := by
  rw [ofTree_eq]; rfl

/-- The written form of a step has those of its branches as its branches. -/
@[simp] theorem ofTree_branches (s : Step) : (ofTree s).branches = s.branches.map ofTree := by
  rw [ofTree_eq]; rfl

/-- A step keeps its kind when it is written and understood again. -/
theorem withKind_ofTree (hid : Text.trim s.id = s.id) :
    (ofTree s).withKind s.kind.settled = s.settled := by
  rw [withKind, ofTree_id, hid, Step.settled_eq, ofTree_eq]
  rfl

/-- A legible branch is understood, whatever its step is called. -/
theorem toBranch_ofTree (hs : s.IsLegibleBranch) (parent : String) :
    (ofTree s).toBranch parent = .ok s.settled := by
  obtain ⟨params, hkind⟩ := hs.kind
  have hkept := withKind_ofTree hs.id
  rw [hkind, StepKind.settled] at hkept
  simp [toBranch, Step.typeName, hkind, StepKind.typeName, hs.branches_eq, Step.params?,
    WrittenParams.toParams_ofParams, hkept, bind, Except.bind]

/-- The written forms of branches that are user tasks are understood as these branches, settled.
-/
theorem toBranches_ofTree {bs : List Step} (h : ∀ b ∈ bs, b.IsLegibleBranch) (parent : String) :
    toBranches parent (bs.map ofTree) = .ok (bs.map Step.settled) := by
  induction bs with
  | nil => rfl
  | cons b bs ih =>
    obtain ⟨hb, hbs⟩ := List.forall_mem_cons.mp h
    rw [List.map_cons, toBranches, toBranch_ofTree hb, ih hbs]
    rfl

/-- The written form of a legible step is understood. -/
theorem toStep_ofTree (hs : s.IsLegible) : (ofTree s).toStep = .ok s.settled := by
  have hkept := withKind_ofTree hs.id
  cases hkind : s.kind with
  | userTask params =>
    rw [hkind, StepKind.settled] at hkept
    simp [toStep, Step.typeName, hkind, StepKind.typeName, Step.params?,
      WrittenParams.toParams_ofParams, hkept, bind, Except.bind]
  | process =>
    rw [hkind] at hkept
    simp [toStep, Step.typeName, hkind, StepKind.typeName, ← hkept, StepKind.settled]
  | complete =>
    rw [hkind] at hkept
    simp [toStep, Step.typeName, hkind, StepKind.typeName, ← hkept, StepKind.settled]
  | parallel branches =>
    have hbranches : s.branches = branches := by simp [Step.branches, hkind]
    have hunderstood := toBranches_ofTree (hbranches ▸ hs.branches) (Text.trim s.id)
    rw [hkind, StepKind.settled, Step.settledList_eq] at hkept
    simp [toStep, Step.typeName, hkind, StepKind.typeName, hbranches, hunderstood, hkept, bind,
      Except.bind]
  | unknown typeName =>
    have hunknown := hs.unknown typeName hkind
    simp only [List.mem_cons, List.not_mem_nil, or_false, not_or] at hunknown
    rw [hkind] at hkept
    simp [toStep, Step.typeName, hkind, StepKind.typeName, hunknown, ← hkept, StepKind.settled]

/-! ## What has been understood is legible and settled -/

/-- A branch that has been understood is a user task. -/
theorem of_toBranch (h : w.toBranch parent = .ok s) :
    ∃ params, w.params.toParams (Text.trim w.id) = .ok params ∧
      s = w.withKind (.userTask params) := by
  unfold toBranch at h
  split at h
  · cases h
  split at h
  · cases h
  obtain ⟨params, hparams, h⟩ := Except.bind_eq_ok.mp h
  cases h
  exact ⟨params, hparams, rfl⟩

/-- Each branch that has been understood is one of those that are written. -/
theorem mem_of_toBranches {ws : List WrittenStep} {bs : List Step}
    (h : toBranches parent ws = .ok bs) : ∀ b ∈ bs, ∃ w ∈ ws, w.toBranch parent = .ok b := by
  induction ws generalizing bs with
  | nil => cases h; simp
  | cons w ws ih =>
    obtain ⟨b, hb, h⟩ := Except.bind_eq_ok.mp h
    obtain ⟨cs, hcs, h⟩ := Except.bind_eq_ok.mp h
    cases h
    intro c hc
    rcases List.mem_cons.mp hc with rfl | hc
    · exact ⟨w, List.mem_cons_self, hb⟩
    · obtain ⟨v, hv, hbranch⟩ := ih hcs c hc
      exact ⟨v, List.mem_cons_of_mem _ hv, hbranch⟩

/-- What a step is that has been understood, by its kind. -/
inductive Makes (w : WrittenStep) : Step → Prop
  | userTask {params : TaskParams} (h : w.params.toParams (Text.trim w.id) = .ok params) :
    Makes w (w.withKind (.userTask params))
  | process : Makes w (w.withKind .process)
  | complete : Makes w (w.withKind .complete)
  | parallel {branches : List Step} (h : toBranches (Text.trim w.id) w.branches = .ok branches) :
    Makes w (w.withKind (.parallel branches))
  | unknown (h : w.typeName ∉ ["user_task", "process", "complete", "parallel"]) :
    Makes w (w.withKind (.unknown w.typeName))

/-- A written step that is understood gives a step of the kind that its type names. -/
theorem makes_of_toStep (h : w.toStep = .ok s) : w.Makes s := by
  unfold toStep at h
  simp only at h
  split at h
  · obtain ⟨params, hparams, h⟩ := Except.bind_eq_ok.mp h
    cases h
    exact .userTask hparams
  split at h
  · cases h
    exact .process
  split at h
  · cases h
    exact .complete
  split at h
  · obtain ⟨branches, hbranches, h⟩ := Except.bind_eq_ok.mp h
    cases h
    exact .parallel hbranches
  · next huser hprocess hcomplete hparallel =>
    cases h
    exact .unknown (by simp [huser, hprocess, hcomplete, hparallel])

/-- The branches of a step that has been understood. -/
theorem Makes.mem_branches (h : w.Makes s) :
    ∀ b ∈ s.branches, ∃ v ∈ w.branches, ∃ parent, v.toBranch parent = .ok b := by
  cases h with
  | parallel h =>
    intro b hb
    obtain ⟨v, hv, hbranch⟩ := mem_of_toBranches h b hb
    exact ⟨v, hv, _, hbranch⟩
  | _ => intro b hb; cases hb

/-- A step that has been understood has a written form that is understood again. -/
theorem Makes.isLegible (h : w.Makes s) : s.IsLegible where
  id := by cases h <;> exact Text.trim_trim w.id
  unknown := by
    intro typeName hkind
    cases h with
    | unknown hunknown =>
      cases hkind
      exact hunknown
    | _ => cases hkind
  branches := by
    intro b hb
    obtain ⟨v, -, parent, hbranch⟩ := h.mem_branches b hb
    obtain ⟨params, -, rfl⟩ := of_toBranch hbranch
    exact ⟨Text.trim_trim v.id, params, rfl⟩

/-- The name of a step is chosen once. -/
theorem settled_withKind {kind : StepKind Step} (hkind : kind.settled = kind) :
    (w.withKind kind).settled = w.withKind kind := by
  have hname : shownName (Text.trim w.id) (shownName (Text.trim w.id) w.name)
      = shownName (Text.trim w.id) w.name := by
    unfold shownName
    split
    · split <;> rfl
    · rfl
  rw [Step.settled_eq]
  simp [withKind, hname, hkind]

/-- A branch that has been understood is settled already. -/
theorem settled_of_toBranch (h : w.toBranch parent = .ok s) : s.settled = s := by
  obtain ⟨params, hparams, rfl⟩ := of_toBranch h
  exact settled_withKind (by rw [StepKind.settled, WrittenParams.settled_of_toParams hparams])

/-- A step that has been understood stays as it is when it is written and read again. -/
theorem Makes.settled_eq (h : w.Makes s) : s.settled = s := by
  cases h with
  | userTask h =>
    exact settled_withKind (by rw [StepKind.settled, WrittenParams.settled_of_toParams h])
  | @parallel branches h =>
    have hbranches : branches.map Step.settled = branches := by
      refine (List.map_congr_left fun b hb => ?_).trans (List.map_id branches)
      obtain ⟨v, -, hbranch⟩ := mem_of_toBranches h b hb
      exact settled_of_toBranch hbranch
    exact settled_withKind (by rw [StepKind.settled, Step.settledList_eq, hbranches])
  | process => exact settled_withKind rfl
  | complete => exact settled_withKind rfl
  | unknown h => exact settled_withKind rfl

end WrittenStep

/-! ## What is known of what has been read -/

namespace FormField

/-- The attributes that a form field keeps have been read one level deeper. -/
theorem gives_decode :
    Decode.Gives decode fun levels f => Record.IsExtra known (levels - 1) f.extra := by
  intro o levels d f hd h
  obtain ⟨r, rfl, hknown, hr, h⟩ := Decode.of_openRecord hd h
  obtain ⟨f₄, extra, h₄, hextra, rfl⟩ := Slot.ap_eq_ok.mp h
  obtain ⟨f₃, required, h₃, -, rfl⟩ := Slot.ap_eq_ok.mp h₄
  obtain ⟨f₂, fieldType, h₂, -, rfl⟩ := Slot.ap_eq_ok.mp h₃
  obtain ⟨f₁, label, h₁, -, rfl⟩ := Slot.ap_eq_ok.mp h₂
  obtain ⟨f₀, name, h₀, -, rfl⟩ := Slot.ap_eq_ok.mp h₁
  cases h₀
  exact hknown ▸ Record.of_extra hr hextra

end FormField

/-- What is known of parameters that have been read with some levels of nesting left. -/
structure WrittenParams.IsRead (levels : Nat) (p : WrittenParams) : Prop where
  formFields : ∀ f ∈ p.formFields, Record.IsExtra FormField.known (levels - 3) f.extra
  extra : Record.IsExtra known (levels - 1) p.extra

namespace WrittenParams

/-- Parameters with neither a form nor unknown entries. -/
theorem isRead_of_plain {p : WrittenParams} (levels : Nat) (hform : p.formFields = [])
    (hextra : p.extra = []) : p.IsRead levels where
  formFields := by simp [hform]
  extra := hextra ▸ ⟨List.Pairwise.nil, by simp, by simp⟩

/-- Parameters that are absent can be read at any level. -/
theorem isRead_none (levels : Nat) : IsRead levels .none := isRead_of_plain levels rfl rfl

/-- Parameters that are decoded are such as can be read again. -/
theorem gives_decode : Decode.Gives decode IsRead := by
  intro o levels d p hd h
  obtain ⟨r, rfl, hknown, hr, h⟩ := Decode.of_openRecord hd h
  obtain ⟨f₅, extra, h₅, hextra, rfl⟩ := Slot.ap_eq_ok.mp h
  obtain ⟨f₄, formFields, h₄, hformFields, rfl⟩ := Slot.ap_eq_ok.mp h₅
  obtain ⟨f₃, priority, h₃, -, rfl⟩ := Slot.ap_eq_ok.mp h₄
  obtain ⟨f₂, groups, h₂, -, rfl⟩ := Slot.ap_eq_ok.mp h₃
  obtain ⟨f₁, users, h₁, -, rfl⟩ := Slot.ap_eq_ok.mp h₂
  obtain ⟨f₀, assignee, h₀, -, rfl⟩ := Slot.ap_eq_ok.mp h₁
  cases h₀
  exact
    { formFields := Record.gives_withDefault (Decode.gives_list FormField.gives_decode) hr
        (by simp) hformFields
      extra := hknown ▸ Record.of_extra hr hextra }

/-- Understanding parameters changes neither the form nor what is kept. -/
theorem IsRead.ofParams {levels : Nat} {p : WrittenParams} {q : TaskParams} {id : String}
    (hp : p.IsRead levels) (h : p.toParams id = .ok q) :
    (WrittenParams.ofParams q).IsRead levels := by
  obtain ⟨priority, rfl⟩ := eq_of_toParams h
  exact ⟨hp.formFields, hp.extra⟩

end WrittenParams

namespace WrittenStep

/-- What is known of the parts of a step that has been read with some levels of nesting left. -/
structure IsRead (levels : Nat) (w : WrittenStep) : Prop where
  timeout : ∀ v ∈ w.timeout, v ≠ .null ∧ v.IsRead (levels - 1)
  retries : ∀ n ∈ w.retries, n < 2 ^ 32
  params : w.params.IsRead (levels - 1)

/-- A number that is decoded is below the bound of its type. -/
theorem gives_natural (bound : Nat) (name : String) :
    Decode.Gives (Decode.natural bound name) fun _ n => n < bound := by
  intro o levels d n hd h
  unfold Decode.natural at h
  rw [hd.bare_eq] at h
  split at h
  · split at h
    · next hrange =>
      cases h
      omega
    · cases h
  · exact hd.elim
  · exact absurd h (Doc.mismatch_ne_ok _ _ _)

/-- A step has been read, and each of its branches has been read two levels deeper. -/
theorem of_decodeNested {depth : Nat} {o : Origin} {levels : Nat} {d : Doc} {w : WrittenStep}
    (hd : d.IsJson) (h : decodeNested (depth + 1) o levels d = .ok w) :
    w.IsRead levels ∧ ∀ b ∈ w.branches, ∃ o d, d.IsJson ∧
      decodeNested depth o (levels - 2) d = .ok b := by
  obtain ⟨r, rfl, hknown, hr, h⟩ := Decode.of_record hd h
  obtain ⟨f₉, branches, h₉, hbranches, rfl⟩ := Slot.ap_eq_ok.mp h
  obtain ⟨f₈, nextSteps, h₈, -, rfl⟩ := Slot.ap_eq_ok.mp h₉
  obtain ⟨f₇, params, h₇, hparams, rfl⟩ := Slot.ap_eq_ok.mp h₈
  obtain ⟨f₆, retries, h₆, hretries, rfl⟩ := Slot.ap_eq_ok.mp h₇
  obtain ⟨f₅, timeout, h₅, htimeout, rfl⟩ := Slot.ap_eq_ok.mp h₆
  obtain ⟨f₄, condition, h₄, -, rfl⟩ := Slot.ap_eq_ok.mp h₅
  obtain ⟨f₃, description, h₃, -, rfl⟩ := Slot.ap_eq_ok.mp h₄
  obtain ⟨f₂, name, h₂, -, rfl⟩ := Slot.ap_eq_ok.mp h₃
  obtain ⟨f₁, typeName, h₁, -, rfl⟩ := Slot.ap_eq_ok.mp h₂
  obtain ⟨f₀, id, h₀, -, rfl⟩ := Slot.ap_eq_ok.mp h₁
  cases h₀
  refine ⟨⟨?_, ?_, ?_⟩, ?_⟩
  · exact Record.gives_withDefault Decode.gives_optional_json hr (by simp) htimeout
  · exact Record.gives_optional (Decode.gives_optional (gives_natural _ _)) hr hretries
  · exact Record.gives_withDefault WrittenParams.gives_decode hr (WrittenParams.isRead_none _)
      hparams
  · have hnested : Decode.Gives (decodeNested depth) fun levels b =>
        ∃ o d, d.IsJson ∧ decodeNested depth o levels d = .ok b :=
      fun o levels d b hd h => ⟨o, d, hd, h⟩
    exact Record.gives_withDefault (Decode.gives_list hnested) hr (by simp) hbranches

end WrittenStep

/-! ## What is written is read -/

namespace Decode

/-- A list of strings is read from an array of them. -/
theorem reads_strings (levels : Nat) (items : List String) :
    Reads strings (levels + 1) (.arr (items.map .str)) items := by
  intro o
  have hsorted : (Json.arr (items.map .str)).IsSorted :=
    Json.isSortedItems_iff.mpr (by simp [Json.IsSorted])
  have hdepth : (Json.arr (items.map .str)).depth ≤ levels + 1 :=
    Nat.succ_le_succ (Json.depthItems_le.mpr (by simp [Json.depth]))
  have hitems : stringsOf (items.map .str) = .ok items := by
    clear hsorted hdepth
    induction items with
    | nil => rfl
    | cons s items ih => simp [stringsOf, ih, Except.map]
  simp [strings, reads_json hsorted hdepth o, hitems, bind, Except.bind]

end Decode

namespace FormField

/-- The values of the attributes of a form field, in order. -/
def values (f : FormField) : List (Option Json) :=
  [some (.str f.name), if f.label = "" then none else some (.str f.label),
    if f.fieldType = "" then none else some (.str f.fieldType),
    if f.required = false then none else some (.bool f.required)]

/-- The fields of a form field are its known values, as far as present, and behind them what it
has besides. -/
theorem toFields_eq (f : FormField) : f.toFields = Json.present known f.values ++ f.extra := by
  cases hrequired : f.required <;>
    simp [toFields, known, values, Json.present, Json.field?_ite, hrequired]

/-- A form field is read from its value. -/
theorem reads {f : FormField} {levels : Nat} (h : Record.IsExtra known levels f.extra) :
    Decode.Reads decode (levels + 1) f.toJson f := by
  refine Decode.reads_openRecord f.values (by decide) rfl h f.toFields_eq
    fun r _ _ hr hextra => ?_
  have hname : r.withDefault 0 "" Decode.string = .ok f.name :=
    hr.field rfl (Decode.reads_string _)
  have hlabel : r.withDefault 1 "" Decode.string = .ok f.label :=
    hr.withDefault rfl Eq.symm fun _ => Decode.reads_string _
  have htype : r.withDefault 2 "" Decode.string = .ok f.fieldType :=
    hr.withDefault rfl Eq.symm fun _ => Decode.reads_string _
  have hrequired : r.withDefault 3 false Decode.bool = .ok f.required :=
    hr.withDefault rfl Eq.symm fun _ => Decode.reads_bool _
  simp only [hname, hlabel, htype, hrequired, hextra, Slot.pure, Slot.ap_ok]

end FormField

namespace WrittenParams

/-- The values of parameters, in order. -/
def values (p : WrittenParams) : List (Option Json) :=
  [p.assignee.map .str,
    if p.candidateUsers = [] then .none else some (.arr (p.candidateUsers.map .str)),
    if p.candidateGroups = [] then .none else some (.arr (p.candidateGroups.map .str)),
    p.priority.map .str,
    if p.formFields = [] then .none else some (.arr (p.formFields.map FormField.toJson))]

/-- The fields of parameters are their known values, as far as present, and behind them what they
have besides. -/
theorem toFields_eq (p : WrittenParams) :
    p.toFields = Json.present known p.values ++ p.extra := by
  simp [toFields, known, values, Json.present, Json.field?_ite, listField]

/-- Parameters are read from the object of their fields. -/
theorem reads {p : WrittenParams} {levels : Nat} (h : p.IsRead (levels + 3)) :
    Decode.Reads decode (levels + 3) (.obj p.toFields) p := by
  refine Decode.reads_openRecord p.values (by decide) rfl h.extra p.toFields_eq
    fun r _ hlevels hr hextra => ?_
  have hassignee : r.optional 0 Decode.string = .ok p.assignee :=
    hr.optional .str rfl fun _ _ => ⟨by simp, Decode.reads_string _⟩
  have husers : r.withDefault 1 [] Decode.strings = .ok p.candidateUsers :=
    hr.withDefault rfl Eq.symm fun _ => hlevels ▸ Decode.reads_strings _ _
  have hgroups : r.withDefault 2 [] Decode.strings = .ok p.candidateGroups :=
    hr.withDefault rfl Eq.symm fun _ => hlevels ▸ Decode.reads_strings _ _
  have hpriority : r.optional 3 Decode.string = .ok p.priority :=
    hr.optional .str rfl fun _ _ => ⟨by simp, Decode.reads_string _⟩
  have hformFields : r.withDefault 4 [] (Decode.list FormField.decode) = .ok p.formFields :=
    hr.withDefault rfl Eq.symm fun _ => hlevels ▸ Decode.reads_list fun f hf =>
      FormField.reads (h.formFields f hf)
  simp only [hassignee, husers, hgroups, hpriority, hformFields, hextra, Slot.pure, Slot.ap_ok]

/-- Only parameters of which there are none have no fields. -/
theorem eq_none_of_toFields {p : WrittenParams} (h : p.toFields = []) : p = .none := by
  obtain ⟨assignee, users, groups, priority, formFields, extra⟩ := p
  simp only [toFields, listField, List.append_eq_nil_iff, Json.field?_eq_nil,
    Option.map_eq_none_iff, ite_eq_left_iff, List.cons_ne_nil, imp_false, not_not] at h
  obtain ⟨⟨⟨⟨⟨rfl, rfl⟩, rfl⟩, rfl⟩, rfl⟩, rfl⟩ := h
  rfl

end WrittenParams

namespace Step

variable {s : Step} {levels : Nat}

/-- The parameters in the written form of a step. -/
def writtenParams (s : Step) : WrittenParams := s.params?.elim .none WrittenParams.ofParams

/-- The values of a step, in order. -/
def values (s : Step) : List (Option Json) :=
  [some (.str s.id), some (.str s.typeName), some (.str s.name),
    if s.description = "" then none else some (.str s.description),
    s.condition.map .str, s.timeout, s.retries.map fun n : Nat => .int n,
    if s.writtenParams = .none then none else some (.obj s.writtenParams.toFields),
    if s.nextSteps = [] then none else some (.arr (s.nextSteps.map .str)),
    if s.branches = [] then none else some (.arr (s.branches.map toJson))]

/-- A list of steps is written as the values of each of them. -/
theorem toJsonList_eq (steps : List Step) : toJsonList steps = steps.map toJson := by
  induction steps with
  | nil => rfl
  | cons s steps ih => rw [toJsonList, ih]; rfl

/-- The parameters of a user task are left out if there are none. -/
theorem paramsField_eq (params : TaskParams) :
    paramsField params = Json.field? "params" (if WrittenParams.ofParams params = .none then none
      else some (.obj (WrittenParams.ofParams params).toFields)) := by
  rw [Json.field?_ite]
  by_cases h : WrittenParams.ofParams params = .none
  · rw [if_pos h, paramsField, h]
    rfl
  · have hne : (WrittenParams.ofParams params).toFields ≠ [] :=
      fun hnil => h (WrittenParams.eq_none_of_toFields hnil)
    simp [paramsField, h, hne]

/-- The branches of a parallel step are left out if there are none. -/
theorem branchesField_eq (branches : List Step) :
    branchesField (.parallel branches) = Json.field? "parallelTasks"
      (if branches = [] then none else some (.arr (branches.map toJson))) := by
  rw [Json.field?_ite, branchesField, toJsonList_eq]
  cases branches <;> simp

/-- The fields of a step are its known values, as far as present. -/
theorem toFields_eq (s : Step) : s.toFields = Json.present WrittenStep.known s.values := by
  -- the fields that every kind of step has
  let common : List (String × Json) :=
    [("id", .str s.id), ("type", .str s.typeName), ("name", .str s.name)]
      ++ (if s.description = "" then [] else [("description", .str s.description)])
      ++ Json.field? "condition" (s.condition.map .str)
      ++ Json.field? "timeout" s.timeout
      ++ Json.field? "retries" (s.retries.map fun n => .int n)
  have hfields : s.toFields = common
      ++ Json.field? "params" (if s.writtenParams = .none then none
          else some (.obj s.writtenParams.toFields))
      ++ WrittenParams.listField "nextSteps" s.nextSteps
      ++ Json.field? "parallelTasks" (if s.branches = [] then none
          else some (.arr (s.branches.map toJson))) := by
    obtain ⟨id, name, description, condition, timeout, retries, nextSteps, kind⟩ := s
    cases kind with
    | userTask params =>
      exact congrArg (fun fields => common ++ fields
        ++ WrittenParams.listField "nextSteps" nextSteps ++ []) (paramsField_eq params)
    | parallel branches =>
      exact congrArg (fun fields => common ++ [] ++ WrittenParams.listField "nextSteps" nextSteps
        ++ fields) (branchesField_eq branches)
    | _ => rfl
  rw [hfields]
  cases hretries : s.retries <;>
    simp [common, WrittenStep.known, values, Json.present, Json.field?_ite,
      WrittenParams.listField, hretries]

/-- What is known of a step of which the written form has been read. -/
structure IsRead (levels : Nat) (s : Step) : Prop where
  timeout : ∀ v ∈ s.timeout, v ≠ .null ∧ v.IsRead (levels - 1)
  retries : ∀ n ∈ s.retries, n < 2 ^ 32
  params : s.writtenParams.IsRead (levels - 1)

/-- A step is read from its value, if its branches are read from theirs. -/
theorem reads (levels depth : Nat) (written : Step → WrittenStep) (hs : s.IsRead (levels + 4))
    (hbranches : ∀ b ∈ s.branches,
      Decode.Reads (WrittenStep.decodeNested depth) (levels + 2) b.toJson (written b)) :
    Decode.Reads (WrittenStep.decodeNested (depth + 1)) (levels + 4) s.toJson
      (WrittenStep.ofStep (s.branches.map written) s) := by
  refine Decode.reads_record s.values (by decide) rfl s.toFields_eq
    fun r _ hlevels hr => ?_
  have hid : r.required 0 Decode.string = .ok s.id := hr.field rfl (Decode.reads_string _)
  have htype : r.withDefault 1 "" Decode.string = .ok s.typeName :=
    hr.field rfl (Decode.reads_string _)
  have hname : r.withDefault 2 "" Decode.string = .ok s.name :=
    hr.field rfl (Decode.reads_string _)
  have hdescription : r.withDefault 3 "" Decode.string = .ok s.description :=
    hr.withDefault rfl Eq.symm fun _ => Decode.reads_string _
  have hcondition : r.optional 4 Decode.string = .ok s.condition :=
    hr.optional .str rfl fun _ _ => ⟨by simp, Decode.reads_string _⟩
  have htimeout : r.optional 5 Decode.json = .ok s.timeout :=
    hr.optional (fun v => v) (by simp [values]) fun v hv => by
      obtain ⟨hne, hread⟩ := hs.timeout v hv
      exact ⟨hne, Decode.reads_json hread.sorted (hlevels ▸ hread.shallow)⟩
  have hretries : r.optional 6 (Decode.natural (2 ^ 32) "u32") = .ok s.retries :=
    hr.optional _ rfl fun n hn => ⟨by simp [Json.int], Decode.reads_natural (hs.retries n hn) _⟩
  have hparams : r.withDefault 7 .none WrittenParams.decode = .ok s.writtenParams :=
    hr.withDefault rfl Eq.symm fun _ => hlevels ▸ WrittenParams.reads hs.params
  have hnextSteps : r.withDefault 8 [] Decode.strings = .ok s.nextSteps :=
    hr.withDefault rfl Eq.symm fun _ => hlevels ▸ Decode.reads_strings _ _
  have hparallel : r.withDefault 9 [] (Decode.list (WrittenStep.decodeNested depth))
      = .ok (s.branches.map written) := by
    exact hr.withDefault rfl (fun hnil => by simp [hnil]) fun _ =>
      hlevels ▸ Decode.reads_map hbranches
  simp only [hid, htype, hname, hdescription, hcondition, htimeout, hretries, hparams, hnextSteps,
    hparallel, Slot.pure, Slot.ap_ok]
  rfl

/-- A step and all its branches can be read with some levels of nesting left. -/
inductive IsReadThroughout : Nat → Step → Prop
  | intro {levels : Nat} {s : Step} (hlevels : 4 ≤ levels) (hs : s.IsRead levels)
    (h : ∀ b ∈ s.branches, IsReadThroughout (levels - 2) b) : IsReadThroughout levels s

/-- A step that can be read with all its branches is read as its written form, given as much depth
as levels. -/
theorem IsReadThroughout.reads (h : s.IsReadThroughout levels) {depth : Nat}
    (hdepth : levels ≤ depth) :
    Decode.Reads (WrittenStep.decodeNested depth) levels s.toJson (.ofTree s) := by
  induction h generalizing depth with
  | @intro levels s hlevels hs _ ih =>
    obtain ⟨k, rfl⟩ : ∃ k, levels = k + 4 := ⟨levels - 4, by omega⟩
    obtain ⟨inner, rfl⟩ : ∃ inner, depth = inner + 1 := ⟨depth - 1, by omega⟩
    rw [WrittenStep.ofTree_eq]
    exact Step.reads k inner .ofTree hs fun b hb => ih b hb (by omega)

/-- A legible step is read from its value. -/
theorem IsReadThroughout.reads_settled (h : s.IsReadThroughout levels) (hs : s.IsLegible) :
    Decode.Reads decode levels s.toJson s.settled := by
  intro o
  have hunderstood := WrittenStep.toStep_ofTree hs
  rw [decode, WrittenStep.decode, h.reads (Nat.le_succ levels) o]
  simp [bind, Except.bind, hunderstood, Except.mapError]

/-- The branches of a legible step have no branches of their own. -/
theorem IsLegible.isReadThroughout (hlegible : s.IsLegible) (hlevels : 6 ≤ levels)
    (hs : s.IsRead levels) (hbranches : ∀ b ∈ s.branches, b.IsRead (levels - 2)) :
    s.IsReadThroughout levels := by
  refine .intro (by omega) hs fun b hb => .intro (by omega) (hbranches b hb) ?_
  simp [(hlegible.branches b hb).branches_eq]

end Step

/-! ## Integers in what is written -/

section

open Json

variable {levels : Nat}

/-- The numbers of a form field fit if those of its further entries do. -/
theorem FormField.fits {f : FormField} (h : Record.IsExtra known levels f.extra) :
    f.toJson.Fits := by
  rw [toJson, toFields_eq]
  refine fits_obj ?_ fun g hg => (h.read g hg).fits
  simp only [values, List.forall_mem_cons]
  exact ⟨forall_some (fits_str _), forall_ite (fits_str _), forall_ite (fits_str _),
    forall_ite (fits_of_numbers rfl), by simp⟩

/-- The numbers of parameters that can be read fit. -/
theorem WrittenParams.fits {p : WrittenParams} (h : p.IsRead levels) :
    (Json.obj p.toFields).Fits := by
  rw [toFields_eq]
  refine fits_obj ?_ fun g hg => (h.extra.read g hg).fits
  simp only [values, List.forall_mem_cons]
  exact ⟨forall_map fun _ _ => fits_str _, forall_ite (fits_arr fun _ _ => fits_str _),
    forall_ite (fits_arr fun _ _ => fits_str _), forall_map fun _ _ => fits_str _,
    forall_ite (fits_arr fun f hf => FormField.fits (h.formFields f hf)), by simp⟩

/-- The numbers of a step that can be read fit if those of its branches do. -/
theorem Step.fits {s : Step} (hs : s.IsRead levels) (hbranches : ∀ b ∈ s.branches, b.toJson.Fits) :
    s.toJson.Fits := by
  have hretries : ∀ n ∈ s.retries, (Json.int n).Fits := by
    intro n hn i hi
    obtain rfl : i = n := by simpa [Json.int, Json.numbers] using hi
    have := hs.retries n hn
    simp only [Is64Bit]
    omega
  rw [toJson, toFields_eq, ← List.append_nil (Json.present _ _)]
  refine fits_obj ?_ (by simp)
  simp only [values, List.forall_mem_cons]
  exact ⟨forall_some (fits_str _), forall_some (fits_str _), forall_some (fits_str _),
    forall_ite (fits_str _), forall_map fun _ _ => fits_str _, fun v hv => (hs.timeout v hv).2.fits,
    forall_map hretries, forall_ite (WrittenParams.fits hs.params),
    forall_ite (fits_arr fun _ _ => fits_str _), forall_ite (fits_arr hbranches), by simp⟩

end

/-! ## Steps -/

namespace WrittenStep

variable {w : WrittenStep} {s : Step} {levels : Nat}

/-- Understanding a step keeps what is known of its parts. -/
theorem IsRead.of_makes (hw : w.IsRead levels) (h : w.Makes s) : s.IsRead levels := by
  cases h with
  | userTask h => exact ⟨hw.timeout, hw.retries, hw.params.ofParams h⟩
  | process => exact ⟨hw.timeout, hw.retries, WrittenParams.isRead_none _⟩
  | complete => exact ⟨hw.timeout, hw.retries, WrittenParams.isRead_none _⟩
  | parallel h => exact ⟨hw.timeout, hw.retries, WrittenParams.isRead_none _⟩
  | unknown h => exact ⟨hw.timeout, hw.retries, WrittenParams.isRead_none _⟩

/-- A branch that is understood can be read if its written form could. -/
theorem IsRead.of_toBranch {parent : String} (hw : w.IsRead levels)
    (h : w.toBranch parent = .ok s) : s.IsRead levels := by
  obtain ⟨params, hparams, rfl⟩ := WrittenStep.of_toBranch h
  exact hw.of_makes (.userTask hparams)

end WrittenStep

namespace Step

variable {s : Step} {levels : Nat}

/-- What is known of a step that has been read, and of its branches. -/
theorem of_decode {o : Origin} {levels : Nat} {d : Doc} (hd : d.IsJson)
    (h : decode o levels d = .ok s) :
    (∃ w : WrittenStep, w.Makes s) ∧ s.IsRead levels ∧
      ∀ b ∈ s.branches, b.IsRead (levels - 2) := by
  obtain ⟨w, hw, h⟩ := Except.bind_eq_ok.mp h
  have hmakes := WrittenStep.makes_of_toStep (Except.mapError_eq_ok.mp h)
  obtain ⟨hread, hnested⟩ := WrittenStep.of_decodeNested hd hw
  refine ⟨⟨w, hmakes⟩, hread.of_makes hmakes, fun b hb => ?_⟩
  obtain ⟨v, hv, parent, hbranch⟩ := hmakes.mem_branches b hb
  obtain ⟨o, d, hd, hv⟩ := hnested v hv
  cases levels with
  | zero => cases hv
  | succ levels => exact (WrittenStep.of_decodeNested hd hv).1.of_toBranch hbranch

/-- A step that has been read from a text is read from its own value, if enough levels of nesting
are left. -/
theorem gives_decode : Decode.Gives decode fun levels s =>
    6 ≤ levels → Decode.Reads decode levels s.toJson s ∧ s.toJson.Fits := by
  intro o levels d s hd h hlevels
  obtain ⟨⟨w, hmakes⟩, hs, hbranches⟩ := of_decode hd h
  have hlegible := hmakes.isLegible
  constructor
  · have hreads := (hlegible.isReadThroughout hlevels hs hbranches).reads_settled hlegible
    rwa [hmakes.settled_eq] at hreads
  · refine Step.fits hs fun b hb => Step.fits (hbranches b hb) ?_
    simp [(hlegible.branches b hb).branches_eq]

end Step

/-! ## Definitions -/

namespace Definition

variable {d : Definition}

/-- The values of a definition, in order. -/
def values (d : Definition) : List (Option Json) :=
  [some (.str d.name), if d.description = "" then none else some (.str d.description),
    some (.arr (d.steps.map Step.toJson))]

/-- The value of a definition is the object of its known values, as far as present. -/
theorem toJson_eq (d : Definition) : d.toJson = .obj (Json.present known d.values) := by
  simp [toJson, known, values, Json.present, Json.field?_ite, Step.toJsonList_eq]

/-- A definition is read from its value, if its steps are read from theirs. -/
theorem reads {levels : Nat} (value : Step → Step)
    (h : ∀ s ∈ d.steps, Decode.Reads Step.decode levels s.toJson (value s)) :
    Decode.Reads decode (levels + 2) d.toJson { d with steps := d.steps.map value } := by
  rw [toJson_eq]
  refine Decode.reads_record _ (by decide) rfl rfl fun r _ hlevels hr => ?_
  have hname : r.withDefault 0 "" Decode.string = .ok d.name :=
    hr.field rfl (Decode.reads_string _)
  have hdescription : r.withDefault 1 "" Decode.string = .ok d.description :=
    hr.withDefault rfl Eq.symm fun _ => Decode.reads_string _
  have hsteps : r.withDefault 2 [] (Decode.list Step.decode) = .ok (d.steps.map value) :=
    hr.field rfl (hlevels ▸ Decode.reads_map h)
  simp only [hname, hdescription, hsteps, Slot.pure, Slot.ap_ok]

/-- A definition that has been read from a text is read from its own value. -/
theorem gives_decode : Decode.Gives decode fun levels d =>
    8 ≤ levels → Decode.Reads decode levels d.toJson d ∧ d.toJson.Fits := by
  intro o levels doc d hd h hlevels
  obtain ⟨r, rfl, -, hr, h⟩ := Decode.of_record hd h
  obtain ⟨f₂, steps, h₂, hsteps, rfl⟩ := Slot.ap_eq_ok.mp h
  obtain ⟨f₁, description, h₁, -, rfl⟩ := Slot.ap_eq_ok.mp h₂
  obtain ⟨f₀, name, h₀, -, rfl⟩ := Slot.ap_eq_ok.mp h₁
  cases h₀
  obtain ⟨k, hk⟩ : ∃ k, r.levels = k + 7 := ⟨r.levels - 7, by omega⟩
  have hall : ∀ s ∈ steps, Decode.Reads Step.decode (k + 6) s.toJson s ∧ s.toJson.Fits := by
    intro s hs
    have hgives := Record.gives_withDefault (Decode.gives_list Step.gives_decode) hr (by simp)
      hsteps s hs
    rw [hk] at hgives
    exact hgives (by omega)
  constructor
  · have hreads := reads (d := ⟨name, description, steps⟩) id fun s hs => (hall s hs).1
    rw [List.map_id] at hreads
    rwa [hk]
  · rw [toJson_eq, ← List.append_nil (Json.present _ _)]
    refine Json.fits_obj ?_ (by simp)
    simp only [values, List.forall_mem_cons]
    exact ⟨Json.forall_some (Json.fits_str _), Json.forall_ite (Json.fits_str _),
      Json.forall_some (Json.fits_arr fun s hs => (hall s hs).2), by simp⟩

/-- A text is accepted exactly if a sound definition is read from it. -/
theorem parse_eq_ok {text : String} :
    (parse text).value = .ok d ↔ read? text = .ok d ∧ d.isSound = true := by
  unfold parse
  cases hread : read? text with
  | error e => simp
  | ok c =>
    cases hsound : c.isSound with
    | false =>
      simp only [Logged.value_bind, accept, check, hsound]
      simp only [Bool.false_eq_true, if_false, Logged.value_pure, Except.mapError, reduceCtorEq,
        Except.ok.injEq, false_iff, not_and]
      rintro rfl
      simp [hsound]
    | true =>
      simp only [Logged.value_bind, accept, check, hsound]
      simp only [if_true, Logged.value_pure, Except.mapError, Except.ok.injEq]
      exact ⟨fun heq => ⟨heq, heq ▸ hsound⟩, And.left⟩

/-- Reading the text of a definition is reading its value. -/
theorem read?_toText_eq (hnumbers : ∀ n ∈ d.toJson.numbers, n.ReadsBack) :
    read? d.toText = decode .text textLevels (.ofJson d.toJson) := by
  simp only [read?, Decode.fromText, toText, Doc.ofJsonText_compact hnumbers]
  cases decode .text textLevels (.ofJson d.toJson) <;> rfl

/-- What has been read from a text is well-written: it can be read from its own text. -/
theorem read?_toText {text : String} (h : read? text = .ok d)
    (hfloats : ∀ x, Json.Number.float x ∈ d.toJson.numbers → x.ReadsBack) :
    read? d.toText = .ok d := by
  obtain ⟨hreads, hfits⟩ := gives_decode.of_fromText h (by decide)
  have hnumbers : ∀ n ∈ d.toJson.numbers, n.ReadsBack := by
    intro n hn
    cases n with
    | int i => exact hfits i hn
    | float x => exact hfloats x hn
  rw [read?_toText_eq hnumbers, hreads .text]

end Definition

/-- A definition that is accepted survives being written: its own text is accepted and gives
exactly that definition again. Floating-point numbers in it are written with digits that read
back. -/
theorem definition_round_trip {text : String} {d : Definition}
    (h : (Definition.parse text).value = .ok d)
    (hfloats : ∀ x, Json.Number.float x ∈ d.toJson.numbers → x.ReadsBack) :
    (Definition.parse d.toText).value = .ok d := by
  obtain ⟨hread, hsound⟩ := Definition.parse_eq_ok.mp h
  exact Definition.parse_eq_ok.mpr ⟨Definition.read?_toText hread hfloats, hsound⟩

/-- A text in which much is left to the reader: blanks around an id, candidates in one string, a
priority in capitals, a step written as a list, and a branch without a type. -/
def looseText : String :=
  "\x7b\"steps\":[\x7b\"id\":\" ask \",\"type\":\"user_task\",\"timeout\":1.5,\"params\":"
    ++ "\x7b\"candidateUsers\":\"ann, bob\",\"priority\":\" HIGH\",\"x\":-2\x7d\x7d,"
    ++ "\x7b\"id\":\"all\",\"type\":\"parallel\",\"parallelTasks\":[[\"a\"]]\x7d]\x7d"

/-- The definition in that text. -/
def looseDefinition : Definition :=
  .ofSteps "" [
    { Step.userTask "ask" with
      timeout := some (.num (.float ⟨false, 3 * 2 ^ 51, -52⟩))
      kind := .userTask ⟨none, ["ann", "bob"], [], .high, [], [("x", .int (-2))]⟩ },
    Step.parallel "all" [Step.userTask "a"]]

/-- The definition of the loose text survives being written. -/
theorem definition_round_trip_loose :
    (Definition.parse looseText).value = .ok looseDefinition ∧
      (∀ x, Json.Number.float x ∈ looseDefinition.toJson.numbers → x.ReadsBack) ∧
      (Definition.parse looseDefinition.toText).value = .ok looseDefinition := by
  have hparse : (Definition.parse looseText).value = .ok looseDefinition :=
    Definition.parse_eq_ok.mpr ⟨by decide +kernel, by decide +kernel⟩
  have hfloats : ∀ x, Json.Number.float x ∈ looseDefinition.toJson.numbers → x.ReadsBack := by
    intro x hx
    have hnumbers : looseDefinition.toJson.numbers
        = [.float ⟨false, 3 * 2 ^ 51, -52⟩, .int (-2)] := by decide +kernel
    obtain rfl : x = ⟨false, 3 * 2 ^ 51, -52⟩ := by simpa [hnumbers] using hx
    exact ⟨⟨false, ['1'], some ['5'], none⟩, by decide +kernel, by decide +kernel,
      by decide +kernel⟩
  exact ⟨hparse, hfloats, definition_round_trip hparse hfloats⟩

end ApprovalWorkflow
