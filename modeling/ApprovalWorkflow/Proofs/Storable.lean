import ApprovalWorkflow.Proofs.DefinitionText
import ApprovalWorkflow.Proofs.Origins
import ApprovalWorkflow.Proofs.StoredRecords
import ApprovalWorkflow.Proofs.Workflows

/-!
# What is built can be stored

Everything that the management and the engine build survives being stored, if this holds of what
it is built from: the data of a task and what an instance gives out are objects with sorted keys,
a form holds the attributes that have been read with the definition (`Step.HasReadForm`), and a
due date is a time that a clock can show. `Store.IsStorable` collects what is needed of a store.

How many levels of nesting these values have is counted along the way: what is said of each of them
holds of every property that passes from the parts of a value to the whole with one level more
(`Json.IsGraded`), whether it looks at the levels or not.
-/

set_option autoImplicit false

namespace ApprovalWorkflow

/-! ## Values that are made of values -/

/-- A property of values with some levels of nesting that passes from the parts of a value, which
have one level less, to the whole and back. -/
structure Json.IsGraded (P : Nat → Json → Prop) : Prop where
  mono : ∀ {levels more v}, P levels v → levels ≤ more → P more v
  null : P 0 .null
  bool : ∀ b, P 0 (.bool b)
  str : ∀ s, P 0 (.str s)
  arr : ∀ {levels items}, (∀ v ∈ items, P levels v) → P (levels + 1) (.arr items)
  obj : ∀ {levels fields}, Ascending fields → (∀ f ∈ fields, P levels f.2) →
    P (levels + 1) (.obj fields)
  ascending : ∀ {levels fields}, P levels (.obj fields) → Ascending fields
  fields : ∀ {levels fields}, P (levels + 1) (.obj fields) → ∀ f ∈ fields, P levels f.2

/-- Being sorted has nothing to do with levels. -/
theorem Json.isGraded_sorted : IsGraded fun _ v => v.IsSorted where
  mono h _ := h
  null := trivial
  bool _ := trivial
  str _ := trivial
  arr h := isSortedItems_iff.mpr h
  obj hascending h := ⟨hascending, isSortedFields_iff.mpr h⟩
  ascending h := h.1
  fields h := isSortedFields_iff.mp h.2

/-- A value that has been read with some levels left is one that can be read with them. -/
theorem Json.isGraded_read : IsGraded fun levels v => v.IsRead levels where
  mono h hle := ⟨h.sorted, h.fits, Nat.le_trans h.shallow hle⟩
  null := .scalar trivial rfl rfl
  bool _ := .scalar trivial rfl rfl
  str _ := .scalar trivial rfl rfl
  arr h := .arr h
  obj hascending h := by
    rw [← sortFields_eq_self hascending]
    exact .ofFields h
  ascending h := h.sorted.1
  fields h f hf :=
    { sorted := isSortedFields_iff.mp h.sorted.2 f hf
      fits := fun i hi => h.fits i (mem_numbersOfFields.mpr ⟨f, hf, hi⟩)
      shallow := depthFields_le.mp (Nat.le_of_succ_le_succ h.shallow) f hf }

namespace Json.IsGraded

variable {P : Nat → Json → Prop} {levels : Nat} {fields : List (String × Json)}

/-- An empty object has a graded property at every level but the lowest. -/
theorem empty (hP : IsGraded P) : P (levels + 1) (.obj []) :=
  hP.obj List.Pairwise.nil (by simp)

/-- An object that is made of fields has a graded property one level above its fields. -/
theorem ofFields (hP : IsGraded P) (h : ∀ f ∈ fields, P levels f.2) :
    P (levels + 1) (.ofFields fields) :=
  hP.obj (sortFields_ascending fields) fun f hf => h f (mem_of_mem_sortFields hf)

/-- Setting a key of an object. -/
theorem insert (hP : IsGraded P) (hfields : P (levels + 1) (.obj fields)) {key : String}
    {value : Json} (hvalue : P levels value) :
    P (levels + 1) (.obj (Json.insert key value fields)) := by
  refine hP.obj (insert_ascending (hP.ascending hfields)) fun f hf => ?_
  rcases mem_of_mem_insert hf with rfl | hf
  · exact hvalue
  · exact hP.fields hfields f hf

/-- Setting several keys of an object. -/
theorem foldl_insert (hP : IsGraded P) {α : Type} (name : α → String) {value : α → Json}
    {items : List α} (hfields : P (levels + 1) (.obj fields))
    (h : ∀ a ∈ items, P levels (value a)) :
    P (levels + 1)
      (.obj (items.foldl (fun fields a => Json.insert (name a) (value a) fields) fields)) := by
  induction items generalizing fields with
  | nil => exact hfields
  | cons a items ih =>
    obtain ⟨ha, hitems⟩ := List.forall_mem_cons.mp h
    exact ih (hP.insert hfields ha) hitems

/-- A text that may be absent has a graded property at every level. -/
theorem ofString? (hP : IsGraded P) (s? : Option String) : P levels (Json.ofString? s?) := by
  cases s? with
  | none => exact hP.mono hP.null (Nat.zero_le _)
  | some s => exact hP.mono (hP.str s) (Nat.zero_le _)

end Json.IsGraded

/-- The value in a text has been read. -/
theorem Json.isRead_of_ofText? {text : String} {v : Json} (h : ofText? text = some v) :
    v.IsRead textLevels := by
  unfold ofText? at h
  cases hread : Decode.fromText Decode.json text with
  | error e => rw [hread] at h; cases h
  | ok w =>
    rw [hread] at h
    cases h
    exact Decode.gives_json.of_fromText hread

/-- An input that is normalized stays as it is, or it is read from a text. -/
theorem normalizeInput_cases (input : Json) :
    (normalizeInput input).value = input ∨ (normalizeInput input).value.IsRead textLevels := by
  unfold normalizeInput
  split
  · split
    · next hread => exact .inr (Json.isRead_of_ofText? hread)
    · next hread => exact .inr (Json.isRead_of_ofText? hread)
    · exact .inl rfl
  · exact .inl rfl

/-- An input that has been read is normalized to one that has been read. -/
theorem Json.IsRead.normalized {input : Json} (h : input.IsRead textLevels) :
    (normalizeInput input).value.IsRead textLevels := by
  rcases normalizeInput_cases input with heq | hread
  · exact heq.symm ▸ h
  · exact hread

/-! ## Definitions -/

/-- The attributes of the form of a step have been read from a text in which they stand below six
levels: those of the definition, its steps, the step, its parameters, the form and the field. -/
def Step.HasReadForm (s : Step) : Prop :=
  ∀ f ∈ (s.params?.getD .default).formFields, ∀ g ∈ f.extra, g.2.IsRead (textLevels - 6)

/-- The forms of all steps and branches have been read. -/
def Definition.HasReadForms (d : Definition) : Prop :=
  ∀ origin, d.Has origin → origin.taskStep.HasReadForm

/-- A step stands below the levels of the definition and its steps. -/
theorem Step.IsRead.hasReadForm {s : Step} {levels : Nat} (h : s.IsRead levels)
    (hlevels : levels ≤ textLevels - 2) : s.HasReadForm := by
  intro f hf g hg
  have hread := h.params.formFields
  rw [writtenParams] at hread
  cases hparams : s.params? with
  | none =>
    rw [hparams] at hf
    cases hf
  | some params =>
    rw [hparams] at hf hread
    exact Json.isGraded_read.mono ((hread f hf).read g hg) (by omega)

/-- The forms of a definition that has been read from a text have been read. -/
theorem Definition.hasReadForms_of_parse {text : String} {d : Definition}
    (h : (parse text).value = .ok d) : d.HasReadForms := by
  have hread := (Decode.fromText_eq_ok.mp (parse_eq_ok.mp h).1).1
  obtain ⟨r, hlevels, -, hr, hfields⟩ := Decode.of_record (Doc.isJson_ofJsonText text) hread
  obtain ⟨f₂, steps, h₂, hsteps, rfl⟩ := Slot.ap_eq_ok.mp hfields
  obtain ⟨f₁, description, h₁, -, rfl⟩ := Slot.ap_eq_ok.mp h₂
  obtain ⟨f₀, name, h₀, -, rfl⟩ := Slot.ap_eq_ok.mp h₁
  cases h₀
  have hgives : Decode.Gives Step.decode fun levels s => levels ≤ textLevels - 2 →
      s.HasReadForm ∧ ∀ b ∈ s.branches, b.HasReadForm := by
    intro o levels doc s hdoc hs hle
    obtain ⟨-, hstep, hbranches⟩ := Step.of_decode hdoc hs
    exact ⟨hstep.hasReadForm hle, fun b hb => (hbranches b hb).hasReadForm (by omega)⟩
  have hall := Record.gives_withDefault (Decode.gives_list hgives) hr (by simp) hsteps
  have hle : r.levels - 1 ≤ textLevels - 2 := by omega
  intro origin horigin
  cases origin with
  | step s => exact (hall s horigin hle).1
  | branch p b => exact (hall p horigin.1 hle).2 b horigin.2

/-! ## Tasks -/

section

variable {now : Timestamp} {t u : Task} {tasks : List Task}

/-- A time that is reached from a regular one within the calendar is regular. -/
theorem Timestamp.IsRegular.addSeconds? {n : Nat} {time : Timestamp} (h : now.IsRegular)
    (htime : now.addSeconds? n = some time) : time.IsRegular := by
  unfold Timestamp.addSeconds? at htime
  split at htime
  · next hfinish =>
    cases htime
    have hnanos := h.nanos
    exact ⟨by have := h.start; dsimp only; omega, hfinish, by dsimp only; split <;> omega⟩
  · cases htime

/-- A due date is a time that a clock can show, if the time from which it is counted is one. -/
theorem dueDate?_isRegular {timeout : Json} {time : Timestamp} (h : now.IsRegular)
    (htime : dueDate? now timeout = some time) : time.IsRegular := by
  obtain ⟨n, -, hn⟩ := Option.bind_eq_some_iff.mp htime
  exact h.addSeconds? hn

namespace Task

/-- The due date of a step is a time that a clock can show. -/
theorem dueDateOf_isRegular {s : Step} (h : now.IsRegular) :
    ∀ time ∈ (dueDateOf s now).value, time.IsRegular := by
  intro time htime
  unfold dueDateOf at htime
  split at htime
  · cases htime
  · split at htime
    · next hdue =>
      cases htime
      exact dueDate?_isRegular h hdue
    · cases htime

end Task

section

variable {P : Nat → Json → Prop} {n : Nat}

/-- What later tasks are told about a task has one level more than what it has given out. -/
theorem Json.IsGraded.historyRecord (hP : IsGraded P) (labels : ResultLabels)
    (h : P n t.output) : P (n + 1) (t.historyRecord labels) := by
  have hstr (s : String) : P n (.str s) := hP.mono (hP.str s) (Nat.zero_le _)
  refine hP.obj (List.pairwise_map.mp ?_) ?_
  · exact (by decide : ["assignee", "comment", "completedAt", "output", "result", "status",
      "taskKey", "taskName"].Pairwise (· < ·))
  · simp only [List.forall_mem_cons]
    exact ⟨hP.ofString? _, hP.ofString? _, hP.ofString? _, h, hP.ofString? _, hstr _, hstr _,
      hstr _, by simp⟩

/-- The record of what has happened has a graded property one level above the outputs of the
tasks. -/
theorem Json.IsGraded.historyBlock (hP : IsGraded P) (labels : ResultLabels)
    (h : ∀ t ∈ tasks, P n t.output) :
    ∀ v ∈ ApprovalWorkflow.historyBlock tasks labels, P (n + 1) v := by
  intro v hv
  obtain ⟨t, ht, rfl⟩ := List.mem_map.mp hv
  exact hP.historyRecord labels (h t (List.mem_filter.mp (List.mem_mergeSort.mp ht)).1)

/-- The entries of an input have at most one level more than the input. -/
theorem Json.IsGraded.inputEntries (hP : IsGraded P) {input : Json} (h : P n input) :
    P (n + 1) (.obj (ApprovalWorkflow.inputEntries input)) := by
  cases input with
  | obj fields => exact hP.mono h (Nat.le_succ _)
  | null => exact hP.empty
  | _ =>
    refine hP.obj (List.pairwise_singleton _ _) ?_
    simpa [ApprovalWorkflow.inputEntries] using h

/-- The data of a task: the history stands two levels below them. -/
theorem Json.IsGraded.carriedData (hP : IsGraded P) {input : Json} {history : List Json}
    (hinput : P (n + 2) (.obj (ApprovalWorkflow.inputEntries input)))
    (hhistory : ∀ v ∈ history, P n v) :
    P (n + 2) (ApprovalWorkflow.carriedData input history) :=
  hP.insert hinput (hP.arr hhistory)

/-- The form of a task: the attributes of its fields stand three levels below it. -/
theorem Json.IsGraded.form (hP : IsGraded P) {formFields : List FormField}
    (h : ∀ f ∈ formFields, ∀ g ∈ f.extra, P n g.2) :
    P (n + 3) (.obj [("fields", .arr (formFields.map fun f => .ofFields f.toFields))]) := by
  refine hP.obj (List.pairwise_singleton _ _) ?_
  simp only [List.forall_mem_cons]
  refine ⟨hP.arr fun v hv => ?_, by simp⟩
  obtain ⟨f, hf, rfl⟩ := List.mem_map.mp hv
  refine hP.ofFields fun g hg => ?_
  rw [FormField.toFields_eq] at hg
  -- What is known of a field is a text or a truth value, and what it has besides is graded.
  rcases List.mem_append.mp hg with hg | hg
  · have hvalue := Json.mem_values_of_mem_present hg
    simp only [FormField.values, List.mem_cons, Option.some.injEq, List.not_mem_nil, or_false]
      at hvalue
    rcases hvalue with hvalue | hvalue | hvalue | hvalue
    · rw [hvalue]
      exact hP.mono (hP.str _) (Nat.zero_le _)
    all_goals
      split at hvalue
      · cases hvalue
      · rw [Option.some.inj hvalue]
        first
          | exact hP.mono (hP.str _) (Nat.zero_le _)
          | exact hP.mono (hP.bool _) (Nat.zero_le _)
  · exact h f hf g hg

/-- The data of a task that is opened again have no more levels than before. -/
theorem Json.IsGraded.rejectedData (hP : IsGraded P)
    (h : P (n + 1) (.obj (Task.dataFields t.taskData))) (rejected : Task)
    (rejectedAt : Timestamp) :
    P (n + 1) (t.markRejected rejected rejectedAt).taskData := by
  have hstr (s : String) : P n (.str s) := hP.mono (hP.str s) (Nat.zero_le _)
  refine hP.foldl_insert Prod.fst h ?_
  simp only [Task.rejectionEntries, List.forall_mem_cons]
  exact ⟨hP.ofString? _, hstr _, hP.ofString? _, hstr _, by simp⟩

/-- What an instance gives out has one level more than what its tasks have given out. -/
theorem Json.IsGraded.completedOutputs (hP : IsGraded P) (h : ∀ t ∈ tasks, P n t.output) :
    P (n + 1) (Engine.completedOutputs tasks) := by
  refine hP.foldl_insert Task.key hP.empty fun t ht => h t ?_
  exact (List.mem_filter.mp (List.mem_mergeSort.mp ht)).1

end

namespace Task

/-- A task that is built from a step can be stored. -/
theorem IsStorable.build {i : Instance} {s : Step} (hinput : i.input.IsSorted)
    (hs : s.HasReadForm) (hhistory : ∀ t ∈ tasks, t.IsStorable) (hnow : now.IsRegular)
    (id : Uuid) (key : String) (parent : Option String) (labels : ResultLabels) :
    (build id i s key parent tasks labels now).value.IsStorable := by
  rw [build_value]
  have hP := Json.isGraded_sorted
  exact
    { taskData := hP.carriedData (n := 0) (hP.inputEntries (n := 1) hinput)
        (hP.historyBlock (n := 0) labels fun t ht => (hhistory t ht).output)
      formData := hP.form (n := 0) fun f hf g hg => (hs f hf g hg).sorted
      output := trivial
      createdAt := hnow
      claimedAt := by simp [new]
      completedAt := by simp [new]
      dueDate := dueDateOf_isRegular hnow }

/-- A task that is opened again can be stored. -/
theorem IsStorable.markRejected (h : t.IsStorable) (rejected : Task) (rejectedAt : Timestamp) :
    (t.markRejected rejected rejectedAt).IsStorable := by
  have hP := Json.isGraded_sorted
  have hdata : (Json.obj (dataFields t.taskData)).IsSorted := by
    have hsorted := h.taskData
    unfold dataFields
    split
    · next heq => exact heq ▸ hsorted
    · exact hP.carriedData (n := 0) (hP.inputEntries (n := 1) hsorted) (by simp)
  exact { h with taskData := hP.rejectedData (n := 0) hdata rejected rejectedAt }

/-- A claimed task can be stored. -/
theorem IsStorable.claim (h : t.IsStorable) (hnow : now.IsRegular) {user : String}
    (hu : t.claim user now = .ok u) : u.IsStorable := by
  obtain ⟨-, rfl⟩ := Task.of_claim hu
  exact { h with claimedAt := by simpa using hnow }

/-- A completed task can be stored if its output is sorted. -/
theorem IsStorable.complete (h : t.IsStorable) (hnow : now.IsRegular) {output : Json}
    (houtput : output.IsSorted) {comment : Option String} {result : TaskResult}
    (hu : t.complete output comment result now = .ok u) : u.IsStorable := by
  obtain ⟨-, rfl⟩ := Task.of_complete hu
  exact { h with output := houtput, completedAt := by simpa using hnow }

/-- A delegated task can be stored. -/
theorem IsStorable.delegate (h : t.IsStorable) {user : String} (hu : t.delegate user = .ok u) :
    u.IsStorable := by
  obtain ⟨-, rfl⟩ := Task.of_delegate hu
  exact { h with claimedAt := by simp }

end Task

end

/-! ## Instances -/

namespace Instance.IsStorable

variable {now : Timestamp} {i j : Instance}

/-- A new instance can be stored if its input is sorted. -/
theorem new (id workflow : Uuid) {input : Json} (hinput : input.IsSorted) (hnow : now.IsRegular) :
    (Instance.new id workflow input now).IsStorable :=
  ⟨hinput, by simp [Instance.new], hnow, by simp [Instance.new], by simp [Instance.new]⟩

/-- An instance that is ended can be stored. -/
theorem finish (h : i.IsStorable) (hnow : now.IsRegular) {target : InstanceStatus}
    {action : String} (hj : i.finish target action now = .ok j) : j.IsStorable := by
  obtain ⟨-, rfl⟩ := Instance.of_finish hj
  exact { h with completedAt := by simpa using hnow }

/-- A completed instance can be stored if its output is sorted and not null. -/
theorem complete (h : i.IsStorable) (hnow : now.IsRegular) {output : Json}
    (houtput : output ≠ .null ∧ output.IsSorted) (hj : i.complete output now = .ok j) :
    j.IsStorable := by
  obtain ⟨-, rfl⟩ := Instance.of_complete hj
  exact { h with output := by simpa using houtput, completedAt := by simpa using hnow }

/-- An instance that fails can be stored. -/
theorem fail (h : i.IsStorable) (hnow : now.IsRegular) {reason : String}
    (hj : i.fail reason now = .ok j) : j.IsStorable := by
  obtain ⟨-, rfl⟩ := Instance.of_fail hj
  exact { h with completedAt := by simpa using hnow }

/-- An instance whose join is claimed can be stored. -/
theorem claimJoin? (h : i.IsStorable) (hnow : now.IsRegular) {stepId : String} {ids : List Uuid}
    (hj : i.claimJoin? stepId ids now = some j) : j.IsStorable := by
  obtain rfl := Instance.of_claimJoin? hj
  refine { h with joins := fun record hrecord => ?_ }
  rcases List.mem_append.mp hrecord with hrecord | hrecord
  · exact h.joins record hrecord
  · rw [List.mem_singleton.mp hrecord]
    exact hnow

end Instance.IsStorable

/-! ## Workflows -/

namespace Workflow.IsStorable

variable {now : Timestamp} {v w : Workflow}

/-- The draft of a workflow can be stored. -/
theorem draft (id : Uuid) (name description definition : String) (hnow : now.IsRegular) :
    (Workflow.draft id name description definition now).IsStorable := ⟨hnow, hnow⟩

/-- A workflow can be stored when its status has changed. -/
theorem apply (h : v.IsStorable) (hnow : now.IsRegular) {a : WorkflowAction}
    (hw : v.apply a now = .ok w) : w.IsStorable := by
  rw [Workflow.eq_of_apply hw]
  exact ⟨h.createdAt, hnow⟩

/-- A workflow can be stored when its definition has been replaced. -/
theorem replaceDefinition (h : v.IsStorable) (hnow : now.IsRegular) {definition : String}
    (hw : (v.replaceDefinition definition now).value = .ok w) : w.IsStorable := by
  rw [(Workflow.eq_of_replaceDefinition hw).2]
  exact ⟨h.createdAt, hnow⟩

end Workflow.IsStorable

/-! ## Stores -/

/-- The records of the store survive being stored, and no two workflows or instances have the same
identifier. -/
structure Store.IsStorable (s : Store) : Prop where
  workflows : ∀ w ∈ s.workflows, w.IsStorable
  instances : ∀ i ∈ s.instances, i.IsStorable
  tasks : ∀ t ∈ s.tasks, t.IsStorable
  history : ∀ h ∈ s.history, h.IsStorable
  workflow_ids : (s.workflows.map Workflow.id).Nodup
  instance_ids : (s.instances.map Instance.id).Nodup

section Tables

variable {α κ : Type} [DecidableEq κ] (key : α → κ) {items : List α} {new : α}

/-- What holds of the records of a table and of a new one still holds after a replacement. -/
theorem forall_mem_replaceFirst {P : α → Prop} {test : α → Bool} (h : ∀ a ∈ items, P a)
    (hnew : P new) : ∀ a ∈ replaceFirst test new items, P a := by
  induction items with
  | nil => exact h
  | cons b items ih =>
    obtain ⟨hb, hitems⟩ := List.forall_mem_cons.mp h
    rw [replaceFirst]
    split
    · exact List.forall_mem_cons.mpr ⟨hnew, hitems⟩
    · exact List.forall_mem_cons.mpr ⟨hb, ih hitems⟩

/-- What holds of the items and of a new one holds of all with the new one at the end. -/
theorem forall_mem_concat {P : α → Prop} (h : ∀ a ∈ items, P a) (hnew : P new) :
    ∀ a ∈ items ++ [new], P a :=
  List.forall_mem_append.mpr ⟨h, by simpa using hnew⟩

/-- The keys stay different when a record is replaced. -/
theorem nodup_replaceFirst (h : (items.map key).Nodup) :
    ((replaceFirst (fun a => key a == key new) new items).map key).Nodup := by
  rw [replaceFirst_eq_put key new h, map_key_put]
  exact h

/-- The keys stay different when a record with a key of its own is added. -/
theorem nodup_concat (h : (items.map key).Nodup)
    (hnew : ¬ (items.find? fun a => key a == key new).isSome) :
    ((items ++ [new]).map key).Nodup := by
  have hnone := (find?_eq_none_iff key).mp (Option.not_isSome_iff_eq_none.mp hnew)
  rw [List.map_append, List.nodup_append]
  refine ⟨h, List.nodup_singleton _, fun k hk l hl => ?_⟩
  obtain ⟨a, ha, rfl⟩ := List.mem_map.mp hk
  obtain rfl := List.mem_singleton.mp hl
  exact hnone a ha

end Tables

end ApprovalWorkflow
