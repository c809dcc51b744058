import ApprovalWorkflow.Proofs.Keeping

/-!
# How deep stored values are nested

What a user hands in comes back in the records of a store with some levels around it. If what is
given out with tasks has at most `n` levels, and an input among the data of a task three more, then
the data of every task, with the history of all tasks before it, have at most `n + 3` levels, and
what an instance gives out has `n + 1` (`RecordInvariant.within`). In the value of a snapshot every
record stands three levels below the top, so that it has at most `n + 6` levels, or those that a
form needs; and its integers have 64 bits (`Store.Meets.limited`).
-/

set_option autoImplicit false

namespace ApprovalWorkflow

/-! ## Records of bounded depth -/

section

variable {n : Nat} {now : Timestamp}

/-- The instance can be stored, its input is no deeper than the data of a task may be, also if it
stands among them under a name of its own, and what it gives out is one level deeper than what is
given out with tasks. -/
structure Instance.IsWithin (n : Nat) (i : Instance) : Prop where
  storable : i.IsStorable
  input : i.input.IsRead (n + 3)
  entries : (Json.obj (inputEntries i.input)).IsRead (n + 3)
  output : ∀ v ∈ i.output, v.IsRead (n + 1)

/-- The task can be stored, what is given out with it has at most so many levels, and its data have
at most three more, also if they had to be made an object. -/
structure Task.IsWithin (n : Nat) (t : Task) : Prop where
  storable : t.IsStorable
  taskData : t.taskData.IsRead (n + 3)
  dataFields : (Json.obj (Task.dataFields t.taskData)).IsRead (n + 3)
  formData : t.formData.IsRead (textLevels - 3)
  output : t.output.IsRead n

/-- The entry can be stored, and what has been given out with its task has at most so many
levels. -/
structure HistoryEntry.IsWithin (n : Nat) (h : HistoryEntry) : Prop where
  storable : h.IsStorable
  output : h.output.IsRead n

/-- The input has been read from a text. Once it is normalized and stands among the data of a task,
these have at most so many levels. -/
structure Json.IsInputWithin (levels : Nat) (v : Json) : Prop where
  read : v.IsRead textLevels
  shallow : (obj (inputEntries (normalizeInput v).value)).depth ≤ levels

/-- An input is no deeper than the data that have its entries. -/
theorem Json.depth_le_inputEntries (v : Json) : v.depth ≤ (obj (inputEntries v)).depth := by
  cases v with
  | obj fields => exact Nat.le_refl _
  | null => exact Nat.zero_le _
  | _ => simp [inputEntries, depth, depthFields]

/-- A new instance is within the bound if its input is within the one three levels higher. -/
theorem Instance.IsWithin.begin {v : Json} (h : v.IsInputWithin (n + 3)) (hnow : now.IsRegular)
    (id workflow : Uuid) : (Instance.new id workflow (normalizeInput v).value now).IsWithin n := by
  have hread := h.read.normalized
  have hentries := Json.isGraded_read.inputEntries hread
  exact
    { storable := .new id workflow hread.sorted hnow
      input := ⟨hread.sorted, hread.fits, Nat.le_trans (Json.depth_le_inputEntries _) h.shallow⟩
      entries := ⟨hentries.sorted, hentries.fits, h.shallow⟩
      output := by simp [Instance.new] }

namespace Instance.IsWithin

variable {i j : Instance}

/-- An instance that is ended stays within the bound. -/
theorem finish (h : i.IsWithin n) (hnow : now.IsRegular) {target : InstanceStatus}
    {action : String} (hj : i.finish target action now = .ok j) : j.IsWithin n := by
  have hstorable := h.storable.finish hnow hj
  obtain ⟨-, rfl⟩ := Instance.of_finish hj
  exact { h with storable := hstorable }

/-- An instance that fails stays within the bound. -/
theorem fail (h : i.IsWithin n) (hnow : now.IsRegular) {reason : String}
    (hj : i.fail reason now = .ok j) : j.IsWithin n := by
  have hstorable := h.storable.fail hnow hj
  obtain ⟨-, rfl⟩ := Instance.of_fail hj
  exact { h with storable := hstorable }

/-- A completed instance stays within the bound, with an output that does not go deeper. -/
theorem complete (h : i.IsWithin n) (hnow : now.IsRegular) {output : Json}
    (houtput : output ≠ .null ∧ output.IsRead (n + 1)) (hj : i.complete output now = .ok j) :
    j.IsWithin n := by
  have hstorable := h.storable.complete hnow ⟨houtput.1, houtput.2.sorted⟩ hj
  obtain ⟨-, rfl⟩ := Instance.of_complete hj
  exact { h with storable := hstorable, output := by simpa using houtput.2 }

/-- An instance whose join is claimed stays within the bound. -/
theorem claimJoin? (h : i.IsWithin n) (hnow : now.IsRegular) {stepId : String} {ids : List Uuid}
    (hj : i.claimJoin? stepId ids now = some j) : j.IsWithin n := by
  have hstorable := h.storable.claimJoin? hnow hj
  obtain rfl := Instance.of_claimJoin? hj
  exact { h with storable := hstorable }

end Instance.IsWithin

namespace Task.IsWithin

variable {i : Instance} {s : Step} {t u : Task} {history : List Task}

/-- A task is built from an instance and all its tasks so far: what has been given out with these
stands three levels below the data of the new task. -/
theorem build (hi : i.IsWithin n) (hs : s.HasReadForm) (hhistory : ∀ t ∈ history, t.IsWithin n)
    (hnow : now.IsRegular) (id : Uuid) (key : String) (parent : Option String)
    (labels : ResultLabels) :
    (Task.build id i s key parent history labels now).value.IsWithin n := by
  have hP := Json.isGraded_read
  have hdata : (carriedData i.input (historyBlock history labels)).IsRead (n + 3) :=
    hP.carriedData hi.entries (hP.historyBlock labels fun t ht => (hhistory t ht).output)
  have hstorable : (Task.build id i s key parent history labels now).value.IsStorable :=
    .build hi.storable.input hs (fun t ht => (hhistory t ht).storable) hnow id key parent labels
  rw [build_value] at hstorable ⊢
  exact
    { storable := hstorable
      taskData := hdata
      dataFields := hdata
      formData := hP.form hs
      output := hP.mono hP.null (Nat.zero_le _) }

/-- A task that is marked as rejected stays within the bound. -/
theorem markRejected (h : t.IsWithin n) (rejected : Task) (rejectedAt : Timestamp) :
    (t.markRejected rejected rejectedAt).IsWithin n := by
  have hdata := Json.isGraded_read.rejectedData h.dataFields rejected rejectedAt
  exact
    { storable := h.storable.markRejected rejected rejectedAt
      taskData := hdata
      dataFields := hdata
      formData := h.formData
      output := h.output }

/-- A claimed task stays within the bound. -/
theorem claim (h : t.IsWithin n) (hnow : now.IsRegular) {user : String}
    (hu : t.claim user now = .ok u) : u.IsWithin n := by
  have hstorable := h.storable.claim hnow hu
  obtain ⟨-, rfl⟩ := Task.of_claim hu
  exact { h with storable := hstorable }

/-- A completed task stays within the bound, with an output that does not go deeper. -/
theorem complete (h : t.IsWithin n) (hnow : now.IsRegular) {output : Json}
    (houtput : output.IsRead n) {comment : Option String} {result : TaskResult}
    (hu : t.complete output comment result now = .ok u) : u.IsWithin n := by
  have hstorable := h.storable.complete hnow houtput.sorted hu
  obtain ⟨-, rfl⟩ := Task.of_complete hu
  exact { h with storable := hstorable, output := houtput }

/-- A delegated task stays within the bound. -/
theorem delegate (h : t.IsWithin n) {user : String} (hu : t.delegate user = .ok u) :
    u.IsWithin n := by
  have hstorable := h.storable.delegate hu
  obtain ⟨-, rfl⟩ := Task.of_delegate hu
  exact { h with storable := hstorable }

end Task.IsWithin

/-- Records are as deep as what is given out with tasks allows, if inputs are, too. -/
def RecordInvariant.within (n : Nat) : RecordInvariant where
  workflow := Workflow.IsStorable
  run := Instance.IsWithin n
  task := Task.IsWithin n
  entry := HistoryEntry.IsWithin n
  input := Json.IsInputWithin (n + 3)
  output := Json.IsRead n
  draft hnow id name description definition := .draft id name description definition hnow
  apply h hnow hw := h.apply hnow hw
  replaceDefinition h hnow hw := h.replaceDefinition hnow hw
  begin h hnow id workflow := .begin h hnow id workflow
  restart h hnow := { h with storable := { h.storable with startedAt := hnow } }
  finish h hnow hj := h.finish hnow hj
  fail h hnow hj := h.fail hnow hj
  complete h htasks hnow hj :=
    h.complete hnow ⟨by simp [Engine.completedOutputs],
      Json.isGraded_read.completedOutputs fun t ht => (htasks t ht).output⟩ hj
  claimJoin h hnow hj := h.claimJoin? hnow hj
  build h hs hhistory hnow id key parent labels := .build h hs hhistory hnow id key parent labels
  assign h _ := { h with storable := { h.storable with } }
  markRejected h rejected rejectedAt := h.markRejected rejected rejectedAt
  mark h _ := { h with storable := { h.storable with } }
  claim h hnow hu := h.claim hnow hu
  finishTask h hnow houtput hu := h.complete hnow houtput hu
  delegate h hu := h.delegate hu
  claimed _ hnow _ _ := ⟨⟨trivial, hnow⟩, Json.isGraded_read.mono Json.isGraded_read.null n.zero_le⟩
  completed h hnow _ _ := ⟨⟨h.storable.output, hnow⟩, h.output⟩
  delegated _ hnow _ _ _ :=
    ⟨⟨trivial, hnow⟩, Json.isGraded_read.mono Json.isGraded_read.null n.zero_le⟩

end

/-! ## Values of limited depth -/

/-- All integers in the value have 64 bits, and it has at most so many levels. -/
structure Json.IsLimited (levels : Nat) (v : Json) : Prop where
  fits : v.Fits
  shallow : v.depth ≤ levels

namespace Json.IsLimited

variable {levels more : Nat}

/-- A value that can be read in so many levels is limited to them. -/
theorem ofRead {v : Json} (h : v.IsRead levels) : v.IsLimited levels := ⟨h.fits, h.shallow⟩

/-- A value that is limited to some levels is limited to more. -/
theorem mono {v : Json} (h : v.IsLimited levels) (hle : levels ≤ more) : v.IsLimited more :=
  ⟨h.fits, Nat.le_trans h.shallow hle⟩

/-- A text needs no level. -/
theorem str (s : String) : (Json.str s).IsLimited levels := ⟨fits_str s, Nat.zero_le _⟩

/-- A list needs one level more than its items. -/
theorem arr {α : Type} {encode : α → Json} {as : List α}
    (h : ∀ a ∈ as, (encode a).IsLimited levels) :
    (Json.arr (as.map encode)).IsLimited (levels + 1) where
  fits := fits_arr fun a ha => (h a ha).fits
  shallow := by
    refine Nat.succ_le_succ (depthItems_le.mpr fun v hv => ?_)
    obtain ⟨a, ha, rfl⟩ := List.mem_map.mp hv
    exact (h a ha).shallow

/-- A list of texts needs one level. -/
theorem strings (items : List String) : (Json.arr (items.map .str)).IsLimited (levels + 1) :=
  arr fun s _ => str s

/-- An object is one level deeper than the values of its fields. -/
theorem present {known : List (List String)} {values : List (Option Json)}
    (h : ∀ v? ∈ values, ∀ v ∈ v?, v.IsLimited levels) :
    (Json.obj (Json.present known values)).IsLimited (levels + 1) where
  fits := by
    intro i hi
    obtain ⟨f, hf, hi⟩ := mem_numbersOfFields.mp hi
    exact (h _ (mem_values_of_mem_present hf) f.2 rfl).fits i hi
  shallow := by
    refine Nat.succ_le_succ (depthFields_le.mpr fun f hf => ?_)
    exact (h _ (mem_values_of_mem_present hf) f.2 rfl).shallow

end Json.IsLimited

/-! ## Values of records and snapshots -/

section

open Json Json.IsLimited

variable {n levels : Nat}

/-- A workflow is written in one level. -/
theorem Workflow.limited (w : Workflow) : w.toJson.IsLimited (levels + 1) := by
  show (Json.obj (Json.present known w.values)).IsLimited (levels + 1)
  refine present ?_
  simp only [values, List.forall_mem_cons]
  exact ⟨forall_some (str _), forall_some (str _), forall_some (str _), forall_some (str _),
    forall_some (str _), forall_some (str _), forall_some (str _), by simp⟩

/-- The record of a join is written in two levels, as it holds a list. -/
theorem JoinRecord.limited (j : JoinRecord) : j.toJson.IsLimited (levels + 2) := by
  show (Json.obj (Json.present known j.values)).IsLimited (levels + 2)
  refine present ?_
  simp only [values, List.forall_mem_cons]
  exact ⟨forall_some (str _), forall_some (arr fun _ _ => str _), forall_some (str _), by simp⟩

/-- An instance is written in one level more than its input, which may have three more than what is
given out. -/
theorem Instance.IsWithin.limited {i : Instance} (h : i.IsWithin n) :
    i.toJson.IsLimited (n + 4) := by
  rw [Instance.toJson_eq]
  refine present ?_
  simp only [values, List.forall_mem_cons]
  exact ⟨forall_some (str _), forall_some (str _), forall_some (str _),
    forall_some (ofRead h.input), fun v hv => mono (ofRead (h.output v hv)) (by omega),
    forall_map fun _ _ => str _, forall_some (str _), forall_map fun _ _ => str _,
    forall_ite (arr fun j _ => j.limited), by simp⟩

/-- The state of a progression is written in one level. -/
theorem Progression.limited (p : Progression) : p.toJson.IsLimited (levels + 1) := by
  cases p with
  | failed error => exact ⟨Json.fits_of_numbers rfl, Nat.succ_le_succ (Nat.zero_le _)⟩
  | _ => exact ⟨Json.fits_of_numbers rfl, Nat.succ_le_succ (Nat.zero_le _)⟩

/-- A task is written in one level more than its form and its data need. -/
theorem Task.IsWithin.limited {t : Task} (h : t.IsWithin n) (hform : textLevels - 3 ≤ levels)
    (hdata : n + 3 ≤ levels) : t.toJson.IsLimited (levels + 1) := by
  obtain ⟨k, rfl⟩ : ∃ k, levels = k + 1 := ⟨levels - 1, by omega⟩
  rw [Task.toJson_eq]
  refine present ?_
  simp only [values, List.forall_mem_cons]
  exact ⟨forall_some (str _), forall_some (str _), forall_some (str _), forall_some (str _),
    forall_map fun _ _ => str _, forall_some (str _), forall_some (str _), forall_some (str _),
    forall_map fun _ _ => str _, forall_some (strings _), forall_some (strings _),
    forall_some (str _), forall_some (str _), forall_some (mono (ofRead h.taskData) hdata),
    forall_some (mono (ofRead h.formData) hform), forall_some (mono (ofRead h.output) (by omega)),
    forall_map fun _ _ => str _, forall_map fun _ _ => str _, forall_some (str _),
    forall_map fun _ _ => str _, forall_map fun _ _ => str _, forall_map fun _ _ => str _,
    forall_some t.progression.limited, by simp⟩

/-- An entry of the history is written in one level more than its output. -/
theorem HistoryEntry.IsWithin.limited {h : HistoryEntry} (hwithin : h.IsWithin n) :
    h.toJson.IsLimited (n + 1) := by
  rw [HistoryEntry.toJson_eq]
  refine present ?_
  simp only [values, List.forall_mem_cons]
  exact ⟨forall_some (str _), forall_some (str _), forall_some (str _), forall_some (str _),
    forall_some (str _), forall_map fun _ _ => str _, forall_map fun _ _ => str _,
    forall_some (ofRead hwithin.output), forall_some (str _), by simp⟩

/-- The records of the store have bounded depth, and so have those of its snapshot, which stand
three levels below the top of its value. -/
theorem Store.Meets.limited {s : Store} (h : s.Meets (.within n)) (savedAt : Timestamp)
    (hform : textLevels ≤ levels) (hdata : n + 6 ≤ levels) :
    ((Snapshot.ofStore s).toJson savedAt).IsLimited levels := by
  obtain ⟨k, rfl⟩ : ∃ k, levels = k + 3 := ⟨levels - 3, by omega⟩
  have hform' : textLevels - 3 ≤ k := by omega
  show (Json.obj (Json.present (["savedAt"] :: Snapshot.known)
    (some savedAt.toJson :: (Snapshot.ofStore s).values))).IsLimited (k + 3)
  refine present ?_
  simp only [Snapshot.values, List.forall_mem_cons]
  refine ⟨forall_some (str _), forall_some (arr fun w _ => ?_), forall_some (arr fun i hi => ?_),
    forall_some (arr fun t ht => ?_), forall_some (arr fun entry hentry => ?_), by simp⟩
  · exact w.limited
  · have hmem : i ∈ s.instances := (List.mergeSort_perm _ _).subset hi
    exact mono (h.instances i hmem).limited (by omega)
  · exact (h.tasks t ht).limited hform' (by omega)
  · exact mono (h.history entry hentry).limited (by omega)

end

end ApprovalWorkflow
