import ApprovalWorkflow.Proofs.Reading
import ApprovalWorkflow.Proofs.Timestamps
import ApprovalWorkflow.Snapshot

/-!
# Records that survive being stored

Workflows, instances, tasks and entries of the audit trail are read from their values as what they
are, if their times are times that a clock can show, the values that they hold are sorted, and no
optional value is null (`Workflow.IsStorable`, `Instance.IsStorable`, `Task.IsStorable`,
`HistoryEntry.IsStorable`). The same holds of snapshots of such records (`SavedSnapshot.recovers`).
A value in memory is read with as many levels of nesting as it has, so that no record is too deep.
-/

set_option autoImplicit false

namespace ApprovalWorkflow

/-! ## Reading at the depth of a value -/

/-- Every value that is there is the value of a field. -/
theorem Json.mem_present {known : List (List String)} {values : List (Option Json)}
    (hlen : values.length = known.length) {v : Json} (hv : some v ∈ values) :
    ∃ key, (key, v) ∈ present known values := by
  induction known generalizing values with
  | nil =>
    rw [List.length_eq_zero_iff.mp hlen] at hv
    cases hv
  | cons names known ih =>
    cases values with
    | nil => cases hv
    | cons v? values =>
      rcases List.mem_cons.mp hv with rfl | hv
      · exact ⟨_, List.mem_append_left _ List.mem_cons_self⟩
      · obtain ⟨key, hmem⟩ := ih (Nat.succ.inj hlen) hv
        exact ⟨key, List.mem_append_right _ hmem⟩

/-- The value is read as `a` if as many levels of nesting are left as it has. -/
def Decode.Recovers {α : Type} (decode : Decoder α) (v : Json) (a : α) : Prop :=
  ∀ levels, v.depth ≤ levels → Decode.Reads decode levels v a

/-- The reader sees these values, and has enough levels of nesting for them. -/
structure Record.Offers (r : Record) (values : List (Option Json)) : Prop where
  shows : r.Shows values
  shallow : ∀ v, some v ∈ values → v.depth ≤ r.levels

namespace Record.Offers

variable {α : Type} {decode : Decoder α} {r : Record} {values : List (Option Json)}
variable {index : Nat} {a : α}

/-- A field that is present is read from its value. -/
theorem field {v : Json} {absent : Decoded α} (hr : r.Offers values)
    (hv : values[index]? = some (some v)) (h : Decode.Recovers decode v a) :
    r.field index absent decode = .ok a :=
  hr.shows.field hv (h r.levels (hr.shallow v (List.mem_of_getElem? hv)))

/-- An optional field, left out if there is nothing. -/
theorem optional (encode : α → Json) {a? : Option α} (hr : r.Offers values)
    (hv : values[index]? = some (a?.map encode))
    (h : ∀ a ∈ a?, encode a ≠ .null ∧ Decode.Recovers decode (encode a) a) :
    r.optional index decode = .ok a? := by
  refine hr.shows.optional encode hv fun a ha => ?_
  have hmem : some (encode a) ∈ values := by
    rw [ha] at hv
    exact List.mem_of_getElem? hv
  exact ⟨(h a ha).1, (h a ha).2 r.levels (hr.shallow _ hmem)⟩

/-- A field that is left out exactly if it has its default value. -/
theorem withDefault {c : Prop} [Decidable c] {v : Json} {default : α} (hr : r.Offers values)
    (hv : values[index]? = some (if c then none else some v)) (hdefault : c → default = a)
    (h : ¬ c → Decode.Recovers decode v a) : r.withDefault index default decode = .ok a := by
  refine hr.shows.withDefault hv hdefault fun hc => ?_
  rw [if_neg hc] at hv
  exact h hc r.levels (hr.shallow v (List.mem_of_getElem? hv))

end Record.Offers

namespace Decode

variable {α : Type} {decode : Decoder α}

/-- A text is recovered from its value. -/
theorem recovers_string (s : String) : Recovers string (.str s) s :=
  fun _ _ => reads_string s

/-- A sorted value is recovered from itself. -/
theorem recovers_json {v : Json} (h : v.IsSorted) : Recovers json v v :=
  fun _ hdepth => reads_json h hdepth

/-- The name of an alternative is read as that alternative. -/
theorem recovers_choice {names : List String} {ofName? : String → Option α} {name : String}
    {a : α} (h : ofName? name = some a) : Recovers (choice names ofName?) (.str name) a :=
  fun _ _ => reads_choice h

/-- A list is read from the array of the values of its items. -/
theorem recovers_list {encode : α → Json} {as : List α}
    (h : ∀ a ∈ as, Recovers decode (encode a) a) :
    Recovers (list decode) (.arr (as.map encode)) as := by
  intro levels hdepth
  cases levels with
  | zero => exact absurd hdepth (Nat.not_succ_le_zero _)
  | succ levels =>
    have hitems := Json.depthItems_le.mp (Nat.le_of_succ_le_succ hdepth)
    exact reads_list fun a ha => h a ha levels (hitems _ (List.mem_map_of_mem ha))

/-- A list of texts is recovered from its value. -/
theorem recovers_strings (items : List String) :
    Recovers (list string) (.arr (items.map .str)) items :=
  recovers_list fun s _ => recovers_string s

/-- A record is read from an object with its fields. -/
theorem recovers_record {name : String} {known : List (List String)} {read : Record → Slot α}
    {fields : List (String × Json)} {a : α} (values : List (Option Json))
    (hd : Json.AreDistinct known) (hlen : values.length = known.length)
    (hfields : fields = Json.present known values)
    (h : ∀ r : Record, r.Offers values → read r = .ok a) :
    Recovers (record name known read) (.obj fields) a := by
  intro levels hdepth
  cases levels with
  | zero => exact absurd hdepth (Nat.not_succ_le_zero _)
  | succ levels =>
    have hshallow := Json.depthFields_le.mp (Nat.le_of_succ_le_succ hdepth)
    refine reads_record values hd hlen hfields fun r _ hlevels hr => h r ⟨hr, fun v hv => ?_⟩
    obtain ⟨key, hmem⟩ := Json.mem_present hlen hv
    rw [hlevels]
    exact hshallow (key, v) (hfields ▸ hmem)

end Decode

/-! ## Identifiers and times -/

namespace Uuid

/-- Digits in hyphenated groups are those of the groups. -/
theorem ofGroups?_append {a b c d e : List Char} (ha : a.length = 8) (hb : b.length = 4)
    (hc : c.length = 4) (hd : d.length = 4) (he : e.length = 12) :
    ofGroups? (a ++ '-' :: (b ++ '-' :: (c ++ '-' :: (d ++ '-' :: e)))) =
      ofDigits? (a ++ (b ++ (c ++ (d ++ e)))) := by
  simp [ofGroups?, List.drop_append, List.drop_of_length_le, ha, hb, hc, hd, he]

/-- A part of a list and what stands behind it. -/
theorem take_drop_append {ds : List Char} (i j : Nat) :
    (ds.drop i).take j ++ ds.drop (i + j) = ds.drop i := by
  rw [← List.drop_drop, List.take_append_drop]

/-- The text of an identifier names it. -/
theorem ofString?_toString (u : Uuid) : ofString? u.toString = some u := by
  have hlen := Text.length_hexDigits 32 u.toNat
  have hnumber := Text.hexNumber?_hexDigits 32 u.toNat
  have hsmall : u.toNat < 16 ^ 32 := u.bits.isLt
  have hgroups : ofGroups? u.chars = some u := by
    rw [chars, ofGroups?_append (by simp [hlen]) (by simp [hlen]) (by simp [hlen])
      (by simp [hlen]) (by simp [hlen]), take_drop_append 16 4, take_drop_append 12 4,
      take_drop_append 8 4, List.take_append_drop, ofDigits?, if_pos hlen, hnumber,
      Nat.mod_eq_of_lt hsmall]
    simp [ofNat, toNat]
  have hdigits : ofDigits? u.chars = none := if_neg (by simp [chars, hlen])
  simp only [ofString?, toString, String.toList_ofList, ofChars?, hdigits, hgroups]

/-- An identifier is recovered from its value. -/
theorem recovers (u : Uuid) : Decode.Recovers decode u.toJson u := by
  intro levels _ o
  simp [decode, toJson, Doc.ofJson, ofString?_toString]

end Uuid

/-- A time that a clock can show is recovered from its value. -/
theorem Timestamp.IsRegular.recovers {t : Timestamp} (h : t.IsRegular) :
    Decode.Recovers Timestamp.decode t.toJson t := by
  intro levels _ o
  simp [Timestamp.decode, toJson, Doc.ofJson, ofString?_toString h]

/-! ## Records -/

namespace Workflow

/-- The times of the workflow are those of a clock. -/
structure IsStorable (w : Workflow) : Prop where
  createdAt : w.createdAt.IsRegular
  updatedAt : w.updatedAt.IsRegular

/-- The values of the fields of a workflow, in order. -/
def values (w : Workflow) : List (Option Json) :=
  [some w.id.toJson, some (.str w.name), some (.str w.description), some (.str w.definition),
    some (.str w.status.name), some w.createdAt.toJson, some w.updatedAt.toJson]

/-- A workflow is read from its value. -/
theorem recovers {w : Workflow} (h : w.IsStorable) : Decode.Recovers decode w.toJson w := by
  refine Decode.recovers_record w.values (by decide) rfl rfl fun r hr => ?_
  have hid : r.required 0 Uuid.decode = .ok w.id := hr.field rfl w.id.recovers
  have hname : r.required 1 Decode.string = .ok w.name := hr.field rfl (Decode.recovers_string _)
  have hdescription : r.withDefault 2 "" Decode.string = .ok w.description :=
    hr.field rfl (Decode.recovers_string _)
  have hdefinition : r.required 3 Decode.string = .ok w.definition :=
    hr.field rfl (Decode.recovers_string _)
  have hstatus : r.required 4 WorkflowStatus.decode = .ok w.status :=
    hr.field rfl (Decode.recovers_choice (by cases w.status <;> rfl))
  have hcreated : r.required 5 Timestamp.decode = .ok w.createdAt :=
    hr.field rfl h.createdAt.recovers
  have hupdated : r.required 6 Timestamp.decode = .ok w.updatedAt :=
    hr.field rfl h.updatedAt.recovers
  simp only [hid, hname, hdescription, hdefinition, hstatus, hcreated, hupdated, Slot.pure,
    Slot.ap_ok]

end Workflow

namespace JoinRecord

/-- The values of the fields of a join record, in order. -/
def values (j : JoinRecord) : List (Option Json) :=
  [some (.str j.stepId), some (.arr (j.taskIds.map Uuid.toJson)), some j.firedAt.toJson]

/-- A join record is read from its value. -/
theorem recovers {j : JoinRecord} (h : j.firedAt.IsRegular) :
    Decode.Recovers decode j.toJson j := by
  refine Decode.recovers_record j.values (by decide) rfl rfl fun r hr => ?_
  have hstep : r.required 0 Decode.string = .ok j.stepId :=
    hr.field rfl (Decode.recovers_string _)
  have htasks : r.required 1 (Decode.list Uuid.decode) = .ok j.taskIds :=
    hr.field rfl (Decode.recovers_list fun id _ => id.recovers)
  have hfired : r.required 2 Timestamp.decode = .ok j.firedAt := hr.field rfl h.recovers
  simp only [hstep, htasks, hfired, Slot.pure, Slot.ap_ok]

end JoinRecord

namespace Instance

/-- The times of the instance are those of a clock, its values are sorted, and what it gives out
is not null. -/
structure IsStorable (i : Instance) : Prop where
  input : i.input.IsSorted
  output : ∀ v ∈ i.output, v ≠ .null ∧ v.IsSorted
  startedAt : i.startedAt.IsRegular
  completedAt : ∀ t ∈ i.completedAt, t.IsRegular
  joins : ∀ j ∈ i.joins, j.firedAt.IsRegular

/-- The values of the fields of an instance, in order. -/
def values (i : Instance) : List (Option Json) :=
  [some i.id.toJson, some i.workflowId.toJson, some (.str i.status.name), some i.input, i.output,
    i.errorMessage.map .str, some i.startedAt.toJson, i.completedAt.map Timestamp.toJson,
    if i.joins = [] then none else some (.arr (i.joins.map JoinRecord.toJson))]

/-- The value of an instance is the object of its fields, as far as present. -/
theorem toJson_eq (i : Instance) : i.toJson = .obj (Json.present known i.values) := by
  simp [toJson, known, values, Json.present, Json.field?_ite]

/-- An instance is read from its value. -/
theorem recovers {i : Instance} (h : i.IsStorable) : Decode.Recovers decode i.toJson i := by
  rw [toJson_eq]
  refine Decode.recovers_record i.values (by decide) rfl rfl fun r hr => ?_
  have hid : r.required 0 Uuid.decode = .ok i.id := hr.field rfl i.id.recovers
  have hworkflow : r.required 1 Uuid.decode = .ok i.workflowId :=
    hr.field rfl i.workflowId.recovers
  have hstatus : r.required 2 InstanceStatus.decode = .ok i.status :=
    hr.field rfl (Decode.recovers_choice (by cases i.status <;> rfl))
  have hinput : r.required 3 Decode.json = .ok i.input :=
    hr.field rfl (Decode.recovers_json h.input)
  have houtput : r.optional 4 Decode.json = .ok i.output :=
    hr.optional (fun v => v) (by simp [values]) fun v hv =>
      ⟨(h.output v hv).1, Decode.recovers_json (h.output v hv).2⟩
  have hmessage : r.optional 5 Decode.string = .ok i.errorMessage :=
    hr.optional .str rfl fun s _ => ⟨by simp, Decode.recovers_string s⟩
  have hstarted : r.required 6 Timestamp.decode = .ok i.startedAt :=
    hr.field rfl h.startedAt.recovers
  have hcompleted : r.optional 7 Timestamp.decode = .ok i.completedAt :=
    hr.optional _ rfl fun t ht => ⟨by simp [Timestamp.toJson], (h.completedAt t ht).recovers⟩
  have hjoins : r.withDefault 8 [] (Decode.list JoinRecord.decode) = .ok i.joins :=
    hr.withDefault rfl Eq.symm fun _ =>
      Decode.recovers_list fun j hj => JoinRecord.recovers (h.joins j hj)
  simp only [hid, hworkflow, hstatus, hinput, houtput, hmessage, hstarted, hcompleted, hjoins,
    Slot.pure, Slot.ap_ok]

end Instance

namespace Progression

/-- A progression is read from its value. -/
theorem recovers (p : Progression) : Decode.Recovers decode p.toJson p := by
  intro levels hdepth o
  cases levels with
  | zero => cases p <;> exact absurd hdepth (Nat.not_succ_le_zero _)
  | succ levels => cases p <;> rfl

end Progression

namespace Task

/-- The times of the task are those of a clock, and its values are sorted. -/
structure IsStorable (t : Task) : Prop where
  taskData : t.taskData.IsSorted
  formData : t.formData.IsSorted
  output : t.output.IsSorted
  createdAt : t.createdAt.IsRegular
  claimedAt : ∀ time ∈ t.claimedAt, time.IsRegular
  completedAt : ∀ time ∈ t.completedAt, time.IsRegular
  dueDate : ∀ time ∈ t.dueDate, time.IsRegular

/-- The values of the fields of a task, in order. -/
def values (t : Task) : List (Option Json) :=
  [some t.id.toJson, some t.instanceId.toJson, some t.workflowId.toJson, some (.str t.key),
    t.parentStepId.map .str, some (.str t.name), some (.str t.description),
    some (.str t.typeName), t.assignee.map .str, some (.arr (t.candidateUsers.map .str)),
    some (.arr (t.candidateGroups.map .str)), some (.str t.status.name),
    some (.str t.priority.name), some t.taskData, some t.formData, some t.output,
    t.result.map fun r => .str r.name, t.comment.map .str, some t.createdAt.toJson,
    t.claimedAt.map Timestamp.toJson, t.completedAt.map Timestamp.toJson,
    t.dueDate.map Timestamp.toJson, some t.progression.toJson]

/-- The value of a task is the object of its fields, as far as present. -/
theorem toJson_eq (t : Task) : t.toJson = .obj (Json.present known t.values) := by
  simp [toJson, known, values, Json.present]

/-- A task is read from its value. -/
theorem recovers {t : Task} (h : t.IsStorable) : Decode.Recovers decode t.toJson t := by
  rw [toJson_eq]
  refine Decode.recovers_record t.values (by decide) rfl rfl fun r hr => ?_
  have htext {index : Nat} {s : String} (hv : t.values[index]? = some (some (.str s))) {absent} :
      r.field index absent Decode.string = .ok s := hr.field hv (Decode.recovers_string s)
  have hoptionalText {index : Nat} {s? : Option String}
      (hv : t.values[index]? = some (s?.map .str)) : r.optional index Decode.string = .ok s? :=
    hr.optional .str hv fun s _ => ⟨by simp, Decode.recovers_string s⟩
  have htime {index : Nat} {time? : Option Timestamp}
      (hv : t.values[index]? = some (time?.map Timestamp.toJson))
      (htime : ∀ time ∈ time?, time.IsRegular) : r.optional index Timestamp.decode = .ok time? :=
    hr.optional _ hv fun time hmem => ⟨by simp [Timestamp.toJson], (htime time hmem).recovers⟩
  -- Every field is read from the value at its own place.
  have hid : r.required 0 Uuid.decode = .ok t.id := hr.field rfl t.id.recovers
  have hinstance : r.required 1 Uuid.decode = .ok t.instanceId :=
    hr.field rfl t.instanceId.recovers
  have hworkflow : r.required 2 Uuid.decode = .ok t.workflowId :=
    hr.field rfl t.workflowId.recovers
  have hkey : r.required 3 Decode.string = .ok t.key := htext rfl
  have hparent : r.optional 4 Decode.string = .ok t.parentStepId := hoptionalText rfl
  have hname : r.required 5 Decode.string = .ok t.name := htext rfl
  have hdescription : r.withDefault 6 "" Decode.string = .ok t.description := htext rfl
  have htype : r.required 7 Decode.string = .ok t.typeName := htext rfl
  have hassignee : r.optional 8 Decode.string = .ok t.assignee := hoptionalText rfl
  have husers : r.withDefault 9 [] (Decode.list Decode.string) = .ok t.candidateUsers :=
    hr.field rfl (Decode.recovers_strings _)
  have hgroups : r.withDefault 10 [] (Decode.list Decode.string) = .ok t.candidateGroups :=
    hr.field rfl (Decode.recovers_strings _)
  have hstatus : r.required 11 TaskStatus.decode = .ok t.status :=
    hr.field rfl (Decode.recovers_choice (by cases t.status <;> rfl))
  have hpriority : r.required 12 Priority.decode = .ok t.priority :=
    hr.field rfl (Decode.recovers_choice (by cases t.priority <;> rfl))
  have hdata : r.withDefault 13 .null Decode.json = .ok t.taskData :=
    hr.field rfl (Decode.recovers_json h.taskData)
  have hform : r.withDefault 14 .null Decode.json = .ok t.formData :=
    hr.field rfl (Decode.recovers_json h.formData)
  have houtput : r.withDefault 15 .null Decode.json = .ok t.output :=
    hr.field rfl (Decode.recovers_json h.output)
  have hresult : r.optional 16 TaskResult.decode = .ok t.result :=
    hr.optional _ rfl fun result _ =>
      ⟨by simp, Decode.recovers_choice (by cases result <;> rfl)⟩
  have hcomment : r.optional 17 Decode.string = .ok t.comment := hoptionalText rfl
  have hcreated : r.required 18 Timestamp.decode = .ok t.createdAt :=
    hr.field rfl h.createdAt.recovers
  have hclaimed : r.optional 19 Timestamp.decode = .ok t.claimedAt := htime rfl h.claimedAt
  have hcompleted : r.optional 20 Timestamp.decode = .ok t.completedAt := htime rfl h.completedAt
  have hdue : r.optional 21 Timestamp.decode = .ok t.dueDate := htime rfl h.dueDate
  have hprogression : r.withDefault 22 .idle Progression.decode = .ok t.progression :=
    hr.field rfl t.progression.recovers
  simp only [hid, hinstance, hworkflow, hkey, hparent, hname, hdescription, htype, hassignee,
    husers, hgroups, hstatus, hpriority, hdata, hform, houtput, hresult, hcomment, hcreated,
    hclaimed, hcompleted, hdue, hprogression, Slot.pure, Slot.ap_ok]

end Task

namespace HistoryEntry

/-- The time of the entry is that of a clock, and what it holds is sorted. -/
structure IsStorable (h : HistoryEntry) : Prop where
  output : h.output.IsSorted
  createdAt : h.createdAt.IsRegular

/-- The values of the fields of an entry, in order. -/
def values (h : HistoryEntry) : List (Option Json) :=
  [some h.id.toJson, some h.taskId.toJson, some h.instanceId.toJson, some (.str h.action.name),
    some (.str h.actor), h.result.map fun r => .str r.name, h.comment.map .str, some h.output,
    some h.createdAt.toJson]

/-- The value of an entry is the object of its fields, as far as present. -/
theorem toJson_eq (h : HistoryEntry) : h.toJson = .obj (Json.present known h.values) := by
  simp [toJson, known, values, Json.present]

/-- An entry is read from its value. -/
theorem recovers {h : HistoryEntry} (hstorable : h.IsStorable) :
    Decode.Recovers decode h.toJson h := by
  rw [toJson_eq]
  refine Decode.recovers_record h.values (by decide) rfl rfl fun r hr => ?_
  have hid : r.required 0 Uuid.decode = .ok h.id := hr.field rfl h.id.recovers
  have htask : r.required 1 Uuid.decode = .ok h.taskId := hr.field rfl h.taskId.recovers
  have hinstance : r.required 2 Uuid.decode = .ok h.instanceId :=
    hr.field rfl h.instanceId.recovers
  have haction : r.required 3 HistoryAction.decode = .ok h.action :=
    hr.field rfl (Decode.recovers_choice (by cases h.action <;> rfl))
  have hactor : r.required 4 Decode.string = .ok h.actor :=
    hr.field rfl (Decode.recovers_string _)
  have hresult : r.optional 5 TaskResult.decode = .ok h.result :=
    hr.optional _ rfl fun result _ =>
      ⟨by simp, Decode.recovers_choice (by cases result <;> rfl)⟩
  have hcomment : r.optional 6 Decode.string = .ok h.comment :=
    hr.optional .str rfl fun s _ => ⟨by simp, Decode.recovers_string s⟩
  have houtput : r.withDefault 7 .null Decode.json = .ok h.output :=
    hr.field rfl (Decode.recovers_json hstorable.output)
  have hcreated : r.required 8 Timestamp.decode = .ok h.createdAt :=
    hr.field rfl hstorable.createdAt.recovers
  simp only [hid, htask, hinstance, haction, hactor, hresult, hcomment, houtput, hcreated,
    Slot.pure, Slot.ap_ok]

end HistoryEntry

/-! ## Snapshots -/

namespace Doc

mutual
/-- A document is as deep as its value. -/
theorem depth_ofJson : ∀ v : Json, (ofJson v).depth = v.depth
  | .null => rfl
  | .bool _ => rfl
  | .num _ => rfl
  | .str _ => rfl
  | .arr items => by rw [ofJson, depth, depthItems_ofItems items]; rfl
  | .obj fields => by rw [ofJson, depth, depthFields_ofFields fields]; rfl

/-- A document that is made of items is nested as deep as they are. -/
theorem depthItems_ofItems : ∀ items : List Json, depthItems (ofItems items) = Json.depthItems items
  | [] => rfl
  | v :: items => by
    rw [ofItems, depthItems, depth_ofJson v, depthItems_ofItems items]
    rfl

/-- A document that is made of fields is nested as deep as they are. -/
theorem depthFields_ofFields :
    ∀ fields : List (String × Json), depthFields (ofFields fields) = Json.depthFields fields
  | [] => rfl
  | (k, v) :: fields => by
    rw [ofFields, depthFields, depth_ofJson v, depthFields_ofFields fields]
    rfl
end

mutual
/-- A document of a value in memory that is not too deep has a value, with its fields sorted. -/
theorem toJson_ofJson_isOk : ∀ (v : Json) (levels : Nat), v.depth ≤ levels →
    ∃ w, (ofJson v).toJson levels = .ok w
  | .null, _, _ => ⟨_, rfl⟩
  | .bool _, _, _ => ⟨_, rfl⟩
  | .num _, _, _ => ⟨_, rfl⟩
  | .str _, _, _ => ⟨_, rfl⟩
  | .arr _, 0, hdepth => absurd hdepth (Nat.not_succ_le_zero _)
  | .obj _, 0, hdepth => absurd hdepth (Nat.not_succ_le_zero _)
  | .arr items, levels + 1, hdepth => by
    obtain ⟨ws, hws⟩ := toJsonItems_ofItems_isOk items levels (Nat.le_of_succ_le_succ hdepth)
    rw [ofJson, toJson, hws]
    exact ⟨_, rfl⟩
  | .obj fields, levels + 1, hdepth => by
    obtain ⟨ws, hws⟩ := toJsonFields_ofFields_isOk fields levels (Nat.le_of_succ_le_succ hdepth)
    rw [ofJson, toJson, hws]
    exact ⟨_, rfl⟩

/-- Items that are not nested too deep come out of the document that is made of them. -/
theorem toJsonItems_ofItems_isOk : ∀ (items : List Json) (levels : Nat),
    Json.depthItems items ≤ levels → ∃ ws, toJsonItems levels (ofItems items) = .ok ws
  | [], _, _ => ⟨_, rfl⟩
  | v :: items, levels, hdepth => by
    obtain ⟨hv, hitems⟩ := Nat.max_le.mp hdepth
    obtain ⟨w, hw⟩ := toJson_ofJson_isOk v levels hv
    obtain ⟨ws, hws⟩ := toJsonItems_ofItems_isOk items levels hitems
    rw [ofItems, toJsonItems, hw, hws]
    exact ⟨_, rfl⟩

/-- Fields that are not nested too deep come out of the document that is made of them. -/
theorem toJsonFields_ofFields_isOk : ∀ (fields : List (String × Json)) (levels : Nat),
    Json.depthFields fields ≤ levels → ∃ ws, toJsonFields levels (ofFields fields) = .ok ws
  | [], _, _ => ⟨_, rfl⟩
  | (k, v) :: fields, levels, hdepth => by
    obtain ⟨hv, hfields⟩ := Nat.max_le.mp hdepth
    obtain ⟨w, hw⟩ := toJson_ofJson_isOk v levels hv
    obtain ⟨ws, hws⟩ := toJsonFields_ofFields_isOk fields levels hfields
    rw [ofFields, toJsonFields, Key.name?, hw, hws]
    exact ⟨_, rfl⟩
end

mutual
/-- A document of a value in memory that is too deep has no value. -/
theorem toJson_ofJson_of_deep : ∀ (v : Json) (levels : Nat), levels < v.depth →
    (ofJson v).toJson levels = .error .malformed
  | .null, _, hdepth => absurd hdepth (Nat.not_lt_zero _)
  | .bool _, _, hdepth => absurd hdepth (Nat.not_lt_zero _)
  | .num _, _, hdepth => absurd hdepth (Nat.not_lt_zero _)
  | .str _, _, hdepth => absurd hdepth (Nat.not_lt_zero _)
  | .arr _, 0, _ => rfl
  | .obj _, 0, _ => rfl
  | .arr items, levels + 1, hdepth => by
    rw [ofJson, toJson, toJsonItems_ofItems_of_deep items levels (Nat.lt_of_succ_lt_succ hdepth)]
    rfl
  | .obj fields, levels + 1, hdepth => by
    rw [ofJson, toJson, toJsonFields_ofFields_of_deep fields levels
      (Nat.lt_of_succ_lt_succ hdepth)]
    rfl

/-- Items that are nested too deep do not come out of the document that is made of them. -/
theorem toJsonItems_ofItems_of_deep : ∀ (items : List Json) (levels : Nat),
    levels < Json.depthItems items → toJsonItems levels (ofItems items) = .error .malformed
  | [], _, hdepth => absurd hdepth (Nat.not_lt_zero _)
  | v :: items, levels, hdepth => by
    rw [ofItems, toJsonItems]
    rcases Nat.lt_or_ge levels v.depth with hv | hv
    · rw [toJson_ofJson_of_deep v levels hv]
      rfl
    · obtain ⟨w, hw⟩ := toJson_ofJson_isOk v levels hv
      have hdeep : levels < Json.depthItems items := by
        rw [Json.depthItems] at hdepth
        omega
      rw [hw, toJsonItems_ofItems_of_deep items levels hdeep]
      rfl

/-- Fields that are nested too deep do not come out of the document that is made of them. -/
theorem toJsonFields_ofFields_of_deep : ∀ (fields : List (String × Json)) (levels : Nat),
    levels < Json.depthFields fields → toJsonFields levels (ofFields fields) = .error .malformed
  | [], _, hdepth => absurd hdepth (Nat.not_lt_zero _)
  | (k, v) :: fields, levels, hdepth => by
    rw [ofFields, toJsonFields, Key.name?]
    rcases Nat.lt_or_ge levels v.depth with hv | hv
    · rw [toJson_ofJson_of_deep v levels hv]
      rfl
    · obtain ⟨w, hw⟩ := toJson_ofJson_isOk v levels hv
      have hdeep : levels < Json.depthFields fields := by
        rw [Json.depthFields] at hdepth
        omega
      rw [hw, toJsonFields_ofFields_of_deep fields levels hdeep]
      rfl
end

end Doc

/-- Fields in memory that are not known can be kept, if they are not too deep. -/
theorem Record.extra_isOk {r : Record} {fields : List (String × Json)}
    (hshape : r.shape = .fields (Doc.ofFields fields) true)
    (hdepth : ∀ f ∈ fields, f.2.depth ≤ r.levels) : ∃ vs, r.extra = .ok vs := by
  have hfrom : ∀ place, ∃ vs, r.extraFrom place (Doc.ofFields fields) = .ok vs := by
    clear hshape
    induction fields with
    | nil => exact fun _ => ⟨_, rfl⟩
    | cons f fields ih =>
      intro place
      obtain ⟨k, v⟩ := f
      obtain ⟨vs, hvs⟩ := ih (fun g hg => hdepth g (List.mem_cons_of_mem _ hg)) (place + 1)
      obtain ⟨w, hw⟩ := Doc.toJson_ofJson_isOk v r.levels (hdepth (k, v) List.mem_cons_self)
      have haside : (Doc.ofJson v).toJsonAside r.levels = .ok w := by
        rw [Doc.toJsonAside, Doc.firstStrayKey?_ofJson]
        exact hw
      rw [Doc.ofFields, extraFrom]
      cases r.isKnown (.text k) <;> simp [Doc.Key.name?, haside, hvs]
  obtain ⟨vs, hvs⟩ := hfrom 0
  exact ⟨Json.sortFields vs, by simp [extra, hshape, hvs, Slot.pure]⟩

/-- Fields in memory cannot be kept if one of them is not known and too deep. -/
theorem Record.extra_of_deep {r : Record} {fields : List (String × Json)}
    (hshape : r.shape = .fields (Doc.ofFields fields) true) {f : String × Json} (hf : f ∈ fields)
    (hunknown : r.isKnown (.text f.1) = false) (hdeep : r.levels < f.2.depth) :
    ∃ place, r.extra = .error (place, .malformed) := by
  have hfrom : ∀ place, ∃ at', r.extraFrom place (Doc.ofFields fields)
      = .error (at', .malformed) := by
    clear hshape
    induction fields with
    | nil => cases hf
    | cons g fields ih =>
      intro place
      obtain ⟨k, v⟩ := g
      have haside : (Doc.ofJson v).toJsonAside r.levels = (Doc.ofJson v).toJson r.levels := by
        rw [Doc.toJsonAside, Doc.firstStrayKey?_ofJson]
      rw [Doc.ofFields, extraFrom]
      simp only [Doc.Key.name?, haside]
      -- A field before the one in question may end the reading already, and with the same problem.
      rcases List.mem_cons.mp hf with rfl | hf
      · rw [hunknown, Doc.toJson_ofJson_of_deep v r.levels hdeep]
        exact ⟨place, rfl⟩
      · obtain ⟨at', hrest⟩ := ih hf (place + 1)
        rw [hrest]
        cases r.isKnown (.text k) with
        | true => exact ⟨at', rfl⟩
        | false =>
          rcases Nat.lt_or_ge r.levels v.depth with hv | hv
          · rw [Doc.toJson_ofJson_of_deep v r.levels hv]
            exact ⟨place, rfl⟩
          · obtain ⟨w, hw⟩ := Doc.toJson_ofJson_isOk v r.levels hv
            rw [hw]
            exact ⟨at', rfl⟩
  obtain ⟨place, hplace⟩ := hfrom 0
  exact ⟨place, by simp [extra, hshape, hplace, Slot.pure, Slot.ap]⟩

namespace Snapshot

/-- All records in the snapshot survive being stored. -/
structure IsStorable (s : Snapshot) : Prop where
  workflows : ∀ w ∈ s.workflows, w.IsStorable
  instances : ∀ i ∈ s.instances, i.IsStorable
  tasks : ∀ t ∈ s.tasks, t.IsStorable
  history : ∀ h ∈ s.history, h.IsStorable

/-- The values of the lists in a snapshot, in order. -/
def values (s : Snapshot) : List (Option Json) :=
  [some (.arr (s.workflows.map Workflow.toJson)), some (.arr (s.instances.map Instance.toJson)),
    some (.arr (s.tasks.map Task.toJson)), some (.arr (s.history.map HistoryEntry.toJson))]

/-- A snapshot is read from its lists. -/
theorem recovers {s : Snapshot} (h : s.IsStorable) :
    Decode.Recovers decode (.obj (Json.present known s.values)) s := by
  refine Decode.recovers_record s.values (by decide) rfl rfl fun r hr => ?_
  have hworkflows : r.withDefault 0 [] (Decode.list Workflow.decode) = .ok s.workflows :=
    hr.field rfl (Decode.recovers_list fun w hw => Workflow.recovers (h.workflows w hw))
  have hinstances : r.withDefault 1 [] (Decode.list Instance.decode) = .ok s.instances :=
    hr.field rfl (Decode.recovers_list fun i hi => Instance.recovers (h.instances i hi))
  have htasks : r.withDefault 2 [] (Decode.list Task.decode) = .ok s.tasks :=
    hr.field rfl (Decode.recovers_list fun t ht => Task.recovers (h.tasks t ht))
  have hhistory : r.withDefault 3 [] (Decode.list HistoryEntry.decode) = .ok s.history :=
    hr.field rfl (Decode.recovers_list fun h' hh => HistoryEntry.recovers (h.history h' hh))
  simp only [hworkflows, hinstances, htasks, hhistory, Slot.pure, Slot.ap_ok]

end Snapshot

namespace SavedSnapshot

section

variable (s : Snapshot) (savedAt : Timestamp) (o : Origin) (levels : Nat)

/-- The fields of the value of a snapshot. -/
def fields : List (String × Json) :=
  Json.present [["savedAt"]] [some savedAt.toJson] ++ Json.present Snapshot.known s.values

/-- The record from which the time is read. The lists are not known to it. -/
def timeRecord : Record :=
  ⟨"struct SnapshotFile", [["savedAt"]], .fields (Doc.ofFields (fields s savedAt)) true, o, levels⟩

variable {s savedAt}

/-- The time of saving has a name of its own among the fields of a snapshot. -/
theorem key_ne_savedAt {f : String × Json} (hf : f ∈ Json.present Snapshot.known s.values) :
    f.1 ≠ "savedAt" := by
  have hdistinct : Json.AreDistinct Snapshot.known := by decide
  have hmem := Json.mem_of_mem_present hdistinct hf
  simp only [Snapshot.known, List.flatten_cons, List.flatten_nil, List.mem_append,
    List.mem_singleton, List.not_mem_nil, or_false] at hmem
  rcases hmem with h | h | h | h <;> simp [h]

/-- The time is read whatever the lists hold. -/
theorem time_of_timeRecord (h : savedAt.IsRegular) :
    (timeRecord s savedAt o levels).required 0 Timestamp.decode = .ok savedAt := by
  have hunknown : ∀ f ∈ Json.present Snapshot.known s.values, ∀ names ∈ [["savedAt"]],
      f.1 ∉ names := by
    intro f hf names hnames
    rw [List.mem_singleton.mp hnames]
    simpa using key_ne_savedAt hf
  have hshows : (timeRecord s savedAt o levels).Shows [some savedAt.toJson] := by
    exact Record.shows_of_present _ levels (by decide) rfl hunknown o
  exact hshows.field rfl (h.recovers levels (Nat.zero_le _))

/-- Once the lists can be set aside, the snapshot is read from them. -/
theorem decode_eq (h : savedAt.IsRegular) :
    decode o (levels + 1) (Doc.ofJson (s.toJson savedAt)) = (do
      let _ ← (timeRecord s savedAt o levels).extra.result
      let snapshot ← Snapshot.decode .buffered (levels + 1)
        (.map (Doc.ofFields (Json.present Snapshot.known s.values)) true)
      .ok ⟨savedAt, snapshot⟩) := by
  show (Slot.result ((Slot.pure fun time _ => time).ap
    ((timeRecord s savedAt o levels).required 0 Timestamp.decode)
      |>.ap (timeRecord s savedAt o levels).extra) >>= _) = _
  rw [time_of_timeRecord o levels h]
  cases (timeRecord s savedAt o levels).extra <;> rfl

end

/-- A snapshot is read from its value together with the time at which it was taken. -/
theorem recovers {s : Snapshot} (h : s.IsStorable) {savedAt : Timestamp}
    (hsaved : savedAt.IsRegular) :
    Decode.Recovers decode (s.toJson savedAt) ⟨savedAt, s⟩ := by
  intro levels hdepth o
  cases levels with
  | zero => exact absurd hdepth (Nat.not_succ_le_zero _)
  | succ levels =>
    have hfields := Json.depthFields_le.mp (Nat.le_of_succ_le_succ hdepth)
    have hothers : (Json.obj (Json.present Snapshot.known s.values)).depth ≤ levels + 1 := by
      refine Nat.succ_le_succ (Json.depthFields_le.mpr fun f hf => hfields f ?_)
      exact List.mem_cons_of_mem _ hf
    have hsnapshot : Snapshot.decode .buffered (levels + 1)
        (.map (Doc.ofFields (Json.present Snapshot.known s.values)) true) = .ok s :=
      Snapshot.recovers h (levels + 1) hothers .buffered
    obtain ⟨vs, hvs⟩ := Record.extra_isOk (r := timeRecord s savedAt o levels) rfl hfields
    rw [decode_eq o levels hsaved, hvs]
    show (Snapshot.decode .buffered (levels + 1)
      (.map (Doc.ofFields (Json.present Snapshot.known s.values)) true) >>= _) = _
    rw [hsnapshot]
    rfl

/-- A snapshot is not read from its value if that is too deep: the lists cannot be set aside. -/
theorem malformed_of_deep {s : Snapshot} {savedAt : Timestamp} (hsaved : savedAt.IsRegular)
    {levels : Nat} (hdeep : levels < (s.toJson savedAt).depth) (o : Origin) :
    decode o levels (Doc.ofJson (s.toJson savedAt)) = .error .malformed := by
  cases levels with
  | zero => rfl
  | succ levels =>
    obtain ⟨f, hf, hdepth⟩ : ∃ f ∈ fields s savedAt, levels < f.2.depth := by
      by_contra hnone
      have hle : Json.depthFields (fields s savedAt) ≤ levels :=
        Json.depthFields_le.mpr fun f hf => Nat.not_lt.mp fun hlt => hnone ⟨f, hf, hlt⟩
      exact absurd hdeep (Nat.not_lt.mpr (Nat.succ_le_succ hle))
    have hunknown : (timeRecord s savedAt o levels).isKnown (.text f.1) = false := by
      rcases List.mem_append.mp hf with hf | hf
      · obtain rfl : f = ("savedAt", savedAt.toJson) := by simpa [Json.present] using hf
        exact absurd hdepth (Nat.not_lt_zero _)
      · simp [timeRecord, Record.isKnown, Record.isNamed, Doc.Key.name?, key_ne_savedAt hf]
    obtain ⟨place, hextra⟩ := Record.extra_of_deep rfl hf hunknown hdepth
    rw [decode_eq o levels hsaved, hextra]
    rfl

end SavedSnapshot

/-- Reading a value in memory gives what the value stands for. -/
theorem Decode.Recovers.fromJson {α : Type} {decode : Decoder α} {v : Json} {a : α}
    (h : Decode.Recovers decode v a) : Decode.fromJson decode v = .ok a := by
  rw [Decode.fromJson, Doc.depth_ofJson]
  exact h v.depth (Nat.le_refl _) .value

end ApprovalWorkflow
