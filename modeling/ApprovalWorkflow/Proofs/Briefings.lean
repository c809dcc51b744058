import ApprovalWorkflow.Proofs.Frozen
import ApprovalWorkflow.Proofs.GuardedSteps
import ApprovalWorkflow.Proofs.Markers
import ApprovalWorkflow.Proofs.Recency
import ApprovalWorkflow.Proofs.Rollback

/-!
# What new tasks are told

Whoever opens a task is told what has happened so far. The data of a new task are the entries of
the input of its instance, and under a key of its own the record of all tasks of the instance that
have ended, in the order in which they were finished; and if the task is opened again after a
rejection they also say who has rejected what, when and why (`Task.Recalls`).

Tasks are opened by the engine in three operations: at the start of an instance, when it goes on
behind a finished task, and when it goes back behind a rejected one. The record is read before the
first task is opened and is the same for all that are opened together, and no task ends between
that and the end of the request. So it is the record of the tasks that have ended when the request
has been served (`opened_tasks_recall`), which holds of all that can be asked of the management and
of the engine, in any environment and also where an outage stops the work in between.
-/

set_option autoImplicit false

namespace ApprovalWorkflow

open Operation

/-! ## The record of finished tasks -/

/-- The tasks are those of the list that have ended, in the order in which they were finished. Of
several that were finished at one time the ones that were opened before come first. -/
structure IsChronicle (finished tasks : List Task) : Prop where
  perm : finished.Perm (tasks.filter fun t => t.status.isTerminal)
  sorted : finished.Pairwise fun t u => t.recency ≤ u.recency
  stable : ∀ t u : Task, [t, u].Sublist (tasks.filter fun t => t.status.isTerminal) →
    t.recency = u.recency → [t, u].Sublist finished

/-- The record says these things about a task. -/
structure Task.IsToldBy (labels : ResultLabels) (t : Task) (record : Json) : Prop where
  key : record.get? "taskKey" = some (.str t.key)
  assignee : record.get? "assignee" = some (.ofString? t.assignee)
  status : record.get? "status" = some (.str t.status.name)
  result : record.get? "result" = some (.ofString? (t.result.map labels.label))
  comment : record.get? "comment" = some (.ofString? t.comment)
  output : record.get? "output" = some t.output
  completedAt : record.get? "completedAt" =
    some (.ofString? (t.completedAt.map Timestamp.toString))

/-- The finished tasks, sorted by the time of their end, are the chronicle of the tasks. -/
theorem finishedTasks_isChronicle (tasks : List Task) :
    IsChronicle (finishedTasks tasks) tasks where
  perm := List.mergeSort_perm _ _
  sorted := (List.pairwise_mergeSort Task.finishedBefore_trans Task.finishedBefore_total _).imp
    fun h => Task.finishedBefore_iff.mp h
  stable _ _ hlisted hsame := List.pair_sublist_mergeSort Task.finishedBefore_trans
    Task.finishedBefore_total (Task.finishedBefore_iff.mpr hsame.le) hlisted

/-- The record of a task tells what there is to tell about it. -/
theorem Task.isToldBy_historyRecord (labels : ResultLabels) (t : Task) :
    t.IsToldBy labels (t.historyRecord labels) := ⟨rfl, rfl, rfl, rfl, rfl, rfl, rfl⟩

/-- The entries are those about the rejection of the task, or none if there is no such task. -/
def IsRejectionNote : Option Task → List (String × Json) → Prop
  | none, entries => entries = []
  | some rejected, entries =>
    ∃ time, (∀ c, rejected.completedAt = some c → time = c) ∧
      entries = [("rejectedBy", .ofString? rejected.assignee), ("rejectedAt", time.toJson),
        ("rejectionReason", .ofString? rejected.comment), ("rejectedTaskId", rejected.id.toJson)]

/-- The data of the task are an object: the entries of the input, over these the record of the
tasks in the list that have ended, and over this, if a task has been rejected, the entries about
that. -/
def Task.Recalls (u : Task) (labels : ResultLabels) (tasks : List Task) (input : Json)
    (rejected? : Option Task) : Prop :=
  ∃ fields finished records rejection, u.taskData = .obj fields ∧ IsChronicle finished tasks ∧
    List.Forall₂ (Task.IsToldBy labels) finished records ∧ IsRejectionNote rejected? rejection ∧
    ∀ key, Json.lookup key fields =
      Json.lookup key (rejection ++ (historyKey, .arr records) :: inputEntries input)

section Records

variable {f : Task → Task} {t u : Task} {tasks opened : List Task} {labels : ResultLabels}
  {input : Json} {rejected? : Option Task} {rejection : List (String × Json)}

/-- A task that has been briefed on the finished tasks recalls them. -/
theorem Task.BriefedOn.recalls (h : u.BriefedOn rejection (historyBlock tasks labels) input)
    (hrejection : IsRejectionNote rejected? rejection) :
    u.Recalls labels tasks input rejected? := by
  obtain ⟨fields, hfields, hlookup⟩ := h
  refine ⟨fields, finishedTasks tasks, historyBlock tasks labels, rejection, hfields,
    finishedTasks_isChronicle tasks, ?_, hrejection, hlookup⟩
  rw [historyBlock, List.forall₂_map_right_iff]
  exact List.forall₂_same.mpr fun t _ => t.isToldBy_historyRecord labels

/-- No entry about a rejection stands over the record. -/
theorem Task.BriefedOn.get?_historyKey {history : List Json}
    (h : u.BriefedOn rejection history input) (hrejection : IsRejectionNote rejected? rejection) :
    u.taskData.get? historyKey = some (.arr history) := by
  obtain ⟨fields, hfields, hlookup⟩ := h
  rw [hfields, Json.get?, hlookup]
  cases rejected? with
  | none =>
    rw [hrejection]
    exact if_pos rfl
  | some rejected =>
    obtain ⟨time, -, rfl⟩ := hrejection
    rfl

/-- Tasks that have not ended are not told of. -/
theorem historyBlock_append (hopened : ∀ u ∈ opened, u.status.isTerminal = false) :
    historyBlock (tasks ++ opened) labels = historyBlock tasks labels := by
  have hnone : opened.filter (fun t => t.status.isTerminal) = [] :=
    List.filter_eq_nil_iff.mpr fun u hu => by simp [hopened u hu]
  rw [historyBlock, finishedTasks, List.filter_append, hnone, List.append_nil]
  rfl

end Records

/-! ## Marks on tasks -/

/-- The task without the mark that says how carrying it through went. -/
def Task.unmarked (t : Task) : Task := { t with progression := .idle }

/-- To take the mark from a task changes nothing but this mark. -/
theorem onlyMarks_unmarked : OnlyMarks Task.unmarked := fun _ => ⟨.idle, rfl⟩

/-- Two tasks that differ in their marks agree in whatever does not depend on these. -/
theorem Task.field_eq {α : Type} {t u : Task} (h : t.unmarked = u.unmarked) (field : Task → α)
    (hfield : ∀ t p, field { t with progression := p } = field t) : field t = field u := by
  rw [← onlyMarks_unmarked.field_eq field hfield t, h, onlyMarks_unmarked.field_eq field hfield u]

/-- Only marks on tasks have changed. -/
def Store.Remarks (s s' : Store) : Prop :=
  s'.tasks.map Task.unmarked = s.tasks.map Task.unmarked

instance : IsPreorder Store Store.Remarks where
  refl _ := rfl
  trans _ _ _ h h' := Eq.trans h' h

section Marks

variable {s s' : Store} {t u : Task} {tasks tasks' : List Task} {labels : ResultLabels}

/-- Marks on tasks are not seen in the record of what has happened. -/
theorem historyBlock_congr (h : tasks'.map Task.unmarked = tasks.map Task.unmarked) :
    historyBlock tasks' labels = historyBlock tasks labels := by
  rw [← onlyMarks_unmarked.historyBlock_map, h, onlyMarks_unmarked.historyBlock_map]

/-- Tasks that differ in their marks only have the same identifiers. -/
theorem map_id_congr (h : tasks'.map Task.unmarked = tasks.map Task.unmarked) :
    tasks'.map Task.id = tasks.map Task.id := by
  have hids : ∀ tasks : List Task, (tasks.map Task.unmarked).map Task.id = tasks.map Task.id :=
    fun tasks => List.map_map
  rw [← hids tasks', h, hids]

/-- A task may be stored again with another mark. -/
theorem Store.updateTask_remarks (ht : s.task? u.id = some t) (hsame : u.unmarked = t.unmarked)
    (h : s.updateTask u = .ok s') : s.Remarks s' := by
  unfold updateTask at h
  split at h <;> cases h
  exact map_replaceFirst ht hsame

/-- Updating an instance changes no mark. -/
theorem Store.updateInstance_remarks {i : Instance} (h : s.updateInstance i = .ok s') :
    s.Remarks s' := by
  unfold updateInstance at h
  split at h <;> cases h
  rfl

end Marks

/-! ## What is opened -/

/-- The task has just been opened for an instance, and it has been briefed on the tasks of the
instance that are in the store, and on the rejection of a task, if there is one. -/
structure Task.IsBriefed (u : Task) (labels : ResultLabels) (s : Store) (id : Uuid)
    (rejected? : Option Task) : Prop where
  owner : u.instanceId = id
  pending : u.status = .pending
  briefed : ∃ i rejection, s.instance? id = some i ∧ IsRejectionNote rejected? rejection ∧
    u.BriefedOn rejection (historyBlock (s.tasksOf id) labels) i.input

/-- The store has gained tasks of which `Q` holds, and only marks have changed on the others. -/
def Store.Gains (Q : Task → Prop) (s s' : Store) : Prop :=
  ∃ old opened, s'.tasks = old ++ opened ∧
    old.map Task.unmarked = s.tasks.map Task.unmarked ∧ ∀ u ∈ opened, Q u

/-- After a request the store holds the tasks of before, and new ones of one instance, which are
told of all tasks of this instance that have ended. -/
def Store.Briefs (labels : ResultLabels) (input? : Store → Uuid → Option Json)
    (rejected? : Store → Option Task) (s s' : Store) : Prop :=
  ∃ old opened id, s'.tasks = old ++ opened ∧ old.map Task.id = s.tasks.map Task.id ∧
    ∀ u ∈ opened, u.instanceId = id ∧ ∃ input rejection, input? s id = some input ∧
      IsRejectionNote (rejected? s') rejection ∧
      u.BriefedOn rejection (historyBlock (s'.tasksOf id) labels) input

section Stores

variable {s s₁ s' : Store} {t u v : Task} {labels : ResultLabels} {id : Uuid}
  {input? : Store → Uuid → Option Json} {rejected? : Store → Option Task} {Q : Task → Prop}
  {rejection : List (String × Json)}

/-- Where no task has been opened there is nothing to tell. -/
theorem Store.Briefs.of_ids (h : s'.tasks.map Task.id = s.tasks.map Task.id) :
    s.Briefs labels input? rejected? s' :=
  ⟨s'.tasks, [], .nil, (List.append_nil _).symm, h, fun u hu => (by cases hu)⟩

instance : Std.Refl (Store.Briefs labels input? rejected?) where
  refl _ := .of_ids rfl

/-- A mark does not matter to what a task is told. -/
theorem Task.IsBriefed.of_unmarked {noted? : Option Task} (h : u.IsBriefed labels s id noted?)
    (hv : u.unmarked = v.unmarked) : v.IsBriefed labels s id noted? := by
  have hdata : v.taskData = u.taskData := Task.field_eq hv.symm Task.taskData fun _ _ => rfl
  refine ⟨?_, ?_, ?_⟩
  · rw [← h.owner]
    exact Task.field_eq hv.symm Task.instanceId fun _ _ => rfl
  · rw [← h.pending]
    exact Task.field_eq hv.symm Task.status fun _ _ => rfl
  · obtain ⟨i, rejection, hi, hrejection, fields, hfields, hlookup⟩ := h.briefed
    exact ⟨i, rejection, hi, hrejection, fields, hdata.trans hfields, hlookup⟩

/-- What has been gained remains when only marks change after that. -/
theorem Store.Gains.remarks (hQ : ∀ u v : Task, u.unmarked = v.unmarked → Q u → Q v)
    (h : s.Gains Q s₁) (h' : s₁.Remarks s') : s.Gains Q s' := by
  obtain ⟨old, opened, htasks, hold, hopened⟩ := h
  rw [Store.Remarks, htasks, List.map_append] at h'
  obtain ⟨old', opened', htasks', hold', hopened'⟩ := List.map_eq_append_iff.mp h'
  refine ⟨old', opened', htasks', hold'.trans hold, fun v hv => ?_⟩
  have hmem : v.unmarked ∈ opened.map Task.unmarked := hopened' ▸ List.mem_map_of_mem hv
  obtain ⟨u, hu, hsame⟩ := List.mem_map.mp hmem
  exact hQ u v hsame (hopened u hu)

/-- A task that was there is found after others have been gained. -/
theorem Store.Gains.task? (h : s.Gains Q s') (ht : s.task? id = some t) :
    ∃ u, s'.task? id = some u ∧ u.unmarked = t.unmarked := by
  obtain ⟨old, opened, htasks, hold, -⟩ := h
  have hfind : ∀ tasks : List Task, (tasks.map Task.unmarked).find? (fun t => t.id == id) =
      (tasks.find? fun t => t.id == id).map Task.unmarked := fun tasks => List.find?_map ..
  have hfound : (old.find? fun t => t.id == id).map Task.unmarked = some t.unmarked := by
    rw [← hfind, hold, hfind, show s.tasks.find? _ = _ from ht]
    rfl
  obtain ⟨u, hu, hsame⟩ := Option.map_eq_some_iff.mp hfound
  refine ⟨u, ?_, hsame⟩
  rw [Store.task?, htasks, List.find?_append, hu]
  rfl

/-- A note about the rejection of a task does not depend on the mark of the task. -/
theorem IsRejectionNote.of_unmarked {noted? noted'? : Option Task}
    (h : IsRejectionNote noted? rejection)
    (hsame : noted?.map Task.unmarked = noted'?.map Task.unmarked) :
    IsRejectionNote noted'? rejection := by
  cases noted? with
  | none =>
    cases noted'? with
    | none => exact h
    | some v => cases hsame
  | some u =>
    cases noted'? with
    | none => cases hsame
    | some v =>
      have hv : u.unmarked = v.unmarked := Option.some.inj hsame
      obtain ⟨time, htime, rfl⟩ := h
      refine ⟨time, ?_, ?_⟩
      · rw [← Task.field_eq hv Task.completedAt fun _ _ => rfl]
        exact htime
      · rw [Task.field_eq hv Task.assignee fun _ _ => rfl,
          Task.field_eq hv Task.comment fun _ _ => rfl, Task.field_eq hv Task.id fun _ _ => rfl]

/-- Tasks that are gained after others have been worked on are told of all tasks that have ended
at the end. -/
theorem Store.Briefs.of_gains {noted? : Option Task}
    (hids : s₁.tasks.map Task.id = s.tasks.map Task.id)
    (h : s₁.Gains (fun u => u.IsBriefed labels s₁ id noted?) s')
    (hinput : ∀ i, s₁.instance? id = some i → input? s id = some i.input)
    (hnoted : noted?.map Task.unmarked = (rejected? s').map Task.unmarked) :
    s.Briefs labels input? rejected? s' := by
  obtain ⟨old, opened, htasks, hold, hopened⟩ := h
  have hrecord : historyBlock (s'.tasksOf id) labels = historyBlock (s₁.tasksOf id) labels := by
    have hown : ∀ tasks : List Task, (tasks.map Task.unmarked).filter (fun t => t.instanceId == id)
        = (tasks.filter fun t => t.instanceId == id).map Task.unmarked := fun tasks =>
      OnlyMarks.filter_map_eq (fun _ => rfl) tasks
    rw [Store.tasksOf, htasks, List.filter_append, historyBlock_append]
    · refine historyBlock_congr ?_
      rw [Store.tasksOf, ← hown, hold, hown]
    · intro u hu
      rw [(hopened u (List.mem_filter.mp hu).1).pending]
      rfl
  refine ⟨old, opened, id, htasks, (map_id_congr hold).trans hids, fun u hu => ?_⟩
  obtain ⟨howner, -, i, rejection, hi, hrejection, hbriefed⟩ := hopened u hu
  rw [← hrecord] at hbriefed
  exact ⟨howner, i.input, rejection, hinput i hi, hrejection.of_unmarked hnoted, hbriefed⟩

end Stores

/-! ## Operations that open tasks -/

namespace Operation

variable {α β : Type} {env : Environment} {Q : Task → Prop}

/-- An operation that opens only such tasks, whatever it executes, lets the store gain only such
tasks. -/
theorem Executes.gains {i : Uuid} {p : List Step → List Task → Prop} {x : Operation α}
    (h : x.Executes i p env) (hQ : ∀ steps opened, p steps opened → ∀ u ∈ opened, Q u) :
    x.Leads (Store.Gains Q) env := by
  obtain ⟨steps, opened, hexecuted, hp⟩ := h
  exact ⟨env.store.tasks, opened, hexecuted.tasks, rfl, hQ steps opened hp⟩

/-- Behind an operation that gains tasks marks may change. -/
theorem Leads.remarks {x : Operation α} {f : α → Operation β}
    (hQ : ∀ u v : Task, u.unmarked = v.unmarked → Q u → Q v) (hx : x.Leads (Store.Gains Q) env)
    (hf : ∀ a env', env.store.Gains Q env'.store → (f a).Leads Store.Remarks env') :
    (x >>= f).Leads (Store.Gains Q) env :=
  .onward hx (fun _ h => h) fun a env' _ h => h.remarks hQ (hf a env' h)

end Operation

/-- A task that has to be there is found under its identifier. -/
theorem Repository.task_gives (id : Uuid) : (task id).Gives fun t => t.id = id := by
  have hfound : (query .findTask fun s => s.task? id).Gives fun found =>
      ∃ s : Store, s.task? id = found := fun env _ _ hrun => ⟨env.store, look_of_query hrun⟩
  refine .bind hfound fun found hfound => ?_
  cases found with
  | none => exact .throw _
  | some t =>
    obtain ⟨s, hs⟩ := hfound
    exact .pure (Store.id_of_task? hs)

/-! ## The engine -/

namespace Engine

variable {e : Engine} {env : Environment} {s : Store} {d : Definition} {i : Instance}
  {id : Uuid} {t : Task}

/-- What is built from the steps of a walk has been briefed on the tasks that guards see. -/
theorem Works.isBriefed {before steps : List Step} {opened : List Task}
    (h : e.Works d i ⟨i.input, s.tasksOf id⟩ before steps opened) (hi : s.instance? id = some i) :
    ∀ u ∈ opened, u.IsBriefed e.settings.resultLabels s id none := by
  intro u hu
  obtain ⟨origin, -, now, task, rfl⟩ := h.built u hu
  exact ⟨(built_instanceId ..).trans (Store.id_of_instance? hi), built_status ..,
    i, [], hi, rfl, e.built_briefedOn ..⟩

/-- A start opens tasks that are briefed on what their instance has had so far. -/
theorem start_gains (e : Engine) (env : Environment) (id : Uuid) : (e.start id).Leads
    (Store.Gains fun u => u.IsBriefed e.settings.resultLabels env.store id none) env := by
  refine (start_works e env id).gains fun steps opened h => ?_
  rcases h with ⟨-, rfl⟩ | ⟨i, d, first, others, hi, -, -, -, hworks⟩
  · exact List.forall_mem_nil _
  · exact hworks.isBriefed hi

/-- Going on behind a task opens tasks that are briefed on what their instance has had so far. -/
theorem continueAfter_gains (e : Engine) (env : Environment) (t : Task) :
    (e.continueAfter t).Leads (Store.Gains fun u =>
      u.IsBriefed e.settings.resultLabels env.store t.instanceId none) env := by
  refine (continueAfter_works e env t).gains fun steps opened h => ?_
  rcases h with ⟨-, rfl⟩ | ⟨i, d, hi, -, hworks⟩
  · exact List.forall_mem_nil _
  · exact hworks.isBriefed hi

/-- A task that is built and then told of a rejection has been briefed on it. -/
theorem isBriefed_markRejected (e : Engine) (hi : s.instance? id = some i) (now : Timestamp)
    (task : Uuid) (o : Opening) (assignee : Option String) {time : Timestamp}
    (htime : ∀ c, t.completedAt = some c → time = c) :
    (Task.markRejected { e.built i (s.tasksOf id) now task o with assignee := assignee } t
      time).IsBriefed e.settings.resultLabels s id (some t) := by
  let built := e.built i (s.tasksOf id) now task o
  have hassigned : Task.BriefedOn { built with assignee := assignee } []
      (historyBlock (s.tasksOf id) e.settings.resultLabels) i.input :=
    e.built_briefedOn i (s.tasksOf id) now task o
  have hbuilt : built.instanceId = i.id ∧ built.status = .pending :=
    ⟨built_instanceId .., built_status ..⟩
  exact ⟨hbuilt.1.trans (Store.id_of_instance? hi), hbuilt.2, i, _, hi, ⟨time, htime, rfl⟩,
    hassigned.markRejected t time⟩

/-- What is opened behind a rejection has been briefed on it. -/
theorem goBack_gains (e : Engine) (env : Environment) (t : Task) :
    (e.goBack t).Leads (Store.Gains fun u =>
      u.IsBriefed e.settings.resultLabels env.store t.instanceId (some t)) env := by
  let Q := fun u : Task => u.IsBriefed e.settings.resultLabels env.store t.instanceId (some t)
  suffices h : (e.goBack t).Executes t.instanceId (fun _ opened => ∀ u ∈ opened, Q u) env from
    h.gains fun _ _ hopened => hopened
  have hnothing : ∀ u ∈ ([] : List Task), Q u := List.forall_mem_nil _
  refine runningInstance_executes hnothing fun i d env₁ hi _ h₁ => ?_
  refine tasksOf_executes hnothing fun env₂ _ => .after .now hnothing fun now env₃ _ _ => ?_
  rw [Store.id_of_instance? hi, h₁]
  have htime : ∀ c, t.completedAt = some c → t.completedAt.getD now = c := by
    intro c hc
    rw [hc]
    rfl
  dsimp only
  split
  · refine .after (.pure _) hnothing fun previous env₄ _ _ => ?_
    split
    · refine .after (.pure _) hnothing fun origin env₅ _ _ => ?_
      refine .after (.freshId _) hnothing fun task env₆ _ _ => ?_
      refine .after .now hnothing fun later env₇ _ _ => ?_
      refine .heed (Task.build_idle _ _ _ _ _ _ _ _) fun env₈ _ => ?_
      let o : Opening := ⟨origin.taskStep, previous.key, origin.parentId?⟩
      have hopened := isBriefed_markRejected e hi later task o (previous.assignee.or
        (e.built i (env.store.tasksOf t.instanceId) later task o).assignee) htime
      refine .of_opens (.bind (Repository.saveTask_opens hopened) fun _ => .bind (.say ?_)
        fun _ => ?_) fun opened h => h
      · exact LogLine.not_isExecution_of_level (by simp)
      · split
        · exact .bind (.announce _ _) fun _ => .pure _
        · exact .bind (.announce _ _) fun _ => .pure _
    · exact .after (.throw _) hnothing fun _ _ hrun _ => by cases hrun
  · exact .after (.throw _) hnothing fun _ _ hrun _ => by cases hrun

end Engine

/-! ## What the management and the engine are asked for -/

/-- The input of the instance under an identifier. -/
def Store.inputOf? (s : Store) (id : Uuid) : Option Json := (s.instance? id).map Instance.input

/-- The task under an identifier, if it has been rejected and leads back. -/
def Store.rejected? (s : Store) (id : Uuid) : Option Task :=
  (s.task? id).filter fun t => t.GoesBack

/-- Tasks have been worked on and none has been opened, and the instances are what they were. -/
structure Store.Reworks (s s' : Store) : Prop where
  ids : s'.tasks.map Task.id = s.tasks.map Task.id
  instances : s'.instances = s.instances

instance : IsPreorder Store Store.Reworks where
  refl _ := ⟨rfl, rfl⟩
  trans _ _ _ h h' := ⟨h'.ids.trans h.ids, h'.instances.trans h.instances⟩

/-- Working on tasks allows for a task that is stored again, and for an entry. -/
theorem Store.reworks_allowsWork : Store.AllowsWork Store.Reworks where
  update s s' t u ht _ hs := by
    unfold updateTask at hs
    split at hs <;> cases hs
    exact ⟨map_replaceFirst ht (id_of_task? ht).symm, rfl⟩
  enter _ _ := ⟨rfl, rfl⟩

/-- An instance that has been saved is there, and the tasks are what they were. -/
theorem Store.of_saveInstance {s s' : Store} {i : Instance} (h : s.saveInstance i = .ok s') :
    s'.tasks = s.tasks ∧ s'.instance? i.id = some i := by
  unfold saveInstance at h
  split at h
  · cases h
  · next hnone =>
    cases h
    have hnone : s.instance? i.id = none := by simpa using hnone
    refine ⟨rfl, ?_⟩
    rw [instance?] at hnone ⊢
    rw [List.find?_append, hnone]
    simp

/-- Work on tasks may come first. -/
theorem Store.Briefs.of_reworks {s s₁ s' : Store} {labels : ResultLabels}
    {rejected? : Store → Option Task} (h : s.Reworks s₁)
    (h' : s₁.Briefs labels Store.inputOf? rejected? s') :
    s.Briefs labels Store.inputOf? rejected? s' := by
  obtain ⟨old, opened, id, htasks, hids, hopened⟩ := h'
  have hinput : s₁.inputOf? = s.inputOf? := by
    funext id
    rw [inputOf?, instance?, h.instances]
    rfl
  rw [hinput] at hopened
  exact ⟨old, opened, id, htasks, hids.trans h.ids, hopened⟩

namespace Engine

variable {e : Engine} {env : Environment}

/-- Moving an instance on behind a task opens tasks that have been briefed on the rejection of the
task if it leads back. -/
theorem move_gains (e : Engine) (env : Environment) (t : Task) :
    (e.move t).Leads (Store.Gains fun u => u.IsBriefed e.settings.resultLabels env.store
      t.instanceId ((some t).filter fun t => t.GoesBack)) env := by
  unfold move
  split
  · next hback =>
    have hback : t.GoesBack := hback
    rw [Option.filter_some, if_pos (decide_eq_true hback)]
    exact .then_looks (goBack_gains e env t) fun _ => .pure ()
  · next hback =>
    have hback : ¬ t.GoesBack := hback
    rw [Option.filter_some, if_neg (by simpa using hback)]
    exact continueAfter_gains e env t

/-- Writing an outcome down on a task changes a mark. -/
theorem writeDown_remarks {t u : Task} (hu : env.store.task? t.id = some u)
    (hsame : u.unmarked = t.unmarked) (outcome : Except EngineError Unit) :
    (writeDown t outcome).Leads Store.Remarks env := by
  have hupdate : ∀ p, (Repository.updateTask { t with progression := p }).Leads Store.Remarks env :=
    fun p => .change fun s hs =>
      Store.updateTask_remarks (u := { t with progression := p }) hu hsame.symm hs
  cases outcome with
  | ok _ => exact .then_looks (hupdate .advanced) fun _ => .pure _
  | error error => exact .then_looks (hupdate (.failed error.message)) fun _ => .throw error

/-- A progression opens briefed tasks of the instance, told of the rejection if it leads back. -/
theorem progress_briefs (id : Uuid) : (e.progress id).Leads
    (Store.Briefs e.settings.resultLabels Store.inputOf? (Store.rejected? · id)) env := by
  rw [progress_eq]
  refine .after (Repository.task_looks id) fun _ env₁ _ => ?_
  refine Repository.task_leads fun t env₂ h₂ ht => ?_
  split
  · exact ((Looks.say _ _).bind fun _ => .pure t).leads env₂
  · split
    · exact (Looks.throw _).leads env₂
    · have hid := Store.id_of_task? ht
      have ht₂ : env₂.store.task? t.id = some t := by rw [h₂, hid, ht]
      -- The outcome is written down when all have been opened, and leaves them as they are.
      have hcarried := Leads.remarks (f := writeDown t) (fun u v hsame hu => hu.of_unmarked hsame)
        (Leads.attempt (move_gains e env₂ t)) fun outcome env₃ hgained => by
          obtain ⟨u, hu, hsame⟩ := hgained.task? ht₂
          exact writeDown_remarks hu hsame outcome
      obtain ⟨u, hu, hsame⟩ := Store.Gains.task? hcarried ht₂
      refine .of_gains rfl hcarried (fun i hi => ?_) ?_
      · rw [Store.inputOf?, hi]
        rfl
      · have hback : decide u.GoesBack = decide t.GoesBack :=
          Task.field_eq hsame (fun t => decide t.GoesBack) fun _ _ => rfl
        rw [Store.rejected?, ← hid, hu, Option.filter_some, Option.filter_some, hback]
        split
        · exact congrArg some hsame.symm
        · rfl

end Engine

namespace Tasks

variable {e : Engine} {env : Environment} {id : Uuid}

/-- A finished task has the identifier under which it was asked for. -/
theorem finish_gives (e : Engine) (id : Uuid) (a : Actor) (c : Completion) :
    (finish e id a c).Gives fun t => t.id = id := by
  refine .bind (Repository.task_gives id) fun t ht => ?_
  dsimp only
  split
  · exact .throw_bind _ _
  · split
    · exact .throw_bind _ _
    · refine .after fun now => .bind (.lift _) fun u hu => ?_
      refine .after fun _ => .after fun _ => .after fun _ => .pure ?_
      obtain ⟨-, rfl⟩ := Task.of_complete hu
      exact ht

/-- Completing a task finishes it and then carries it through. -/
theorem complete_briefs (id : Uuid) (a : Actor) (c : Completion) : (complete e id a c).Leads
    (Store.Briefs e.settings.resultLabels Store.inputOf? (Store.rejected? · id)) env := by
  -- The task is finished before anything is opened, so the record tells of it as well.
  refine .onward (finish_leads Store.reworks_allowsWork a c) (fun s h => .of_ids h.ids) ?_
  intro t env₁ hrun hreworked
  obtain rfl := finish_gives e id a c env t env₁ hrun
  have hcarried : (attempt (e.progress t.id)).Leads (Store.Briefs e.settings.resultLabels
      Store.inputOf? (Store.rejected? · t.id)) env₁ := .attempt (Engine.progress_briefs t.id)
  refine .of_reworks hreworked (hcarried.then_looks fun outcome => ?_)
  cases outcome with
  | ok u => exact .pure u
  | error error => exact .bind (.say _ _) fun _ => Repository.task_looks t.id

/-- A retry opens briefed tasks of the instance, told of the rejection if it leads back. -/
theorem retry_briefs (id : Uuid) : (retry e id).Leads
    (Store.Briefs e.settings.resultLabels Store.inputOf? (Store.rejected? · id)) env := by
  refine .after (Repository.task_looks id) fun t env₁ _ => ?_
  dsimp only
  split
  · exact (Looks.throw_bind _ _).leads env₁
  · exact .after (.say _ _) fun _ env₂ _ => Engine.progress_briefs id

end Tasks

namespace Workflows

variable {e : Engine} {env : Environment} {id : Uuid}

/-- Recording a failed start changes no mark. -/
theorem recordFailure_remarks (error : EngineError) :
    (recordFailure id error).Leads Store.Remarks env := by
  refine .after (.say _ _) fun _ env₁ _ => ?_
  refine .after (Repository.instanceOf_looks id) fun i env₂ _ => .after .now fun now env₃ _ => ?_
  split
  · exact .change fun s hs => Store.updateInstance_remarks hs
  · exact (Looks.pure ()).leads env₃

/-- Cancelling an instance changes no mark. -/
theorem cancelInstance_remarks : (cancelInstance id).Leads Store.Remarks env := by
  refine .after (Repository.instanceOf_looks id) fun i env₁ _ => .after .now fun now env₂ _ => ?_
  refine .lift fun j _ => .then_looks (.change fun s hs => Store.updateInstance_remarks hs) fun _ =>
    .bind (.say _ _) fun _ => .pure _

/-- A new instance has the input that comes with the request, in its normal form. -/
theorem newInstance_gives (workflow : Uuid) (input : Json) :
    (newInstance workflow input).Gives fun i => i.input = (normalizeInput input).value := by
  refine .after fun id => .bind (.heed _) fun v hv => .after fun now => .pure ?_
  exact hv

/-- Starting an instance stores it and then executes its first step. -/
theorem startInstance_briefs (workflow : Uuid) (input : Json) :
    (startInstance e workflow input).Leads (Store.Briefs e.settings.resultLabels
      (fun _ _ => some (normalizeInput input).value) fun _ => none) env := by
  refine .after (Repository.workflow_looks workflow) fun w env₁ _ => .lift fun _ _ => ?_
  refine .behind (newInstance_looks w.id input) fun i env₂ hrun _ => ?_
  have hinput := newInstance_gives w.id input env₁ i env₂ hrun
  refine .change_onward (fun s hs => .of_ids ?_) fun env₃ hs => ?_
  · rw [(Store.of_saveInstance hs).1]
  · obtain ⟨htasks, hstored⟩ := Store.of_saveInstance hs
    refine .of_gains (by rw [htasks])
      (Leads.remarks (fun u v hsame hu => hu.of_unmarked hsame)
        (Leads.attempt (Engine.start_gains e env₃ i.id)) fun outcome env₄ _ => ?_)
      (fun j hj => ?_) rfl
    · cases outcome with
      | ok _ => exact (Repository.instanceOf_looks i.id).leads env₄
      | error error => exact .then_looks (recordFailure_remarks error) fun _ => .throw error
    · obtain rfl := Option.some.inj (hstored.symm.trans hj)
      exact congrArg some hinput.symm

end Workflows

/-! ## Briefings by requests -/

/-- The task whose rejection is gone back from when the request is served, in the store that it
leaves. -/
def Request.rejected? (s : Store) : Request → Option Task
  | .complete task _ _ => s.rejected? task
  | .retry task => s.rejected? task
  | .progress task => s.rejected? task
  | _ => none

/-- The task whose rejection is gone back from when the directive is followed, in the store that it
leaves. -/
def Directive.rejected? (s : Store) : Directive → Option Task
  | .serve r => r.rejected? s
  | .goBack t => some t
  | _ => none

/-- The input of the instance under the identifier, which comes with the directive or is in the
store. -/
def Directive.inputOf? (s : Store) (id : Uuid) : Directive → Option Json
  | .serve (.startInstance _ input) => some (normalizeInput input).value
  | _ => s.inputOf? id

section

variable {env : Environment} {labels : ResultLabels} {input? : Store → Uuid → Option Json}
  {rejected? : Store → Option Task}

/-- An operation that opens no task tells nobody anything. -/
theorem Operation.Leads.briefs_of_remarks {α : Type} {x : Operation α}
    (h : x.Leads Store.Remarks env) : x.Leads (Store.Briefs labels input? rejected?) env :=
  h.mono fun _ _ h => .of_ids (map_id_congr h)

/-- Where no task is opened there is nobody to brief. -/
theorem Operation.Leads.briefs_of_reworks {α : Type} {x : Operation α}
    (h : x.Leads Store.Reworks env) : x.Leads (Store.Briefs labels input? rejected?) env :=
  h.mono fun _ _ h => .of_ids h.ids

end

/-- Every request briefs the tasks that it opens, by the kind of the request. -/
theorem Request.perform_briefs (e : Engine) (r : Request) (env : Environment) :
    (r.perform e).Leads (Store.Briefs e.settings.resultLabels
      (fun s id => (Directive.serve r).inputOf? s id) fun s => r.rejected? s) env := by
  have hdone : ∀ {α : Type} {x : Operation α} {R : Store → Store → Prop}, x.Leads R env →
      (do let _ ← x : Operation Unit).Leads R env := fun hx => .then_looks hx fun _ => .pure ()
  cases r with
  | startInstance workflow input => exact hdone (Workflows.startInstance_briefs workflow input)
  | cancelInstance run => exact hdone Workflows.cancelInstance_remarks.briefs_of_remarks
  | claim task a =>
    exact hdone (Tasks.claim_leads Store.reworks_allowsWork a).briefs_of_reworks
  | complete task a c => exact hdone (Tasks.complete_briefs task a c)
  | delegate task a toUser =>
    exact hdone (Tasks.delegate_leads Store.reworks_allowsWork a toUser).briefs_of_reworks
  | retry task => exact hdone (Tasks.retry_briefs task)
  | inquire q => exact (q.perform_looks e).leads env
  | finish task a c =>
    exact hdone (Tasks.finish_leads Store.reworks_allowsWork a c).briefs_of_reworks
  | progress task => exact hdone (Engine.progress_briefs task)
  | _ =>
    refine Operation.Leads.briefs_of_reworks (Request.perform_leads ?_ not_false)
    exact fun s s' hinstances htasks => ⟨by rw [htasks], hinstances⟩

/-- Every directive briefs the tasks that it opens, by the kind of the directive. -/
theorem Directive.perform_briefs (e : Engine) (d : Directive) (env : Environment) :
    (d.perform e).Leads (Store.Briefs e.settings.resultLabels (fun s id => d.inputOf? s id)
      fun s => d.rejected? s) env := by
  have hinput : ∀ {s : Store} {id : Uuid} (i : Instance), s.instance? id = some i →
      s.inputOf? id = some i.input := fun i hi => congrArg (Option.map Instance.input) hi
  cases d with
  | serve r => exact r.perform_briefs e env
  | start run => exact .of_gains rfl (Engine.start_gains e env run) hinput rfl
  | continueAfter t => exact .of_gains rfl (Engine.continueAfter_gains e env t) hinput rfl
  | goBack t =>
    have hopened := (Engine.goBack_gains e env t).then_looks fun _ => .pure ()
    exact .of_gains rfl hopened hinput rfl
  | nextStep d s i =>
    exact ((Engine.nextStep_looks e d s i).bind fun _ => .pure ()).leads env

/-- Whatever the management and the engine are asked for, in whatever environment and with or
without an outage: what is opened belongs to one instance, and each task recalls all tasks of this
instance that have ended and the input of the instance, and the rejection after which it is opened
if there is one. All are told the same about the tasks that have ended. -/
theorem opened_tasks_recall (e : Engine) (env : Environment) (o : Order) :
    let store := (env.follow e o).store
    ∃ old opened id, store.tasks = old ++ opened ∧
      old.map Task.id = env.store.tasks.map Task.id ∧
      (∀ u ∈ opened, u.instanceId = id ∧
        ∃ input, o.directive.inputOf? env.store id = some input ∧
          u.Recalls e.settings.resultLabels (store.tasksOf id) input
            (o.directive.rejected? store)) ∧
      ∀ u ∈ opened, ∀ v ∈ opened, u.taskData.get? historyKey = v.taskData.get? historyKey := by
  intro store
  obtain ⟨old, opened, id, htasks, hids, hopened⟩ :=
    o.directive.perform_briefs e { env with now := o.time, outage := o.outage }
  have htold : ∀ u ∈ opened, u.taskData.get? historyKey =
      some (.arr (historyBlock (store.tasksOf id) e.settings.resultLabels)) := by
    intro u hu
    obtain ⟨-, input, rejection, -, hrejection, hbriefed⟩ := hopened u hu
    exact hbriefed.get?_historyKey hrejection
  refine ⟨old, opened, id, htasks, hids, fun u hu => ?_, fun u hu v hv => ?_⟩
  · obtain ⟨howner, input, rejection, hinput, hrejection, hbriefed⟩ := hopened u hu
    exact ⟨howner, input, hinput, hbriefed.recalls hrejection⟩
  · rw [htold u hu, htold v hv]

end ApprovalWorkflow
