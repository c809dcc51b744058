import ApprovalWorkflow.Proofs.Lives
import ApprovalWorkflow.Proofs.Timeline

/-!
# Going back

A rejection goes back to the task that was completed last before it. Which one that is does not
depend on the way that the instance has taken: of all completed tasks of the instance whose end is
not after the rejection it is one with the latest end, and of several the one that was opened last
(`Task.IsPrevious`). The task that is opened in its place has four sources. Its place is that of the
earlier task, what is asked for comes from the step behind the key, the person is the one of the
earlier task, and the data are those of any other task with the rejection written over them
(`Task.Reopens`).

Tasks that a run leaves have an end only because somebody has finished them, once, and whoever
finishes a task is its assignee from then on (`Environment.serveAll_completers`). So a rejection
always goes back to the person who did the work.
-/

set_option autoImplicit false

namespace ApprovalWorkflow

open Engine

/-! ## The task to go back to -/

/-- The task is another one than the rejected one, and was completed at the time or before. -/
def Task.IsEarlier (t rejected : Task) (time : Timestamp) : Prop :=
  t.id ≠ rejected.id ∧ t.status = .completed ∧ ∃ c, t.completedAt = some c ∧ c.le time

/-- Of the earlier tasks in the list this one was completed last; of several it is the last one in
the list. -/
structure Task.IsPrevious (previous rejected : Task) (time : Timestamp) (tasks : List Task) :
    Prop where
  earlier : previous.IsEarlier rejected time
  last : ∃ before after, tasks = before ++ previous :: after ∧
    (∀ t ∈ before, t.IsEarlier rejected time →
      Timestamp.leOptional t.completedAt previous.completedAt) ∧
    ∀ t ∈ after, t.IsEarlier rejected time →
      ¬ Timestamp.leOptional previous.completedAt t.completedAt

section Previous

variable {rejected previous t u : Task} {time : Timestamp} {tasks : List Task}

/-- The previous task is one of the tasks. -/
theorem Task.IsPrevious.mem (h : previous.IsPrevious rejected time tasks) : previous ∈ tasks := by
  obtain ⟨before, after, rfl, -⟩ := h.last
  simp

/-- A task is completed by a time exactly if it has the status and an end that is not later. -/
theorem completedBy_iff :
    completedBy t time ↔ t.status = .completed ∧ ∃ c, t.completedAt = some c ∧ c.le time := by
  unfold completedBy
  cases t.completedAt with
  | none => simp
  | some c => simp

/-- The search for the previous task looks at a task exactly if it is an earlier one. -/
theorem isEarlier_iff :
    (t.id != rejected.id && completedBy t time) = true ↔ t.IsEarlier rejected time := by
  rw [Bool.and_eq_true, completedBy_iff, bne_iff_ne]
  exact Iff.rfl

/-- No task was completed last exactly if there are none. -/
theorem lastCompleted?_eq_none_iff : lastCompleted? tasks = none ↔ tasks = [] := by
  cases tasks with
  | nil => simp [lastCompleted?]
  | cons t tasks =>
    rw [lastCompleted?]
    split
    · simp
    · split <;> simp

/-- The task that was completed last: those before it in the list were not completed later, and
those behind it were completed before it. -/
theorem of_lastCompleted? (h : lastCompleted? tasks = some u) :
    ∃ before after, tasks = before ++ u :: after ∧
      (∀ t ∈ before, Timestamp.leOptional t.completedAt u.completedAt) ∧
      ∀ t ∈ after, ¬ Timestamp.leOptional u.completedAt t.completedAt := by
  induction tasks generalizing u with
  | nil => cases h
  | cons t tasks ih =>
    rw [lastCompleted?] at h
    cases hlast : lastCompleted? tasks with
    | none =>
      rw [hlast] at h
      obtain rfl : t = u := Option.some.inj h
      refine ⟨[], [], ?_, by simp, by simp⟩
      rw [lastCompleted?_eq_none_iff.mp hlast]
      rfl
    | some w =>
      obtain ⟨before, after, rfl, hbefore, hafter⟩ := ih hlast
      simp only [hlast] at h
      split at h
      · next hle =>
        obtain rfl : w = u := Option.some.inj h
        refine ⟨t :: before, after, rfl, ?_, hafter⟩
        intro s hs
        rcases List.mem_cons.mp hs with rfl | hs
        · exact hle
        · exact hbefore s hs
      · next hlater =>
        obtain rfl : t = u := Option.some.inj h
        refine ⟨[], _, rfl, by simp, ?_⟩
        -- no task of the rest was completed after `w`, which was completed before `t`
        intro s hs hle
        apply hlater
        apply Timestamp.leOptional_trans hle
        rcases List.mem_append.mp hs with hs | hs
        · exact hbefore s hs
        · rcases List.mem_cons.mp hs with rfl | hs
          · exact (Timestamp.leOptional_total _ _).elim id id
          · exact (Timestamp.leOptional_total _ _).resolve_left (hafter s hs)

/-- There is no previous task exactly if no task is an earlier one. -/
theorem previousTask?_eq_none_iff :
    previousTask? rejected time tasks = none ↔ ∀ t ∈ tasks, ¬ t.IsEarlier rejected time := by
  rw [previousTask?, lastCompleted?_eq_none_iff, List.filter_eq_nil_iff]
  simp only [isEarlier_iff]

/-- The task to which a rejection goes back. -/
theorem isPrevious_of_previousTask? (h : previousTask? rejected time tasks = some previous) :
    previous.IsPrevious rejected time tasks := by
  obtain ⟨before, after, hsplit, hbefore, hafter⟩ := of_lastCompleted? h
  obtain ⟨front, rest, rfl, rfl, hrest⟩ := List.filter_eq_append_iff.mp hsplit
  obtain ⟨middle, back, rfl, hmiddle, hprevious, rfl⟩ := List.filter_eq_cons_iff.mp hrest
  refine ⟨isEarlier_iff.mp hprevious, front ++ middle, back, by simp, ?_, ?_⟩
  · intro t ht hearlier
    rcases List.mem_append.mp ht with ht | ht
    · exact hbefore t (List.mem_filter.mpr ⟨ht, isEarlier_iff.mpr hearlier⟩)
    · exact absurd (isEarlier_iff.mpr hearlier) (hmiddle t ht)
  · intro t ht hearlier
    exact hafter t (List.mem_filter.mpr ⟨ht, isEarlier_iff.mpr hearlier⟩)

/-- With no earlier task there is nothing to go back to. -/
theorem Situation.back_eq_fails {σ : Situation} {now : Timestamp} (d : Definition)
    (h : ∀ t ∈ σ.tasks, ¬ t.IsEarlier rejected (rejected.completedAt.getD now)) :
    σ.back now d rejected = .fails (.noPreviousTask rejected.id) := by
  rw [back, previousTask?_eq_none_iff.mpr h]

/-- With an earlier task the instance goes back, if all keys of its tasks lead somewhere. -/
theorem Situation.back_eq_reopens {σ : Situation} {now : Timestamp} {d : Definition}
    (hkeys : ∀ t ∈ σ.tasks, (d.resolve? t.key).isSome)
    (h : ∃ t ∈ σ.tasks, t.IsEarlier rejected (rejected.completedAt.getD now)) :
    ∃ previous origin,
      previous.IsPrevious rejected (rejected.completedAt.getD now) σ.tasks ∧
        d.resolve? previous.key = some origin ∧
        σ.back now d rejected = .reopens previous origin := by
  cases hprevious : previousTask? rejected (rejected.completedAt.getD now) σ.tasks with
  | none =>
    obtain ⟨t, ht, hearlier⟩ := h
    exact absurd hearlier (previousTask?_eq_none_iff.mp hprevious t ht)
  | some previous =>
    obtain ⟨origin, horigin⟩ :=
      Option.isSome_iff_exists.mp (hkeys previous (of_previousTask? hprevious).1)
    refine ⟨previous, origin, isPrevious_of_previousTask? hprevious, horigin, ?_⟩
    rw [back, hprevious]
    simp only [horigin]

end Previous

/-! ## The task that is opened in its place -/

/-- A key is looked up in the first fields first. -/
theorem Json.lookup_append (key : String) (first rest : List (String × Json)) :
    lookup key (first ++ rest) = (lookup key first).or (lookup key rest) := by
  induction first with
  | nil => simp [lookup]
  | cons f first ih =>
    obtain ⟨k, v⟩ := f
    by_cases hk : k = key <;> simp [lookup, hk, ih]

/-- Under a key that no field has there is nothing. -/
theorem Json.lookup_eq_none {key : String} {fields : List (String × Json)}
    (h : key ∉ fields.map Prod.fst) : lookup key fields = none := by
  induction fields with
  | nil => rfl
  | cons f fields ih =>
    rw [List.map_cons, List.mem_cons, not_or] at h
    rw [lookup, if_neg (Ne.symm h.1)]
    exact ih h.2

/-- Entries that are put over others are found before them. -/
theorem Task.lookup_overlay (key : String) {entries : List (String × Json)}
    (hkeys : (entries.map Prod.fst).Nodup) (fields : List (String × Json)) :
    Json.lookup key (overlay entries fields) = Json.lookup key (entries ++ fields) := by
  induction entries generalizing fields with
  | nil => rfl
  | cons entry entries ih =>
    obtain ⟨k, v⟩ := entry
    rw [List.map_cons, List.nodup_cons] at hkeys
    have hrest := ih hkeys.2 (Json.insert k v fields)
    rw [Json.lookup_append] at hrest
    have hfirst : overlay ((k, v) :: entries) fields =
        overlay entries (Json.insert k v fields) := rfl
    rw [hfirst, hrest, List.cons_append, Json.lookup, Json.lookup_append]
    by_cases hk : k = key
    · subst hk
      rw [Json.lookup_eq_none hkeys.1, if_pos rfl, Json.lookup_insert_self, Option.none_or]
    · rw [if_neg hk, Json.lookup_insert_of_ne (Ne.symm hk)]

/-- The data of the task are the entries about a rejection, the record of the finished tasks, and
the entries of the input; where they share a key the ones named first count. -/
def Task.BriefedOn (u : Task) (rejection : List (String × Json)) (history : List Json)
    (input : Json) : Prop :=
  ∃ fields, u.taskData = .obj fields ∧ ∀ key, Json.lookup key fields =
    Json.lookup key (rejection ++ (historyKey, .arr history) :: inputEntries input)

/-- A task is built without a rejection. -/
theorem Engine.built_briefedOn (e : Engine) (i : Instance) (history : List Task) (now : Timestamp)
    (id : Uuid) (o : Opening) : (e.built i history now id o).BriefedOn []
      (historyBlock history e.settings.resultLabels) i.input := by
  let block := historyBlock history e.settings.resultLabels
  have hkeys : ([(historyKey, Json.arr block)].map Prod.fst).Nodup := by simp
  rw [built, Task.build_value]
  exact ⟨_, rfl, fun key => Task.lookup_overlay key hkeys _⟩

/-- A rejection is written over the data of a task. -/
theorem Task.BriefedOn.markRejected {u : Task} {history : List Json} {input : Json}
    (h : u.BriefedOn [] history input) (rejected : Task) (time : Timestamp) :
    (u.markRejected rejected time).BriefedOn (rejectionEntries rejected time) history input := by
  obtain ⟨fields, hfields, hlookup⟩ := h
  have hkeys : ((rejectionEntries rejected time).map Prod.fst).Nodup := by
    simp [rejectionEntries]
  refine ⟨overlay (rejectionEntries rejected time) fields, ?_, fun key => ?_⟩
  · rw [Task.markRejected, hfields, dataFields]
  · rw [lookup_overlay key hkeys, Json.lookup_append, hlookup, List.nil_append,
      ← Json.lookup_append]

/-- A task that is opened again is briefed on all that has ended, and on the rejection. -/
theorem Engine.reopened_briefedOn (e : Engine) (σ : Situation) (now : Timestamp) (id : Uuid)
    (rejected previous : Task) (origin : TaskOrigin) :
    (e.reopened σ now id rejected previous origin).BriefedOn
      (Task.rejectionEntries rejected (rejected.completedAt.getD now))
      (historyBlock σ.tasks e.settings.resultLabels) σ.record.input := by
  let o : Opening := ⟨origin.taskStep, previous.key, origin.parentId?⟩
  let built := e.built σ.record σ.tasks now id o
  have hassigned : Task.BriefedOn { built with assignee := previous.assignee.or built.assignee } []
      (historyBlock σ.tasks e.settings.resultLabels) σ.record.input :=
    e.built_briefedOn σ.record σ.tasks now id o
  exact hassigned.markRejected rejected _

/-- The task is opened in the place of an earlier one, after a rejection at the time. Its data are
the entries about the rejection, the record of all finished tasks, and the entries of the input;
where they share a key the ones named first count. -/
structure Task.Reopens (u previous : Task) (origin : TaskOrigin) (labels : ResultLabels)
    (σ : Situation) (rejected : Task) (time : Timestamp) : Prop where
  status : u.status = .pending
  instanceId : u.instanceId = σ.record.id
  workflowId : u.workflowId = σ.record.workflowId
  key : u.key = previous.key
  parentStepId : u.parentStepId = origin.parentId?
  assignee : u.assignee = previous.assignee.or
    ((origin.taskStep.params?.getD .default).assignee.bind fun template =>
      resolveAssignee template σ.record.input)
  candidateUsers : u.candidateUsers = (origin.taskStep.params?.getD .default).candidateUsers
  candidateGroups : u.candidateGroups = (origin.taskStep.params?.getD .default).candidateGroups
  priority : u.priority = (origin.taskStep.params?.getD .default).priority
  data : ∃ fields, ∃ finished : List Task, u.taskData = .obj fields ∧
    finished.Perm (σ.tasks.filter fun t => t.status.isTerminal) ∧
    ∀ key, Json.lookup key fields = Json.lookup key
      ([("rejectedBy", .ofString? rejected.assignee), ("rejectedAt", time.toJson),
        ("rejectionReason", .ofString? rejected.comment), ("rejectedTaskId", rejected.id.toJson),
        ("previousTasksHistory", .arr (finished.map (Task.historyRecord labels)))] ++
        inputEntries σ.record.input)

/-- What is opened in the place of an earlier task. -/
theorem Engine.reopened_reopens (e : Engine) (σ : Situation) (now : Timestamp) (id : Uuid)
    (rejected previous : Task) (origin : TaskOrigin) :
    (e.reopened σ now id rejected previous origin).Reopens previous origin
      e.settings.resultLabels σ rejected (rejected.completedAt.getD now) := by
  obtain ⟨fields, hfields, hlookup⟩ := e.reopened_briefedOn σ now id rejected previous origin
  unfold reopened built at hfields ⊢
  rw [Task.build_value] at hfields ⊢
  exact ⟨rfl, rfl, rfl, rfl, rfl, rfl, rfl, rfl, rfl, fields, finishedTasks σ.tasks, hfields,
    List.mergeSort_perm _ _, hlookup⟩

/-! ## Who has completed a task -/

/-- The user who completes the task under the identifier if the request succeeds. -/
def Request.completer? (id : Uuid) : Request → Option String
  | .complete task a _ => if task = id then some a.user else none
  | .finish task a _ => if task = id then some a.user else none
  | _ => none

/-- The request, if it has succeeded. -/
def Request.granted (r : Request) : Except EngineError Unit → List Request
  | .ok _ => [r]
  | .error _ => []

/-- The requests of a run that have succeeded, the first one first. -/
def Environment.granted (env : Environment) (e : Engine) : List Call → List Request
  | [] => []
  | c :: calls => c.request.granted (env.answer e c) ++ (env.serve e c).granted e calls

/-- The users who have completed the task in a run, as often as they have. -/
def Environment.completers (env : Environment) (e : Engine) (calls : List Call) (id : Uuid) :
    List String :=
  (env.granted e calls).filterMap (Request.completer? id)

/-- The users are those who have completed the task: nobody while it is open, and when it has ended
one user, who is its assignee. -/
structure Store.CompletedBy (s : Store) (id : Uuid) (users : List String) : Prop where
  unfinished : (∀ t ∈ s.tasks, t.id = id → t.status.isOpen) → users = []
  finished : ∀ t ∈ s.tasks, t.id = id → t.status.isOpen = false →
    ∃ user, users = [user] ∧ t.assignee = some user

section Completers

variable {now : Timestamp} {r : Request} {result : Except EngineError Unit} {s s' : Store}
  {t u : Task} {entries : List HistoryEntry} {id : Uuid} {users : List String}

/-- Only requests that are entered complete something. -/
theorem Request.completer?_eq_none (h : r.entered? = none) (id : Uuid) :
    r.completer? id = none := by
  cases r with
  | complete task a c => cases h
  | finish task a c => cases h
  | _ => rfl

/-- A request that completes no such task has no completer of it, however it has ended. -/
theorem Request.filterMap_granted_eq_nil (h : r.completer? id = none)
    (result : Except EngineError Unit) :
    (r.granted result).filterMap (Request.completer? id) = [] := by
  cases result with
  | ok _ => simp [granted, h]
  | error error => rfl

/-- Work on a task completes no other one. -/
theorem Task.Work.completer?_of_ne (h : t.Work now r entries u) (hid : t.id ≠ id) :
    r.completer? id = none := by
  cases h with
  | claimed => rfl
  | delegated => rfl
  | finished => simp [Request.completer?, hid]
  | completed => simp [Request.completer?, hid]
  | carried outcome hr => rcases hr with rfl | rfl <;> rfl

/-- Whoever ends a task is its assignee then. -/
theorem Task.Work.of_open (h : t.Work now r entries u) (hopen : t.status.isOpen) :
    u.status.isOpen = true ∧ r.completer? t.id = none ∨
      u.status.isOpen = false ∧ entries ≠ [] ∧
        ∃ user, r.completer? t.id = some user ∧ u.assignee = some user := by
  cases h with
  | claimed _ h =>
    obtain ⟨-, rfl⟩ := Task.eq_of_claimedBy h
    exact .inl ⟨rfl, rfl⟩
  | delegated _ h =>
    obtain ⟨-, rfl⟩ := Task.eq_of_delegatedBy h
    exact .inl ⟨rfl, rfl⟩
  | @finished a c u _ h =>
    have hended := (Task.of_finishedBy h).2.isOpen_eq
    obtain ⟨-, rfl⟩ := Task.eq_of_finishedBy h
    exact .inr ⟨hended, by simp, a.user, by simp [Request.completer?], rfl⟩
  | @completed a c u _ outcome h =>
    have hended := (Task.of_finishedBy h).2.isOpen_eq
    obtain ⟨p, hmarked⟩ := marked_eq u outcome
    obtain ⟨-, rfl⟩ := Task.eq_of_finishedBy h
    rw [hmarked]
    exact .inr ⟨hended, by simp, a.user, by simp [Request.completer?], rfl⟩
  | carried _ _ hended => simp [hopen] at hended

/-- A task that has ended is completed by nobody, and keeps its assignee. -/
theorem Task.Work.of_closed (h : t.Work now r entries u) (hended : t.status.isOpen = false) :
    u.status.isOpen = false ∧ u.assignee = t.assignee ∧ r.completer? t.id = none := by
  obtain ⟨-, -, outcome, hmarked⟩ := h.of_ended hended
  obtain ⟨p, heq⟩ := marked_eq t outcome
  have hnone : r.completer? t.id = none := by
    cases h with
    | claimed => rfl
    | delegated => rfl
    | finished _ h => simp [(Task.of_finishedBy h).1] at hended
    | completed _ _ h => simp [(Task.of_finishedBy h).1] at hended
    | carried outcome hr => rcases hr with rfl | rfl <;> rfl
  rw [hmarked, heq]
  exact ⟨hended, rfl, hnone⟩

/-- Tasks that are opened, and changes to other tasks, do not matter to who has completed a
task. -/
theorem Store.CompletedBy.of_same (h : s.CompletedBy id users)
    (hkept : ∀ t ∈ s.tasks, t.id = id → t ∈ s'.tasks)
    (hnew : ∀ t ∈ s'.tasks, t.id = id → t ∈ s.tasks ∨ t.status.isOpen) :
    s'.CompletedBy id users where
  unfinished := fun hopen => h.unfinished fun t ht hid => hopen t (hkept t ht hid) hid
  finished := fun t ht hid hended => by
    rcases hnew t ht hid with hold | hopen
    · exact h.finished t hold hid hended
    · simp [hopen] at hended

/-- The task itself has been worked on: if that has ended it, the user of the request is added. -/
theorem Store.CompletedBy.of_work (h : s.CompletedBy t.id users) (ht : t ∈ s.tasks)
    (hu : u ∈ s'.tasks) (honly : ∀ v ∈ s.tasks, v.id = t.id → v = t)
    (honly' : ∀ v ∈ s'.tasks, v.id = t.id → v = u) (hwork : t.Work now r entries u)
    (hresult : entries ≠ [] → result = .ok ()) :
    s'.CompletedBy t.id (users ++ (r.granted result).filterMap (Request.completer? t.id)) := by
  have hid := hwork.became.id_eq
  by_cases hopen : t.status.isOpen
  · have hnobody : users = [] := h.unfinished fun v hv hvid => by rwa [honly v hv hvid]
    rw [hnobody, List.nil_append]
    rcases hwork.of_open hopen with ⟨hstays, hnone⟩ | ⟨hended, hentries, user, huser, hassignee⟩
    · refine ⟨fun _ => Request.filterMap_granted_eq_nil hnone result, fun v hv hvid hended => ?_⟩
      rw [honly' v hv hvid, hstays] at hended
      cases hended
    · rw [hresult hentries]
      refine ⟨fun hall => ?_, fun v hv hvid _ => ⟨user, ?_, ?_⟩⟩
      · have hopen' := hall u hu hid
        rw [hended] at hopen'
        cases hopen'
      · simp [Request.granted, huser]
      · rwa [honly' v hv hvid]
  · have hended : t.status.isOpen = false := by simpa using hopen
    obtain ⟨hstays, hassignee, hnone⟩ := hwork.of_closed hended
    rw [Request.filterMap_granted_eq_nil hnone, List.append_nil]
    refine ⟨fun hall => ?_, fun v hv hvid _ => ?_⟩
    · have hopen' := hall u hu hid
      rw [hstays] at hopen'
      cases hopen'
    · obtain ⟨user, husers, huser⟩ := h.finished t ht rfl hended
      rw [honly' v hv hvid]
      exact ⟨user, husers, hassignee.trans huser⟩

/-- A request that succeeds in completing the task adds its user. -/
theorem Store.CompletedBy.of_records (h : s.CompletedBy id users)
    (hids : (s.tasks.map Task.id).Nodup) (hids' : (s'.tasks.map Task.id).Nodup)
    (hrecords : s.Records now r result s') :
    s'.CompletedBy id (users ++ (r.granted result).filterMap (Request.completer? id)) := by
  cases hrecords with
  | opened fresh hfresh htasks hhistory hresult =>
    have hnobody : (r.granted result).filterMap (Request.completer? id) = [] := by
      rcases hresult with hnone | ⟨error, rfl⟩
      · exact Request.filterMap_granted_eq_nil (Request.completer?_eq_none hnone id) result
      · rfl
    rw [hnobody, List.append_nil]
    refine h.of_same (fun t ht _ => ?_) (fun t ht _ => ?_)
    · rw [htasks]
      exact List.mem_append_left fresh ht
    · rw [htasks] at ht
      exact (List.mem_append.mp ht).imp_right fun hopened => (hfresh t hopened).isOpen
  | @worked t u entries fresh hfresh ht hwork htasks hhistory hresult =>
    have hid := hwork.became.id_eq
    by_cases hsame : t.id = id
    · subst hsame
      have hu : u ∈ s'.tasks := by
        rw [htasks]
        exact mem_put_self Task.id (List.mem_append_left fresh ht) hid
      refine h.of_work ht hu (fun v hv hvid => ?_) (fun v hv hvid => ?_) hwork hresult
      · exact List.inj_on_of_nodup_map hids hv ht hvid
      · exact List.inj_on_of_nodup_map hids' hv hu (hvid.trans hid.symm)
    · have hnobody := Request.filterMap_granted_eq_nil (hwork.completer?_of_ne hsame) result
      rw [hnobody, List.append_nil]
      refine h.of_same (fun v hv hvid => ?_) (fun v hv hvid => ?_)
      · rw [htasks]
        refine (mem_put Task.id).mpr (.inr ⟨List.mem_append_left fresh hv, ?_⟩)
        rw [hid, hvid]
        exact Ne.symm hsame
      · rw [htasks] at hv
        rcases (mem_put Task.id).mp hv with ⟨rfl, -⟩ | ⟨hv, -⟩
        · exact absurd (hid.symm.trans hvid) hsame
        · exact (List.mem_append.mp hv).imp_right fun hopened => (hfresh v hopened).isOpen

end Completers

namespace Environment

variable {e : Engine} {env : Environment} {t : Task}

/-- What a run has granted with one more call at its end is what it has granted before, and what
is granted of this call. -/
theorem granted_concat (env : Environment) (e : Engine) (calls : List Call) (c : Call) :
    env.granted e (calls ++ [c]) =
      env.granted e calls ++ c.request.granted ((env.serveAll e calls).answer e c) := by
  induction calls generalizing env with
  | nil => simp [granted, serveAll]
  | cons c' calls ih => simp [granted, serveAll, ih]

/-- Runs keep account of who has completed a task. -/
theorem serveAll_completedBy (henv : env.Orderly) (id : Uuid) (calls : List Call)
    (hrange : (env.serveAll e calls).ids.InRange) (hstart : env.store.CompletedBy id []) :
    (env.serveAll e calls).store.CompletedBy id (env.completers e calls id) := by
  induction calls using List.reverseRecOn with
  | nil => exact hstart
  | append_singleton calls c ih =>
    have happend := env.serveAll_concat e calls c
    rw [happend] at hrange ⊢
    have hbefore := hrange.of_grows ((env.serveAll e calls).serve_grows e c)
    have horderly := serveAll_orderly henv calls hbefore
    rw [completers, granted_concat, List.filterMap_append]
    exact (ih hbefore).of_records horderly.store.task_ids
      (serve_spec horderly c hrange).1.store.task_ids (serve_records horderly c hrange)

/-- In every run, one user has completed a task that has ended, and the task is assigned to this
user. -/
theorem serveAll_completers (seed : Nat) (start : Timestamp) (calls : List Call)
    (hrange : ((fresh seed start).serveAll e calls).ids.InRange)
    (ht : t ∈ ((fresh seed start).serveAll e calls).store.tasks)
    (hended : t.status.isOpen = false) :
    ∃ user, (fresh seed start).completers e calls t.id = [user] ∧ t.assignee = some user := by
  have hnobody : (fresh seed start).store.CompletedBy t.id [] :=
    ⟨fun _ => rfl, fun u hu => by cases hu⟩
  have hcompleted := serveAll_completedBy (fresh_orderly seed start) t.id calls hrange hnobody
  exact hcompleted.finished t ht rfl hended

end Environment

/-! ## Rollback -/

/-- Rollback after a rejection in a running instance, if all keys of its tasks lead somewhere in the
definition that it follows. If no task of the instance was completed before, then there is nothing
to go back to, and the store stays what it is. Otherwise one task is added to the store, which is
opened in the place of the earlier task that was completed last. In the stores that runs leave, it
is assigned to the one user who has completed the earlier task; since finishing a task is a request
of its own, the stores in which a completion goes back are among them. -/
theorem rollback_reopens_previous (e : Engine) {env : Environment} {r : Task} {σ : Situation}
    {d : Definition} (houtage : env.outage = none)
    (hfree : env.store.task? (env.ids.draw .task).1 = none)
    (hσ : env.store.situation? r.instanceId = some σ) (hd : σ.followed = .ok d)
    (hkeys : ∀ t ∈ σ.tasks, (d.resolve? t.key).isSome) :
    let time := r.completedAt.getD env.now
    let outcome := ((e.goBack r).runIn env).1
    let store := ((e.goBack r).leaves env).store
    ((∀ t ∈ σ.tasks, ¬ t.IsEarlier r time) →
      outcome = .error (.noPreviousTask r.id) ∧ store = env.store) ∧
    ((∃ t ∈ σ.tasks, t.IsEarlier r time) →
      ∃ previous origin u, previous.IsPrevious r time σ.tasks ∧
        d.resolve? previous.key = some origin ∧ outcome = .ok u ∧
        store = { env.store with tasks := env.store.tasks ++ [u] } ∧
        u.Reopens previous origin e.settings.resultLabels σ r time ∧
        ∀ seed start calls, ((Environment.fresh seed start).serveAll e calls).ids.InRange →
          env.store = ((Environment.fresh seed start).serveAll e calls).store →
          ∃ user, (Environment.fresh seed start).completers e calls previous.id = [user] ∧
            u.assignee = some user) := by
  intro time outcome store
  obtain ⟨result, hyields, hresult, hreopened⟩ :=
    goBack_yields_of_free (e := e) houtage hfree hσ hd
  have houtcome : outcome = result := hyields.outcome
  have hstore := hyields.store_eq
  refine ⟨fun hnone => ?_, fun hsome => ?_⟩
  · rw [Situation.back_eq_fails d hnone] at hresult hstore
    cases result with
    | error error =>
      cases hresult
      exact ⟨houtcome, hstore.trans (congrArg Environment.store (after_nothing env))⟩
    | ok u => cases hresult
  · obtain ⟨previous, origin, hprevious, horigin, hback⟩ :=
      Situation.back_eq_reopens hkeys hsome
    rw [hback] at hresult hstore hreopened
    cases result with
    | error error => cases hresult
    | ok u =>
      obtain ⟨_, _, hsame, hu⟩ := hreopened u rfl
      cases hsame
      have hreopens := e.reopened_reopens σ env.now (env.ids.draw .task).1 r previous origin
      rw [← hu] at hreopens
      refine ⟨previous, origin, u, hprevious, horigin, houtcome, ?_, hreopens, ?_⟩
      · rw [hu]
        exact hstore
      · intro seed start calls hrange hrun
        have hstored := mem_of_situation? hσ hprevious.mem
        rw [hrun] at hstored
        have hended : previous.status.isOpen = false := by
          rw [hprevious.earlier.2.1]
          rfl
        obtain ⟨user, husers, hassignee⟩ :=
          Environment.serveAll_completers seed start calls hrange hstored hended
        refine ⟨user, husers, ?_⟩
        rw [hreopens.assignee, hassignee]
        rfl

/-- Two tasks are completed at one time by two people, and the third one is rejected. -/
def tiedRun : List Call :=
  let workflow := IdSource.issue 0 .workflow 0
  Call.atOnce ⟨0, 0⟩
    [.createWorkflow "w" ""
        "\x7b\"steps\":[[\"a\",\"user_task\"],[\"b\",\"user_task\"],[\"c\",\"user_task\"]]\x7d",
      .applyAction .activate workflow, .startInstance workflow .null,
      .complete (IdSource.issue 0 .task 0) ⟨"ann", []⟩ ⟨.completed, .null, none⟩,
      .complete (IdSource.issue 0 .task 1) ⟨"bob", []⟩ ⟨.completed, .null, none⟩,
      .finish (IdSource.issue 0 .task 2) ⟨"cy", []⟩ ⟨.rejected, .null, none⟩]

/-- What `tiedRun` leaves. -/
def tiedEnd : Environment := (Environment.fresh 0 ⟨0, 0⟩).serveAll .default tiedRun

/-- The task that is rejected in `tiedRun`. -/
def tiedTask : Task := tiedEnd.store.tasks.get ⟨2, by decide +kernel⟩

/-- The instance of `tiedRun` at the end. -/
def tiedSituation : Situation :=
  let i := tiedEnd.store.instances.get ⟨0, by decide +kernel⟩
  ⟨i, tiedEnd.store.tasksOf tiedTask.instanceId, tiedEnd.store.definitionOf i⟩

/-- The rejection goes back to the second task, and to the person who completed that. -/
theorem rollback_reopens_previous_tied :
    ∃ previous u : Task, previous.IsPrevious tiedTask ⟨0, 0⟩ tiedSituation.tasks ∧
      previous.key = "b" ∧ ((Engine.default.goBack tiedTask).runIn tiedEnd).1 = .ok u ∧
      (Environment.fresh 0 ⟨0, 0⟩).completers .default tiedRun previous.id = ["bob"] ∧
      u.assignee = some "bob" := by
  have hσ : tiedEnd.store.situation? tiedTask.instanceId = some tiedSituation :=
    situation?_eq_some_iff.mpr ⟨_, by decide +kernel, rfl⟩
  obtain ⟨houtage, hfree, hd, hkeys, htime, hrange⟩ :
      tiedEnd.outage = none ∧ tiedEnd.store.task? (tiedEnd.ids.draw .task).1 = none ∧
        tiedSituation.followed =
          .ok (.ofSteps "" [.userTask "a", .userTask "b", .userTask "c"]) ∧
        (∀ t ∈ tiedSituation.tasks, ((Definition.ofSteps ""
          [.userTask "a", .userTask "b", .userTask "c"]).resolve? t.key).isSome) ∧
        tiedTask.completedAt.getD tiedEnd.now = ⟨0, 0⟩ ∧ tiedEnd.ids.InRange := by
    decide +kernel
  obtain ⟨-, hreopens⟩ := rollback_reopens_previous .default houtage hfree hσ hd hkeys
  rw [htime] at hreopens
  obtain ⟨t, ht, hcompleted⟩ : ∃ t ∈ tiedSituation.tasks,
      (t.id != tiedTask.id && completedBy t ⟨0, 0⟩) = true := by decide +kernel
  obtain ⟨previous, origin, u, hprevious, -, houtcome, -, hlike, hruns⟩ :=
    hreopens ⟨t, ht, isEarlier_iff.mp hcompleted⟩
  have hcomputed : ((Engine.default.goBack tiedTask).runIn tiedEnd).1.map
      (fun u => (u.key, u.assignee)) = .ok ("b", some "bob") := by decide +kernel
  rw [houtcome] at hcomputed
  obtain ⟨hkey, hassignee⟩ := Prod.mk.inj (Except.ok.inj hcomputed)
  obtain ⟨user, husers, huser⟩ := hruns 0 ⟨0, 0⟩ tiedRun hrange rfl
  obtain rfl : "bob" = user := Option.some.inj (hassignee.symm.trans huser)
  exact ⟨previous, u, hprevious, hlike.key.symm.trans hkey, houtcome, husers, huser⟩

end ApprovalWorkflow
