import ApprovalWorkflow.Proofs.Records
import ApprovalWorkflow.Proofs.Yields

/-!
# Identifiers in an orderly environment

Records are found by their identifiers, and a request that is under way relies on it that an
identifier it draws has not been drawn before. `IdSource.Issued` says of an identifier that a
source has given it out already; `IdSource.InRange` that the source has not used up its serial
numbers, so that the next identifier of each kind is not among those (`Issued.ne_next`).

Operations only draw identifiers and never take one back (`Operation.OnlyDraws`): a source that
is in range after an operation was so all the time.

An environment is orderly if there is no outage, if every record of the store stands under an
issued identifier of its own, and if every task belongs to an instance of the store. Requests
keep it so.
-/

set_option autoImplicit false

namespace ApprovalWorkflow

-- powers are those of the core library, whatever else is imported
attribute [local instance (2000)] instPowNat

namespace IdSource

variable {ids later : IdSource} {kind : RecordKind} {id : Uuid}

/-- The source has given out the identifier for a record of the kind. -/
def Issued (ids : IdSource) (kind : RecordKind) (id : Uuid) : Prop :=
  ∃ n < ids.drawn kind, id = issue ids.seed kind n

/-- The source has serial numbers left for every kind of record. -/
def InRange (ids : IdSource) : Prop := ∀ kind, ids.drawn kind < 2 ^ (60 : Nat)

instance (ids : IdSource) : Decidable ids.InRange :=
  decidable_of_iff
    (∀ kind ∈ [RecordKind.workflow, .run, .task, .entry], ids.drawn kind < 2 ^ (60 : Nat))
    ⟨fun h kind => h kind (by cases kind <;> simp), fun h kind _ => h kind⟩

/-- The source after more identifiers have been drawn. -/
structure Grows (ids later : IdSource) : Prop where
  seed : later.seed = ids.seed
  drawn : ∀ kind, ids.drawn kind ≤ later.drawn kind

/-- A source from which nothing has been drawn has grown by nothing. -/
theorem Grows.refl (ids : IdSource) : ids.Grows ids := ⟨rfl, fun _ => Nat.le_refl _⟩

/-- A source that has grown twice has grown. -/
theorem Grows.trans {last : IdSource} (h : ids.Grows later) (h' : later.Grows last) :
    ids.Grows last :=
  ⟨h'.seed.trans h.seed, fun kind => Nat.le_trans (h.drawn kind) (h'.drawn kind)⟩

/-- A source that has numbers left at the end has had some all the time. -/
theorem InRange.of_grows (h : later.InRange) (hgrows : ids.Grows later) : ids.InRange :=
  fun kind => Nat.lt_of_le_of_lt (hgrows.drawn kind) (h kind)

/-- Drawing an identifier only adds to what has been given out. -/
theorem grows_draw (ids : IdSource) (kind : RecordKind) : ids.Grows (ids.draw kind).2 := by
  refine ⟨by cases kind <;> rfl, fun k => ?_⟩
  cases kind <;> cases k <;> simp [draw, advance, drawn]

/-- What has been given out stays given out. -/
theorem Issued.mono (h : ids.Issued kind id) (hgrows : ids.Grows later) :
    later.Issued kind id := by
  obtain ⟨n, hn, rfl⟩ := h
  exact ⟨n, Nat.lt_of_lt_of_le hn (hgrows.drawn kind), by rw [hgrows.seed]⟩

/-- An identifier that has been drawn has been given out. -/
theorem issued_draw (ids : IdSource) (kind : RecordKind) :
    (ids.draw kind).2.Issued kind (ids.draw kind).1 := by
  refine ⟨ids.drawn kind, ?_, ?_⟩
  · cases kind <;> simp [draw, advance, drawn]
  · cases kind <;> rfl

/-- An identifier that has been given out is not the next one. -/
theorem Issued.ne_next (h : ids.Issued kind id) (hrange : ids.drawn kind < 2 ^ (60 : Nat)) :
    id ≠ (ids.draw kind).1 := by
  obtain ⟨n, hn, rfl⟩ := h
  intro heq
  have hserial := (issue_injective (Nat.lt_trans hn hrange) hrange heq).2
  omega

end IdSource

/-! ## Operations only draw -/

namespace Operation

variable {α β : Type}

/-- The operation takes no identifier back. -/
def OnlyDraws (x : Operation α) : Prop := ∀ env : Environment, env.ids.Grows (x.leaves env).ids

namespace OnlyDraws

/-- An operation that draws nothing. -/
theorem of_ids_eq {x : Operation α} (h : ∀ env, (x.leaves env).ids = env.ids) :
    x.OnlyDraws := by
  intro env
  rw [h env]
  exact .refl _

/-- Giving a value at once draws nothing. -/
theorem pure (a : α) : (Pure.pure a : Operation α).OnlyDraws := of_ids_eq fun _ => rfl

/-- Failing draws nothing. -/
theorem throw (e : EngineError) : (MonadExcept.throw e : Operation α).OnlyDraws :=
  of_ids_eq fun _ => rfl

/-- What would come after a failure draws nothing, either. -/
theorem throw_bind (e : EngineError) (f : α → Operation β) :
    ((MonadExcept.throw e : Operation α) >>= f).OnlyDraws := of_ids_eq fun _ => rfl

/-- Two operations in a row take nothing back if neither does. -/
theorem bind {x : Operation α} {f : α → Operation β} (hx : x.OnlyDraws)
    (hf : ∀ a, (f a).OnlyDraws) : (x >>= f).OnlyDraws := by
  intro env
  have hfirst := hx env
  rw [leaves] at hfirst ⊢
  rw [runIn_bind]
  rcases hrun : x.runIn env with ⟨e | a, env'⟩
  · simpa [hrun] using hfirst
  · rw [hrun] at hfirst
    exact hfirst.trans (hf a env')

/-- An operation that is attempted draws what it draws. -/
theorem attempt {x : Operation α} (hx : x.OnlyDraws) : (Operation.attempt x).OnlyDraws := hx

/-- Looking at the environment draws nothing. -/
theorem get : (MonadState.get : Operation Environment).OnlyDraws := of_ids_eq fun _ => rfl

/-- Reading the clock draws nothing. -/
theorem now : Operation.now.OnlyDraws := of_ids_eq fun _ => rfl

/-- Drawing an identifier takes none back. -/
theorem freshId (kind : RecordKind) : (Operation.freshId kind).OnlyDraws :=
  fun env => env.ids.grows_draw kind

/-- Writing to the log draws nothing. -/
theorem say (level : LogLevel) (text : String) : (Operation.say level text).OnlyDraws :=
  of_ids_eq fun _ => rfl

/-- Lifting a result draws nothing. -/
theorem lift (x : Except EngineError α) : (Operation.lift x).OnlyDraws := by
  cases x with
  | ok a => exact pure a
  | error e => exact throw e

/-- Taking over the lines of a logged value draws nothing. -/
theorem heed (x : Logged α) : (Operation.heed x).OnlyDraws := of_ids_eq fun _ => rfl

/-- Taking over the lines of a logged result draws nothing. -/
theorem heedResult (x : Logged (Except EngineError α)) : (Operation.heedResult x).OnlyDraws :=
  .bind (.heed x) fun r => .lift r

/-- Announcing a notice draws nothing. -/
theorem announce (n : Notifier) (notice : Notice) : (Operation.announce n notice).OnlyDraws := by
  cases n <;> exact of_ids_eq fun _ => rfl

/-- A call of the store, whatever becomes of it. -/
theorem perform (call : StoreCall) (run : Store → Except EngineError (α × Store)) :
    (Operation.perform call run).OnlyDraws := by
  refine of_ids_eq fun env => ?_
  show (Operation.perform call run env).2.ids = env.ids
  unfold Operation.perform
  rcases Outage.meet env.outage call with ⟨_ | _ | _, outage⟩ <;>
    rcases run env.store with e | ⟨a, s⟩ <;> rfl

end OnlyDraws

/-- The operation leaves a source of identifiers that is in range. -/
def StaysInRange (x : Operation α) (env : Environment) : Prop :=
  ∃ log, (x.leaves { env with log := log }).ids.InRange

namespace StaysInRange

variable {env env₁ : Environment}

/-- The source that an operation leaves is the one to look at. -/
theorem of_leaves {x : Operation α} (h : (x.leaves env).ids.InRange) : x.StaysInRange env :=
  ⟨env.log, h⟩

/-- What an operation yields is in range. -/
theorem ids_inRange {x : Operation α} {r : Except EngineError α} (h : x.StaysInRange env)
    (hx : x.Yields env r env₁) : env₁.ids.InRange := by
  obtain ⟨log, h⟩ := h
  obtain ⟨log', hx⟩ := hx log
  rw [leaves, hx] at h
  exact h

/-- It was in range before. -/
theorem before {x : Operation α} (h : x.StaysInRange env) (hx : x.OnlyDraws) :
    env.ids.InRange := by
  obtain ⟨log, h⟩ := h
  exact h.of_grows (hx { env with log := log })

/-- It is in range where the first part of an operation stops. -/
theorem first {x : Operation α} {f : α → Operation β} (h : (x >>= f).StaysInRange env)
    (hf : ∀ a, (f a).OnlyDraws) : x.StaysInRange env := by
  obtain ⟨log, h⟩ := h
  refine ⟨log, ?_⟩
  rw [leaves] at h ⊢
  rw [runIn_bind] at h
  rcases hrun : x.runIn { env with log := log } with ⟨e | a, env'⟩
  · simpa [hrun] using h
  · rw [hrun] at h
    exact h.of_grows (hf a env')

/-- The second part of an operation stays in range if the whole does. -/
theorem second {x : Operation α} {f : α → Operation β} {a : α}
    (h : (x >>= f).StaysInRange env) (hx : x.Yields env (.ok a) env₁) :
    (f a).StaysInRange env₁ := by
  obtain ⟨log, h⟩ := h
  obtain ⟨log', hx⟩ := hx log
  rw [leaves, runIn_bind, hx] at h
  exact ⟨log', h⟩

/-- An operation that acts as another one keeps the source in range only if that one does. -/
theorem of_actsAs {x y : Operation α} (h : x.StaysInRange env) (hxy : x.ActsAs y env) :
    y.StaysInRange env := by
  obtain ⟨log, h⟩ := h
  obtain ⟨log₁, log₂, hxy⟩ := hxy log
  rw [leaves, hxy] at h
  exact ⟨log₁, h⟩

end StaysInRange

end Operation

namespace Repository

open Operation

/-- Finding a workflow draws nothing. -/
theorem workflow_onlyDraws (id : Uuid) : (workflow id).OnlyDraws := by
  refine .bind (.perform _ _) fun found => ?_
  cases found with
  | none => exact .throw _
  | some w => exact .pure w

/-- Finding an instance draws nothing. -/
theorem instanceOf_onlyDraws (id : Uuid) : (instanceOf id).OnlyDraws := by
  refine .bind (.perform _ _) fun found => ?_
  cases found with
  | none => exact .throw _
  | some i => exact .pure i

/-- Finding a task draws nothing. -/
theorem task_onlyDraws (id : Uuid) : (task id).OnlyDraws := by
  refine .bind (.perform _ _) fun found => ?_
  cases found with
  | none => exact .throw _
  | some t => exact .pure t

/-- Reading the tasks from a page on draws nothing. The induction is on the pages that may be
read. -/
theorem tasksFrom_onlyDraws (i : Uuid) (pages : Nat) (page : Page) :
    (tasksFrom i pages page).OnlyDraws := by
  induction pages generalizing page with
  | zero => exact .pure _
  | succ pages ih =>
    refine .bind (.perform _ _) fun batch => ?_
    split
    · exact .pure _
    · exact .bind (ih page.next) fun others => .pure _

/-- Reading all tasks of an instance draws nothing. -/
theorem allTasks_onlyDraws (i : Uuid) (pageSize : Nat) : (allTasks i pageSize).OnlyDraws :=
  .bind .get fun _ => tasksFrom_onlyDraws i _ _

end Repository

/-! ## Orderly environments -/

/-- Every record of the store stands under an issued identifier of its own, and every task
belongs to an instance of the store. -/
structure Store.Orderly (s : Store) (ids : IdSource) : Prop where
  workflow_ids : (s.workflows.map Workflow.id).Nodup
  instance_ids : (s.instances.map Instance.id).Nodup
  task_ids : (s.tasks.map Task.id).Nodup
  workflow_issued : ∀ w ∈ s.workflows, ids.Issued .workflow w.id
  instance_issued : ∀ i ∈ s.instances, ids.Issued .run i.id ∧ ids.Issued .workflow i.workflowId
  task_issued : ∀ t ∈ s.tasks, ids.Issued .task t.id
  task_owned : ∀ t ∈ s.tasks, t.instanceId ∈ s.instances.map Instance.id

/-- There is no outage, the source of identifiers is not used up, and the store is orderly. -/
structure Environment.Orderly (env : Environment) : Prop where
  outage : env.outage = none
  in_range : env.ids.InRange
  store : env.store.Orderly env.ids

namespace Store.Orderly

variable {s : Store} {ids later : IdSource}

/-- An orderly store stays orderly when more identifiers are drawn. -/
theorem mono (h : s.Orderly ids) (hgrows : ids.Grows later) : s.Orderly later where
  workflow_ids := h.workflow_ids
  instance_ids := h.instance_ids
  task_ids := h.task_ids
  workflow_issued := fun w hw => (h.workflow_issued w hw).mono hgrows
  instance_issued := fun i hi =>
    ⟨(h.instance_issued i hi).1.mono hgrows, (h.instance_issued i hi).2.mono hgrows⟩
  task_issued := fun t ht => (h.task_issued t ht).mono hgrows
  task_owned := h.task_owned

/-- The task of an identifier is the one that has it. -/
theorem task?_eq_some_iff (h : s.Orderly ids) {id : Uuid} {t : Task} :
    s.task? id = some t ↔ t ∈ s.tasks ∧ t.id = id := find?_eq_some_iff Task.id h.task_ids

/-- In an orderly store an instance is found under its own identifier, and nothing else is found
there. -/
theorem instance?_eq_some_iff (h : s.Orderly ids) {id : Uuid} {i : Instance} :
    s.instance? id = some i ↔ i ∈ s.instances ∧ i.id = id :=
  find?_eq_some_iff Instance.id h.instance_ids

/-- In an orderly store a workflow is found under its own identifier, and nothing else is found
there. -/
theorem workflow?_eq_some_iff (h : s.Orderly ids) {id : Uuid} {w : Workflow} :
    s.workflow? id = some w ↔ w ∈ s.workflows ∧ w.id = id :=
  find?_eq_some_iff Workflow.id h.workflow_ids

/-- Two tasks with one identifier are the same. -/
theorem task_eq (h : s.Orderly ids) {t u : Task} (ht : t ∈ s.tasks) (hu : u ∈ s.tasks)
    (hid : t.id = u.id) : t = u := List.inj_on_of_nodup_map h.task_ids ht hu hid

/-- No task stands under the next identifier for tasks. -/
theorem task?_next (h : s.Orderly ids) (hrange : ids.drawn .task < 2 ^ (60 : Nat)) :
    s.task? (ids.draw .task).1 = none :=
  (find?_eq_none_iff Task.id).mpr fun t ht => (h.task_issued t ht).ne_next hrange

/-- Under the next identifier of an instance there is none yet. -/
theorem instance?_next (h : s.Orderly ids) (hrange : ids.drawn .run < 2 ^ (60 : Nat)) :
    s.instance? (ids.draw .run).1 = none :=
  (find?_eq_none_iff Instance.id).mpr fun i hi => (h.instance_issued i hi).1.ne_next hrange

/-- Under the next identifier of a workflow there is none yet. -/
theorem workflow?_next (h : s.Orderly ids) (hrange : ids.drawn .workflow < 2 ^ (60 : Nat)) :
    s.workflow? (ids.draw .workflow).1 = none :=
  (find?_eq_none_iff Workflow.id).mpr fun w hw => (h.workflow_issued w hw).ne_next hrange

/-- An instance that is not in the store has no tasks there. -/
theorem tasksOf_eq_nil (h : s.Orderly ids) {i : Uuid} (hi : s.instance? i = none) :
    s.tasksOf i = [] := by
  refine List.eq_nil_iff_forall_not_mem.mpr fun t ht => ?_
  obtain ⟨hmem, rfl⟩ := mem_tasksOf.mp ht
  obtain ⟨j, hj, hid⟩ := List.mem_map.mp (h.task_owned t hmem)
  exact (find?_eq_none_iff Instance.id).mp hi j hj hid

/-! ### Changes of an orderly store -/

/-- The empty store is orderly. -/
theorem empty (ids : IdSource) : Store.empty.Orderly ids := by
  constructor <;> simp [Store.empty]

/-- An entry in the history does not disturb the order of the store. -/
theorem appendHistory (h : s.Orderly ids) (entry : HistoryEntry) :
    (s.appendHistory entry).Orderly ids := { h with }

/-- A new task of an instance of the store, under the next identifier. -/
theorem addTask (h : s.Orderly ids) (hrange : ids.drawn .task < 2 ^ (60 : Nat)) {t : Task}
    (hid : t.id = (ids.draw .task).1) (howned : (s.instance? t.instanceId).isSome) :
    ({ s with tasks := s.tasks ++ [t] } : Store).Orderly (ids.draw .task).2 := by
  refine { h.mono (ids.grows_draw .task) with task_ids := ?_, task_issued := ?_, task_owned := ?_ }
  · rw [List.map_append, List.nodup_append]
    refine ⟨h.task_ids, List.nodup_singleton _, ?_⟩
    -- The next identifier has not been given out, and all stored ones have been.
    rintro _ hu _ hnew rfl
    obtain ⟨u, hu, heq⟩ := List.mem_map.mp hu
    refine (h.task_issued u hu).ne_next hrange ?_
    rw [heq, List.mem_singleton.mp hnew, hid]
  · intro u hu
    rcases List.mem_append.mp hu with hu | hu
    · exact (h.task_issued u hu).mono (ids.grows_draw .task)
    · rw [List.mem_singleton.mp hu, hid]
      exact ids.issued_draw .task
  · intro u hu
    rcases List.mem_append.mp hu with hu | hu
    · exact h.task_owned u hu
    · obtain ⟨i, hi⟩ := Option.isSome_iff_exists.mp howned
      obtain ⟨hmem, heq⟩ := h.instance?_eq_some_iff.mp hi
      rw [List.mem_singleton.mp hu]
      exact List.mem_map.mpr ⟨i, hmem, heq⟩

/-- A task in the place of one with its identifier that belongs to the same instance. -/
theorem putTask (h : s.Orderly ids) {t u : Task} (hu : u ∈ s.tasks) (hid : t.id = u.id)
    (howner : t.instanceId = u.instanceId) : (s.putTask t).Orderly ids := by
  refine { h with task_ids := ?_, task_issued := ?_, task_owned := ?_ }
  · show ((put Task.id t s.tasks).map Task.id).Nodup
    rw [map_key_put]
    exact h.task_ids
  · intro v hv
    rcases (mem_put Task.id).mp hv with ⟨rfl, -⟩ | ⟨hv, -⟩
    · rw [hid]
      exact h.task_issued u hu
    · exact h.task_issued v hv
  · intro v hv
    rcases (mem_put Task.id).mp hv with ⟨rfl, -⟩ | ⟨hv, -⟩
    · rw [howner]
      exact h.task_owned u hu
    · exact h.task_owned v hv

/-- A new instance of a workflow of the store, under the next identifier. -/
theorem addInstance (h : s.Orderly ids) (hrange : ids.drawn .run < 2 ^ (60 : Nat)) {i : Instance}
    (hid : i.id = (ids.draw .run).1) (hissued : ids.Issued .workflow i.workflowId) :
    ({ s with instances := s.instances ++ [i] } : Store).Orderly (ids.draw .run).2 := by
  refine { h.mono (ids.grows_draw .run) with
    instance_ids := ?_, instance_issued := ?_, task_owned := ?_ }
  · rw [List.map_append, List.nodup_append]
    refine ⟨h.instance_ids, List.nodup_singleton _, ?_⟩
    rintro _ hj _ hnew rfl
    obtain ⟨j, hj, heq⟩ := List.mem_map.mp hj
    refine (h.instance_issued j hj).1.ne_next hrange ?_
    rw [heq, List.mem_singleton.mp hnew, hid]
  · intro j hj
    rcases List.mem_append.mp hj with hj | hj
    · exact (h.mono (ids.grows_draw .run)).instance_issued j hj
    · rw [List.mem_singleton.mp hj, hid]
      exact ⟨ids.issued_draw .run, hissued.mono (ids.grows_draw .run)⟩
  · intro t ht
    rw [List.map_append]
    exact List.mem_append_left _ (h.task_owned t ht)

/-- An instance in the place of one with its identifier that follows the same workflow. -/
theorem putInstance (h : s.Orderly ids) {i j : Instance} (hj : j ∈ s.instances)
    (hid : i.id = j.id) (hworkflow : i.workflowId = j.workflowId) :
    (s.putInstance i).Orderly ids := by
  have hkeys : (s.putInstance i).instances.map Instance.id = s.instances.map Instance.id :=
    map_key_put Instance.id i s.instances
  refine { h with instance_ids := ?_, instance_issued := ?_, task_owned := ?_ }
  · rw [hkeys]
    exact h.instance_ids
  · intro k hk
    rcases (mem_put Instance.id).mp hk with ⟨rfl, -⟩ | ⟨hk, -⟩
    · rw [hid, hworkflow]
      exact h.instance_issued j hj
    · exact h.instance_issued k hk
  · rw [hkeys]
    exact h.task_owned

/-- A new workflow under the next identifier. -/
theorem addWorkflow (h : s.Orderly ids) (hrange : ids.drawn .workflow < 2 ^ (60 : Nat)) {w : Workflow}
    (hid : w.id = (ids.draw .workflow).1) :
    ({ s with workflows := s.workflows ++ [w] } : Store).Orderly (ids.draw .workflow).2 := by
  refine { h.mono (ids.grows_draw .workflow) with workflow_ids := ?_, workflow_issued := ?_ }
  · rw [List.map_append, List.nodup_append]
    refine ⟨h.workflow_ids, List.nodup_singleton _, ?_⟩
    rintro _ hv _ hnew rfl
    obtain ⟨v, hv, heq⟩ := List.mem_map.mp hv
    refine (h.workflow_issued v hv).ne_next hrange ?_
    rw [heq, List.mem_singleton.mp hnew, hid]
  · intro v hv
    rcases List.mem_append.mp hv with hv | hv
    · exact (h.workflow_issued v hv).mono (ids.grows_draw .workflow)
    · rw [List.mem_singleton.mp hv, hid]
      exact ids.issued_draw .workflow

/-- A workflow in the place of one with its identifier. -/
theorem putWorkflow (h : s.Orderly ids) {v w : Workflow} (hv : v ∈ s.workflows)
    (hid : w.id = v.id) : (s.putWorkflow w).Orderly ids := by
  refine { h with workflow_ids := ?_, workflow_issued := ?_ }
  · show ((put Workflow.id w s.workflows).map Workflow.id).Nodup
    rw [map_key_put]
    exact h.workflow_ids
  · intro u hu
    rcases (mem_put Workflow.id).mp hu with ⟨rfl, -⟩ | ⟨hu, -⟩
    · rw [hid]
      exact h.workflow_issued v hv
    · exact h.workflow_issued u hu

/-- Nor does it disturb the order of the store that workflows are removed. -/
theorem removeWorkflow (h : s.Orderly ids) (keeps : Workflow → Bool) :
    ({ s with workflows := s.workflows.filter keeps } : Store).Orderly ids where
  workflow_ids := (List.filter_sublist.map Workflow.id).nodup h.workflow_ids
  instance_ids := h.instance_ids
  task_ids := h.task_ids
  workflow_issued := fun w hw => h.workflow_issued w (List.mem_filter.mp hw).1
  instance_issued := h.instance_issued
  task_issued := h.task_issued
  task_owned := h.task_owned

end Store.Orderly

end ApprovalWorkflow
