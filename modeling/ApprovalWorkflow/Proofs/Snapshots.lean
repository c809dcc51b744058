import ApprovalWorkflow.Proofs.Reordering

/-!
# Snapshots

A snapshot holds the records of a store, workflows and instances in the order of their creation.
The store that is made from it has the same records and differs from the first one at most in the
order of its tables (`Store.IsStorable.alike_toStore`), which nobody can see. Since every run keeps
its store storable, the snapshot is read from its value as it was written, and no call tells the
restored store from the one that was saved (`snapshot_loses_nothing`).
-/

set_option autoImplicit false

namespace ApprovalWorkflow

/-! ## The store that is made from a snapshot -/

/-- Records with different identifiers are put behind one another. -/
theorem Snapshot.foldl_put {α : Type} {id : α → Uuid} {before items : List α}
    (h : ((before ++ items).map id).Nodup) :
    items.foldl (Snapshot.put id) before = before ++ items := by
  induction items generalizing before with
  | nil => exact (List.append_nil before).symm
  | cons a items ih =>
    have hfresh : before.any (fun b => id b == id a) = false := by
      rw [List.map_append, List.nodup_append] at h
      refine List.any_eq_false.mpr fun b hb heq => ?_
      exact h.2.2 (id b) (List.mem_map_of_mem hb) (id a) List.mem_cons_self (by simpa using heq)
    have hconcat : before ++ [a] ++ items = before ++ a :: items := by simp
    rw [List.foldl_cons, Snapshot.put, hfresh, if_neg Bool.false_ne_true, ih (hconcat ▸ h), hconcat]

namespace Store

variable (s : Store)

/-- The workflows that are listed are those of the store, perhaps in another order. -/
theorem listWorkflows_perm : s.listWorkflows.Perm s.workflows := List.mergeSort_perm _ _

/-- The instances that are listed are those of the store, perhaps in another order. -/
theorem allInstances_perm : s.allInstances.Perm s.instances := List.mergeSort_perm _ _

variable {s}

/-- The store that is made from a snapshot of this one has its tables in the order of the
snapshot. -/
theorem toStore_ofStore (hworkflows : (s.workflows.map Workflow.id).Nodup)
    (hinstances : (s.instances.map Instance.id).Nodup) :
    (Snapshot.ofStore s).toStore = ⟨s.listWorkflows, s.allInstances, s.tasks, s.history⟩ := by
  have hw : (Snapshot.ofStore s).toStore.workflows = s.listWorkflows :=
    Snapshot.foldl_put ((s.listWorkflows_perm.map Workflow.id).nodup_iff.mpr hworkflows)
  have hi : (Snapshot.ofStore s).toStore.instances = s.allInstances :=
    Snapshot.foldl_put ((s.allInstances_perm.map Instance.id).nodup_iff.mpr hinstances)
  rw [← hw, ← hi]
  rfl

/-- The store that is made from a snapshot is as the invariant says. -/
theorem Meets.restored {I : RecordInvariant} (h : s.Meets I) :
    (Snapshot.ofStore s).toStore.Meets I := by
  rw [toStore_ofStore h.workflow_ids h.instance_ids]
  exact
    { workflows := fun w hw => h.workflows w (s.listWorkflows_perm.subset hw)
      instances := fun i hi => h.instances i (s.allInstances_perm.subset hi)
      tasks := h.tasks
      history := h.history
      workflow_ids := (s.listWorkflows_perm.map Workflow.id).nodup_iff.mpr h.workflow_ids
      instance_ids := (s.allInstances_perm.map Instance.id).nodup_iff.mpr h.instance_ids }

namespace IsStorable

/-- The records of a snapshot are those of the store. -/
theorem ofStore (h : s.IsStorable) : (Snapshot.ofStore s).IsStorable where
  workflows := fun w hw => h.workflows w (s.listWorkflows_perm.subset hw)
  instances := fun i hi => h.instances i (s.allInstances_perm.subset hi)
  tasks := h.tasks
  history := h.history

/-- The store that is made from a snapshot has the records of the one that was saved. -/
theorem alike_toStore (h : s.IsStorable) : s.Alike (Snapshot.ofStore s).toStore := by
  rw [toStore_ofStore h.workflow_ids h.instance_ids]
  exact {
    workflows := s.listWorkflows_perm
    instances := s.allInstances_perm
    tasks := rfl
    history := rfl
    workflow_ids := h.workflow_ids
    instance_ids := h.instance_ids }

end IsStorable

end Store

/-! ## Saving and restoring -/

/-- The value of a snapshot that is taken after any run, with whatever outages, is read as the same
snapshot. It has all records of the store, tasks and entries in their order, and the store that is
made from it gives the same answers to all accesses as the store itself. -/
theorem snapshot_loses_nothing (seed : Nat) (start : Timestamp) (e : Engine) (orders : List Order)
    (horders : ∀ o ∈ orders, o.IsRegular) {savedAt : Timestamp} (hsaved : savedAt.IsRegular) :
    let s := ((Environment.fresh seed start).followAll e orders).store
    let snapshot := Snapshot.ofStore s
    Decode.fromJson SavedSnapshot.decode (snapshot.toJson savedAt) = .ok ⟨savedAt, snapshot⟩ ∧
      snapshot.workflows.Perm s.workflows ∧ snapshot.instances.Perm s.instances ∧
      snapshot.tasks = s.tasks ∧ snapshot.history = s.history ∧
      ∀ env : Environment, env.store = s → ∀ accesses,
        { env with store := snapshot.toStore }.answers accesses = env.answers accesses := by
  intro s snapshot
  have hs : s.IsStorable :=
    Environment.followAll_storable (Environment.fresh_storable seed start) e orders horders
  refine ⟨(SavedSnapshot.recovers hs.ofStore hsaved).fromJson, s.listWorkflows_perm,
    s.allInstances_perm, rfl, rfl, fun env henv accesses => ?_⟩
  have halike : env.store.Alike snapshot.toStore := henv ▸ hs.alike_toStore
  exact Environment.answers_eq ⟨snapshot.toStore, halike, rfl⟩ accesses

/-- What is given out in `joinedRun`. -/
def joinedOutput : Json := .obj [("agreed", .bool true), ("notes", .arr [.str "a", .null])]

/-- Two branches of a parallel step are completed, and the next step is open. Another workflow is
created at an earlier time, since the clock has been set back. -/
def joinedRun : List Order :=
  let order (seconds : Int) (r : Request) : Order := ⟨⟨seconds, 0⟩, none, .serve r⟩
  let workflow := IdSource.issue 0 .workflow 0
  [order 5 (.createWorkflow "w" "" ("\x7b\"steps\":[\x7b\"id\":\"p\",\"type\":\"parallel\"," ++
      "\"parallelTasks\":[[\"b\",\"user_task\"],[\"c\",\"user_task\"]]\x7d," ++
      "[\"s\",\"user_task\"]]\x7d")),
    order 3 (.createWorkflow "v" "" "\x7b\"steps\":[[\"a\",\"user_task\"]]\x7d"),
    order 6 (.applyAction .activate workflow),
    order 6 (.startInstance workflow joinedOutput),
    order 7 (.complete (IdSource.issue 0 .task 0) ⟨"u", []⟩
      ⟨.completed, joinedOutput, some "fine"⟩),
    order 8 (.complete (IdSource.issue 0 .task 1) ⟨"v", []⟩ ⟨.completed, .null, none⟩)]

/-- A store with a join record, in which the workflows are not in the order of their creation. -/
theorem snapshot_loses_nothing_joined :
    let s := ((Environment.fresh 0 ⟨0, 0⟩).followAll .default joinedRun).store
    let snapshot := Snapshot.ofStore s
    (∀ o ∈ joinedRun, o.IsRegular) ∧ s.tasks.length = 3 ∧
      (s.instances.flatMap Instance.joins).length = 1 ∧
      ¬ s.workflows.Pairwise (fun v w => Store.createdBefore v w) ∧
      Decode.fromJson SavedSnapshot.decode (snapshot.toJson ⟨9, 0⟩) = .ok ⟨⟨9, 0⟩, snapshot⟩ ∧
      ∀ env : Environment, env.store = s → ∀ accesses,
        { env with store := snapshot.toStore }.answers accesses = env.answers accesses := by
  intro s snapshot
  have hrecords : s.tasks.length = 3 ∧ (s.instances.flatMap Instance.joins).length = 1 ∧
      ¬ s.workflows.Pairwise (fun v w => Store.createdBefore v w) := by decide +kernel
  have houtput : joinedOutput.IsSorted := by
    simp only [joinedOutput, Json.IsSorted, Json.IsSortedFields, Json.IsSortedItems, Json.Ascending]
    decide
  have hregular : ∀ o ∈ joinedRun, o.IsRegular := by
    simp only [joinedRun, List.forall_mem_cons]
    exact ⟨⟨by decide, trivial⟩, ⟨by decide, trivial⟩, ⟨by decide, trivial⟩,
      ⟨by decide, houtput⟩, ⟨by decide, houtput⟩, ⟨by decide, trivial⟩, List.forall_mem_nil _⟩
  obtain ⟨hread, -, -, -, -, hanswers⟩ :=
    snapshot_loses_nothing 0 ⟨0, 0⟩ .default joinedRun hregular
      (by decide : Timestamp.IsRegular ⟨9, 0⟩)
  exact ⟨hregular, hrecords.1, hrecords.2.1, hrecords.2.2, hread, hanswers⟩

end ApprovalWorkflow
