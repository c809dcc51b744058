import ApprovalWorkflow.Proofs.Keeping
import ApprovalWorkflow.Proofs.Timeline

/-!
# Stores with their records in another order

The tables of workflows and of instances are read by identifier and listed by time, so the order in
which their records stand does not show. Two stores are alike if they have the same workflows and
the same instances, in whatever order, and the same tasks and entries in the same order. Alike
stores give the same answer to every call, with or without an outage, and are alike after it
(`Access.perform_agrees`). So nobody who reaches them by their calls can tell them apart
(`Environment.answers_eq`).
-/

set_option autoImplicit false

namespace ApprovalWorkflow

/-! ## Tables in another order -/

section Tables

variable {α κ : Type} [DecidableEq κ] (key : α → κ) {items others : List α}

/-- What stands under a key does not depend on the order. -/
theorem find?_eq_of_perm (hperm : others.Perm items) (h : (items.map key).Nodup) (k : κ) :
    others.find? (fun a => key a == k) = items.find? fun a => key a == k := by
  have hothers : (others.map key).Nodup := (hperm.map key).nodup_iff.mpr h
  refine Option.ext fun a => ?_
  rw [find?_eq_some_iff key hothers, find?_eq_some_iff key h, hperm.mem_iff]

/-- A replacement leaves the same records, in whatever order they stand. -/
theorem perm_replaceFirst (hperm : others.Perm items) (h : (items.map key).Nodup) (new : α) :
    (replaceFirst (fun a => key a == key new) new others).Perm
      (replaceFirst (fun a => key a == key new) new items) := by
  rw [replaceFirst_eq_put key new h,
    replaceFirst_eq_put key new ((hperm.map key).nodup_iff.mpr h)]
  exact hperm.map _

end Tables

/-- A time is known by its seconds and its nanoseconds. -/
theorem Timestamp.eq_iff {a b : Timestamp} :
    a = b ↔ a.seconds = b.seconds ∧ a.nanos = b.nanos := by
  cases a
  cases b
  simp

/-- Identifiers that stand for the same number are the same. -/
theorem Uuid.toNat_injective : Function.Injective Uuid.toNat := by
  rintro ⟨a⟩ ⟨b⟩ h
  exact congrArg Uuid.mk (BitVec.eq_of_toNat_eq h)

section Listings

variable {α : Type} (time : α → Timestamp) (id : α → Uuid) {items others : List α}

/-- A record comes before another one if its time does, or if the times are the same and its
identifier is not greater. -/
def comesBefore (a b : α) : Bool :=
  if time a = time b then (id a).le (id b) else (time a).le (time b)

variable {time id}

/-- The order compares seconds, nanoseconds and identifiers, in this sequence. -/
theorem comesBefore_iff {a b : α} : comesBefore time id a b ↔
    (time a).seconds < (time b).seconds ∨ (time a).seconds = (time b).seconds ∧
      ((time a).nanos < (time b).nanos ∨ (time a).nanos = (time b).nanos ∧
        (id a).toNat ≤ (id b).toNat) := by
  rw [comesBefore]
  split
  · next h =>
    obtain ⟨hseconds, hnanos⟩ := Timestamp.eq_iff.mp h
    rw [Uuid.le, decide_eq_true_eq]
    omega
  · next h =>
    rw [Timestamp.eq_iff] at h
    rw [Timestamp.le_iff]
    omega

/-- Records with different identifiers are listed in one order only. -/
theorem mergeSort_eq_of_perm (hperm : others.Perm items) (h : (items.map id).Nodup) :
    others.mergeSort (comesBefore time id) = items.mergeSort (comesBefore time id) := by
  have hsorted (list : List α) : (list.mergeSort (comesBefore time id)).Pairwise
      fun a b => comesBefore time id a b := by
    refine List.pairwise_mergeSort (fun a b c hab hbc => ?_) (fun a b => ?_) list
    · rw [comesBefore_iff] at *
      omega
    · rw [Bool.or_eq_true, comesBefore_iff, comesBefore_iff]
      omega
  refine List.Perm.eq_of_pairwise (fun a b ha hb hab hba => ?_) (hsorted others) (hsorted items)
    ((List.mergeSort_perm others _).trans (hperm.trans (List.mergeSort_perm items _).symm))
  -- neither comes before the other, so that their identifiers are the same
  have hids : id a = id b := by
    rw [comesBefore_iff] at hab hba
    exact Uuid.toNat_injective (by omega)
  have ha : a ∈ items := hperm.subset (List.mem_mergeSort.mp ha)
  exact List.inj_on_of_nodup_map h ha (List.mem_mergeSort.mp hb) hids

end Listings

/-! ## Alike stores -/

namespace Store

/-- The other store has the same workflows and instances, in whatever order, all of them under
identifiers of their own, and the same tasks and entries in the same order. -/
structure Alike (s t : Store) : Prop where
  workflows : t.workflows.Perm s.workflows
  instances : t.instances.Perm s.instances
  tasks : t.tasks = s.tasks
  history : t.history = s.history
  workflow_ids : (s.workflows.map Workflow.id).Nodup
  instance_ids : (s.instances.map Instance.id).Nodup

/-- Two calls that change alike stores end alike: both leave alike stores or fail with the same
error. -/
def EndAlike : Except EngineError Store → Except EngineError Store → Prop
  | .ok s, .ok t => s.Alike t
  | .error e, .error f => f = e
  | _, _ => False

namespace Alike

variable {s t : Store} (h : s.Alike t)
include h

/-- A workflow is found in one of two alike stores as in the other. -/
theorem workflow? (id : Uuid) : t.workflow? id = s.workflow? id :=
  find?_eq_of_perm Workflow.id h.workflows h.workflow_ids id

/-- An instance is found in one of two alike stores as in the other. -/
theorem instance? (id : Uuid) : t.instance? id = s.instance? id :=
  find?_eq_of_perm Instance.id h.instances h.instance_ids id

/-- A task is found in one of two alike stores as in the other. -/
theorem task? (id : Uuid) : t.task? id = s.task? id := by
  rw [Store.task?, Store.task?, h.tasks]

/-- Alike stores list the same workflows in the same order, as the list is sorted by time and
identifier. -/
theorem listWorkflows : t.listWorkflows = s.listWorkflows :=
  mergeSort_eq_of_perm h.workflows h.workflow_ids

/-- Alike stores list the same instances of a workflow in the same order. -/
theorem listInstances (workflow : Uuid) : t.listInstances workflow = s.listInstances workflow :=
  mergeSort_eq_of_perm (h.instances.filter _)
    (h.instance_ids.sublist (List.filter_sublist.map Instance.id))

/-- Alike stores have the same pages of tasks. -/
theorem tasksPage (i : Uuid) (page : Page) : t.tasksPage i page = s.tasksPage i page := by
  rw [Store.tasksPage, Store.tasksPage, Store.tasksOf, Store.tasksOf, h.tasks]

/-- Alike stores have the same history of a task. -/
theorem historyOf (task : Uuid) : t.historyOf task = s.historyOf task := by
  rw [Store.historyOf, Store.historyOf, h.history]

/-- Saving a workflow in alike stores ends alike. -/
theorem saveWorkflow (w : Workflow) : EndAlike (s.saveWorkflow w) (t.saveWorkflow w) := by
  rw [Store.saveWorkflow, Store.saveWorkflow, h.workflow?]
  split
  · rfl
  · next hnone =>
    exact { h with
      workflows := h.workflows.append_right _
      workflow_ids := nodup_concat Workflow.id h.workflow_ids hnone }

/-- Updating a workflow in alike stores ends alike. -/
theorem updateWorkflow (w : Workflow) : EndAlike (s.updateWorkflow w) (t.updateWorkflow w) := by
  rw [Store.updateWorkflow, Store.updateWorkflow, h.workflow?]
  split
  · exact { h with
      workflows := perm_replaceFirst Workflow.id h.workflows h.workflow_ids w
      workflow_ids := nodup_replaceFirst Workflow.id h.workflow_ids }
  · rfl

/-- Deleting a workflow in alike stores ends alike. -/
theorem deleteWorkflow (id : Uuid) : EndAlike (s.deleteWorkflow id) (t.deleteWorkflow id) := by
  rw [Store.deleteWorkflow, Store.deleteWorkflow, h.workflow?]
  split
  · exact { h with
      workflows := h.workflows.filter _
      workflow_ids := h.workflow_ids.sublist (List.filter_sublist.map Workflow.id) }
  · rfl

/-- Saving an instance in alike stores ends alike. -/
theorem saveInstance (i : Instance) : EndAlike (s.saveInstance i) (t.saveInstance i) := by
  rw [Store.saveInstance, Store.saveInstance, h.instance?]
  split
  · rfl
  · next hnone =>
    exact { h with
      instances := h.instances.append_right _
      instance_ids := nodup_concat Instance.id h.instance_ids hnone }

/-- Updating an instance in alike stores ends alike. -/
theorem updateInstance (i : Instance) : EndAlike (s.updateInstance i) (t.updateInstance i) := by
  rw [Store.updateInstance, Store.updateInstance, h.instance?]
  split
  · exact { h with
      instances := perm_replaceFirst Instance.id h.instances h.instance_ids i
      instance_ids := nodup_replaceFirst Instance.id h.instance_ids }
  · rfl

/-- Saving a task in alike stores ends alike. -/
theorem saveTask (u : Task) : EndAlike (s.saveTask u) (t.saveTask u) := by
  rw [Store.saveTask, Store.saveTask, h.task?]
  split
  · rfl
  · exact { h with tasks := congrArg (· ++ [u]) h.tasks }

/-- Updating a task in alike stores ends alike. -/
theorem updateTask (u : Task) : EndAlike (s.updateTask u) (t.updateTask u) := by
  rw [Store.updateTask, Store.updateTask, h.task?]
  split
  · exact { h with tasks := congrArg (replaceFirst _ u) h.tasks }
  · rfl

/-- Stores stay alike when an entry is appended to both. -/
theorem appendHistory (entry : HistoryEntry) :
    (s.appendHistory entry).Alike (t.appendHistory entry) :=
  { h with history := congrArg (· ++ [entry]) h.history }

end Alike

end Store

/-! ## Operations on alike stores -/

/-- The environments differ in their stores at most, and these are alike. -/
def Environment.Alike (env env' : Environment) : Prop :=
  ∃ store, env.store.Alike store ∧ env' = { env with store := store }

namespace Operation

variable {α β : Type}

/-- The operation gives the same result in alike environments and leaves alike ones. -/
def Agrees (x : Operation α) : Prop :=
  ∀ env env', env.Alike env' →
    (x.runIn env').1 = (x.runIn env).1 ∧ (x.leaves env).Alike (x.leaves env')

namespace Agrees

/-- To give a value at once is the same in alike environments. -/
theorem pure (a : α) : (Pure.pure a : Operation α).Agrees := fun _ _ h => ⟨rfl, h⟩

/-- Two operations in a row agree on alike environments if both do. -/
theorem bind {x : Operation α} {f : α → Operation β} (hx : x.Agrees) (hf : ∀ a, (f a).Agrees) :
    (x >>= f).Agrees := by
  intro env env' h
  obtain ⟨hresult, hleft⟩ := hx env env' h
  rw [leaves, leaves] at hleft ⊢
  rw [runIn_bind, runIn_bind]
  rcases hrun : x.runIn env with ⟨result, left⟩
  rcases hrun' : x.runIn env' with ⟨result', left'⟩
  rw [hrun, hrun'] at hresult hleft
  obtain rfl : result' = result := hresult
  cases result' with
  | error e => exact ⟨rfl, hleft⟩
  | ok a => exact hf a left left' hleft

/-- A call agrees if alike stores make the same of it, an error or an answer and alike stores. -/
theorem perform (call : StoreCall) {run : Store → Except EngineError (α × Store)}
    (h : ∀ s t, s.Alike t → (∃ e, run s = .error e ∧ run t = .error e) ∨
      ∃ a s' t', run s = .ok (a, s') ∧ run t = .ok (a, t') ∧ s'.Alike t') :
    (Operation.perform call run).Agrees := by
  rintro env env' ⟨store, hstore, rfl⟩
  show (Operation.perform call run { env with store := store }).1
      = (Operation.perform call run env).1
    ∧ (Operation.perform call run env).2.Alike
      (Operation.perform call run { env with store := store }).2
  rw [Operation.perform, Operation.perform]
  rcases h env.store store hstore with ⟨e, hs, ht⟩ | ⟨a, s', t', hs, ht, hends⟩
  · rw [hs, ht]
    rcases Outage.meet env.outage call with ⟨_ | _ | _, outage⟩ <;>
      exact ⟨rfl, store, hstore, rfl⟩
  · rw [hs, ht]
    rcases Outage.meet env.outage call with ⟨_ | _ | _, outage⟩
    · exact ⟨rfl, t', hends, rfl⟩
    · exact ⟨rfl, store, hstore, rfl⟩
    · exact ⟨rfl, t', hends, rfl⟩

/-- A call that only looks agrees if alike stores look the same. -/
theorem query (call : StoreCall) {look : Store → α}
    (h : ∀ s t, s.Alike t → look t = look s) : (Operation.query call look).Agrees :=
  perform call fun s t hst => .inr ⟨look s, s, t, rfl, by rw [h s t hst], hst⟩

/-- A call that changes something agrees if it ends alike on alike stores. -/
theorem change (call : StoreCall) {run : Store → Except EngineError Store}
    (h : ∀ s t, s.Alike t → Store.EndAlike (run s) (run t)) :
    (Operation.change call run).Agrees := by
  refine perform call fun s t hst => ?_
  have hends := h s t hst
  rcases hs : run s with e | s' <;> rcases ht : run t with f | t' <;> rw [hs, ht] at hends
  · obtain rfl : f = e := hends
    exact .inl ⟨f, rfl, rfl⟩
  · exact hends.elim
  · exact hends.elim
  · exact .inr ⟨(), s', t', rfl, rfl, hends⟩

end Agrees

end Operation

/-! ## Accesses -/

/-- The calls of the store with their arguments. -/
inductive Access where
  | findWorkflow (id : Uuid)
  | saveWorkflow (w : Workflow)
  | updateWorkflow (w : Workflow)
  | deleteWorkflow (id : Uuid)
  | listWorkflows
  | findInstance (id : Uuid)
  | saveInstance (i : Instance)
  | updateInstance (i : Instance)
  | listInstances (workflow : Uuid)
  | findTask (id : Uuid)
  | findTasksByInstance (i : Uuid) (page : Page)
  | saveTask (t : Task)
  | updateTask (t : Task)
  | appendHistory (entry : HistoryEntry)
  | historyForTask (task : Uuid)

/-- What a call of the store answers if it does not fail. -/
inductive Answer where
  | done
  | workflow? (found : Option Workflow)
  | workflows (found : List Workflow)
  | instance? (found : Option Instance)
  | instances (found : List Instance)
  | task? (found : Option Task)
  | tasks (found : List Task)
  | entries (found : List HistoryEntry)
deriving DecidableEq

namespace Access

open Operation

/-- The access as an operation. -/
def perform : Access → Operation Answer
  | .findWorkflow id => do return .workflow? (← query .findWorkflow fun s => s.workflow? id)
  | .saveWorkflow w => do Repository.saveWorkflow w; return .done
  | .updateWorkflow w => do Repository.updateWorkflow w; return .done
  | .deleteWorkflow id => do Repository.deleteWorkflow id; return .done
  | .listWorkflows => do return .workflows (← Repository.listWorkflows)
  | .findInstance id => do return .instance? (← query .findInstance fun s => s.instance? id)
  | .saveInstance i => do Repository.saveInstance i; return .done
  | .updateInstance i => do Repository.updateInstance i; return .done
  | .listInstances workflow => do return .instances (← Repository.listInstances workflow)
  | .findTask id => do return .task? (← query .findTask fun s => s.task? id)
  | .findTasksByInstance i page => do return .tasks (← Repository.tasksPage i page)
  | .saveTask t => do Repository.saveTask t; return .done
  | .updateTask t => do Repository.updateTask t; return .done
  | .appendHistory entry => do Repository.appendHistory entry; return .done
  | .historyForTask task => do return .entries (← Repository.historyOf task)

/-- Every access gives the same answer on alike stores and leaves alike ones. -/
theorem perform_agrees (a : Access) : a.perform.Agrees := by
  cases a with
  | findWorkflow id => exact (Agrees.query _ fun _ _ h => h.workflow? id).bind fun _ => .pure _
  | saveWorkflow w => exact (Agrees.change _ fun _ _ h => h.saveWorkflow w).bind fun _ => .pure _
  | updateWorkflow w =>
    exact (Agrees.change _ fun _ _ h => h.updateWorkflow w).bind fun _ => .pure _
  | deleteWorkflow id =>
    exact (Agrees.change _ fun _ _ h => h.deleteWorkflow id).bind fun _ => .pure _
  | listWorkflows => exact (Agrees.query _ fun _ _ h => h.listWorkflows).bind fun _ => .pure _
  | findInstance id => exact (Agrees.query _ fun _ _ h => h.instance? id).bind fun _ => .pure _
  | saveInstance i => exact (Agrees.change _ fun _ _ h => h.saveInstance i).bind fun _ => .pure _
  | updateInstance i =>
    exact (Agrees.change _ fun _ _ h => h.updateInstance i).bind fun _ => .pure _
  | listInstances workflow =>
    exact (Agrees.query _ fun _ _ h => h.listInstances workflow).bind fun _ => .pure _
  | findTask id => exact (Agrees.query _ fun _ _ h => h.task? id).bind fun _ => .pure _
  | findTasksByInstance i page =>
    exact (Agrees.query _ fun _ _ h => h.tasksPage i page).bind fun _ => .pure _
  | saveTask t => exact (Agrees.change _ fun _ _ h => h.saveTask t).bind fun _ => .pure _
  | updateTask t => exact (Agrees.change _ fun _ _ h => h.updateTask t).bind fun _ => .pure _
  | appendHistory entry =>
    have hchange : (Repository.appendHistory entry).Agrees :=
      Agrees.change _ fun _ _ h => h.appendHistory entry
    exact hchange.bind fun _ => .pure _
  | historyForTask task =>
    exact (Agrees.query _ fun _ _ h => h.historyOf task).bind fun _ => .pure _

end Access

namespace Environment

/-- The answers to accesses one after the other, errors among them. -/
def answers (env : Environment) : List Access → List (Except EngineError Answer)
  | [] => []
  | a :: accesses => (a.perform.runIn env).1 :: (a.perform.leaves env).answers accesses

/-- In alike environments all accesses are answered in the same way. -/
theorem answers_eq {env env' : Environment} (h : env.Alike env') (accesses : List Access) :
    env'.answers accesses = env.answers accesses := by
  induction accesses generalizing env env' with
  | nil => rfl
  | cons a accesses ih =>
    obtain ⟨hanswer, hleft⟩ := a.perform_agrees env env' h
    rw [answers, answers, hanswer, ih hleft]

end Environment

end ApprovalWorkflow
