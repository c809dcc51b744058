import ApprovalWorkflow.Store
import Mathlib.Data.List.Nodup

/-!
# Records under their identifiers

A table of the store is a list in which every identifier stands at most once. In such a table
the record of an identifier is the only one (`find?_eq_some_iff`), and an update puts a record in
the place of the one with its identifier and leaves all others where they are (`put`,
`replaceFirst_eq_put`). The tasks of an instance are a part of the table of tasks, and an update
of one of them is an update of that part (`Store.tasksOf_putTask`).

What becomes of an instance or a task that is worked on is said once, together with the guard that
it has passed (`Instance.of_finish`, `Task.of_claim`, `Task.of_complete`).
-/

set_option autoImplicit false

namespace ApprovalWorkflow

/-! ## Tables -/

section Tables

variable {α κ : Type} [DecidableEq κ] (key : α → κ)

/-- The record takes the place of those with its key. -/
def put (new : α) (items : List α) : List α :=
  items.map fun a => if key a = key new then new else a

/-- Replacing the first record with a key replaces the only one. -/
theorem replaceFirst_eq_put {items : List α} (new : α) (h : (items.map key).Nodup) :
    replaceFirst (fun a => key a == key new) new items = put key new items := by
  induction items with
  | nil => rfl
  | cons a items ih =>
    rw [List.map_cons, List.nodup_cons] at h
    by_cases ha : key a = key new
    · have hrest : items.map (fun b => if key b = key new then new else b) = items := by
        refine (List.map_congr_left fun b hb => if_neg ?_).trans (List.map_id' items)
        intro hkey
        exact h.1 (List.mem_map.mpr ⟨b, hb, hkey.trans ha.symm⟩)
      simp [replaceFirst, put, ha, hrest]
    · have hput := ih h.2
      rw [put] at hput
      simp [replaceFirst, put, ha, hput]

/-- What the new record shares with the one whose place it takes stays what it was. -/
theorem map_put {β : Type} {f : α → β} {new : α} {items : List α}
    (h : ∀ a ∈ items, key a = key new → f a = f new) :
    (put key new items).map f = items.map f := by
  rw [put, List.map_map]
  refine List.map_congr_left fun a ha => ?_
  by_cases hkey : key a = key new
  · simp [hkey, h a ha hkey]
  · simp [hkey]

/-- The keys of a table stay what they were. -/
@[simp] theorem map_key_put (new : α) (items : List α) :
    (put key new items).map key = items.map key := map_put key fun _ _ hkey => hkey

/-- Two parts of a table are updated one by one. -/
@[simp] theorem put_append (new : α) (as bs : List α) :
    put key new (as ++ bs) = put key new as ++ put key new bs := by
  rw [put, List.map_append]
  rfl

/-- A record of the table is the new one, or an old one with another key. -/
theorem mem_put {new b : α} {items : List α} :
    b ∈ put key new items ↔
      (b = new ∧ ∃ a ∈ items, key a = key new) ∨ (b ∈ items ∧ key b ≠ key new) := by
  rw [put, List.mem_map]
  constructor
  · rintro ⟨a, ha, rfl⟩
    by_cases h : key a = key new
    · exact .inl ⟨by rw [if_pos h], a, ha, h⟩
    · rw [if_neg h]
      exact .inr ⟨ha, h⟩
  · rintro (⟨rfl, a, ha, h⟩ | ⟨hb, h⟩)
    · exact ⟨a, ha, by rw [if_pos h]⟩
    · exact ⟨b, hb, by rw [if_neg h]⟩

/-- The new record is in the table if there was one with its key. -/
theorem mem_put_self {old new : α} {items : List α} (hold : old ∈ items)
    (hkey : key new = key old) : new ∈ put key new items :=
  (mem_put key).mpr (.inl ⟨rfl, old, hold, hkey.symm⟩)

/-- Nothing happens to a table without the key. -/
theorem put_of_not_mem {new : α} {items : List α} (h : ∀ a ∈ items, key a ≠ key new) :
    put key new items = items := by
  rw [put]
  exact (List.map_congr_left fun a ha => if_neg (h a ha)).trans (List.map_id' items)

/-- A record that is put in its own place changes nothing. -/
theorem put_self {new : α} {items : List α} (hnodup : (items.map key).Nodup)
    (hmem : new ∈ items) : put key new items = items := by
  rw [put]
  refine (List.map_congr_left fun a ha => ?_).trans (List.map_id' items)
  by_cases h : key a = key new
  · rw [if_pos h]
    exact (List.inj_on_of_nodup_map hnodup ha hmem h).symm
  · rw [if_neg h]

/-- Of two updates under one key the last one counts. -/
theorem put_put {new newer : α} {items : List α} (h : key new = key newer) :
    put key newer (put key new items) = put key newer items := by
  rw [put, put, put, List.map_map]
  refine List.map_congr_left fun a _ => ?_
  by_cases ha : key a = key newer <;> simp [ha, h]

/-- A record that is not looked at takes the place of another one that is not. -/
theorem filter_put_of_not {test : α → Bool} {new : α} {items : List α} (hnew : test new = false)
    (hold : ∀ a ∈ items, key a = key new → test a = false) :
    (put key new items).filter test = items.filter test := by
  induction items with
  | nil => rfl
  | cons a items ih =>
    have hrest := ih fun b hb => hold b (List.mem_cons_of_mem a hb)
    rw [put, List.map_cons]
    by_cases hkey : key a = key new
    · rw [if_pos hkey, List.filter_cons_of_neg (by simp [hnew]),
        List.filter_cons_of_neg (by simp [hold a List.mem_cons_self hkey])]
      exact hrest
    · rw [if_neg hkey, List.filter_cons, List.filter_cons]
      exact congrArg (fun rest => if test a then a :: rest else rest) hrest

/-- A relation between the records of a table, in their order, outlasts an update that keeps it. -/
theorem pairwise_put {R : α → α → Prop} {old new : α} {items : List α} (h : items.Pairwise R)
    (hnodup : (items.map key).Nodup) (hold : old ∈ items) (hkey : key new = key old)
    (hleft : ∀ b, R old b → R new b) (hright : ∀ a, R a old → R a new) :
    (put key new items).Pairwise R := by
  -- Keys are distinct, so that the old record is the only one that is replaced.
  have heq : ∀ a ∈ items, key a = key new → a = old := fun a ha hka =>
    List.inj_on_of_nodup_map hnodup ha hold (hka.trans hkey)
  rw [put, List.pairwise_map]
  refine h.imp_of_mem fun {a b} ha hb hab => ?_
  by_cases hka : key a = key new
  · obtain rfl := heq a ha hka
    rw [if_pos hka]
    by_cases hkb : key b = key new
    · obtain rfl := heq b hb hkb
      rw [if_pos hkb]
      exact hright _ (hleft _ hab)
    · rw [if_neg hkb]
      exact hleft b hab
  · rw [if_neg hka]
    by_cases hkb : key b = key new
    · obtain rfl := heq b hb hkb
      rw [if_pos hkb]
      exact hright a hab
    · rw [if_neg hkb]
      exact hab

/-- The record under a key is the one with this key. -/
theorem find?_eq_some_iff {items : List α} (h : (items.map key).Nodup) {k : κ} {a : α} :
    items.find? (fun b => key b == k) = some a ↔ a ∈ items ∧ key a = k := by
  constructor
  · intro hfind
    exact ⟨List.mem_of_find?_eq_some hfind, by simpa using List.find?_some hfind⟩
  · rintro ⟨ha, rfl⟩
    cases hfind : items.find? (fun b => key b == key a) with
    | none => simpa using List.find?_eq_none.mp hfind a ha
    | some b =>
      have hb : key b = key a := by simpa using List.find?_some hfind
      rw [List.inj_on_of_nodup_map h (List.mem_of_find?_eq_some hfind) ha hb]

/-- No record stands under a key that no record has. -/
theorem find?_eq_none_iff {items : List α} {k : κ} :
    items.find? (fun b => key b == k) = none ↔ ∀ a ∈ items, key a ≠ k := by
  simp [List.find?_eq_none]

/-- Nothing is found under a key exactly if no record has it. -/
theorem find?_eq_none_iff_not_mem {items : List α} {k : κ} :
    items.find? (fun b => key b == k) = none ↔ k ∉ items.map key := by
  simp [List.find?_eq_none, List.mem_map]

/-- Under its own key stands the new record. -/
theorem find?_put_self {items : List α} {new : α}
    (h : (items.find? fun b => key b == key new).isSome) :
    (put key new items).find? (fun b => key b == key new) = some new := by
  induction items with
  | nil => simp at h
  | cons a items ih =>
    by_cases ha : key a = key new
    · simp [put, ha]
    · have hrest : (items.find? fun b => key b == key new).isSome := by
        simpa [List.find?_cons, ha] using h
      have hput := ih hrest
      rw [put] at hput
      simp [put, ha, hput]

/-- Under another key stands what stood there. -/
theorem find?_put_of_ne {items : List α} {new : α} {k : κ} (h : k ≠ key new) :
    (put key new items).find? (fun b => key b == k) = items.find? fun b => key b == k := by
  induction items with
  | nil => rfl
  | cons a items ih =>
    rw [put] at ih
    by_cases ha : key a = key new
    · simp [put, ha, Ne.symm h, ih]
    · by_cases hk : key a = k
      · simp [put, hk, h]
      · simp [put, ha, hk, ih]

end Tables

/-! ## The store -/

namespace Store

variable {s : Store}

/-- The store with a task in the place of the one with its identifier. -/
def putTask (s : Store) (t : Task) : Store := { s with tasks := put Task.id t s.tasks }

/-- The store with an instance in the place of the one with its identifier. -/
def putInstance (s : Store) (i : Instance) : Store :=
  { s with instances := put Instance.id i s.instances }

/-- The store with a workflow in the place of the one with its identifier. -/
def putWorkflow (s : Store) (w : Workflow) : Store :=
  { s with workflows := put Workflow.id w s.workflows }

/-- A task that is there is updated by putting the new one in its place. -/
theorem updateTask_eq {t : Task} (hnodup : (s.tasks.map Task.id).Nodup)
    (hthere : (s.task? t.id).isSome) : s.updateTask t = .ok (s.putTask t) := by
  rw [updateTask, if_pos hthere, replaceFirst_eq_put Task.id t hnodup]
  rfl

/-- An instance that is there is updated by putting the new one in its place. -/
theorem updateInstance_eq {i : Instance} (hnodup : (s.instances.map Instance.id).Nodup)
    (hthere : (s.instance? i.id).isSome) : s.updateInstance i = .ok (s.putInstance i) := by
  rw [updateInstance, if_pos hthere, replaceFirst_eq_put Instance.id i hnodup]
  rfl

/-- A workflow that is there is updated by putting the new one in its place. -/
theorem updateWorkflow_eq {w : Workflow} (hnodup : (s.workflows.map Workflow.id).Nodup)
    (hthere : (s.workflow? w.id).isSome) : s.updateWorkflow w = .ok (s.putWorkflow w) := by
  rw [updateWorkflow, if_pos hthere, replaceFirst_eq_put Workflow.id w hnodup]
  rfl

/-- A task belongs to an instance if the store has it and it says so. -/
theorem mem_tasksOf {t : Task} {i : Uuid} :
    t ∈ s.tasksOf i ↔ t ∈ s.tasks ∧ t.instanceId = i := by
  simp [tasksOf]

/-- Updating a task updates it among the tasks of an instance, if it stays with its own. -/
theorem tasksOf_putTask {t : Task} (h : ∀ u ∈ s.tasks, u.id = t.id → u.instanceId = t.instanceId)
    (i : Uuid) : (s.putTask t).tasksOf i = put Task.id t (s.tasksOf i) := by
  rw [tasksOf, putTask, put, List.filter_map, tasksOf, put]
  congr 1
  refine List.filter_congr fun u hu => ?_
  by_cases hid : u.id = t.id
  · simp [hid, h u hu hid]
  · simp [hid]

end Store

/-! ## Records that change -/

namespace Instance

variable {now : Timestamp} {i j : Instance}

/-- Only a running instance comes to an end. -/
theorem of_finish {target : InstanceStatus} {action : String}
    (h : i.finish target action now = .ok j) :
    i.isRunning ∧ j = { i with status := target, completedAt := some now } := by
  unfold finish at h
  split at h
  · next hrunning =>
    cases h
    exact ⟨hrunning, rfl⟩
  · cases h

/-- Only a running instance is completed, and then its status, its end and its output are what
changes. -/
theorem of_complete {output : Json} (h : i.complete output now = .ok j) :
    i.isRunning ∧
      j = { i with status := .completed, completedAt := some now, output := some output } := by
  unfold complete at h
  cases hk : i.finish .completed "complete" now with
  | error error => rw [hk] at h; cases h
  | ok k =>
    rw [hk] at h
    cases h
    obtain ⟨hrunning, rfl⟩ := of_finish hk
    exact ⟨hrunning, rfl⟩

/-- Only a running instance fails, and then its status, its end and its message are what changes.
-/
theorem of_fail {reason : String} (h : i.fail reason now = .ok j) :
    i.isRunning ∧
      j = { i with status := .failed, completedAt := some now, errorMessage := some reason } := by
  unfold fail at h
  cases hk : i.finish .failed "fail" now with
  | error error => rw [hk] at h; cases h
  | ok k =>
    rw [hk] at h
    cases h
    obtain ⟨hrunning, rfl⟩ := of_finish hk
    exact ⟨hrunning, rfl⟩

/-- Only a running instance is cancelled, and then its status and its end are what changes. -/
theorem of_cancel (h : i.cancel now = .ok j) :
    i.isRunning ∧ j = { i with status := .cancelled, completedAt := some now } := of_finish h

/-- A join that is claimed leaves the instance what it is but for its join records. -/
theorem of_claimJoin? {stepId : String} {ids : List Uuid}
    (h : i.claimJoin? stepId ids now = some j) :
    j = { i with joins := i.joins ++ [⟨stepId, sortedIds ids, now⟩] } := by
  unfold claimJoin? at h
  dsimp only at h
  split at h
  · cases h
  · exact (Option.some.inj h).symm

end Instance

namespace Task

variable {now : Timestamp} {t u : Task} {user : String}

/-- Only a pending task is claimed. -/
theorem of_claim (h : t.claim user now = .ok u) :
    t.status = .pending ∧
      u = { t with assignee := some user, status := .claimed, claimedAt := some now } := by
  unfold claim at h
  split at h
  · next hpending =>
    cases h
    exact ⟨hpending, rfl⟩
  · cases h

/-- Only a task that has not ended is completed. -/
theorem of_complete {output : Json} {comment : Option String} {result : TaskResult}
    (h : t.complete output comment result now = .ok u) :
    ¬ t.status.isTerminal ∧ u = { t with
      status := result.status
      output := output
      comment := comment
      result := some result
      completedAt := some now } := by
  unfold complete at h
  split at h
  · cases h
  · next hopen =>
    cases h
    exact ⟨hopen, rfl⟩

/-- Only a task that has not ended is handed on. -/
theorem of_delegate (h : t.delegate user = .ok u) :
    ¬ t.status.isTerminal ∧
      u = { t with assignee := some user, status := .pending, claimedAt := none } := by
  unfold delegate at h
  split at h
  · cases h
  · next hopen =>
    cases h
    exact ⟨hopen, rfl⟩

end Task

end ApprovalWorkflow
