import ApprovalWorkflow.Proofs.Keeping
import ApprovalWorkflow.Proofs.Recency

/-!
# What an instance gives out

A step that completes an instance collects what its completed tasks have given out. The tasks are
sorted by when they were finished and put into an object one after the other, so that of several
with one key the last one remains, which is the latest (`Engine.lookup_completedOutputs`).

A guard looks for the latest task of a key among all tasks, whatever has become of them. A task
that is still open has no end, so it does not come into question where another one has been
completed (`Task.IsDated`), and that is so for all tasks that a run of orders leaves, also where an
outage has stopped the work in between (`Environment.followAll_dated`). So unless a task of the key
has been rejected, the guard reads the very task whose output is kept
(`Task.IsLatest.latest?_eq`).
-/

set_option autoImplicit false

namespace ApprovalWorkflow

open Operation

/-! ## Outputs by key -/

section

variable {key : String} {t : Task} {tasks : List Task}

/-- The completed tasks of a key. -/
def completedFor (key : String) (tasks : List Task) : List Task :=
  tasks.filter fun t => t.status = .completed ∧ t.key = key

/-- Of several outputs that are put in under one key the last one remains. -/
theorem lookup_foldl_insert (key : String) (tasks : List Task) :
    Json.lookup key (tasks.foldl (fun fields t => Json.insert t.key t.output fields) []) =
      (tasks.filter fun t => t.key = key).getLast?.map Task.output := by
  induction tasks using List.reverseRecOn with
  | nil => rfl
  | append_singleton tasks t ih =>
    rw [List.foldl_append, List.filter_append]
    by_cases hkey : t.key = key
    · simp [hkey]
    · simp [hkey, Json.lookup_insert_of_ne (Ne.symm hkey), ih]

/-- The fields that an instance gives out. -/
def outputFields (tasks : List Task) : List (String × Json) :=
  ((tasks.filter fun t => t.status = .completed).mergeSort Task.finishedBefore).foldl
    (fun fields t => Json.insert t.key t.output fields) []

/-- The keys of the outputs ascend. -/
theorem outputFields_ascending (tasks : List Task) : Json.Ascending (outputFields tasks) := by
  unfold outputFields
  generalize (tasks.filter fun t => t.status = .completed).mergeSort Task.finishedBefore = sorted
  induction sorted using List.reverseRecOn with
  | nil => exact List.Pairwise.nil
  | append_singleton sorted t ih =>
    rw [List.foldl_append]
    exact Json.insert_ascending ih

/-- Under a key stands what the latest of its completed tasks has given out. -/
theorem lookup_outputFields {v : Json} : Json.lookup key (outputFields tasks) = some v ↔
    ∃ t : Task, t.IsLatest (completedFor key tasks) ∧ t.output = v := by
  rw [outputFields, lookup_foldl_insert, Option.map_eq_some_iff]
  have hsorted := (List.pairwise_mergeSort Task.finishedBefore_trans Task.finishedBefore_total
    (tasks.filter fun t => t.status = .completed)).filter (fun t => t.key = key)
  have hlatest : ∀ t : Task, _ ↔ _ := fun t =>
    Task.isLatest_iff_getLast? (t := t) (hsorted.imp fun h => Task.finishedBefore_iff.mp h)
  have hcompleted : (tasks.filter fun t => t.status = .completed).filter (fun t => t.key = key) =
      completedFor key tasks := by
    rw [List.filter_filter, completedFor]
    congr 1
    funext t
    rw [Bool.decide_and, Bool.and_comm]
  simp only [← hlatest, Task.isLatest_filter_mergeSort, hcompleted]

/-- The keys are those of the completed tasks. -/
theorem mem_keys_outputFields :
    key ∈ (outputFields tasks).map Prod.fst ↔ ∃ t ∈ tasks, t.status = .completed ∧ t.key = key := by
  rw [← Json.lookup_isSome_iff, Option.isSome_iff_exists]
  simp only [lookup_outputFields]
  constructor
  · rintro ⟨_, t, ht, -⟩
    have hmem := List.mem_filter.mp ht.mem
    exact ⟨t, hmem.1, by simpa using hmem.2⟩
  · rintro ⟨t, ht, hcompleted⟩
    have hsome : completedFor key tasks ≠ [] :=
      List.ne_nil_of_mem (List.mem_filter.mpr ⟨ht, by simpa using hcompleted⟩)
    obtain ⟨u, hu⟩ := Task.exists_isLatest hsome
    exact ⟨u.output, u, hu, rfl⟩

end

/-! ## The same task for guards -/

namespace Task

/-- The task has an end exactly if it has ended. -/
def IsDated (t : Task) : Prop := t.completedAt.isSome = t.status.isTerminal

instance (t : Task) : Decidable t.IsDated := inferInstanceAs (Decidable (_ = _))

section

variable {key : String} {t u : Task} {tasks : List Task}

/-- A claim leaves a task without an end. -/
theorem IsDated.claim {user : String} {now : Timestamp} (h : t.IsDated)
    (hu : t.claim user now = .ok u) : u.IsDated := by
  obtain ⟨hpending, rfl⟩ := Task.of_claim hu
  rw [IsDated, hpending] at h
  exact h

/-- A completed task has an end, at the time of its completion. -/
theorem IsDated.complete {output : Json} {comment : Option String} {result : TaskResult}
    {now : Timestamp} (hu : t.complete output comment result now = .ok u) : u.IsDated := by
  obtain ⟨-, rfl⟩ := Task.of_complete hu
  cases result <;> rfl

/-- A delegation leaves a task without an end. -/
theorem IsDated.delegate {user : String} (h : t.IsDated) (hu : t.delegate user = .ok u) :
    u.IsDated := by
  obtain ⟨hopen, rfl⟩ := Task.of_delegate hu
  rw [IsDated, Bool.eq_false_of_not_eq_true hopen] at h
  exact h

/-- A task that is still open comes before one that has been completed. -/
theorem IsDated.recency_lt (ht : t.IsDated) (hu : u.IsDated) (hopen : t.status.isTerminal = false)
    (hended : u.status.isTerminal = true) : t.recency < u.recency := by
  rw [IsDated, hopen, Option.isSome_eq_false_iff, Option.isNone_iff_eq_none] at ht
  rw [IsDated, hended, Option.isSome_iff_exists] at hu
  obtain ⟨c, hc⟩ := hu
  rw [recency, recency, ht, hc, Prod.Lex.toLex_lt_toLex]
  exact .inl (WithBot.bot_lt_coe c.instant)

/-- The latest task with a property is the latest of all, if those without it come before it. -/
theorem IsLatest.of_filter {p : Task → Bool} (h : t.IsLatest (tasks.filter p))
    (hothers : ∀ u ∈ tasks, p u = false → u.recency < t.recency) : t.IsLatest tasks := by
  induction tasks with
  | nil => exact h
  | cons u tasks ih =>
    obtain ⟨hu, hrest⟩ := List.forall_mem_cons.mp hothers
    cases hp : p u with
    | true =>
      rw [List.filter_cons_of_pos hp] at h
      rcases isLatest_cons.mp h with ⟨ht, hle⟩ | ⟨rfl, hall⟩
      · exact isLatest_cons.mpr (.inl ⟨ih ht hrest, hle⟩)
      · have hlater : ∀ v ∈ tasks, v.recency < t.recency := by
          intro v hv
          cases hpv : p v with
          | true => exact hall v (List.mem_filter.mpr ⟨hv, hpv⟩)
          | false => exact hrest v hv hpv
        exact isLatest_cons.mpr (.inr ⟨rfl, hlater⟩)
    | false =>
      rw [List.filter_cons_of_neg (by simp [hp])] at h
      exact isLatest_cons.mpr (.inl ⟨ih h hrest, (hu hp).le⟩)

/-- A reference reads the task whose output is kept, if no task of the key has been rejected. -/
theorem IsLatest.latest?_eq (h : t.IsLatest (completedFor key tasks))
    (htasks : ∀ u ∈ tasks, u.key = key → u.status ≠ .rejected ∧ u.IsDated) :
    Surroundings.latest? key tasks = some t := by
  obtain ⟨hmem, ht⟩ := List.mem_filter.mp h.mem
  obtain ⟨hcompleted, hkey⟩ : t.status = .completed ∧ t.key = key := by simpa using ht
  have hkeys : (tasks.filter fun u => u.key = key).filter (fun u => u.status = .completed) =
      completedFor key tasks := by
    rw [List.filter_filter, completedFor]
    simp only [Bool.decide_and]
  rw [Surroundings.latest?_eq_some_iff]
  rw [← hkeys] at h
  -- The other tasks of the key are open, since none of them has been rejected.
  refine h.of_filter fun u hu hopen => ?_
  obtain ⟨hu, hukey⟩ := List.mem_filter.mp hu
  obtain ⟨hrejected, hdated⟩ := htasks u hu (by simpa using hukey)
  refine hdated.recency_lt (htasks t hmem hkey).2 ?_ (by rw [hcompleted]; rfl)
  cases hstatus : u.status with
  | completed => simp [hstatus] at hopen
  | rejected => exact absurd hstatus hrejected
  | _ => rfl

end

end Task

/-- All tasks have an end exactly if they have ended. -/
def RecordInvariant.dated : RecordInvariant where
  workflow _ := True
  run _ := True
  task := Task.IsDated
  entry _ := True
  input _ := True
  output _ := True
  draft _ _ _ _ _ := trivial
  apply _ _ _ := trivial
  replaceDefinition _ _ _ := trivial
  begin _ _ _ _ := trivial
  restart _ _ := trivial
  finish _ _ _ := trivial
  fail _ _ _ := trivial
  complete _ _ _ _ := trivial
  claimJoin _ _ _ := trivial
  build _ _ _ _ id key parent labels := by
    rw [Task.build_value]
    rfl
  assign h _ := h
  markRejected h _ _ := h
  mark h _ := h
  claim h _ hu := h.claim hu
  finishTask _ _ _ hu := .complete hu
  delegate h hu := h.delegate hu
  claimed _ _ _ _ := trivial
  completed _ _ _ _ := trivial
  delegated _ _ _ _ _ := trivial

/-- Every task that a run of orders leaves has an end exactly if it has ended, also where an outage
has stopped the work in between. -/
theorem Environment.followAll_dated (seed : Nat) (start : Timestamp) (e : Engine)
    (orders : List Order) (horders : ∀ o ∈ orders, o.time.IsRegular) :
    ∀ t ∈ ((fresh seed start).followAll e orders).store.tasks, t.IsDated := by
  have hmeets : (fresh seed start).store.Meets .dated := .empty
  have hbrings (d : Directive) : d.Brings .dated := d.brings (fun _ => trivial) fun _ => trivial
  exact (followAll_meets hmeets e orders fun o ho => ⟨horders o ho, hbrings o.directive⟩).tasks

/-! ## The end of an instance -/

namespace Engine

variable {e : Engine} {env : Environment} {i : Instance}

/-- A running instance is completed with what its completed tasks have given out. -/
theorem completeInstance_goes (houtage : env.outage = none)
    (hstored : (env.store.instance? i.id).isSome) (hrunning : i.isRunning) :
    ∃ env', (e.completeInstance i).Yields env (.ok ()) env' ∧
      env'.store.tasks = env.store.tasks ∧
      env'.store.instance? i.id = some (i.completed (env.store.tasksOf i.id) env.now) := by
  let ended := i.completed (env.store.tasksOf i.id) env.now
  let store := { env.store with
    instances := replaceFirst (fun j => j.id == i.id) ended env.store.instances }
  have hcomplete : i.complete (completedOutputs (env.store.tasksOf i.id)) env.now = .ok ended := by
    rw [Instance.complete, Instance.finish, if_pos hrunning]
    rfl
  obtain ⟨k, hk⟩ := Option.isSome_iff_exists.mp hstored
  have hupdate : env.store.updateInstance ended = .ok store := by
    rw [Store.updateInstance, show env.store.instance? ended.id = some k from hk]
    rfl
  have hchange : (Repository.updateInstance ended).Yields env (.ok ()) { env with store } :=
    Repository.change_yields houtage hupdate
  refine ⟨{ env with
    store, notices := env.notices ++ e.notifier.sent [.workflowCompleted ended] }, ?_, rfl, ?_⟩
  · refine .bind (e.tasksOf_yields i.id houtage) (.bind (.now _) ?_)
    rw [hcomplete]
    exact .bind (.pure _ _) (.bind hchange (.bind (.say _ _ _) (.announce e.notifier _ _)))
  · have hfound := find?_replaceFirst Instance.id ended env.store.instances i.id
    rw [if_pos (show i.id = ended.id from rfl)] at hfound
    exact hfound.trans (congrArg (Option.map fun _ => ended) hk)

/-- A step that completes a running instance does so. The instance gives out an object whose keys
are those of its completed tasks, with the output of the latest of them under each key. That is
the task that a reference to the key reads, if none of the key has been rejected and each has an
end exactly if it has ended, as all tasks do that a run of orders leaves. -/
theorem completion_output (e : Engine) {env : Environment} {i : Instance} {s : Step}
    (houtage : env.outage = none) (hstored : (env.store.instance? i.id).isSome)
    (hrunning : i.isRunning) (hs : s.kind = .complete) (onward : Operation Unit) :
    let tasks := env.store.tasksOf i.id
    (∃ env' fields, (e.execute i s onward).Yields env (.ok ()) env' ∧
      env'.store.tasks = env.store.tasks ∧
      env'.store.instance? i.id = some { i with
        status := .completed, completedAt := some env.now, output := some (.obj fields) } ∧
      Json.Ascending fields ∧
      (∀ key, key ∈ fields.map Prod.fst ↔ ∃ t ∈ tasks, t.status = .completed ∧ t.key = key) ∧
      ∀ key v, Json.lookup key fields = some v ↔
        ∃ t : Task, t.IsLatest (completedFor key tasks) ∧ t.output = v) ∧
    (∀ key (t : Task), t.IsLatest (completedFor key tasks) →
      (∀ u ∈ tasks, u.key = key → u.status ≠ .rejected ∧ u.IsDated) →
      Surroundings.latest? key tasks = some t) ∧
    ∀ (e' : Engine) seed start orders, (∀ o ∈ orders, o.time.IsRegular) →
      env.store = ((Environment.fresh seed start).followAll e' orders).store →
      ∀ t ∈ tasks, t.IsDated := by
  intro tasks
  refine ⟨?_, fun key t ht => ht.latest?_eq, fun e' seed start orders horders henv t ht => ?_⟩
  · obtain ⟨env', hyields, htasks, hended⟩ :=
      completeInstance_goes (e := e) houtage hstored hrunning
    refine ⟨env', outputFields tasks, ?_, htasks, hended, outputFields_ascending tasks,
      fun key => mem_keys_outputFields, fun key v => lookup_outputFields⟩
    unfold execute
    rw [hs]
    exact .bind (.say _ _ _) hyields
  · refine Environment.followAll_dated seed start e' orders horders t ?_
    rw [← henv]
    exact (List.mem_filter.mp ht).1

/-- The first of two steps is done a second time, since the second one was rejected, and then the
second one is finished. -/
def redoneRun : List Order :=
  let order (seconds : Int) (r : Request) : Order := ⟨⟨seconds, 0⟩, none, .serve r⟩
  let workflow := IdSource.issue 0 .workflow 0
  let task (n : Nat) := IdSource.issue 0 .task n
  [order 1 (.createWorkflow "w" "" ("\x7b\"steps\":[[\"a\",\"user_task\"]," ++
      "[\"b\",\"user_task\"],[\"end\",\"complete\"]]\x7d")),
    order 2 (.applyAction .activate workflow),
    order 3 (.startInstance workflow .null),
    order 4 (.complete (task 0) ⟨"ann", []⟩ ⟨.completed, .str "draft", none⟩),
    order 5 (.complete (task 1) ⟨"bob", []⟩ ⟨.rejected, .null, none⟩),
    order 6 (.complete (task 2) ⟨"ann", []⟩ ⟨.completed, .str "final", none⟩),
    order 7 (.finish (task 3) ⟨"bob", []⟩ ⟨.completed, .bool true, none⟩)]

/-- What `redoneRun` leaves. -/
def redoneEnd : Environment := (Environment.fresh 0 ⟨0, 0⟩).followAll .default redoneRun

/-- The instance gives out what the first step has given out the second time, and a reference reads
the same task. -/
theorem completion_output_redone :
    let tasks := redoneEnd.store.tasksOf (IdSource.issue 0 .run 0)
    ∃ i, redoneEnd.store.instance? (IdSource.issue 0 .run 0) = some i ∧
      ∃ env' fields t, (Engine.default.execute i (.ofKind "end" .complete) (pure ())).Yields
          redoneEnd (.ok ()) env' ∧
        Json.lookup "a" fields = some (.str "final") ∧ Json.lookup "b" fields = some (.bool true) ∧
        Surroundings.latest? "a" tasks = some t ∧ t.output = .str "final" := by
  intro tasks
  obtain ⟨houtage, hstored, hstate, hregular⟩ :
      redoneEnd.outage = none ∧
        (redoneEnd.store.instance? (IdSource.issue 0 .run 0)).isSome ∧
        (redoneEnd.store.instance? (IdSource.issue 0 .run 0)).map (fun i => (i.id, i.isRunning)) =
          some (IdSource.issue 0 .run 0, true) ∧
        ∀ o ∈ redoneRun, o.time.IsRegular := by
    decide +kernel
  obtain ⟨ha, hb, hread, hrejected⟩ :
      completedFor "a" tasks ≠ [] ∧
        (Surroundings.latest? "b" (completedFor "b" tasks)).map Task.output = some (.bool true) ∧
        (Surroundings.latest? "a" tasks).map Task.output = some (.str "final") ∧
        ∀ u ∈ tasks, u.key = "a" → u.status ≠ .rejected := by
    decide +kernel
  obtain ⟨i, hi⟩ := Option.isSome_iff_exists.mp hstored
  rw [hi] at hstate
  obtain ⟨hid, hrunning⟩ := Prod.mk.inj (Option.some.inj hstate)
  obtain ⟨⟨env', fields, hyields, -, -, -, -, hfields⟩, hsame, hdated⟩ :=
    completion_output .default houtage (i := i) (by rw [hid]; exact hstored) hrunning
      (s := .ofKind "end" .complete) rfl (pure ())
  rw [hid] at hfields hsame hdated
  obtain ⟨t, ht⟩ := Task.exists_isLatest ha
  have hlatest := hsame "a" t ht fun u hu hkey =>
    ⟨hrejected u hu hkey, hdated .default 0 ⟨0, 0⟩ redoneRun hregular rfl u hu⟩
  rw [hlatest] at hread
  have hout : t.output = .str "final" := Option.some.inj hread
  obtain ⟨u, hu, hdone⟩ := Option.map_eq_some_iff.mp hb
  rw [Surroundings.latest?_eq_some_iff, List.filter_eq_self.mpr fun t ht =>
    decide_eq_true (of_decide_eq_true (List.mem_filter.mp ht).2).2] at hu
  exact ⟨i, hi, env', fields, t, hyields, (hfields "a" _).mpr ⟨t, ht, hout⟩,
    (hfields "b" _).mpr ⟨u, hu, hdone⟩, hlatest, hout⟩

end Engine

end ApprovalWorkflow
