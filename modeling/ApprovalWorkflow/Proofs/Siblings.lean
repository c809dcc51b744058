import ApprovalWorkflow.Proofs.Joins

/-!
# Whose tasks a join looks at

A task knows the parallel step that opened it, but a join looks at keys: it takes every task whose
key begins with the id of the parallel step and an underscore for one of its branch tasks. The
branch tasks of the step are always among these (`Step.branchTasks_sublist_siblings`). But ids may
contain underscores, so that a task from elsewhere can intrude (`TaskOrigin.Intrudes`): the join
looks at its own branch tasks and at no other task exactly if no task of the instance is from an
origin that intrudes.

Where none does, the join waits for the branch tasks of its step and records them, and all join
records of the step name only such tasks (`join_of_branchTasks`).
-/

set_option autoImplicit false

namespace ApprovalWorkflow

open Engine

/-! ## Branch tasks and intruders -/

/-- The key of the origin begins like those of the branches of a parallel step, although it is no
branch of this step. -/
def TaskOrigin.Intrudes (origin : TaskOrigin) (p : Step) : Prop :=
  origin.parentId? ≠ some p.id ∧ p.branchStart.toList <+: origin.key.toList

instance (origin : TaskOrigin) (p : Step) : Decidable (origin.Intrudes p) :=
  inferInstanceAs (Decidable (_ ∧ _))

namespace Step

variable {p : Step} {tasks : List Task} {t : Task} {d : Definition} {origin : TaskOrigin}

/-- The tasks that a parallel step has opened for its branches. -/
def branchTasks (p : Step) (tasks : List Task) : List Task :=
  tasks.filter fun t => t.parentStepId = some p.id

/-- The branch tasks of a parallel step are those whose parent it is. -/
theorem mem_branchTasks : t ∈ p.branchTasks tasks ↔ t ∈ tasks ∧ t.parentStepId = some p.id := by
  simp [branchTasks]

/-- The siblings of a parallel step are the tasks whose keys begin like those of its branches. -/
theorem mem_siblings_iff :
    t ∈ p.siblings tasks ↔ t ∈ tasks ∧ p.branchStart.toList <+: t.key.toList := by
  simp [siblings]

/-- The branch tasks of a step have its keys. -/
theorem branchStart_prefix (hfrom : t.IsFrom origin) (hparent : t.parentStepId = some p.id) :
    p.branchStart.toList <+: t.key.toList := by
  obtain ⟨q, b, rfl, hq⟩ := hfrom.of_isBranch (by rw [Task.isBranch, hparent]; rfl)
  have hid : q.id = p.id := Option.some.inj (hq.symm.trans hparent)
  have hstart : q.branchStart = p.branchStart := by rw [branchStart, branchStart, hid]
  have hkey : (TaskOrigin.branch q b).key = q.branchKey b := rfl
  rw [hfrom.key, hkey, q.branchKey_toList, hstart]
  exact List.prefix_append _ _

/-- A join looks at the branch tasks of its step, if all tasks have an origin. -/
theorem branchTasks_sublist_siblings
    (hrooted : ∀ t ∈ tasks, ∃ origin, d.Has origin ∧ t.IsFrom origin) :
    (p.branchTasks tasks).Sublist (p.siblings tasks) := by
  have hsame : (p.siblings tasks).filter (fun t => t.parentStepId = some p.id) =
      p.branchTasks tasks := by
    rw [siblings, List.filter_filter, branchTasks]
    refine List.filter_congr fun t ht => ?_
    obtain ⟨origin, -, hfrom⟩ := hrooted t ht
    by_cases hparent : t.parentStepId = some p.id
    · simpa [hparent] using branchStart_prefix hfrom hparent
    · simp [hparent]
  rw [← hsame]
  exact List.filter_sublist

/-- A join looks at the branch tasks of its step and at no other task exactly if no task is from an
origin that intrudes. -/
theorem siblings_eq_branchTasks_iff
    (hrooted : ∀ t ∈ tasks, ∃ origin, d.Has origin ∧ t.IsFrom origin) :
    p.siblings tasks = p.branchTasks tasks ↔
      ∀ t ∈ tasks, ∀ origin, d.Has origin → t.IsFrom origin → ¬ origin.Intrudes p := by
  constructor
  · -- a task from an origin that intrudes is looked at without being a branch task
    rintro hsame t ht origin - hfrom ⟨hother, hkey⟩
    have hsibling : t ∈ p.siblings tasks := mem_siblings_iff.mpr ⟨ht, by rwa [hfrom.key]⟩
    rw [hsame, mem_branchTasks] at hsibling
    exact hother (hfrom.parent.symm.trans hsibling.2)
  · intro hnone
    rw [siblings, branchTasks]
    refine List.filter_congr fun t ht => ?_
    obtain ⟨origin, horigin, hfrom⟩ := hrooted t ht
    rw [Bool.eq_iff_iff, List.isPrefixOf_iff_prefix, decide_eq_true_iff]
    refine ⟨fun hkey => ?_, branchStart_prefix hfrom⟩
    by_contra hparent
    exact hnone t ht origin horigin hfrom ⟨by rwa [← hfrom.parent], by rwa [← hfrom.key]⟩

end Step

/-! ## Join records -/

namespace Situation

variable {e : Engine} {σ σ' : Situation} {now : Timestamp} {ids : IdSource} {t u v : Task}
  {r : Request} {p : Step} {d : Definition}

/-- A task that takes the place of one that has become it leaves every task where it was. -/
theorem became_withTask (hids : (σ.tasks.map Task.id).Nodup) (ht : t ∈ σ.tasks)
    (hu : t.Became u) (hv : v ∈ σ.tasks) : ∃ w ∈ (σ.withTask u).tasks, v.Became w := by
  by_cases hsame : v.id = u.id
  · obtain rfl := List.inj_on_of_nodup_map hids hv ht (hsame.trans hu.id_eq)
    exact ⟨u, mem_put_self Task.id ht hu.id_eq, hu⟩
  · exact ⟨v, (mem_put Task.id).mpr (.inr ⟨hv, hsame⟩), .refl v⟩

/-- When a task has been carried through, every task of before is there as what has become of it.
-/
theorem became_carried (hids' : ((σ.carried e now ids t).tasks.map Task.id).Nodup)
    (ht : t ∈ σ.tasks) (hv : v ∈ σ.tasks) : ∃ w ∈ (σ.carried e now ids t).tasks, v.Became w := by
  rw [carried, ids_withTask] at hids'
  exact became_withTask hids' (List.mem_append_left _ ht) (t.became_marked _)
    (List.mem_append_left _ hv)

/-- The tasks of an instance stay with it, as people have worked on them. -/
theorem became_of_turn (hids : (σ.tasks.map Task.id).Nodup)
    (hids' : (σ'.tasks.map Task.id).Nodup) (hturn : Turn e now r σ σ') (hv : v ∈ σ.tasks) :
    ∃ w ∈ σ'.tasks, v.Became w := by
  cases hturn with
  | stays => exact ⟨v, hv, .refl v⟩
  | orphaned => exact ⟨v, hv, .refl v⟩
  | redefined => exact ⟨v, hv, .refl v⟩
  | cancelled => exact ⟨v, hv, .refl v⟩
  | touched hr ht hopen htouched => exact became_withTask hids ht htouched.became hv
  | finished ht hu => exact became_withTask hids ht (Task.of_finishedBy hu).2.became hv
  | completed ids ht hu =>
    -- the task is replaced twice: when it is finished, and when it is carried through
    have hfinished := (Task.of_finishedBy hu).2
    obtain ⟨w, hw, hvw⟩ := became_withTask hids ht hfinished.became hv
    obtain ⟨w', hw', hww'⟩ :=
      became_carried hids' (mem_put_self Task.id ht hfinished.place.1) hw
    exact ⟨w', hw', hvw.trans hww'⟩
  | carried ids hr ht hpending hended => exact became_carried hids' ht hv

/-- A join record names only tasks with keys of its step. -/
def NamesKeys (σ : Situation) (j : JoinRecord) : Prop :=
  ∀ id ∈ j.taskIds, ∃ t ∈ σ.tasks, t.id = id ∧ (j.stepId ++ "_").toList <+: t.key.toList

/-- Whatever turn a situation takes, the tasks that a join record names keep their keys. -/
theorem NamesKeys.turn {j : JoinRecord} (h : σ.NamesKeys j) (hids : (σ.tasks.map Task.id).Nodup)
    (hids' : (σ'.tasks.map Task.id).Nodup) (hturn : Turn e now r σ σ') : σ'.NamesKeys j := by
  intro id hid
  obtain ⟨t, ht, rfl, hkey⟩ := h id hid
  obtain ⟨u, hu, hbecame⟩ := became_of_turn hids hids' hturn ht
  exact ⟨u, hu, hbecame.id_eq, by rwa [hbecame.key_eq]⟩

/-- The ids of siblings that have all ended name tasks with keys of the branches. -/
theorem namesKeys_of_resolved (now : Timestamp) {taskIds : List Uuid}
    (h : p.resolvedSiblings? σ.tasks = some taskIds) :
    σ.NamesKeys ⟨p.id, Instance.sortedIds taskIds, now⟩ := by
  obtain ⟨-, -, rfl⟩ := of_resolvedSiblings? h
  intro id hid
  obtain ⟨t, ht, rfl⟩ := List.mem_map.mp (List.mem_mergeSort.mp (List.mem_mergeSort.mp hid))
  obtain ⟨hmem, hkey⟩ := Step.mem_siblings_iff.mp ht
  exact ⟨t, hmem, rfl, hkey⟩

/-- Carrying a task through adds at most a join record that names keys of its step. -/
theorem namesKeys_carried (hids' : ((σ.carried e now ids t).tasks.map Task.id).Nodup)
    (ht : t ∈ σ.tasks) {j : JoinRecord} (hj : j ∈ (σ.carried e now ids t).record.joins) :
    j ∈ σ.record.joins ∨ (σ.carried e now ids t).NamesKeys j := by
  rcases effect_join hj with hold | ⟨s, taskIds, hresolved, rfl⟩
  · exact .inl hold
  · refine .inr fun id hid => ?_
    obtain ⟨v, hv, rfl, hkey⟩ := namesKeys_of_resolved now hresolved id hid
    obtain ⟨w, hw, hbecame⟩ := became_carried hids' ht hv
    exact ⟨w, hw, hbecame.id_eq, by rwa [hbecame.key_eq]⟩

/-- All join records of an instance name keys of their steps after every turn. -/
theorem namesKeys_of_turn (h : ∀ j ∈ σ.record.joins, σ.NamesKeys j)
    (hids : (σ.tasks.map Task.id).Nodup) (hids' : (σ'.tasks.map Task.id).Nodup)
    (hturn : Turn e now r σ σ') : ∀ j ∈ σ'.record.joins, σ'.NamesKeys j := by
  -- old records stay right in every turn, so that only carrying a task through asks for more
  have hstay : ∀ j ∈ σ.record.joins, σ'.NamesKeys j := fun j hj =>
    (h j hj).turn hids hids' hturn
  cases hturn with
  | stays => exact h
  | orphaned => exact h
  | redefined => exact h
  | cancelled hcancel =>
    rw [(Instance.of_cancel hcancel).2]
    exact h
  | touched hr ht hopen htouched => exact hstay
  | finished ht hu => exact hstay
  | completed ids ht hu =>
    have hid := (Task.of_finishedBy hu).2.place.1
    intro j hj
    rcases namesKeys_carried (σ := σ.withTask _) hids' (mem_put_self Task.id ht hid) hj with
      hold | hnew
    · exact hstay j hold
    · exact hnew
  | carried ids hr ht hpending hended =>
    intro j hj
    rcases namesKeys_carried hids' ht hj with hold | hnew
    · exact hstay j hold
    · exact hnew

/-! ## Joins of branch tasks -/

/-- No join fires for want of branch tasks, or while one of them is open, if the siblings are the
branch tasks. -/
theorem firing?_of_open (now : Timestamp)
    (h : p.branchTasks σ.tasks = [] ∨ ∃ t ∈ p.branchTasks σ.tasks, t.status.isOpen)
    (hsame : p.siblings σ.tasks = p.branchTasks σ.tasks) : σ.firing? now p = none := by
  cases hresolved : p.resolvedSiblings? σ.tasks with
  | none =>
    rw [firing?, hresolved]
    rfl
  | some taskIds =>
    obtain ⟨hsome, hended, -⟩ := of_resolvedSiblings? hresolved
    rw [hsame] at hsome hended
    rcases h with hnone | ⟨t, ht, hopen⟩
    · exact absurd hnone hsome
    · rw [hended t ht] at hopen
      cases hopen

/-- A join that fires records the tasks that it looks at. -/
theorem of_firing?_siblings {i : Instance} (h : σ.firing? now p = some i) :
    p.siblings σ.tasks ≠ [] ∧ (∀ t ∈ p.siblings σ.tasks, t.status.isOpen = false) ∧
      ∃ taskIds, taskIds.Perm ((p.siblings σ.tasks).map Task.id) ∧
        i = { σ.record with joins := σ.record.joins ++ [⟨p.id, taskIds, now⟩] } := by
  obtain ⟨taskIds, hresolved, hi⟩ := of_firing? h
  obtain ⟨hsome, hended, rfl⟩ := of_resolvedSiblings? hresolved
  exact ⟨hsome, hended, _, (List.mergeSort_perm _ _).trans (List.mergeSort_perm _ _), hi⟩

/-- A join fires when all tasks that it looks at have ended, unless they have fired it before. -/
theorem firing?_isSome (now : Timestamp) (hsome : p.siblings σ.tasks ≠ [])
    (hended : ∀ t ∈ p.siblings σ.tasks, t.status.isOpen = false)
    (hnew : ∀ j ∈ σ.record.joins, j.stepId = p.id →
      ¬ j.taskIds.Perm ((p.siblings σ.tasks).map Task.id)) :
    ∃ i, σ.firing? now p = some i := by
  let taskIds := Instance.sortedIds ((p.siblings σ.tasks).map Task.id)
  have hresolved : p.resolvedSiblings? σ.tasks = some taskIds := by
    have hopen : ((p.siblings σ.tasks).any fun t => t.status.isOpen) = false := by
      rw [List.any_eq_false]
      intro t ht
      simp [hended t ht]
    simp [Step.resolvedSiblings?, hopen, hsome, taskIds]
  have hperm : (Instance.sortedIds taskIds).Perm ((p.siblings σ.tasks).map Task.id) :=
    (List.mergeSort_perm _ _).trans (List.mergeSort_perm _ _)
  -- the records are compared as sorted lists, the tasks up to their order
  have hclaim : ¬ (σ.record.joins.any fun j =>
      j.stepId == p.id && j.taskIds == Instance.sortedIds taskIds) = true := by
    intro hclaimed
    obtain ⟨j, hj, hrecord⟩ := List.any_eq_true.mp hclaimed
    simp only [Bool.and_eq_true, beq_iff_eq] at hrecord
    apply hnew j hj hrecord.1
    rwa [hrecord.2]
  rw [firing?, hresolved, Option.bind_some, Instance.claimJoin?]
  exact ⟨_, if_neg hclaim⟩

end Situation

/-- What firing a join does when all tasks that it looks at have ended and have not fired it
before. -/
theorem fireJoin_of_resolved {e : Engine} {env : Environment} (henv : env.Orderly) {i : Instance}
    (hi : env.store.instance? i.id = some i) {p : Step}
    (hsome : p.siblings (env.store.tasksOf i.id) ≠ [])
    (hended : ∀ t ∈ p.siblings (env.store.tasksOf i.id), t.status.isOpen = false)
    (hnew : ∀ j ∈ i.joins, j.stepId = p.id →
      ¬ j.taskIds.Perm ((p.siblings (env.store.tasksOf i.id)).map Task.id)) :
    ∃ taskIds, taskIds.Perm ((p.siblings (env.store.tasksOf i.id)).map Task.id) ∧
      ((e.fireJoin i p).runIn env).1 =
        .ok (some { i with joins := i.joins ++ [⟨p.id, taskIds, env.now⟩] }) := by
  have hσ := situation?_eq_some_iff.mpr ⟨i, hi, rfl⟩
  have houtcome := (fireJoin_yields (e := e) henv hσ p).outcome
  obtain ⟨j, hj⟩ := Situation.firing?_isSome
    (σ := ⟨i, env.store.tasksOf i.id, env.store.definitionOf i⟩) env.now hsome hended hnew
  obtain ⟨-, -, taskIds, hperm, rfl⟩ := Situation.of_firing?_siblings hj
  rw [hj] at houtcome
  exact ⟨taskIds, hperm, houtcome⟩

/-- What a join looks at, in every environment that requests reach without replacing a definition.
The branch tasks of a step are among the tasks that its join looks at, and they are all of them
exactly if no task of the instance is from an origin that intrudes; in particular if the definition
has no such origin. Then every join record of the step names branch tasks of the step only, the
join waits while there is none of them or one of them is open, and when it fires it records just
them. It fires when all of them have ended and no record names them already. -/
theorem join_of_branchTasks (seed : Nat) (start : Timestamp) (e : Engine) (calls : List Call)
    (hcalls : ∀ c ∈ calls, c.request.KeepsDefinitions)
    (hrange : ((Environment.fresh seed start).serveAll e calls).ids.InRange) {i : Instance}
    (hi : i ∈ ((Environment.fresh seed start).serveAll e calls).store.instances) {d : Definition}
    (hd : ((Environment.fresh seed start).serveAll e calls).store.definitionOf i = .ok d)
    (p : Step) :
    let env := (Environment.fresh seed start).serveAll e calls
    let tasks := env.store.tasksOf i.id
    let branches := p.branchTasks tasks
    branches.Sublist (p.siblings tasks) ∧
      (p.siblings tasks = branches ↔
        ∀ t ∈ tasks, ∀ origin, d.Has origin → t.IsFrom origin → ¬ origin.Intrudes p) ∧
      ((∀ origin, d.Has origin → ¬ origin.Intrudes p) → p.siblings tasks = branches) ∧
      (p.siblings tasks = branches →
        (∀ j ∈ i.joins, j.stepId = p.id → ∀ id ∈ j.taskIds, ∃ t ∈ branches, t.id = id) ∧
        ∀ now,
          let outcome := (e.fireJoin i p).runIn { env with now := now }
          ((branches = [] ∨ ∃ t ∈ branches, t.status.isOpen) →
            outcome.1 = .ok none ∧ outcome.2.store = env.store) ∧
          (∀ j, outcome.1 = .ok (some j) → ∃ taskIds, taskIds.Perm (branches.map Task.id) ∧
            j = { i with joins := i.joins ++ [⟨p.id, taskIds, now⟩] }) ∧
          (branches ≠ [] → (∀ t ∈ branches, t.status.isOpen = false) →
            (∀ j ∈ i.joins, j.stepId = p.id → ¬ j.taskIds.Perm (branches.map Task.id)) →
            ∃ j, outcome.1 = .ok (some j))) := by
  intro env tasks branches
  have hstart := Environment.fresh_orderly seed start
  have henv : env.Orderly := Environment.serveAll_orderly hstart calls hrange
  let σ : Situation := ⟨i, tasks, env.store.definitionOf i⟩
  have hσ : env.store.situation? i.id = some σ :=
    situation?_eq_some_iff.mpr ⟨i, henv.store.instance?_eq_some_iff.mpr ⟨hi, rfl⟩, rfl⟩
  have hrooted := (Environment.serveAll_rooted seed start e calls hcalls hrange hσ).rooted d hd
  have hnames : ∀ j ∈ σ.record.joins, σ.NamesKeys j := by
    refine Environment.serveAll_induction
      (P := fun _ σ => ∀ j ∈ σ.record.joins, σ.NamesKeys j)
      (fun _ c τ ids _ hbirth j hj => ?_)
      (fun _ c τ τ' _ hids hids' h hturn => Situation.namesKeys_of_turn h hids hids' hturn)
      hstart calls (Environment.admitted_of_forall hcalls _) hrange (fun id τ hτ => ?_) hσ
    · rw [Situation.joins_of_birth hbirth] at hj
      cases hj
    · cases hτ
  have hiff := Step.siblings_eq_branchTasks_iff (p := p) hrooted
  refine ⟨Step.branchTasks_sublist_siblings hrooted, hiff, fun hnone => ?_, fun hsame => ⟨?_, ?_⟩⟩
  · exact hiff.mpr fun t _ origin horigin _ => hnone origin horigin
  · intro j hj hstep id hid
    obtain ⟨t, ht, htid, hkey⟩ := hnames j hj id hid
    rw [hstep] at hkey
    refine ⟨t, ?_, htid⟩
    rw [← hsame]
    exact Step.mem_siblings_iff.mpr ⟨ht, hkey⟩
  · intro now outcome
    have hyields := fireJoin_yields (e := e) (henv.at_time now) hσ p
    have hfired : outcome.1 = .ok (σ.firing? now p) := hyields.outcome
    refine ⟨fun hwaits => ?_, fun j hj => ?_, fun hsome hended hnew => ?_⟩
    · have hnone := Situation.firing?_of_open (σ := σ) now hwaits hsame
      refine ⟨by rw [hfired, hnone], ?_⟩
      have hstore := hyields.store_eq
      rw [hnone, after_nothing] at hstore
      exact hstore
    · rw [hfired] at hj
      obtain ⟨-, -, hrecords⟩ := Situation.of_firing?_siblings (Except.ok.inj hj)
      rwa [hsame] at hrecords
    · have hstored := henv.store.instance?_eq_some_iff.mpr ⟨hi, rfl⟩
      rw [← hsame] at hsome hended hnew
      obtain ⟨taskIds, -, hfires⟩ :=
        fireJoin_of_resolved (e := e) (henv.at_time now) hstored hsome hended hnew
      exact ⟨_, hfires⟩

/-- The environment after `fanOutRun`, with its tasks. -/
theorem fanOutRun_waits :
    ((Environment.fresh 0 ⟨0, 0⟩).serveAll .default fanOutRun).ids.InRange ∧
      fanOutInstance ∈ ((Environment.fresh 0 ⟨0, 0⟩).serveAll .default fanOutRun).store.instances ∧
      ((Environment.fresh 0 ⟨0, 0⟩).serveAll .default fanOutRun).store.definitionOf
        fanOutInstance = .ok fanOut ∧
      ∃ t ∈ fanOutStep.branchTasks (((Environment.fresh 0 ⟨0, 0⟩).serveAll .default
        fanOutRun).store.tasksOf fanOutInstance.id), t.status.isOpen := by decide +kernel

/-- No step and no branch of `fanOut` intrudes on its parallel step, which waits for its branch
tasks. -/
theorem join_of_branchTasks_fanOut :
    let env := (Environment.fresh 0 ⟨0, 0⟩).serveAll .default fanOutRun
    let tasks := env.store.tasksOf fanOutInstance.id
    fanOutStep.siblings tasks = fanOutStep.branchTasks tasks ∧
      ((Engine.default.fireJoin fanOutInstance fanOutStep).runIn
        { env with now := ⟨0, 0⟩ }).1 = .ok none := by
  have hnone : (∀ s ∈ fanOut.steps, ¬ (TaskOrigin.step s).Intrudes fanOutStep) ∧
      ∀ q ∈ fanOut.steps, ∀ b ∈ q.branches, ¬ (TaskOrigin.branch q b).Intrudes fanOutStep := by
    decide +kernel
  obtain ⟨hrange, hi, hd, hopen⟩ := fanOutRun_waits
  obtain ⟨-, -, hexact, hjoin⟩ := join_of_branchTasks 0 ⟨0, 0⟩ .default fanOutRun
    (by simp [fanOutRun, Call.atOnce, Request.KeepsDefinitions]) hrange hi hd fanOutStep
  have hsame := hexact fun origin horigin => by
    cases origin with
    | step s => exact hnone.1 s horigin
    | branch q b => exact hnone.2 q horigin.1 b horigin.2
  obtain ⟨-, hfires⟩ := hjoin hsame
  exact ⟨hsame, ((hfires ⟨0, 0⟩).1 (.inr hopen)).1⟩

/-- A step whose id begins with the id of the parallel step behind it and an underscore. -/
def intrusion : Definition :=
  .ofSteps "" [.userTask "review_final", .parallel "review" [.userTask "legal"], .userTask "done"]

/-- The parallel step of `intrusion`. -/
def intrudedStep : Step := .parallel "review" [.userTask "legal"]

/-- Finishing a task of `intrusionRun`, with or without what follows. -/
def intrusionEnd (number : Nat) (finish : Uuid → Actor → Completion → Request) : Call :=
  ⟨⟨0, 0⟩, finish (IdSource.issue 0 .task number) ⟨"u", []⟩ ⟨.approved, .null, none⟩⟩

/-- The first task is completed, so that the task of the only branch is opened. -/
def intrusionRun : List Call :=
  let workflow := IdSource.issue 0 .workflow 0
  Call.atOnce ⟨0, 0⟩
    [.createWorkflow "w" "" ("\x7b\"steps\":[[\"review_final\",\"user_task\"]," ++
        "\x7b\"id\":\"review\",\"type\":\"parallel\"," ++
        "\"parallelTasks\":[[\"legal\",\"user_task\"]]\x7d,[\"done\",\"user_task\"]]\x7d"),
      .applyAction .activate workflow, .startInstance workflow .null] ++
    [intrusionEnd 0 .complete]

/-- The environment after `intrusionRun`. -/
abbrev intrudedEnvironment : Environment :=
  (Environment.fresh 0 ⟨0, 0⟩).serveAll .default intrusionRun

/-- The environment when the task of the branch has been finished, too. -/
abbrev resolvedEnvironment : Environment :=
  intrudedEnvironment.serve .default (intrusionEnd 1 .finish)

/-- What the join of `intrudedStep` looks at, before and after the task of the branch has been
finished. -/
theorem intrusionRun_looks :
    (fanOutInstance ∈ intrudedEnvironment.store.instances ∧
      intrudedEnvironment.store.definitionOf fanOutInstance = .ok intrusion ∧
      intrudedStep ∈ intrusion.steps ∧
      intrudedStep.siblings (intrudedEnvironment.store.tasksOf fanOutInstance.id) ≠
        intrudedStep.branchTasks (intrudedEnvironment.store.tasksOf fanOutInstance.id)) ∧
      intrudedEnvironment.ids.InRange ∧ resolvedEnvironment.ids.InRange ∧
      resolvedEnvironment.store.instance? fanOutInstance.id = some fanOutInstance ∧
      (∀ t ∈ intrudedStep.siblings (resolvedEnvironment.store.tasksOf fanOutInstance.id),
        t.status.isOpen = false) ∧
      ∃ t ∈ intrudedStep.siblings (resolvedEnvironment.store.tasksOf fanOutInstance.id),
        t ∈ resolvedEnvironment.store.tasks ∧ t.parentStepId = none := by
  decide +kernel

/-- The join of the parallel step looks at the task of the first step as well, and when the branch
is finished, it records a task that no parallel step has opened. -/
theorem join_of_other_task :
    (∀ c ∈ intrusionRun, c.request.IsWhole ∧ c.request.KeepsDefinitions) ∧
      (fanOutInstance ∈ intrudedEnvironment.store.instances ∧
        intrudedEnvironment.store.definitionOf fanOutInstance = .ok intrusion ∧
        intrudedStep ∈ intrusion.steps ∧
        intrudedStep.siblings (intrudedEnvironment.store.tasksOf fanOutInstance.id) ≠
          intrudedStep.branchTasks (intrudedEnvironment.store.tasksOf fanOutInstance.id)) ∧
      ∃ j, ((Engine.default.fireJoin fanOutInstance intrudedStep).runIn resolvedEnvironment).1 =
          .ok (some j) ∧
        ∃ record ∈ j.joins, ∃ t ∈ resolvedEnvironment.store.tasks,
          t.id ∈ record.taskIds ∧ t.parentStepId = none := by
  obtain ⟨hlooks, hbefore, hrange, hstored, hended, t, hsibling, ht, hparent⟩ := intrusionRun_looks
  refine ⟨by simp [intrusionRun, intrusionEnd, Call.atOnce, Request.IsWhole,
    Request.KeepsDefinitions], hlooks, ?_⟩
  have hstart := Environment.fresh_orderly 0 ⟨0, 0⟩
  have henv : resolvedEnvironment.Orderly := (Environment.serve_spec
    (Environment.serveAll_orderly hstart intrusionRun hbefore) (intrusionEnd 1 .finish) hrange).1
  obtain ⟨taskIds, hperm, houtcome⟩ := fireJoin_of_resolved (e := .default) henv hstored
    (List.ne_nil_of_mem hsibling) hended (fun record hrecord => by cases hrecord)
  have hrecorded : t.id ∈ taskIds := by
    rw [hperm.mem_iff]
    exact List.mem_map_of_mem hsibling
  exact ⟨_, houtcome, _, List.mem_append_right _ (List.mem_singleton_self _), t, ht, hrecorded,
    hparent⟩

end ApprovalWorkflow
