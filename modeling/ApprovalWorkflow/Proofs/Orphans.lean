import ApprovalWorkflow.CommandLine.Run
import ApprovalWorkflow.Proofs.Obstacles
import ApprovalWorkflow.Proofs.StoredWorkflows

/-!
# Instances whose workflow is gone

An instance begins under an active workflow, and no workflow becomes a draft again. So if the
workflow of a running instance is missing, then it was cancelled first and deleted then, while the
instance was running already (`Call.Orphans`): whether a workflow may be deleted depends on its own
status and not on its instances.

As long as the workflow is there, nothing that is asked for about a task of a running instance fails
for want of it (`Operation.FindsWorkflows`), and the command that lists open tasks comes across them
(`CommandLine.Command.tasks_yields`, `Store.mem_listed`).
-/

set_option autoImplicit false

namespace ApprovalWorkflow

open Engine

/-! ## Workflows that are under way -/

/-- The workflow of an instance is there, and it is no draft. -/
def Store.IsUnderWay (s : Store) (workflow : Uuid) : Prop :=
  ∃ w, s.workflow? workflow = some w ∧ w.status ≠ .draft

/-- The call deletes the workflow of an instance, which has been cancelled while the instance is
running. -/
structure Call.Orphans (c : Call) (env : Environment) (e : Engine) (i : Instance) : Prop where
  request : c.request = .deleteWorkflow i.workflowId
  answer : env.answer e c = .ok ()
  cancelled : ∃ w, env.store.workflow? i.workflowId = some w ∧ w.status = .cancelled
  running : ∃ j, env.store.instance? i.id = some j ∧ j.workflowId = i.workflowId ∧ j.isRunning

namespace Environment

variable {e : Engine} {env : Environment} {id : Uuid}

/-- A workflow that is under way stays so, unless it has been cancelled and the call deletes it. -/
theorem serve_underWay (henv : env.Orderly) (c : Call) (hrange : (env.serve e c).ids.InRange)
    {w : Workflow} (hw : env.store.workflow? id = some w) (hdraft : w.status ≠ .draft) :
    (env.serve e c).store.IsUnderWay id ∨
      c.request = .deleteWorkflow id ∧ env.answer e c = .ok () ∧ w.status = .cancelled := by
  obtain ⟨hmem, rfl⟩ := henv.store.workflow?_eq_some_iff.mp hw
  rcases serve_keeps (e := e) henv c hmem with ⟨u, hu, hbecame⟩ | hdeletes
  · have horderly := (serve_spec henv c hrange).1
    have hfound := horderly.store.workflow?_eq_some_iff.mpr ⟨hu, hbecame.id⟩
    exact .inl ⟨u, hfound, hbecame.begun hdraft⟩
  · exact .inr ⟨hdeletes.request, hdeletes.answer, hdeletes.status.resolve_left hdraft⟩

/-- The workflow of an instance that a call starts is under way. -/
theorem serve_starts (henv : env.Orderly) (c : Call) (hrange : (env.serve e c).ids.InRange)
    {i : Instance} (hnone : env.store.instance? i.id = none)
    (hi : i ∈ (env.serve e c).store.instances) :
    (env.serve e c).store.IsUnderWay i.workflowId := by
  obtain ⟨w, input, hrequest, hw, hactive⟩ := serve_creates henv c hrange hnone hi
  -- a start leaves the workflows as they are
  have hstays : (env.serve e c).store.workflows = env.store.workflows :=
    (Request.perform_proceeds (by rw [hrequest]; trivial)).workflows
  refine ⟨w, ?_, by rw [hactive]; decide⟩
  rwa [Store.workflow?, hstays]

/-- A call lets the store evolve. -/
theorem serve_evolves (env : Environment) (e : Engine) (c : Call) :
    env.store.Evolves (env.serve e c).store := by
  have hevolves : (c.request.perform e).Leads Store.Evolves { env with now := c.time } :=
    c.request.perform_evolves
  exact hevolves

/-- What has become of the workflow of a running instance in the course of a run: it is under way,
or one of the calls has deleted it. -/
def Accounts (seed : Nat) (start : Timestamp) (e : Engine) (calls : List Call) (i : Instance) :
    Prop :=
  ((fresh seed start).serveAll e calls).store.IsUnderWay i.workflowId ∨
    ∃ before c after, calls = before ++ c :: after ∧
      c.Orphans ((fresh seed start).serveAll e before) e i

/-- The workflow of every running instance is under way, unless it has been deleted. -/
theorem serveAll_accounts (seed : Nat) (start : Timestamp) (calls : List Call)
    (hrange : ((fresh seed start).serveAll e calls).ids.InRange) {i : Instance}
    (hi : i ∈ ((fresh seed start).serveAll e calls).store.instances) (hrunning : i.isRunning) :
    Accounts seed start e calls i := by
  have hstart := fresh_orderly seed start
  induction calls using List.reverseRecOn generalizing i with
  | nil => cases hi
  | append_singleton calls c ih =>
    have happend := (fresh seed start).serveAll_concat e calls c
    rw [happend] at hrange hi
    have hbefore := hrange.of_grows (((fresh seed start).serveAll e calls).serve_grows e c)
    have henv := serveAll_orderly hstart calls hbefore
    have horderly := (serve_spec henv c hrange).1
    have hfound := horderly.store.instance?_eq_some_iff.mpr ⟨hi, rfl⟩
    cases hold : ((fresh seed start).serveAll e calls).store.instance? i.id with
    | none =>
      refine .inl ?_
      rw [happend]
      exact serve_starts henv c hrange hold hi
    | some j =>
      obtain ⟨hj, hid⟩ := henv.store.instance?_eq_some_iff.mp hold
      -- an instance that is running has been running before, under the same workflow
      have hjrunning : j.isRunning := by
        by_contra hended
        obtain ⟨hfrozen, -⟩ := (serve_evolves _ e c).frozen i.id j hold (by simpa using hended)
        obtain rfl : j = i := Option.some.inj (hfrozen.symm.trans hfound)
        exact hended hrunning
      have hworkflow : i.workflowId = j.workflowId := by
        have hturned := (serve_spec henv c hrange).2.2 i.id
        rw [situation?_eq_some_iff.mpr ⟨j, hold, rfl⟩,
          situation?_eq_some_iff.mpr ⟨i, hfound, rfl⟩] at hturned
        cases hturned with
        | turns h => exact h.record_eq.2
      rcases ih hbefore hj hjrunning with ⟨w, hw, hdraft⟩ | ⟨before, c', after, rfl, horphans⟩
      · rcases serve_underWay henv c hrange hw hdraft with
          hunder | ⟨hrequest, hanswer, hcancelled⟩
        · rw [← hworkflow] at hunder
          exact .inl (happend ▸ hunder)
        · rw [← hworkflow] at hrequest hw
          exact .inr ⟨calls, c, [], rfl, hrequest, hanswer, ⟨w, hw, hcancelled⟩,
            ⟨j, hold, hworkflow.symm, hjrunning⟩⟩
      · obtain ⟨hrequest, hanswer, hcancelled, hrun⟩ := horphans
        rw [← hworkflow] at hrequest hcancelled
        rw [hid, ← hworkflow] at hrun
        exact .inr ⟨before, c', after ++ [c], by simp, hrequest, hanswer, hcancelled, hrun⟩

end Environment

/-! ## Progress of running instances -/

/-- The operation does not fail for want of a workflow, and neither is that written down on the task
that it gives. -/
def Operation.FindsWorkflows (x : Operation Task) (env : Environment) : Prop :=
  ∀ id, (x.runIn env).1 ≠ .error (.workflowNotFound id) ∧
    ∀ t, (x.runIn env).1 = .ok t → t.progression ≠ .failed (EngineError.workflowNotFound id).message

namespace EngineError

/-- An error that is not about a workflow, and does not read as if it were. -/
def IsOther (error : EngineError) : Prop :=
  ∀ id, error ≠ .workflowNotFound id ∧ error.message ≠ (workflowNotFound id).message

/-- An error with another first letter. -/
theorem IsOther.of_initial {error : EngineError} (letter : Char)
    (h : error.message.toList.head? = some letter) (hletter : letter ≠ 'w') : error.IsOther := by
  have hmessage : ∀ id, error.message ≠ (workflowNotFound id).message := by
    intro id hsame
    have hinitial : (workflowNotFound id).message.toList.head? = some 'w' :=
      Text.head?_append (by decide) _
    rw [hsame, hinitial] at h
    exact hletter (Option.some.inj h).symm
  refine fun id => ⟨?_, hmessage id⟩
  rintro rfl
  exact hmessage id rfl

/-- That a step is not found does not read as if a workflow were not. -/
theorem isOther_stepNotFound (key : String) : (stepNotFound key).IsOther :=
  .of_initial 's' (Text.head?_append (Text.head?_append (by decide) _) _) (by decide)

/-- That there is no previous task does not read as if a workflow were not found. -/
theorem isOther_noPreviousTask (id : Uuid) : (noPreviousTask id).IsOther :=
  .of_initial 'c' (Text.head?_append (Text.head?_append (by decide) _) _) (by decide)

/-- That there are too many steps does not read as if a workflow were not found. -/
theorem isOther_stepLimitExceeded (limit : Nat) : (stepLimitExceeded limit).IsOther :=
  .of_initial 'm' (Text.head?_append (Text.head?_append (by decide) _) _) (by decide)

end EngineError

namespace Situation

variable {e : Engine} {σ : Situation} {now : Timestamp} {t : Task} {error : EngineError}

/-- The course of an instance that follows a definition does not fail for want of a workflow. -/
theorem course_isOther {d : Definition} (hd : σ.followed = .ok d)
    (h : (σ.course e now t).outcome e = .error error) : error.IsOther := by
  have hwalk : ∀ ending : WalkEnd, ending.outcome e.settings.maxAutoSteps = .error error →
      error.IsOther := by
    intro ending hending
    rw [WalkEnd.of_outcome_error hending]
    exact EngineError.isOther_stepLimitExceeded _
  rw [course, hd] at h
  dsimp only at h
  split at h
  · unfold back at h
    split at h
    · cases h
      exact EngineError.isOther_noPreviousTask _
    · split at h <;> cases h
      exact EngineError.isOther_stepNotFound _
  · unfold onward at h
    split at h
    · next hflow =>
      cases h
      unfold Definition.flowStep at hflow
      dsimp only at hflow
      split at hflow <;> cases hflow
      exact EngineError.isOther_stepNotFound _
    · dsimp only [leadOn] at h
      split at h
      · split at h
        · cases h
        · exact hwalk _ h
      · exact hwalk _ h

end Situation

namespace Operation.FindsWorkflows

variable {e : Engine} {env env' : Environment} {σ : Situation} {t u : Task} {x : Operation Task}

/-- An operation that yields a task on which no such failure is written down. -/
theorem of_ok (hx : x.Yields env (.ok t) env')
    (ht : ∀ text, t.progression = .failed text → ∃ error : EngineError,
      error.IsOther ∧ text = error.message) : x.FindsWorkflows env := by
  intro id
  rw [hx.outcome]
  refine ⟨nofun, ?_⟩
  rintro u ⟨⟩ hfailed
  obtain ⟨error, hother, htext⟩ := ht _ hfailed
  exact (hother id).2 htext.symm

/-- An operation that fails with another error. -/
theorem of_error {error : EngineError} (hx : x.Yields env (.error error) env')
    (herror : ∀ id, error ≠ .workflowNotFound id) : x.FindsWorkflows env := by
  intro id
  rw [hx.outcome]
  exact ⟨fun h => herror id (Except.error.inj h), fun u hu => by cases hu⟩

/-- Carrying a task of an instance that follows a definition through. -/
theorem progress (henv : env.Orderly) (ht : t ∈ env.store.tasks)
    (hσ : env.store.situation? t.instanceId = some σ) {d : Definition} (hd : σ.followed = .ok d)
    (hx : x.ActsAs (e.progress t.id) env) (hrange : x.StaysInRange env) :
    x.FindsWorkflows env := by
  have hfound := henv.store.task?_eq_some_iff.mpr ⟨ht, rfl⟩
  by_cases hadvanced : t.progression = .advanced
  · refine of_ok (hx.yields (progress_of_advanced henv.outage hfound hadvanced)) fun text htext => ?_
    rw [hadvanced] at htext
    cases htext
  cases hopen : t.status.isOpen with
  | true => exact of_error (hx.yields (progress_of_open henv.outage hfound hadvanced hopen)) nofun
  | false =>
    obtain ⟨hyields, -⟩ :=
      progress_yields henv hfound hadvanced hopen hσ (hrange.of_actsAs hx)
    have hdone := hx.yields hyields
    cases houtcome : (σ.course e env.now t).outcome e with
    | ok _ =>
      rw [houtcome] at hdone
      exact of_ok hdone fun text htext => by cases htext
    | error error =>
      rw [houtcome] at hdone
      exact of_error hdone fun id => (Situation.course_isOther hd houtcome id).1

/-- Trying again to carry a task of an instance that follows a definition through. -/
theorem retry (henv : env.Orderly) (ht : t ∈ env.store.tasks)
    (hσ : env.store.situation? t.instanceId = some σ) {d : Definition} (hd : σ.followed = .ok d)
    (hrange : (Tasks.retry e t.id).StaysInRange env) : (Tasks.retry e t.id).FindsWorkflows env := by
  have hfound := henv.store.task?_eq_some_iff.mpr ⟨ht, rfl⟩
  by_cases hstalled : t.progression.isStalled
  · exact progress henv ht hσ hd (Tasks.retry_actsAs henv hfound hstalled) hrange
  · exact of_error (Tasks.retry_refused henv hfound hstalled) nofun

/-- Completing a task of an instance that follows a definition. -/
theorem complete (henv : env.Orderly) (ht : t ∈ env.store.tasks)
    (hσ : env.store.situation? t.instanceId = some σ) {d : Definition} (hd : σ.followed = .ok d)
    (a : Actor) (c : Completion) (hrange : (Tasks.complete e t.id a c).StaysInRange env) :
    (Tasks.complete e t.id a c).FindsWorkflows env := by
  have hfound := henv.store.task?_eq_some_iff.mpr ⟨ht, rfl⟩
  have htry : (env.store.tryTask t.id fun t => t.finishedBy a c env.now) =
      t.finishedBy a c env.now := by rw [Store.tryTask, hfound]
  cases hu : t.finishedBy a c env.now with
  | error error =>
    refine of_error (Tasks.complete_refused henv (htry.trans hu)) ?_
    rintro id rfl
    unfold Task.finishedBy at hu
    split at hu
    · cases hu
    · next hopen =>
      split at hu
      · cases hu
      · rw [Task.complete, if_neg hopen] at hu
        cases hu
  | ok u =>
    obtain ⟨-, hyields, -⟩ := Tasks.complete_carried henv ht hu hσ hrange
    refine of_ok hyields fun text htext => ?_
    -- the definition that is followed does not depend on the tasks
    cases houtcome : ((σ.withTask u).course e env.now u).outcome e with
    | ok _ =>
      rw [houtcome] at htext
      cases htext
    | error error =>
      rw [houtcome] at htext
      cases htext
      exact ⟨error, Situation.course_isOther (σ := σ.withTask u) hd houtcome, rfl⟩

end Operation.FindsWorkflows

/-! ## The list of open tasks -/

/-- The open tasks of the instances of all workflows, in the order in which they are listed. -/
def Store.listed (s : Store) : List Task :=
  s.listWorkflows.flatMap fun w => (s.listInstances w.id).flatMap fun i =>
    (s.tasksOf i.id).filter fun t => t.status.isOpen

/-- A task is listed if it is open and its instance belongs to a workflow of the store. -/
theorem Store.mem_listed {s : Store} {ids : IdSource} (hs : s.Orderly ids) {t : Task} :
    t ∈ s.listed ↔ t ∈ s.tasks ∧ t.status.isOpen ∧ ∃ i, s.instance? t.instanceId = some i ∧
      (s.workflow? i.workflowId).isSome := by
  simp only [listed, listWorkflows, listInstances, List.mem_flatMap, List.mem_mergeSort,
    List.mem_filter, mem_tasksOf, beq_iff_eq]
  constructor
  · rintro ⟨w, hw, i, ⟨hi, hworkflow⟩, ⟨ht, howner⟩, hopen⟩
    have hfound := hs.workflow?_eq_some_iff.mpr ⟨hw, rfl⟩
    refine ⟨ht, hopen, i, hs.instance?_eq_some_iff.mpr ⟨hi, howner.symm⟩, ?_⟩
    rw [hworkflow, hfound]
    rfl
  · rintro ⟨ht, hopen, i, hi, hthere⟩
    obtain ⟨w, hw⟩ := Option.isSome_iff_exists.mp hthere
    obtain ⟨hmem, hid⟩ := hs.instance?_eq_some_iff.mp hi
    obtain ⟨hstored, hworkflow⟩ := hs.workflow?_eq_some_iff.mp hw
    exact ⟨w, hstored, i, ⟨hmem, hworkflow.symm⟩, ⟨ht, hid.symm⟩, hopen⟩

namespace CommandLine

open Operation

variable {e : Engine} {env : Environment}

/-- The lines of the open tasks of an instance are those of its tasks in the store that are open.
-/
theorem openLines_yields (henv : env.outage = none) (i : Uuid) :
    (openLines e i).Yields env
      (.ok (((env.store.tasksOf i).filter fun t => t.status.isOpen).map taskLine)) env :=
  .bind (.bind (e.tasksOf_yields i henv) (.pure _ _)) (.pure _ _)

/-- The instances of some workflows are those that the store lists for each of them. -/
theorem instancesOf_yields (henv : env.outage = none) (ws : List Workflow) :
    (instancesOf ws).Yields env
      (.ok (ws.flatMap fun w => (env.store.listInstances w.id).map Instance.id)) env := by
  induction ws with
  | nil => exact .pure _ _
  | cons w ws ih =>
    exact .bind (Repository.query_yields .listInstances (fun s => s.listInstances w.id) henv)
      (.bind ih (.pure _ _))

/-- The lines of the open tasks of some instances are those of each of them, one after the other.
-/
theorem openLinesOf_yields (henv : env.outage = none) (ids : List Uuid) :
    (openLinesOf e ids).Yields env
      (.ok (ids.flatMap fun i =>
        ((env.store.tasksOf i).filter fun t => t.status.isOpen).map taskLine)) env := by
  induction ids with
  | nil => exact .pure _ _
  | cons i ids ih => exact .bind (openLines_yields henv i) (.bind ih (.pure _ _))

/-- The command without an instance prints a line for each task that is listed. -/
theorem Command.tasks_yields (henv : env.outage = none) (files : String → Reading) :
    (Command.execute e files (.tasks none)).Yields env (.ok (env.store.listed.map taskLine)) env := by
  have hlines : env.store.listed.map taskLine =
      (env.store.listWorkflows.flatMap fun w =>
        (env.store.listInstances w.id).map Instance.id).flatMap fun i =>
          ((env.store.tasksOf i).filter fun t => t.status.isOpen).map taskLine := by
    simp only [Store.listed, List.map_flatMap, List.flatMap_assoc, List.flatMap_map]
  rw [hlines]
  exact .bind (Repository.query_yields .listWorkflows Store.listWorkflows henv)
    (.bind (instancesOf_yields henv _) (openLinesOf_yields henv _))

end CommandLine

/-! ## Runs -/

/-- The workflow of a running instance is missing only if it has been cancelled, and deleted while
the instance was running. As long as it is there, carrying a task of the instance through, trying to
do so again and completing the task do not fail for want of a workflow. The command without an
instance prints the open tasks of all instances whose workflow is there. -/
theorem orphaned_only_by_deletion (seed : Nat) (start : Timestamp) (e : Engine)
    (calls : List Call) (hrange : ((Environment.fresh seed start).serveAll e calls).ids.InRange) :
    let env := (Environment.fresh seed start).serveAll e
    (∀ i ∈ (env calls).store.instances, i.isRunning →
      ((env calls).store.IsUnderWay i.workflowId ∨
        ∃ before c after, calls = before ++ c :: after ∧ c.Orphans (env before) e i) ∧
      (((env calls).store.workflow? i.workflowId).isSome →
        ∀ t ∈ (env calls).store.tasksOf i.id, ∀ (now : Timestamp) (x : Operation Task),
          (x = e.progress t.id ∨ x = Tasks.retry e t.id ∨
            ∃ a c, x = Tasks.complete e t.id a c) →
          (x.leaves { env calls with now := now }).ids.InRange →
          x.FindsWorkflows { env calls with now := now })) ∧
      (∀ files, ((CommandLine.Command.execute e files (.tasks none)).runIn (env calls)).1 =
        .ok ((env calls).store.listed.map CommandLine.taskLine)) ∧
      ∀ t, t ∈ (env calls).store.listed ↔
        t ∈ (env calls).store.tasks ∧ t.status.isOpen ∧
          ∃ i, (env calls).store.instance? t.instanceId = some i ∧
            ((env calls).store.workflow? i.workflowId).isSome := by
  intro env
  have henv : (env calls).Orderly :=
    Environment.serveAll_orderly (Environment.fresh_orderly seed start) calls hrange
  refine ⟨fun i hi hrunning => ⟨?_, fun hthere t ht now x hx hlast => ?_⟩, fun files => ?_,
    fun t => Store.mem_listed henv.store⟩
  · exact Environment.serveAll_accounts seed start calls hrange hi hrunning
  · obtain ⟨hmem, howner⟩ := Store.mem_tasksOf.mp ht
    obtain ⟨w, hw⟩ := Option.isSome_iff_exists.mp hthere
    obtain ⟨d, hd⟩ := Environment.serveAll_readable seed start calls hrange w
      (henv.store.workflow?_eq_some_iff.mp hw).1
    have hσ : (env calls).store.situation? t.instanceId =
        some ⟨i, (env calls).store.tasksOf t.instanceId, (env calls).store.definitionOf i⟩ :=
      situation?_eq_some_iff.mpr
        ⟨i, henv.store.instance?_eq_some_iff.mpr ⟨hi, howner.symm⟩, rfl⟩
    have hfollowed : Situation.followed ⟨i, (env calls).store.tasksOf t.instanceId,
        (env calls).store.definitionOf i⟩ = .ok d := by
      refine followed_eq_ok.mpr ⟨hrunning, ?_⟩
      rw [Store.definitionOf, hw]
      exact hd
    have horderly := henv.at_time now
    have hstays := Operation.StaysInRange.of_leaves hlast
    rcases hx with rfl | rfl | ⟨a, c, rfl⟩
    · exact .progress horderly hmem hσ hfollowed (.refl _ _) hstays
    · exact .retry horderly hmem hσ hfollowed hstays
    · exact .complete horderly hmem hσ hfollowed a c hstays
  · exact (CommandLine.Command.tasks_yields henv.outage files).outcome

/-- After `fanOutRun` the workflow is cancelled and deleted. -/
def orphaningRun : List Call :=
  let workflow := IdSource.issue 0 .workflow 0
  fanOutRun ++ Call.atOnce ⟨0, 0⟩ [.applyAction .cancel workflow, .deleteWorkflow workflow]

/-- A running instance with an open task is left, whose workflow is gone. -/
theorem orphaningRun_leaves :
    let env := (Environment.fresh 0 ⟨0, 0⟩).serveAll .default orphaningRun
    env.ids.InRange ∧ ∃ i ∈ env.store.instances, i.isRunning ∧
      env.store.workflow? i.workflowId = none ∧
      ∃ t ∈ env.store.tasksOf i.id, t.status.isOpen := by decide +kernel

/-- The workflow was deleted while the instance was running. -/
theorem orphaned_only_by_deletion_once :
    let env := (Environment.fresh 0 ⟨0, 0⟩).serveAll .default
    ∃ i ∈ (env orphaningRun).store.instances, i.isRunning ∧ ∃ before c after,
      orphaningRun = before ++ c :: after ∧ c.Orphans (env before) .default i := by
  obtain ⟨hrange, i, hi, hrunning, hgone, -⟩ := orphaningRun_leaves
  obtain ⟨hinstances, -⟩ := orphaned_only_by_deletion 0 ⟨0, 0⟩ .default orphaningRun hrange
  obtain ⟨⟨w, hw, -⟩ | horphaned, -⟩ := hinstances i hi hrunning
  · rw [hgone] at hw
    cases hw
  · exact ⟨i, hi, hrunning, horphaned⟩

/-- A running instance may be left without its workflow. Its open tasks are not listed, and when one
of them is completed, the instance does not go on. -/
theorem running_instance_orphaned :
    let env := (Environment.fresh 0 ⟨0, 0⟩).serveAll .default orphaningRun
    (env.ids.InRange ∧ ∃ i ∈ env.store.instances, i.isRunning ∧
      env.store.workflow? i.workflowId = none ∧
      ∃ t ∈ env.store.tasksOf i.id, t.status.isOpen) ∧
      ((CommandLine.Command.execute .default (fun _ => .ok "") (.tasks none)).runIn env).1 =
        .ok [] ∧
      ((Tasks.complete .default (IdSource.issue 0 .task 0) ⟨"u", []⟩
        ⟨.completed, .null, none⟩).runIn env).1.map Task.progression =
          .ok (.failed (EngineError.workflowNotFound (IdSource.issue 0 .workflow 0)).message) :=
  ⟨orphaningRun_leaves, by decide +kernel⟩

end ApprovalWorkflow
