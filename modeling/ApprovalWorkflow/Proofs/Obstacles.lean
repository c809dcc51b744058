import ApprovalWorkflow.Proofs.Lives
import ApprovalWorkflow.Proofs.Workflows

/-!
# What can stand in the way of a finished task

While definitions are not replaced, the definition of an instance has the origins of all its
tasks (`Situation.IsRooted`), and only definitions that can be read are stored. So when the end
of a task is carried through, its key and its parallel step are found, also those of the earlier
task to which a rejection goes back. What remains are four reasons why it may fail (`Obstacle`):
the instance has ended, its workflow has been deleted, there is no task to go back to, or the walk
takes too many steps. `Situation.IsClear` says this of the failures that are written down on
tasks, and is kept by every turn.
-/

set_option autoImplicit false

namespace ApprovalWorkflow

open Engine

/-- The errors with which carrying a task of an instance through can end. -/
inductive Obstacle (maxAutoSteps : Nat) (run workflow task : Uuid) : EngineError → Prop
  /-- The instance has ended. -/
  | ended : Obstacle maxAutoSteps run workflow task (.instanceNotRunning run)
  /-- The workflow of the instance has been deleted. -/
  | orphaned : Obstacle maxAutoSteps run workflow task (.workflowNotFound workflow)
  /-- No task has been completed to which the instance could go back. -/
  | first : Obstacle maxAutoSteps run workflow task (.noPreviousTask task)
  /-- The walk takes more steps than it may. -/
  | limit : Obstacle maxAutoSteps run workflow task (.stepLimitExceeded maxAutoSteps)

namespace Definition

variable {d : Definition} {origin : TaskOrigin}

/-- The key of an origin leads to an origin, if not to this one. -/
theorem resolve?_isSome (hd : d.HasDistinctIds) (h : d.Has origin) :
    (d.resolve? origin.key).isSome := by
  cases origin with
  | step s =>
    rw [resolve?_step_key hd h]
    rfl
  | branch p b =>
    rw [resolve?]
    split
    · rfl
    · rw [List.findSome?_isSome_iff]
      exact ⟨p, h.1, by rw [TaskOrigin.key, branchOf?_branchKey hd h.1 h.2]; rfl⟩

/-- The parallel step of an origin is a step of the definition. -/
theorem find?_parent (hd : d.HasDistinctIds) (h : d.Has origin) {id : String}
    (hid : origin.parentId? = some id) : ∃ p, d.find? id = some p ∧ p.isParallel := by
  cases origin with
  | step s => cases hid
  | branch p b =>
    obtain rfl := Option.some.inj hid
    exact ⟨p, hd.find?_eq h.1, isParallel_of_mem_branches h.2⟩

end Definition

/-- A walk fails only at its limit. -/
theorem WalkEnd.of_outcome_error {maxAutoSteps : Nat} {ending : WalkEnd} {error : EngineError}
    (h : ending.outcome maxAutoSteps = .error error) : error = .stepLimitExceeded maxAutoSteps := by
  cases ending <;> cases h
  rfl

namespace Situation

variable {e : Engine} {σ σ' : Situation} {now : Timestamp} {ids : IdSource} {t u : Task}

/-- An instance with tasks follows a definition that can be read, unless its workflow is gone. -/
def IsReadable (σ : Situation) : Prop :=
  ∀ error, σ.definition = .error error → error = .workflowNotFound σ.record.workflowId

/-- The only errors in which the course of an instance with rooted tasks can end. -/
theorem IsRooted.obstacle (hroot : σ.IsRooted) (hread : σ.IsReadable) (ht : t ∈ σ.tasks)
    {error : EngineError} (h : (σ.course e now t).outcome e = .error error) :
    Obstacle e.settings.maxAutoSteps σ.record.id σ.record.workflowId t.id error := by
  unfold course at h
  split at h
  · next failure hfollowed =>
    cases h
    unfold followed at hfollowed
    split at hfollowed
    · rw [hread error hfollowed]
      exact .orphaned
    · cases hfollowed
      exact .ended
  · next d hfollowed =>
    have hd := (followed_eq_ok.mp hfollowed).2
    have hdistinct := Definition.hasDistinctIds_of_isSound (hroot.sound d hd)
    split at h
    · -- the task to which the instance goes back has an origin, so that its key leads somewhere
      unfold back at h
      split at h
      · cases h
        exact .first
      · next previous hprevious =>
        obtain ⟨origin, horigin, hfrom⟩ :=
          hroot.rooted d hd previous (of_previousTask? hprevious).1
        have hfound := Definition.resolve?_isSome hdistinct horigin
        rw [← hfrom.key] at hfound
        split at h
        · next hnone =>
          rw [hnone] at hfound
          cases hfound
        · cases h
    · obtain ⟨origin, horigin, hfrom⟩ := hroot.rooted d hd t ht
      rw [onward, hfrom.flowStep_eq hdistinct horigin] at h
      dsimp only [leadOn] at h
      split at h
      · split at h
        · cases h
        · rw [WalkEnd.of_outcome_error h]
          exact .limit
      · rw [WalkEnd.of_outcome_error h]
        exact .limit

/-! ## Failures that are written down -/

/-- The failure that is written down on the task, if any, is an obstacle. -/
def IsMarked (e : Engine) (σ : Situation) (t : Task) : Prop :=
  ∀ text, t.progression = .failed text → ∃ error,
    Obstacle e.settings.maxAutoSteps σ.record.id σ.record.workflowId t.id error ∧
      text = error.message

/-- The tasks have origins in the definition, which can be read unless the workflow is gone, and
the failures written down on them are obstacles. -/
structure IsClear (e : Engine) (σ : Situation) : Prop extends σ.IsRooted where
  readable : σ.tasks ≠ [] → σ.IsReadable
  marked : ∀ t ∈ σ.tasks, σ.IsMarked e t

/-- A new instance is clear. -/
theorem IsClear.of_birth (h : σ.IsBirth now) :
    (σ.after (Workflows.launched e σ now ids)).IsClear e := by
  refine ⟨.of_birth h, fun htasks error herror => ?_, fun t ht text hfailed => ?_⟩
  · rw [after, h.tasks_eq, List.nil_append] at htasks
    rcases launched_cases e σ now ids with hnone | ⟨d, ending, hfollowed, -, -⟩
    · exact absurd hnone htasks
    · have hd : σ.definition = .error error := herror
      rw [(followed_eq_ok.mp hfollowed).2] at hd
      cases hd
  · rw [after, h.tasks_eq, List.nil_append] at ht
    rw [(launched_blank ht).progression] at hfailed
    cases hfailed

/-- A turn that keeps the definition of an instance leaves it readable, or deletes the workflow. -/
theorem IsReadable.turn {r : Request} (h : σ.IsReadable) (hturn : Turn e now r σ σ')
    (hr : r.Keeps σ.record.workflowId) : σ'.IsReadable := by
  intro error herror
  rw [hturn.record_eq.2]
  cases hturn with
  | orphaned => cases herror; rfl
  | redefined _ text => exact absurd rfl (hr text)
  | _ => exact h error herror

/-- After work on a task without a failure written down, an instance is still clear. -/
theorem IsClear.withTask (h : σ.IsClear e) (ht : t ∈ σ.tasks) (hbecame : t.Became u)
    (hu : ∀ text, u.progression = .failed text → t.progression = .failed text) :
    (σ.withTask u).IsClear e := by
  refine ⟨⟨h.sound, fun d hd v hv => ?_⟩, fun _ => h.readable (List.ne_nil_of_mem ht),
    fun v hv => ?_⟩
  · rcases (mem_put Task.id).mp hv with ⟨rfl, -⟩ | ⟨hv, -⟩
    · obtain ⟨origin, horigin, hfrom⟩ := h.rooted d hd t ht
      exact ⟨origin, horigin, hfrom.of_became hbecame⟩
    · exact h.rooted d hd v hv
  · rcases (mem_put Task.id).mp hv with ⟨rfl, -⟩ | ⟨hv, -⟩
    · intro text hfailed
      rw [hbecame.id_eq]
      exact h.marked t ht text (hu text hfailed)
    · exact h.marked v hv

/-- Carrying a task of a clear instance through writes down an obstacle, or no failure. -/
theorem IsClear.marked_carried (h : σ.IsClear e) (ht : t ∈ σ.tasks) :
    ∀ u ∈ (σ.carried e now ids t).tasks, σ.IsMarked e u := by
  intro u hu
  rcases (mem_put Task.id).mp hu with ⟨rfl, -⟩ | ⟨hu, -⟩
  · intro text hfailed
    cases houtcome : (σ.course e now t).outcome e with
    | ok _ =>
      rw [houtcome] at hfailed
      cases hfailed
    | error error =>
      rw [houtcome] at hfailed
      cases hfailed
      exact ⟨error, h.obstacle (h.readable (List.ne_nil_of_mem ht)) ht houtcome, rfl⟩
  · rcases List.mem_append.mp hu with hu | hu
    · exact h.marked u hu
    · intro text hfailed
      rw [(effect_blank hu).progression] at hfailed
      cases hfailed

/-- Turns keep an instance clear as long as they keep its definition. -/
theorem IsClear.turn {r : Request} (h : σ.IsClear e) (hturn : Turn e now r σ σ')
    (hr : r.Keeps σ.record.workflowId) : σ'.IsClear e := by
  refine ⟨h.toIsRooted.turn hturn hr, fun htasks => ?_, ?_⟩
  · -- a task was there before, or has been opened by following the definition
    obtain ⟨u, hu⟩ := List.exists_mem_of_ne_nil _ htasks
    refine IsReadable.turn (fun error herror => ?_) hturn hr
    rcases mem_of_turn hturn hu with ⟨t, ht, -⟩ | ⟨d, origin, hd, -, -⟩
    · exact h.readable (List.ne_nil_of_mem ht) error herror
    · rw [(followed_eq_ok.mp hd).2] at herror
      cases herror
  · have hsame := hturn.record_eq
    unfold IsMarked
    rw [hsame.1, hsame.2]
    cases hturn with
    | touched _ ht _ htouched =>
      refine (h.withTask ht htouched.became fun text hfailed => ?_).marked
      obtain ⟨_, _, _, -, rfl⟩ := htouched
      exact hfailed
    | finished ht hu =>
      have hfinished := (Task.of_finishedBy hu).2
      refine (h.withTask ht hfinished.became fun text hfailed => ?_).marked
      rw [hfinished.place.2.2] at hfailed
      cases hfailed
    | completed ids ht hu =>
      have hfinished := (Task.of_finishedBy hu).2
      have hclear := h.withTask ht hfinished.became fun text hfailed => by
        rw [hfinished.place.2.2] at hfailed
        cases hfailed
      exact hclear.marked_carried (mem_put_self Task.id ht hfinished.place.1)
    | carried ids _ ht _ _ => exact h.marked_carried ht
    | redefined _ text => exact absurd rfl (hr text)
    | _ => exact h.marked

end Situation

/-! ## Runs -/

/-- Requests that keep definitions keep every instance clear. -/
theorem Environment.serveAll_clear (seed : Nat) (start : Timestamp) (e : Engine)
    (calls : List Call) (hcalls : ∀ c ∈ calls, c.request.KeepsDefinitions)
    (hrange : ((fresh seed start).serveAll e calls).ids.InRange) {id : Uuid} {σ : Situation}
    (hσ : ((fresh seed start).serveAll e calls).store.situation? id = some σ) : σ.IsClear e :=
  serveAll_induction (P := fun _ σ => σ.IsClear e)
    (fun _ c σ ids _ hbirth => .of_birth hbirth)
    (fun _ c σ σ' hc _ _ h hturn => h.turn hturn (hc.keeps _)) (fresh_orderly seed start) calls
    (admitted_of_forall hcalls start) hrange (fun _ _ hσ => (by cases hσ)) hσ

/-- The only errors with which carrying an ended task through, or trying to do so again, can
end. -/
theorem Situation.IsClear.progress_obstacle {e : Engine} {env : Environment} {σ : Situation}
    {t : Task} (h : σ.IsClear e) (henv : env.Orderly)
    (hσ : env.store.situation? t.instanceId = some σ) (hmem : t ∈ env.store.tasks)
    (hin : t ∈ σ.tasks) (hended : t.status.isOpen = false) {x : Operation Task}
    (hx : x = e.progress t.id ∨ x = Tasks.retry e t.id ∧ t.progression.isStalled)
    (hrange : x.StaysInRange env) {error : EngineError} (herror : (x.runIn env).1 = .error error) :
    Obstacle e.settings.maxAutoSteps σ.record.id σ.record.workflowId t.id error := by
  have ht := henv.store.task?_eq_some_iff.mpr ⟨hmem, rfl⟩
  have hacts : x.ActsAs (e.progress t.id) env := by
    rcases hx with rfl | ⟨rfl, hstalled⟩
    · exact .refl _ _
    · exact Tasks.retry_actsAs henv ht hstalled
  by_cases hadvanced : t.progression = .advanced
  · rw [(hacts.yields (progress_of_advanced henv.outage ht hadvanced)).outcome] at herror
    cases herror
  · obtain ⟨hyields, -⟩ := progress_yields henv ht hadvanced hended hσ (hrange.of_actsAs hacts)
    rw [(hacts.yields hyields).outcome] at herror
    cases houtcome : (σ.course e env.now t).outcome e with
    | ok _ =>
      rw [houtcome] at herror
      cases herror
    | error failure =>
      rw [houtcome] at herror
      cases herror
      exact h.obstacle (h.readable (List.ne_nil_of_mem hin)) hin houtcome

/-- In every environment that requests reach without replacing a definition, each task belongs to
an instance, and if the workflow of that is there, its definition can be read, the key of the task
leads to an origin in it, and the parallel step of the task is one of its steps. So an obstacle is
all with which a task can be marked as failed, and all with which carrying it through, or trying
to do so again, can end. -/
theorem progression_obstacles (seed : Nat) (start : Timestamp) (e : Engine) (calls : List Call)
    (hcalls : ∀ c ∈ calls, c.request.KeepsDefinitions)
    (hrange : ((Environment.fresh seed start).serveAll e calls).ids.InRange) :
    let env := (Environment.fresh seed start).serveAll e calls
    ∀ t ∈ env.store.tasks, ∃ i, env.store.instance? t.instanceId = some i ∧
      (∀ w, env.store.workflow? i.workflowId = some w → ∃ d, w.parsedDefinition.value = .ok d ∧
        (d.resolve? t.key).isSome ∧
        ∀ id, t.parentStepId = some id → ∃ p, d.find? id = some p ∧ p.isParallel) ∧
      (∀ text, t.progression = .failed text → ∃ error,
        Obstacle e.settings.maxAutoSteps i.id i.workflowId t.id error ∧ text = error.message) ∧
      ∀ (now : Timestamp) (x : Operation Task) (error : EngineError),
        (x = e.progress t.id ∨ x = Tasks.retry e t.id ∧ t.progression.isStalled) →
        t.status.isOpen = false → (x.leaves { env with now := now }).ids.InRange →
        (x.runIn { env with now := now }).1 = .error error →
        Obstacle e.settings.maxAutoSteps i.id i.workflowId t.id error := by
  intro env t ht
  have henv : env.Orderly :=
    Environment.serveAll_orderly (Environment.fresh_orderly seed start) calls hrange
  obtain ⟨σ, hσ, hin⟩ := situation_of_task henv.store ht
  have hclear := Environment.serveAll_clear seed start e calls hcalls hrange hσ
  obtain ⟨i, hi, rfl⟩ := situation?_eq_some_iff.mp hσ
  refine ⟨i, hi, fun w hw => ?_, hclear.marked t hin, ?_⟩
  · have hdefinition : env.store.definitionOf i = w.parsedDefinition.value := by
      rw [Store.definitionOf, hw]
    obtain ⟨d, hd⟩ := Environment.serveAll_readable seed start calls hrange w
      (henv.store.workflow?_eq_some_iff.mp hw).1
    have hfollowed := hdefinition.trans hd
    have hdistinct := Definition.hasDistinctIds_of_isSound (hclear.sound d hfollowed)
    obtain ⟨origin, horigin, hfrom⟩ := hclear.rooted d hfollowed t hin
    refine ⟨d, hd, ?_, fun id hid => Definition.find?_parent hdistinct horigin ?_⟩
    · rw [hfrom.key]
      exact Definition.resolve?_isSome hdistinct horigin
    · exact hfrom.parent.symm.trans hid
  · intro now x error hx hended hlast herror
    have hσ' : ({ env with now := now } : Environment).store.situation? t.instanceId = some _ := hσ
    exact hclear.progress_obstacle (henv.at_time now) hσ' ht hin hended hx (.of_leaves hlast) herror

/-- After `fanOutRun` the instance is given up, and then the task of a branch is completed. -/
def blockedRun : List Call :=
  fanOutRun ++ Call.atOnce ⟨0, 0⟩ [.cancelInstance (IdSource.issue 0 .run 0),
    .complete (IdSource.issue 0 .task 0) ⟨"u", []⟩ ⟨.completed, .null, none⟩]

/-- The failure that is written down on the task of a branch is an obstacle, and the key of the
task and its parallel step are found. -/
theorem progression_obstacles_blocked :
    let env := (Environment.fresh 0 ⟨0, 0⟩).serveAll .default blockedRun
    ∃ t ∈ env.store.tasks, ∃ i error d p,
      t.progression = .failed error.message ∧
        Obstacle Engine.default.settings.maxAutoSteps i.id i.workflowId t.id error ∧
        env.store.definitionOf i = .ok d ∧ (d.resolve? t.key).isSome ∧ d.find? "p" = some p := by
  have hfirst : (((Environment.fresh 0 ⟨0, 0⟩).serveAll .default blockedRun).store.tasks.head?.map
      fun t => (t.parentStepId, t.progression.isStalled && t.progression ≠ .pending)) =
        some (some "p", true) := by decide +kernel
  have hthere : ((Environment.fresh 0 ⟨0, 0⟩).serveAll .default blockedRun).store.tasks.all
      fun t => (((Environment.fresh 0 ⟨0, 0⟩).serveAll .default blockedRun).store.instance?
        t.instanceId).all fun i => (((Environment.fresh 0 ⟨0, 0⟩).serveAll .default
          blockedRun).store.workflow? i.workflowId).isSome := by decide +kernel
  have hall := progression_obstacles 0 ⟨0, 0⟩ .default blockedRun
    (by simp [blockedRun, fanOutRun, Call.atOnce, Request.KeepsDefinitions]) (by decide +kernel)
  generalize (Environment.fresh 0 ⟨0, 0⟩).serveAll .default blockedRun = env at hfirst hthere hall ⊢
  obtain ⟨t, ht, hlooks⟩ := Option.map_eq_some_iff.mp hfirst
  have hmem := List.mem_of_head? ht
  obtain ⟨hparent, hfailed⟩ := Prod.mk.inj hlooks
  obtain ⟨i, hi, hdefinition, hmarked, -⟩ := hall t hmem
  have hworkflow := List.all_eq_true.mp hthere t hmem
  rw [hi, Option.all_some] at hworkflow
  obtain ⟨w, hw⟩ := Option.isSome_iff_exists.mp hworkflow
  obtain ⟨d, hd, hkey, hsteps⟩ := hdefinition w hw
  obtain ⟨p, hp, -⟩ := hsteps "p" hparent
  cases hprogression : t.progression with
  | failed text =>
    obtain ⟨error, hobstacle, rfl⟩ := hmarked text hprogression
    refine ⟨t, hmem, i, error, d, p, hprogression, hobstacle, ?_, hkey, hp⟩
    rw [Store.definitionOf, hw]
    exact hd
  | _ => simp [hprogression, Progression.isStalled] at hfailed

end ApprovalWorkflow
