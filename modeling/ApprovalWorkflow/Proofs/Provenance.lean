import ApprovalWorkflow.Proofs.Origins
import ApprovalWorkflow.Proofs.Turns

/-!
# Tasks stay what they were opened as

A task takes its key, its parallel step, its name and more from its origin (`Task.IsFrom`), and
whatever people do with it, these stay. So as long as the definition of an instance is not
replaced, each of its tasks comes from an origin in this definition (`Situation.IsRooted`), which
is the only one with the key and the parallel step of the task (`HasDistinctIds.origin_eq`).

A rejection opens an earlier task again under its key, and builds it from the origin to which the
key leads back. This is the origin of the earlier task exactly if the key leads back there;
otherwise the task that is opened again is another kind of task.
-/

set_option autoImplicit false

namespace ApprovalWorkflow

open Engine

/-! ## The origin of a task -/

namespace Task

/-- What the task has from its origin. -/
structure IsFrom (t : Task) (origin : TaskOrigin) : Prop where
  key : t.key = origin.key
  parent : t.parentStepId = origin.parentId?
  name : t.name = if origin.taskStep.name = "" then origin.taskStep.id else origin.taskStep.name
  description : t.description = origin.taskStep.description
  typeName : t.typeName = origin.taskStep.typeName
  users : t.candidateUsers = (origin.taskStep.params?.getD .default).candidateUsers
  groups : t.candidateGroups = (origin.taskStep.params?.getD .default).candidateGroups
  priority : t.priority = (origin.taskStep.params?.getD .default).priority
  form : t.formData = .obj [("fields", .arr
    ((origin.taskStep.params?.getD .default).formFields.map fun f => .ofFields f.toFields))]

/-- The task after people have worked on it or it has been carried through. -/
def Became (t u : Task) : Prop :=
  ∃ assignee status output result comment claimedAt completedAt progression, u = { t with
    assignee := assignee
    status := status
    output := output
    result := result
    comment := comment
    claimedAt := claimedAt
    completedAt := completedAt
    progression := progression }

variable {t u : Task} {origin : TaskOrigin}

/-- A task about which nothing is done is what it has become. -/
theorem Became.refl (t : Task) : t.Became t := ⟨_, _, _, _, _, _, _, _, rfl⟩

/-- What becomes of what has become of a task has become of the task. -/
theorem Became.trans {v : Task} (h : t.Became u) (h' : u.Became v) : t.Became v := by
  obtain ⟨_, _, _, _, _, _, _, _, rfl⟩ := h
  obtain ⟨_, _, _, _, _, _, _, _, rfl⟩ := h'
  exact ⟨_, _, _, _, _, _, _, _, rfl⟩

/-- Whatever becomes of a task, it keeps its identifier. -/
theorem Became.id_eq (h : t.Became u) : u.id = t.id := by
  obtain ⟨_, _, _, _, _, _, _, _, rfl⟩ := h
  rfl

/-- Whatever becomes of a task, it keeps its key. -/
theorem Became.key_eq (h : t.Became u) : u.key = t.key := by
  obtain ⟨_, _, _, _, _, _, _, _, rfl⟩ := h
  rfl

/-- Whatever becomes of a task, it keeps its parent step. -/
theorem Became.parentStepId_eq (h : t.Became u) : u.parentStepId = t.parentStepId := by
  obtain ⟨_, _, _, _, _, _, _, _, rfl⟩ := h
  rfl

/-- Whatever becomes of a task, it keeps the time at which it was created. -/
theorem Became.createdAt_eq (h : t.Became u) : u.createdAt = t.createdAt := by
  obtain ⟨_, _, _, _, _, _, _, _, rfl⟩ := h
  rfl

/-- A task that is claimed or handed on is what it may become. -/
theorem Touched.became (h : t.Touched u) : t.Became u := by
  obtain ⟨_, _, _, -, rfl⟩ := h
  exact ⟨_, _, _, _, _, _, _, _, rfl⟩

/-- A task that is finished is what it may become. -/
theorem Finished.became {c : Completion} {now : Timestamp} (h : t.Finished c now u) :
    t.Became u := by
  obtain ⟨_, rfl⟩ := h
  exact ⟨_, _, _, _, _, _, _, _, rfl⟩

/-- A task that is marked is what it may become. -/
theorem became_marked (t : Task) (outcome : Except EngineError Unit) :
    t.Became (t.marked outcome) := by
  obtain ⟨p, h⟩ := marked_eq t outcome
  rw [h]
  exact ⟨_, _, _, _, _, _, _, _, rfl⟩

/-- Work does not change where a task comes from. -/
theorem IsFrom.of_became (h : t.IsFrom origin) (hu : t.Became u) : u.IsFrom origin := by
  obtain ⟨_, _, _, _, _, _, _, _, rfl⟩ := hu
  exact ⟨h.key, h.parent, h.name, h.description, h.typeName, h.users, h.groups, h.priority,
    h.form⟩

/-- A task leads on from the step from which its origin leads on. -/
theorem IsFrom.flowStep_eq {d : Definition} (hd : d.HasDistinctIds) (horigin : d.Has origin)
    (h : t.IsFrom origin) : d.flowStep t = .ok origin.flowStep := by
  unfold Definition.flowStep
  rw [h.parent, h.key]
  cases origin with
  | step s =>
    simp only [TaskOrigin.parentId?, Definition.resolve?_step_key hd horigin, Option.map_some]
  | branch p b =>
    simp only [TaskOrigin.parentId?, hd.find?_eq horigin.1]
    rfl

/-- A branch task is from a branch. -/
theorem IsFrom.of_isBranch (h : t.IsFrom origin) (hbranch : t.isBranch) :
    ∃ p b, origin = .branch p b ∧ t.parentStepId = some p.id := by
  cases origin with
  | step s =>
    rw [isBranch, h.parent] at hbranch
    cases hbranch
  | branch p b => exact ⟨p, b, rfl, h.parent⟩

end Task

namespace Engine

variable {e : Engine} {σ : Situation} {now : Timestamp} {ids : IdSource} {t u : Task}

/-- A task that is built for an origin is from it. -/
theorem built_isFrom (e : Engine) (i : Instance) (history : List Task) (now : Timestamp)
    (id : Uuid) (origin : TaskOrigin) :
    (e.built i history now id (.ofOrigin origin)).IsFrom origin := by
  rw [built, Task.build_value]
  exact ⟨rfl, rfl, rfl, rfl, rfl, rfl, rfl, rfl, rfl⟩

/-- A task that is opened again under a key is from the origin to which the key leads back. -/
theorem reopened_isFrom {id : Uuid} {previous : Task} {origin : TaskOrigin}
    (hkey : previous.key = origin.key) :
    (e.reopened σ now id t previous origin).IsFrom origin := by
  rw [reopened, hkey]
  have hbuilt := e.built_isFrom σ.record σ.tasks now id origin
  exact ⟨hbuilt.key, hbuilt.parent, hbuilt.name, hbuilt.description, hbuilt.typeName,
    hbuilt.users, hbuilt.groups, hbuilt.priority, hbuilt.form⟩

/-- The tasks that a walk opens are from origins in the definition. -/
theorem walked_isFrom {i : Instance} {history : List Task} {d : Definition} {ending : WalkEnd}
    (hending : d.Contains ending) (hu : u ∈ (e.walked i history now ids ending).opened) :
    ∃ origin, d.Has origin ∧ u.IsFrom origin := by
  obtain ⟨o, ho, id, rfl⟩ := walked_opened hu
  rw [ending.openings_eq] at ho
  obtain ⟨origin, horigin, rfl⟩ := List.mem_map.mp ho
  exact ⟨origin, hending.has origin horigin, e.built_isFrom i history now id origin⟩

/-- The tasks that a course opens are from origins in the definition that the instance
follows. -/
theorem effect_isFrom (hu : u ∈ (e.effect σ now ids t (σ.course e now t)).opened) :
    ∃ d origin, σ.followed = .ok d ∧ d.Has origin ∧ u.IsFrom origin := by
  cases hc : σ.course e now t with
  | fails error => rw [hc] at hu; cases hu
  | waits => rw [hc] at hu; cases hu
  | walks i ending =>
    obtain ⟨d, s, hd, -, -, hending, -⟩ := of_course_walks hc
    have hcontained : d.Contains ending := by
      rw [hending]
      exact d.walk_contained _ _ _
    rw [hc] at hu
    obtain ⟨origin, horigin, hfrom⟩ := walked_isFrom hcontained hu
    exact ⟨d, origin, hd, horigin, hfrom⟩
  | reopens previous origin =>
    obtain ⟨d, hd, -, -, horigin⟩ := of_course_reopens hc
    obtain ⟨hhas, hkey⟩ := Definition.of_resolve?_eq_some horigin
    rw [hc] at hu
    obtain rfl := List.mem_singleton.mp hu
    exact ⟨d, origin, hd, hhas, reopened_isFrom hkey.symm⟩

end Engine

/-! ## Instances whose tasks have an origin -/

namespace Situation

variable {e : Engine} {σ σ' : Situation} {now : Timestamp} {ids : IdSource} {u : Task}

/-- The first walk of an instance ends in its definition. -/
theorem opening_contained {ending : WalkEnd} (h : σ.opening e = .ok ending) :
    ∃ d, σ.followed = .ok d ∧ d.Contains ending := by
  unfold opening at h
  split at h
  · cases h
  · next d hd =>
    split at h
    · cases h
    · next first _ hsteps =>
      cases h
      refine ⟨d, hd, Definition.arrival_contained ?_ (d.walk_contained _ _ _)⟩
      rw [hsteps]
      exact List.mem_cons_self

/-- Starting an instance opens no task, or adds what a walk in its definition adds. -/
theorem launched_cases (e : Engine) (σ : Situation) (now : Timestamp) (ids : IdSource) :
    (Workflows.launched e σ now ids).opened = [] ∨
      ∃ d ending, σ.followed = .ok d ∧ d.Contains ending ∧
        Workflows.launched e σ now ids =
          e.walked { σ.record with startedAt := now } σ.tasks now ids ending := by
  unfold Workflows.launched
  split
  · unfold begun
    split
    · exact .inl rfl
    · next ending hending =>
      obtain ⟨d, hd, hcontained⟩ := opening_contained hending
      exact .inr ⟨d, ending, hd, hcontained, rfl⟩
  · exact .inl rfl

/-- The tasks that are opened at the start of an instance are from origins in its definition. -/
theorem launched_isFrom (hu : u ∈ (Workflows.launched e σ now ids).opened) :
    ∃ d origin, σ.followed = .ok d ∧ d.Has origin ∧ u.IsFrom origin := by
  rcases launched_cases e σ now ids with hnone | ⟨d, ending, hd, hcontained, hwalked⟩
  · rw [hnone] at hu
    cases hu
  · rw [hwalked] at hu
    obtain ⟨origin, horigin, hfrom⟩ := walked_isFrom hcontained hu
    exact ⟨d, origin, hd, horigin, hfrom⟩

/-- The tasks of an instance that is carried on: those from before, and new ones from origins in
its definition. -/
theorem mem_carried {t : Task} (ht : t ∈ σ.tasks) (hu : u ∈ (σ.carried e now ids t).tasks) :
    (∃ v ∈ σ.tasks, v.Became u) ∨
      ∃ d origin, σ.followed = .ok d ∧ d.Has origin ∧ u.IsFrom origin := by
  rcases (mem_put Task.id).mp hu with ⟨rfl, -⟩ | ⟨hu, -⟩
  · exact .inl ⟨t, ht, t.became_marked _⟩
  · rcases List.mem_append.mp hu with hu | hu
    · exact .inl ⟨u, hu, .refl u⟩
    · exact .inr (effect_isFrom hu)

/-- What stands among the tasks when one of them has changed was there before, or is what that one
has become. -/
theorem mem_withTask {t v : Task} (ht : t ∈ σ.tasks) (hv : t.Became v)
    (hu : u ∈ (σ.withTask v).tasks) : ∃ w ∈ σ.tasks, w.Became u := by
  rcases (mem_put Task.id).mp hu with ⟨rfl, -⟩ | ⟨hu, -⟩
  · exact ⟨t, ht, hv⟩
  · exact ⟨u, hu, .refl u⟩

/-- After a turn, the tasks of an instance are those from before, and new ones from origins in
its definition. -/
theorem mem_of_turn {r : Request} (h : Turn e now r σ σ') (hu : u ∈ σ'.tasks) :
    (∃ t ∈ σ.tasks, t.Became u) ∨
      ∃ d origin, σ.followed = .ok d ∧ d.Has origin ∧ u.IsFrom origin := by
  cases h with
  | stays => exact .inl ⟨u, hu, .refl u⟩
  | orphaned => exact .inl ⟨u, hu, .refl u⟩
  | redefined => exact .inl ⟨u, hu, .refl u⟩
  | cancelled h => exact .inl ⟨u, hu, .refl u⟩
  | touched hr ht hopen htouched => exact .inl (mem_withTask ht htouched.became hu)
  | finished ht hfinished =>
    exact .inl (mem_withTask ht (Task.of_finishedBy hfinished).2.became hu)
  | carried ids hr ht hpending hended => exact mem_carried ht hu
  | completed ids ht hfinished =>
    have hbecame := (Task.of_finishedBy hfinished).2.became
    obtain ⟨hid, -⟩ := (Task.of_finishedBy hfinished).2.place
    have hmem : _ ∈ (σ.withTask _).tasks := mem_put_self Task.id ht hid
    rcases mem_carried hmem hu with ⟨v, hv, hu⟩ | ⟨d, origin, hd, horigin, hfrom⟩
    · obtain ⟨w, hw, hv⟩ := mem_withTask ht hbecame hv
      exact .inl ⟨w, hw, hv.trans hu⟩
    · exact .inr ⟨d, origin, hd, horigin, hfrom⟩

/-- A request that keeps the definition of an instance leaves it to the instance, or takes it
away. -/
theorem definition_of_turn {r : Request} (h : Turn e now r σ σ')
    (hr : r.Keeps σ.record.workflowId) {d : Definition} (hd : σ'.definition = .ok d) :
    σ.definition = .ok d := by
  cases h with
  | orphaned => cases hd
  | redefined _ text => exact absurd rfl (hr text)
  | _ => exact hd

/-- The definition of the instance is sound, and its tasks are from origins in there. -/
structure IsRooted (σ : Situation) : Prop where
  sound : ∀ d, σ.definition = .ok d → d.isSound
  rooted : ∀ d, σ.definition = .ok d → ∀ t ∈ σ.tasks, ∃ origin, d.Has origin ∧ t.IsFrom origin

/-- A new instance is rooted. -/
theorem IsRooted.of_birth (h : σ.IsBirth now) :
    (σ.after (Workflows.launched e σ now ids)).IsRooted := by
  obtain ⟨htasks, -, text, htext⟩ := h
  refine ⟨fun d hd => Definition.isSound_of_parse (htext.symm.trans hd), fun d hd t ht => ?_⟩
  rw [after, htasks, List.nil_append] at ht
  obtain ⟨d', origin, hd', horigin, hfrom⟩ := launched_isFrom ht
  have hsame : d' = d := Except.ok.inj ((followed_eq_ok.mp hd').2.symm.trans hd)
  exact ⟨origin, hsame ▸ horigin, hfrom⟩

/-- Turns keep an instance rooted as long as they keep its definition. -/
theorem IsRooted.turn {r : Request} (h : σ.IsRooted) (hturn : Turn e now r σ σ')
    (hr : r.Keeps σ.record.workflowId) : σ'.IsRooted := by
  refine ⟨fun d hd => h.sound d (definition_of_turn hturn hr hd), fun d hd u hu => ?_⟩
  have hbefore := definition_of_turn hturn hr hd
  rcases mem_of_turn hturn hu with ⟨t, ht, hbecame⟩ | ⟨d', origin, hd', horigin, hfrom⟩
  · obtain ⟨origin, horigin, hfrom⟩ := h.rooted d hbefore t ht
    exact ⟨origin, horigin, hfrom.of_became hbecame⟩
  · have hsame : d' = d := Except.ok.inj ((followed_eq_ok.mp hd').2.symm.trans hbefore)
    exact ⟨origin, hsame ▸ horigin, hfrom⟩

end Situation

/-! ## Tasks that are opened again -/

section Reopened

variable {e : Engine} {env : Environment} {σ : Situation} {d : Definition} {t u : Task}

/-- What a rejection opens again, in a situation with rooted tasks. -/
theorem goBack_isFrom (henv : env.Orderly) (hσ : env.store.situation? t.instanceId = some σ)
    (hroot : σ.IsRooted) (hd : σ.definition = .ok d) (hrange : (e.goBack t).StaysInRange env)
    (hu : ((e.goBack t).runIn env).1 = .ok u) :
    ∃ previous, previousTask? t (t.completedAt.getD env.now) σ.tasks = some previous ∧
      u.key = previous.key ∧ ∃ origin, d.Has origin ∧ previous.IsFrom origin ∧
        (d.resolve? previous.key = some origin → u.IsFrom origin) := by
  cases hfollowed : σ.followed with
  | error error =>
    have hlookup := runningInstance_yields henv.outage hσ
    rw [hfollowed] at hlookup
    have hyields : (e.goBack t).Yields env (.error error) env := .bind_error hlookup
    rw [hyields.outcome] at hu
    cases hu
  | ok d' =>
    obtain rfl : d' = d := Except.ok.inj ((followed_eq_ok.mp hfollowed).2.symm.trans hd)
    obtain ⟨⟨r, hyields, -, hreopened⟩, -⟩ := goBack_yields henv hσ hfollowed hrange
    obtain ⟨previous, found, hcourse, rfl⟩ := hreopened u (hyields.outcome.symm.trans hu)
    obtain ⟨hprevious, hfound⟩ := of_back_eq_reopens hcourse
    obtain ⟨origin, horigin, hfrom⟩ := hroot.rooted d' hd previous (of_previousTask? hprevious).1
    have hkey := (Definition.of_resolve?_eq_some hfound).2
    have hufrom : (e.reopened σ env.now (env.ids.draw .task).1 t previous found).IsFrom found :=
      reopened_isFrom hkey.symm
    -- the new task is from the origin that was found, which need not be that of the earlier task
    refine ⟨previous, hprevious, hufrom.key.trans hkey, origin, horigin, hfrom, fun hback => ?_⟩
    rw [hfound] at hback
    cases hback
    exact hufrom

end Reopened

/-- Requests that keep definitions keep every instance rooted. -/
theorem Environment.serveAll_rooted (seed : Nat) (start : Timestamp) (e : Engine)
    (calls : List Call) (hcalls : ∀ c ∈ calls, c.request.KeepsDefinitions)
    (hrange : ((fresh seed start).serveAll e calls).ids.InRange) {id : Uuid} {σ : Situation}
    (hσ : ((fresh seed start).serveAll e calls).store.situation? id = some σ) : σ.IsRooted := by
  refine serveAll_induction (P := fun _ σ => σ.IsRooted)
    (fun _ c σ ids _ hbirth => .of_birth hbirth)
    (fun _ c σ σ' hc _ _ h hturn => h.turn hturn (hc.keeps _))
    (fresh_orderly seed start) calls (admitted_of_forall hcalls _) hrange (fun id σ hσ => ?_) hσ
  cases hσ

/-- Keys in a sound definition. The key of a step leads back to the step. The key of a branch
leads back to the branch exactly if it is the id of no step and no earlier step has a branch with
the same key. And a task that a rejection opens again, in an environment that requests reach
without replacing the definition, is like the completed task to which the rejection goes back, if
the key of that one leads back to where it came from: it is built from the same step, has the same
parallel step, and leads on from the same step. -/
theorem key_leads_back {d : Definition} (hd : d.isSound) :
    (∀ s ∈ d.steps, d.resolve? s.id = some (.step s)) ∧
      (∀ before p after, d.steps = before ++ p :: after → ∀ b ∈ p.branches,
        (d.resolve? (p.branchKey b) = some (.branch p b) ↔
          (∀ s ∈ d.steps, s.id ≠ p.branchKey b) ∧
            ∀ q ∈ before, ∀ c ∈ q.branches, q.branchKey c ≠ p.branchKey b)) ∧
      ∀ (seed : Nat) (start now : Timestamp) (e : Engine) (calls : List Call) (t u : Task),
        let env := (Environment.fresh seed start).serveAll e calls
        let tasks := env.store.tasksOf t.instanceId
        let result := (e.goBack t).runIn { env with now := now }
        (∀ c ∈ calls, c.request.KeepsDefinitions) → result.2.ids.InRange →
        (∀ i ∈ env.store.instances, i.id = t.instanceId → env.store.definitionOf i = .ok d) →
        t ∈ env.store.tasks → result.1 = .ok u →
        ∃ previous, previousTask? t (t.completedAt.getD now) tasks = some previous ∧
          previous ∈ tasks ∧ previous.status = .completed ∧ u.key = previous.key ∧
          ∃ origin, d.Has origin ∧ previous.IsFrom origin ∧
            (d.resolve? previous.key = some origin →
              u.IsFrom origin ∧ u.parentStepId = previous.parentStepId ∧
                d.flowStep u = d.flowStep previous) := by
  have hdistinct := Definition.hasDistinctIds_of_isSound hd
  refine ⟨fun s hs => Definition.resolve?_step_key hdistinct hs,
    fun before p after hsteps b hb => Definition.resolve?_branch_key hdistinct hsteps hb, ?_⟩
  intro seed start now e calls t u env tasks result hcalls hrange hdefinition ht hu
  let before : Environment := { env with now := now }
  have hgrows : before.ids.Grows result.2.ids := goBack_onlyDraws t before
  have hstart := Environment.fresh_orderly seed start
  have henv : env.Orderly := Environment.serveAll_orderly hstart calls (hrange.of_grows hgrows)
  obtain ⟨σ, hσ, -⟩ := situation_of_task henv.store ht
  have hroot := Environment.serveAll_rooted seed start e calls hcalls (hrange.of_grows hgrows) hσ
  obtain ⟨i, hi, rfl⟩ := situation?_eq_some_iff.mp hσ
  obtain ⟨hmem, hid⟩ := henv.store.instance?_eq_some_iff.mp hi
  obtain ⟨previous, hprevious, hkey, origin, horigin, hfrom, hback⟩ :=
    goBack_isFrom (henv.at_time now) hσ hroot (hdefinition i hmem hid) (.of_leaves hrange) hu
  obtain ⟨hlisted, hcompleted⟩ := of_previousTask? hprevious
  refine ⟨previous, hprevious, hlisted, hcompleted, hkey, origin, horigin, hfrom,
    fun hleads => ?_⟩
  have hufrom := hback hleads
  exact ⟨hufrom, hufrom.parent.trans hfrom.parent.symm,
    (hufrom.flowStep_eq hdistinct horigin).trans (hfrom.flowStep_eq hdistinct horigin).symm⟩

/-- The definition of `rejectionRun`: two people, one after the other. -/
def relay : Definition := .ofSteps "" [.userTask "a", .userTask "b"]

/-- The first task is completed, and the second one is rejected. -/
def rejectionRun : List Call :=
  let workflow := IdSource.issue 0 .workflow 0
  Call.atOnce ⟨0, 0⟩
    [.createWorkflow "w" "" "\x7b\"steps\":[[\"a\",\"user_task\"],[\"b\",\"user_task\"]]\x7d",
      .applyAction .activate workflow, .startInstance workflow .null,
      .complete (IdSource.issue 0 .task 0) ⟨"u", []⟩ ⟨.completed, .null, none⟩,
      .finish (IdSource.issue 0 .task 1) ⟨"u", []⟩ ⟨.rejected, .null, none⟩]

/-- The task that is rejected in `rejectionRun`. -/
def rejectedTask : Task :=
  ((Environment.fresh 0 ⟨0, 0⟩).serveAll .default rejectionRun).store.tasks.get
    ⟨1, by decide +kernel⟩

/-- The rejection goes back to the task of the first step, and opens it again. -/
theorem key_leads_back_relay :
    ∃ u, ((Engine.default.goBack rejectedTask).runIn
        { (Environment.fresh 0 ⟨0, 0⟩).serveAll .default rejectionRun with now := ⟨0, 0⟩ }).1 =
          .ok u ∧
      ∃ previous, previousTask? rejectedTask (rejectedTask.completedAt.getD ⟨0, 0⟩)
          (((Environment.fresh 0 ⟨0, 0⟩).serveAll .default rejectionRun).store.tasksOf
            rejectedTask.instanceId) = some previous ∧
        ∃ s ∈ relay.steps, s.id = "a" ∧ previous.IsFrom (.step s) ∧ u.IsFrom (.step s) := by
  obtain ⟨hsteps, -, hback⟩ := key_leads_back (d := relay) (by decide +kernel)
  have hreopens : (((Engine.default.goBack rejectedTask).runIn
      { (Environment.fresh 0 ⟨0, 0⟩).serveAll .default rejectionRun with now := ⟨0, 0⟩ }).1.map
        Task.key) = .ok "a" := by decide +kernel
  have hplain : ∀ p ∈ relay.steps, p.branches = [] := by decide +kernel
  cases hu : ((Engine.default.goBack rejectedTask).runIn
      { (Environment.fresh 0 ⟨0, 0⟩).serveAll .default rejectionRun with now := ⟨0, 0⟩ }).1 with
  | error error =>
    rw [hu] at hreopens
    cases hreopens
  | ok u =>
    rw [hu] at hreopens
    have hkey : u.key = "a" := Except.ok.inj hreopens
    obtain ⟨previous, hprevious, -, -, hsame, origin, horigin, hfrom, hlike⟩ :=
      hback 0 ⟨0, 0⟩ ⟨0, 0⟩ .default rejectionRun rejectedTask u
        (by simp [rejectionRun, Call.atOnce, Request.KeepsDefinitions]) (by decide +kernel)
        (by decide +kernel) (List.get_mem _ _) hu
    refine ⟨u, rfl, previous, hprevious, ?_⟩
    cases origin with
    | step s =>
      have hid : s.id = "a" := hfrom.key.symm.trans (hsame.symm.trans hkey)
      exact ⟨s, horigin, hid, hfrom, (hlike (by rw [hfrom.key]; exact hsteps s horigin)).1⟩
    | branch p b =>
      have hb := horigin.2
      rw [hplain p horigin.1] at hb
      cases hb

/-- A branch of the first step has the id of the second one as its key, which leads to the second
step. -/
theorem branch_key_of_step :
    ∃ (d : Definition) (p b : Step), d.isSound ∧ p ∈ d.steps ∧ b ∈ p.branches ∧
      d.resolve? (p.branchKey b) ≠ some (.branch p b) :=
  ⟨.ofSteps "" [.parallel "review" [.userTask "legal"], .userTask "review_legal"],
    .parallel "review" [.userTask "legal"], .userTask "legal", by decide +kernel,
    List.mem_cons_self, List.mem_cons_self, by decide +kernel⟩

end ApprovalWorkflow
