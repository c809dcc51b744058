import ApprovalWorkflow.Proofs.Guards
import ApprovalWorkflow.Proofs.Progress

/-!
# Markers do not matter

A task is marked with the outcome of carrying it through. Nothing that happens to an instance
depends on these marks: joins wait for the same tasks, walks end in the same places, a rejection
goes back to the same task, and new tasks and the output of the instance are told the same about
the tasks before. So the course of an instance behind a task, and what it adds, are the same
however its tasks are marked (`OnlyMarks.course_map`, `OnlyMarks.effect_map`).
-/

set_option autoImplicit false

namespace ApprovalWorkflow

/-- Changes of how tasks are marked. -/
def OnlyMarks (f : Task → Task) : Prop := ∀ t, ∃ p, f t = { t with progression := p }

namespace OnlyMarks

variable {f : Task → Task} {e : Engine} {σ : Situation} {t : Task}

/-- Whatever does not depend on the mark of a task stays. -/
theorem field_eq {α : Type} (hf : OnlyMarks f) (field : Task → α)
    (hfield : ∀ t p, field { t with progression := p } = field t) (t : Task) :
    field (f t) = field t := by
  obtain ⟨p, h⟩ := hf t
  rw [h, hfield]

/-- Marks do not change the identifier of a task. -/
theorem id_eq (hf : OnlyMarks f) : ∀ t, (f t).id = t.id :=
  hf.field_eq Task.id fun _ _ => rfl

/-- Marks do not change the key of a task. -/
theorem key_eq (hf : OnlyMarks f) : ∀ t, (f t).key = t.key :=
  hf.field_eq Task.key fun _ _ => rfl

/-- Marks do not change the status of a task. -/
theorem status_eq (hf : OnlyMarks f) : ∀ t, (f t).status = t.status :=
  hf.field_eq Task.status fun _ _ => rfl

/-- Marks do not change the output of a task. -/
theorem output_eq (hf : OnlyMarks f) : ∀ t, (f t).output = t.output :=
  hf.field_eq Task.output fun _ _ => rfl

/-- Marks do not change when a task was completed. -/
theorem completedAt_eq (hf : OnlyMarks f) : ∀ t, (f t).completedAt = t.completedAt :=
  hf.field_eq Task.completedAt fun _ _ => rfl

/-- Marks do not change when a task was created. -/
theorem createdAt_eq (hf : OnlyMarks f) : ∀ t, (f t).createdAt = t.createdAt :=
  hf.field_eq Task.createdAt fun _ _ => rfl

/-- Marked tasks were finished in the same order. -/
theorem finishedBefore_eq (hf : OnlyMarks f) (t u : Task) :
    (f t).finishedBefore (f u) = t.finishedBefore u := by
  simp only [Task.finishedBefore, hf.completedAt_eq, hf.createdAt_eq]

/-- Marked tasks are sorted into the same order. -/
theorem mergeSort_map (hf : OnlyMarks f) (tasks : List Task) :
    (tasks.map f).mergeSort Task.finishedBefore =
      (tasks.mergeSort Task.finishedBefore).map f :=
  (List.map_mergeSort fun t _ u _ => (hf.finishedBefore_eq t u).symm).symm

/-- The same tasks are taken out before and after a change that the test does not see. -/
theorem filter_map_eq {p q : Task → Bool} (h : ∀ t, p (f t) = q t) (tasks : List Task) :
    (tasks.map f).filter p = (tasks.filter q).map f := by
  rw [List.filter_map]
  congr 1
  exact List.filter_congr fun t _ => h t

/-! ## What the engine asks about tasks -/

/-- The latest task of a key is the same one. -/
theorem latest?_map (hf : OnlyMarks f) (key : String) (tasks : List Task) :
    Surroundings.latest? key (tasks.map f) = (Surroundings.latest? key tasks).map f := by
  induction tasks with
  | nil => rfl
  | cons t tasks ih =>
    rw [List.map_cons, Surroundings.latest?, Surroundings.latest?, ih]
    cases Surroundings.latest? key tasks with
    | none => by_cases hkey : t.key = key <;> simp [hf.key_eq, hkey]
    | some u =>
      simp only [Option.map_some, hf.finishedBefore_eq, hf.key_eq]
      split <;> rfl

/-- Guards do not see how tasks are marked. -/
theorem agrees_map (hf : OnlyMarks f) (input : Json) (tasks : List Task) :
    Surroundings.Agrees ⟨input, tasks.map f⟩ ⟨input, tasks⟩ := by
  refine ⟨rfl, fun key => ?_⟩
  rw [Surroundings.output?, Surroundings.output?, hf.latest?_map]
  cases Surroundings.latest? key tasks with
  | none => rfl
  | some t => simp only [Option.map_some, hf.output_eq]

/-- A parallel step waits for the same branches. -/
theorem resolvedSiblings?_map (hf : OnlyMarks f) (parallel : Step) (tasks : List Task) :
    parallel.resolvedSiblings? (tasks.map f) = parallel.resolvedSiblings? tasks := by
  have hsiblings : parallel.siblings (tasks.map f) = (parallel.siblings tasks).map f :=
    filter_map_eq (fun t => by rw [hf.key_eq]) tasks
  rw [Step.resolvedSiblings?, Step.resolvedSiblings?, hsiblings]
  simp [hf.status_eq, hf.id_eq, Function.comp_def]

/-- Later tasks are told the same about the finished ones. -/
theorem historyBlock_map (hf : OnlyMarks f) (tasks : List Task) (labels : ResultLabels) :
    historyBlock (tasks.map f) labels = historyBlock tasks labels := by
  have hrecord : ∀ t, (f t).historyRecord labels = t.historyRecord labels :=
    hf.field_eq (fun t => t.historyRecord labels) fun _ _ => rfl
  have hfinished : finishedTasks (tasks.map f) = (finishedTasks tasks).map f := by
    rw [finishedTasks, finishedTasks, filter_map_eq (fun t => by rw [hf.status_eq]) tasks,
      hf.mergeSort_map]
  rw [historyBlock, historyBlock, hfinished, List.map_map]
  exact List.map_congr_left fun t _ => hrecord t

/-- An instance gives out the same at its end. -/
theorem completedOutputs_map (hf : OnlyMarks f) (tasks : List Task) :
    Engine.completedOutputs (tasks.map f) = Engine.completedOutputs tasks := by
  rw [Engine.completedOutputs, Engine.completedOutputs,
    filter_map_eq (fun t => by rw [hf.status_eq]) tasks, hf.mergeSort_map, List.foldl_map]
  simp only [hf.key_eq, hf.output_eq]

/-- The task that was completed last is the same one. -/
theorem lastCompleted?_map (hf : OnlyMarks f) (tasks : List Task) :
    Engine.lastCompleted? (tasks.map f) = (Engine.lastCompleted? tasks).map f := by
  induction tasks with
  | nil => rfl
  | cons t tasks ih =>
    rw [List.map_cons, Engine.lastCompleted?, Engine.lastCompleted?, ih]
    cases Engine.lastCompleted? tasks with
    | none => rfl
    | some u =>
      simp only [Option.map_some, hf.completedAt_eq]
      split <;> rfl

/-- A rejection goes back to the same task. -/
theorem previousTask?_map (hf : OnlyMarks f) (rejectedAt : Timestamp) (tasks : List Task) :
    Engine.previousTask? (f t) rejectedAt (tasks.map f) =
      (Engine.previousTask? t rejectedAt tasks).map f := by
  have hsame : ∀ u, ((f u).id != (f t).id && Engine.completedBy (f u) rejectedAt) =
      (u.id != t.id && Engine.completedBy u rejectedAt) := fun u => by
    simp only [hf.id_eq, Engine.completedBy, hf.status_eq, hf.completedAt_eq]
  rw [Engine.previousTask?, Engine.previousTask?, filter_map_eq hsame, hf.lastCompleted?_map]

/-! ## Courses -/

/-- A course is the same, up to the marks on the task that it goes back to. -/
theorem course_map (hf : OnlyMarks f) (now : Timestamp) (t : Task) :
    Situation.course { σ with tasks := σ.tasks.map f } e now (f t) =
      match σ.course e now t with
      | .reopens previous origin => .reopens (f previous) origin
      | c => c := by
  obtain ⟨p, ht⟩ := hf t
  have hback : (f t).GoesBack ↔ t.GoesBack := by rw [ht]; rfl
  have hcompletedAt := hf.completedAt_eq t
  have hflow : ∀ d : Definition, d.flowStep (f t) = d.flowStep t := fun d => by rw [ht]; rfl
  unfold Situation.course
  have hfollowed : Situation.followed { σ with tasks := σ.tasks.map f } = σ.followed := rfl
  rw [hfollowed]
  cases σ.followed with
  | error error => rfl
  | ok d =>
    dsimp only
    -- Backwards the previous task is found among the marked ones and is marked itself; forwards
    -- neither the walk nor the siblings of a join show any mark.
    by_cases hgoes : t.GoesBack
    · rw [if_pos (hback.mpr hgoes), if_pos hgoes, Situation.back, Situation.back,
        hf.previousTask?_map, hcompletedAt, hf.id_eq]
      cases Engine.previousTask? t (t.completedAt.getD now) σ.tasks with
      | none => rfl
      | some previous =>
        simp only [Option.map_some, hf.key_eq]
        cases d.resolve? previous.key <;> rfl
    · rw [if_neg (fun h => hgoes (hback.mp h)), if_neg hgoes, Situation.onward, Situation.onward,
        hflow]
      cases d.flowStep t with
      | error error => rfl
      | ok s =>
        have hwalk : d.walk (Situation.around { σ with tasks := σ.tasks.map f })
            e.settings.maxAutoSteps s = d.walk σ.around e.settings.maxAutoSteps s :=
          d.walk_congr (hf.agrees_map _ _) _ _
        have hfiring : Situation.firing? { σ with tasks := σ.tasks.map f } now s =
            σ.firing? now s := by
          rw [Situation.firing?, Situation.firing?, hf.resolvedSiblings?_map]
        simp only [Situation.leadOn, hwalk, hfiring]
        split
        · split <;> rfl
        · rfl

/-- A task is built in the same way. -/
theorem built_map (hf : OnlyMarks f) (i : Instance) (tasks : List Task) (now : Timestamp)
    (id : Uuid) (o : Opening) : e.built i (tasks.map f) now id o = e.built i tasks now id o := by
  rw [Engine.built, Engine.built, Task.build_value, Task.build_value, hf.historyBlock_map]

/-- Marks on earlier tasks are not seen in the tasks that are built. -/
theorem buildAll_map (hf : OnlyMarks f) (i : Instance) (tasks : List Task) (now : Timestamp)
    (ids : IdSource) (os : List Opening) :
    e.buildAll i (tasks.map f) now ids os = e.buildAll i tasks now ids os := by
  induction os generalizing ids with
  | nil => rfl
  | cons o os ih => rw [Engine.buildAll, Engine.buildAll, hf.built_map, ih]

/-- Marks on earlier tasks are not seen in what a walk adds. -/
theorem walked_map (hf : OnlyMarks f) (i : Instance) (tasks : List Task) (now : Timestamp)
    (ids : IdSource) (ending : WalkEnd) :
    e.walked i (tasks.map f) now ids ending = e.walked i tasks now ids ending := by
  have hended : e.ended i (tasks.map f) now ids ending = e.ended i tasks now ids ending := by
    cases ending with
    | completion =>
      simp only [Engine.ended, Instance.completed, hf.completedOutputs_map]
    | _ => simp only [Engine.ended, Engine.opening, hf.buildAll_map]
  rw [Engine.walked, Engine.walked, hended]

/-- Marks on tasks are not seen in what carrying a task through adds. -/
theorem effect_map (hf : OnlyMarks f) (now : Timestamp) (ids : IdSource) (t : Task) :
    e.effect { σ with tasks := σ.tasks.map f } now ids (f t)
        (Situation.course { σ with tasks := σ.tasks.map f } e now (f t)) =
      e.effect σ now ids t (σ.course e now t) := by
  rw [hf.course_map]
  cases σ.course e now t with
  | fails error => rfl
  | waits => rfl
  | walks i ending => exact hf.walked_map i σ.tasks now ids ending
  | reopens previous origin =>
    obtain ⟨p, ht⟩ := hf t
    obtain ⟨q, hprevious⟩ := hf previous
    have hreopened : ∀ id, e.reopened { σ with tasks := σ.tasks.map f } now id (f t) (f previous)
        origin = e.reopened σ now id t previous origin := fun id => by
      simp only [Engine.reopened, hf.built_map, ht, hprevious]
      rfl
    simp only [Engine.effect, hreopened]

/-- Marks on tasks are not seen in the outcome of carrying a task through. -/
theorem outcome_map (hf : OnlyMarks f) (now : Timestamp) (t : Task) :
    (Situation.course { σ with tasks := σ.tasks.map f } e now (f t)).outcome e =
      (σ.course e now t).outcome e := by
  rw [hf.course_map]
  cases σ.course e now t <;> rfl

end OnlyMarks

end ApprovalWorkflow
