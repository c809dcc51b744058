import ApprovalWorkflow.Proofs.Markers
import ApprovalWorkflow.Proofs.Turns

/-!
# Failed attempts

Carrying a finished task through may fail: the instance is not running any more, its workflow is
gone, there is no task to go back to, or the walk takes too many steps. A failed attempt is meant
to leave nothing behind but its mark on the task, so that it can be made again when the cause has
been removed. But an attempt that fires a join stores the join record before the walk begins, and
the record stays when the walk fails. So there are two cases:

- An attempt that fails without firing a join leaves the store as it was but for the mark
  (`progress_of_failed`), and a new attempt does what the first one would have done if the cause
  had been removed before (`retry_of_failed`).
- An attempt that fails and fires a join leaves the join record (`progress_of_fired`). A new
  attempt finds the join fired already, succeeds, and never walks (`retry_of_fired`).

`failed_attempt` states both for the environments that runs reach.
-/

set_option autoImplicit false

namespace ApprovalWorkflow

open Operation Engine Environment

/-- Carrying a task through fires the join of a parallel step. -/
def Situation.FiresJoin (σ : Situation) (now : Timestamp) (t : Task) (s : Step) : Prop :=
  ∃ d, σ.followed = .ok d ∧ ¬ t.GoesBack ∧ d.flowStep t = .ok s ∧ s.isParallel ∧
    (σ.firing? now s).isSome

section Courses

variable {e : Engine} {σ : Situation} {now : Timestamp} {t : Task}
  {error : EngineError} {s : Step}

/-- A join that fires is the beginning of a walk. -/
theorem course_of_firesJoin (h : σ.FiresJoin now t s) :
    ∃ (d : Definition) (i : Instance), σ.firing? now s = some i ∧
      σ.course e now t = .walks i (d.walk σ.around e.settings.maxAutoSteps s) := by
  obtain ⟨d, hd, hback, hs, hparallel, hfiring⟩ := h
  obtain ⟨i, hi⟩ := Option.isSome_iff_exists.mp hfiring
  exact ⟨d, i, hi, course_fires hd hback hs hparallel hi⟩

/-- A course that fails without firing a join adds nothing. -/
theorem effect_of_failed (ids : IdSource) (h : (σ.course e now t).outcome e = .error error)
    (hfires : ∀ s, ¬ σ.FiresJoin now t s) :
    e.effect σ now ids t (σ.course e now t) = ⟨none, [], []⟩ ∨
      e.effect σ now ids t (σ.course e now t) = ⟨some σ.record, [], []⟩ := by
  cases hc : σ.course e now t with
  | fails error => exact .inl rfl
  | waits => exact .inl rfl
  | walks i ending =>
    rw [hc] at h
    obtain ⟨d, s, hd, hback, hs, -, ⟨-, rfl⟩ | ⟨hparallel, hfiring⟩⟩ := of_course_walks hc
    · exact .inr (walked_of_failed h)
    · exact absurd ⟨d, hd, hback, hs, hparallel, by rw [hfiring]; rfl⟩ (hfires s)
  | reopens previous origin =>
    rw [hc] at h
    cases h

/-- A course that fails and fires a join adds the join record. -/
theorem effect_of_fired (ids : IdSource) (h : (σ.course e now t).outcome e = .error error)
    (hfires : σ.FiresJoin now t s) :
    ∃ i, σ.firing? now s = some i ∧
      e.effect σ now ids t (σ.course e now t) = ⟨some i, [], []⟩ := by
  obtain ⟨d, i, hi, hc⟩ := course_of_firesJoin (e := e) hfires
  rw [hc] at h ⊢
  exact ⟨i, hi, walked_of_failed h⟩

end Courses

section Attempts

variable {e : Engine} {env : Environment} {σ : Situation} {t : Task} {error : EngineError}
  {s : Step}

/-- An attempt that fails without firing a join leaves nothing but its mark. -/
theorem progress_of_failed (henv : env.Orderly) (ht : t ∈ env.store.tasks)
    (hpending : t.progression ≠ .advanced) (hended : t.status.isOpen = false)
    (hσ : env.store.situation? t.instanceId = some σ)
    (herror : (σ.course e env.now t).outcome e = .error error)
    (hfires : ∀ s, ¬ σ.FiresJoin env.now t s) (hrange : (e.progress t.id).StaysInRange env) :
    (e.progress t.id).Yields env (.error error) (env.putTask (t.marked (.error error))) := by
  have hfound := henv.store.task?_eq_some_iff.mpr ⟨ht, rfl⟩
  obtain ⟨hyields, -⟩ := progress_yields henv hfound hpending hended hσ hrange
  have hstay : env.after (e.effect σ env.now env.ids t (σ.course e env.now t)) = env := by
    rcases effect_of_failed env.ids herror hfires with h | h
    · rw [h, after_nothing]
    · rw [h, after_stored henv (record_id hσ).1]
  rw [hstay, herror] at hyields
  exact hyields

/-- An attempt that fails and fires a join leaves its mark and the join record. -/
theorem progress_of_fired (henv : env.Orderly) (ht : t ∈ env.store.tasks)
    (hpending : t.progression ≠ .advanced) (hended : t.status.isOpen = false)
    (hσ : env.store.situation? t.instanceId = some σ)
    (herror : (σ.course e env.now t).outcome e = .error error)
    (hfires : σ.FiresJoin env.now t s) (hrange : (e.progress t.id).StaysInRange env) :
    ∃ i, σ.firing? env.now s = some i ∧ (e.progress t.id).Yields env (.error error)
      ((env.after ⟨some i, [], []⟩).putTask (t.marked (.error error))) := by
  have hfound := henv.store.task?_eq_some_iff.mpr ⟨ht, rfl⟩
  obtain ⟨hyields, -⟩ := progress_yields henv hfound hpending hended hσ hrange
  obtain ⟨i, hi, heffect⟩ := effect_of_fired env.ids herror hfires
  rw [heffect, herror] at hyields
  exact ⟨i, hi, hyields⟩

/-- A finished task whose end is not carried through is in a situation from which an attempt
starts. -/
theorem outcome_of_progress (henv : env.Orderly) (ht : t ∈ env.store.tasks)
    (hended : t.status.isOpen = false) (hrange : (e.progress t.id).StaysInRange env)
    (hfails : ((e.progress t.id).runIn env).1 = .error error) :
    t.progression ≠ .advanced ∧ ∃ σ, env.store.situation? t.instanceId = some σ ∧
      (σ.course e env.now t).outcome e = .error error := by
  have hfound := henv.store.task?_eq_some_iff.mpr ⟨ht, rfl⟩
  have hpending : t.progression ≠ .advanced := by
    intro hadvanced
    have hok := (progress_of_advanced (e := e) henv.outage hfound hadvanced).outcome
    rw [hfails] at hok
    cases hok
  obtain ⟨σ, hσ, -⟩ := situation_of_task henv.store ht
  obtain ⟨hyields, -⟩ := progress_yields henv hfound hpending hended hσ hrange
  have houtcome := hyields.outcome
  rw [hfails] at houtcome
  refine ⟨hpending, σ, hσ, ?_⟩
  cases hc : (σ.course e env.now t).outcome e with
  | ok _ => rw [hc] at houtcome; cases houtcome
  | error err =>
    rw [hc] at houtcome
    cases houtcome
    rfl

/-- The store that a failed attempt leaves is the one before but for the mark exactly if the
attempt has fired no join. -/
theorem store_of_failed (henv : env.Orderly) (ht : t ∈ env.store.tasks)
    (hpending : t.progression ≠ .advanced) (hended : t.status.isOpen = false)
    (hσ : env.store.situation? t.instanceId = some σ)
    (herror : (σ.course e env.now t).outcome e = .error error)
    (hrange : (e.progress t.id).StaysInRange env) :
    ((e.progress t.id).leaves env).store = env.store.putTask (t.marked (.error error)) ↔
      ∀ s, ¬ σ.FiresJoin env.now t s := by
  constructor
  · intro hstore s hfires
    obtain ⟨i, hi, hyields⟩ :=
      progress_of_fired henv ht hpending hended hσ herror hfires hrange
    obtain ⟨hstored, -⟩ := record_id hσ
    have hid : i.id = σ.record.id := by
      obtain ⟨_, -, rfl⟩ := of_firing? hi
      rfl
    have hread : (env.after ⟨some i, [], []⟩).store.instance? σ.record.id = some i :=
      instance?_after hstored (c := ⟨some i, [], []⟩) fun j hj => by
        rw [← Option.some.inj hj, hid]
    have hinstances := congrArg (fun s : Store => s.instance? σ.record.id)
      (hyields.store_eq.symm.trans hstore)
    -- the record of the instance would have one more join than itself
    have hsame : i = σ.record := Option.some.inj (hread.symm.trans (hinstances.trans hstored))
    obtain ⟨_, -, hi⟩ := of_firing? hi
    have hjoins := congrArg (fun i : Instance => i.joins.length) (hsame.symm.trans hi)
    simp at hjoins
  · intro hfires
    exact (progress_of_failed henv ht hpending hended hσ herror hfires hrange).store_eq

/-! ## New attempts -/

/-- Putting a marked task in its place is a change of marks. -/
theorem put_marked {tasks : List Task} (hunique : ∀ u ∈ tasks, u.id = t.id → u = t)
    (p : Progression) :
    ∃ f, OnlyMarks f ∧ f t = { t with progression := p } ∧
      put Task.id { t with progression := p } tasks = tasks.map f := by
  refine ⟨fun u => if u.id = t.id then { u with progression := p } else u, fun u => ?_,
    if_pos rfl, ?_⟩
  · by_cases h : u.id = t.id
    · exact ⟨p, if_pos h⟩
    · exact ⟨u.progression, if_neg h⟩
  · refine List.map_congr_left fun u hu => ?_
    by_cases h : u.id = t.id
    · rw [if_pos h, if_pos h, hunique u hu h]
    · rw [if_neg h, if_neg h]

/-- Marking a task, moving its instance on and marking it again is as good as not marking it
first. -/
theorem putTask_after_putTask (env : Environment) {m u : Task} (hid : u.id = m.id) (c : Effect) :
    ((env.putTask u).after c).putTask m = (env.after c).putTask m := by
  have htasks : put Task.id m (put Task.id u env.store.tasks ++ c.opened) =
      put Task.id m (env.store.tasks ++ c.opened) := by
    rw [put_append, put_append, put_put Task.id hid]
  simp only [Environment.putTask, Environment.after, Store.putTask, htasks]

/-- A task that is marked as failed is carried through like the unmarked one. -/
theorem progress_of_marked (henv : env.Orderly) (ht : t ∈ env.store.tasks)
    (hpending : t.progression ≠ .advanced) (hended : t.status.isOpen = false)
    (text : String) (hrange : (e.progress t.id).StaysInRange env)
    (hretry : (e.progress t.id).StaysInRange
      (env.putTask { t with progression := .failed text })) :
    ∃ r env', (e.progress t.id).Yields env r env' ∧
      (e.progress t.id).Yields (env.putTask { t with progression := .failed text }) r env' := by
  obtain ⟨σ, hσ, -⟩ := situation_of_task henv.store ht
  have hfound := henv.store.task?_eq_some_iff.mpr ⟨ht, rfl⟩
  obtain ⟨hyields, -⟩ := progress_yields henv hfound hpending hended hσ hrange
  have hunique : ∀ u ∈ σ.tasks, u.id = t.id → u = t := by
    intro u hu hid
    exact henv.store.task_eq (mem_of_situation? hσ hu) ht hid
  -- the course does not depend on marks, and the mark of the failure is overwritten
  obtain ⟨f, hf, hft, hput⟩ := put_marked hunique (.failed text)
  rw [← hft] at hretry ⊢ hput
  have hid := hf.id_eq t
  have howner : (f t).instanceId = t.instanceId := by rw [hft]
  have horderly := orderly_putTask henv ht hid howner
  have hmem : f t ∈ (env.putTask (f t)).store.tasks :=
    mem_put_self Task.id ht hid
  have hread := horderly.store.task?_eq_some_iff.mpr ⟨hmem, hid⟩
  have hσ' : (env.putTask (f t)).store.situation? (f t).instanceId =
      some { σ with tasks := σ.tasks.map f } := by
    show (env.store.putTask (f t)).situation? (f t).instanceId = _
    rw [situation?_putTask (stays_of_orderly henv.store ht hid howner), howner, hσ,
      Option.map_some, Situation.withTask, hput]
  have hmarked : (f t).progression ≠ .advanced := by
    rw [hft]
    intro h
    cases h
  obtain ⟨hagain, -⟩ := progress_yields (e := e) horderly hread hmarked
    (by rw [hf.status_eq]; exact hended) hσ' hretry
  have hnow : (env.putTask (f t)).now = env.now := rfl
  have hids : (env.putTask (f t)).ids = env.ids := rfl
  have hmark : (f t).marked ((σ.course e env.now t).outcome e) =
      t.marked ((σ.course e env.now t).outcome e) := by rw [hft, marked_marked]
  rw [hnow, hids, hf.outcome_map, hf.effect_map, hmark, putTask_after_putTask] at hagain
  · exact ⟨_, _, hyields, hagain⟩
  · obtain ⟨p, hmarked⟩ := marked_eq t ((σ.course e env.now t).outcome e)
    rw [hmarked, hid]

/-- A new attempt that only has to wait succeeds and changes nothing but the mark. -/
theorem retry_of_waits (henv : env.Orderly) (ht : t ∈ env.store.tasks)
    (hstalled : t.progression.isStalled) (hended : t.status.isOpen = false)
    (hσ : env.store.situation? t.instanceId = some σ) (hwaits : σ.course e env.now t = .waits)
    (hrange : (Tasks.retry e t.id).StaysInRange env) :
    (Tasks.retry e t.id).Yields env (.ok (t.marked (.ok ())))
      (env.putTask (t.marked (.ok ()))) := by
  have hfound := henv.store.task?_eq_some_iff.mpr ⟨ht, rfl⟩
  have hacts := Tasks.retry_actsAs (e := e) henv hfound hstalled
  have hpending : t.progression ≠ .advanced := by
    intro h
    rw [h] at hstalled
    cases hstalled
  obtain ⟨hyields, -⟩ :=
    progress_yields henv hfound hpending hended hσ (hrange.of_actsAs hacts)
  rw [hwaits] at hyields
  have hstay : env.after (e.effect σ env.now env.ids t .waits) = env := after_nothing env
  rw [hstay] at hyields
  exact hacts.yields hyields

/-- A join that is recorded does not fire again. -/
theorem firing?_of_recorded {now : Timestamp} {ids : List Uuid}
    (hids : s.resolvedSiblings? σ.tasks = some ids)
    (hrecorded : ∃ j ∈ σ.record.joins, j.stepId = s.id ∧ j.taskIds = Instance.sortedIds ids) :
    σ.firing? now s = none := by
  obtain ⟨j, hj, hstep, htasks⟩ := hrecorded
  have hany : (σ.record.joins.any fun j =>
      j.stepId == s.id && j.taskIds == Instance.sortedIds ids) = true :=
    List.any_eq_true.mpr ⟨j, hj, by simp [hstep, htasks]⟩
  rw [Situation.firing?, hids, Option.bind_some, Instance.claimJoin?]
  exact if_pos hany

/-- Joins are recorded under the id of a step, so that steps with one id wait for the same. -/
theorem resolvedSiblings?_congr {s s' : Step} (h : s'.id = s.id) (tasks : List Task) :
    s'.resolvedSiblings? tasks = s.resolvedSiblings? tasks := by
  have hsiblings : s'.siblings tasks = s.siblings tasks := by
    rw [Step.siblings, Step.siblings, Step.branchStart, Step.branchStart, h]
  rw [Step.resolvedSiblings?, Step.resolvedSiblings?, hsiblings]

end Attempts

/-! ## Removing the cause -/

/-- An environment at a later time, in which workflows have been changed. -/
def Environment.amended (env : Environment) (workflows : List Workflow) (later : Timestamp) :
    Environment :=
  { env with store := { env.store with workflows := workflows }, now := later }

section Removed

variable {e : Engine} {env : Environment} {σ : Situation} {t : Task} {error : EngineError}
  {s : Step}

/-- Behind an attempt that fails without firing a join, a new attempt does what the failed one
would have done if the cause had been removed before. -/
theorem retry_of_failed (workflows : List Workflow) (later : Timestamp) (henv : env.Orderly)
    (ht : t ∈ env.store.tasks)
    (hpending : t.progression ≠ .advanced) (hended : t.status.isOpen = false)
    (hσ : env.store.situation? t.instanceId = some σ)
    (herror : (σ.course e env.now t).outcome e = .error error)
    (hfires : ∀ s, ¬ σ.FiresJoin env.now t s) (hrange : (e.progress t.id).StaysInRange env)
    (hlater : (env.amended workflows later).Orderly)
    (hattempt : (e.progress t.id).StaysInRange (env.amended workflows later))
    (hretry : (Tasks.retry e t.id).StaysInRange
      (((e.progress t.id).leaves env).amended workflows later)) :
    ∃ r env', (e.progress t.id).Yields (env.amended workflows later) r env' ∧
      (Tasks.retry e t.id).Yields (((e.progress t.id).leaves env).amended workflows later)
        r env' := by
  let m := t.marked (.error error)
  have hyields := progress_of_failed henv ht hpending hended hσ herror hfires hrange
  obtain ⟨log, hleaves⟩ := hyields.leaves_eq
  -- the mark does not concern workflows, so that it may as well be set after the change
  have hfailed : ((e.progress t.id).leaves env).amended workflows later =
      { (env.amended workflows later).putTask m with log := log } := by
    rw [hleaves]
    rfl
  rw [hfailed] at hretry ⊢
  have horderly : { (env.amended workflows later).putTask m with log := log }.Orderly :=
    (orderly_putTask (u := m) hlater ht rfl rfl).with_log log
  have hmem : m ∈ ((env.amended workflows later).putTask m).store.tasks :=
    mem_put_self Task.id ht rfl
  have hacts := Tasks.retry_actsAs (e := e) horderly
    (horderly.store.task?_eq_some_iff.mpr ⟨hmem, rfl⟩) rfl
  obtain ⟨r, env', hfirst, hagain⟩ := progress_of_marked hlater ht hpending hended error.message
    hattempt (hretry.of_actsAs hacts)
  exact ⟨r, env', hfirst, hacts.yields hagain⟩

/-- Behind an attempt that fails and fires a join, a new attempt finds the join recorded. It
succeeds without a walk. -/
theorem retry_of_fired {workflows : List Workflow} {later : Timestamp} (henv : env.Orderly)
    (ht : t ∈ env.store.tasks)
    (hpending : t.progression ≠ .advanced) (hended : t.status.isOpen = false)
    (hσ : env.store.situation? t.instanceId = some σ)
    (herror : (σ.course e env.now t).outcome e = .error error)
    (hfires : σ.FiresJoin env.now t s) (hrange : (e.progress t.id).StaysInRange env)
    {failed : Environment}
    (hfailed : failed = ((e.progress t.id).leaves env).amended workflows later)
    (hlater : failed.Orderly) (hretry : (Tasks.retry e t.id).StaysInRange failed)
    {d : Definition} (hd : failed.store.definitionOf σ.record = .ok d)
    {s' : Step} (hflow : d.flowStep t = .ok s') (hsame : s'.id = s.id)
    (hparallel : s'.isParallel) :
    (Tasks.retry e t.id).Yields failed (.ok (t.marked (.ok ())))
      (failed.putTask (t.marked (.ok ()))) := by
  let m := t.marked (.error error)
  obtain ⟨i, hi, hyields⟩ :=
    progress_of_fired henv ht hpending hended hσ herror hfires hrange
  obtain ⟨siblings, hsiblings, hrecord⟩ := of_firing? hi
  obtain ⟨d₀, hfollowed, hback, -, -, -⟩ := hfires
  have hrunning := (followed_eq_ok.mp hfollowed).1
  obtain ⟨log, hleaves⟩ := hyields.leaves_eq
  rw [hleaves] at hfailed
  -- the instance is in the situation of the first attempt, but for the mark and the join record
  obtain ⟨hstored, hrid⟩ := record_id hσ
  have hinstance : failed.store.instance? t.instanceId = some i := by
    rw [hfailed]
    exact instance?_after (c := ⟨some i, [], []⟩) (by rw [← hrid]; exact hstored) fun j hj => by
      rw [← Option.some.inj hj, hrecord, hrid]
  have hmem : m ∈ failed.store.tasks := by
    rw [hfailed]
    exact mem_put_self Task.id (List.mem_append_left _ ht) rfl
  have htasks : failed.store.tasksOf t.instanceId = put Task.id m σ.tasks := by
    have hstay := stays_of_orderly (u := m) henv.store ht rfl rfl
    rw [hfailed, ← tasks_eq hσ, hrid, ← Store.tasksOf_putTask hstay]
    simp [Environment.amended, Environment.putTask, Environment.after, Store.putTask,
      Store.tasksOf, m]
  have hdefinition : failed.store.definitionOf i = .ok d := by
    rw [← hd, hrecord]
    rfl
  have hσ' : failed.store.situation? m.instanceId = some ⟨i, put Task.id m σ.tasks, .ok d⟩ :=
    situation?_eq_some_iff.mpr ⟨i, hinstance, by rw [← htasks, ← hdefinition]; rfl⟩
  have hunique : ∀ u ∈ σ.tasks, u.id = t.id → u = t := by
    intro u hu hid
    exact henv.store.task_eq (mem_of_situation? hσ hu) ht hid
  obtain ⟨f, hf, -, hput⟩ := put_marked hunique (.failed error.message)
  have hresolved : s'.resolvedSiblings? (put Task.id m σ.tasks) = some siblings := by
    rw [← hsiblings, ← resolvedSiblings?_congr hsame]
    exact (congrArg s'.resolvedSiblings? hput).trans (hf.resolvedSiblings?_map s' σ.tasks)
  -- the same tasks are resolved as before, and the record names them
  have hfiring : Situation.firing? ⟨i, put Task.id m σ.tasks, .ok d⟩ failed.now s' = none :=
    firing?_of_recorded hresolved
      ⟨⟨s.id, Instance.sortedIds siblings, env.now⟩, by rw [hrecord]; simp, hsame.symm, rfl⟩
  have hwaits := course_waits (e := e) (t := m)
    (σ := ⟨i, put Task.id m σ.tasks, .ok d⟩)
    (followed_eq_ok.mpr ⟨by rw [hrecord]; exact hrunning, rfl⟩) hback hflow hparallel hfiring
  have hyields := retry_of_waits hlater hmem rfl hended hσ' hwaits hretry
  rwa [marked_marked] at hyields

end Removed

/-! ## Runs -/

/-- What a failed attempt leaves, in every environment that a run reaches. The store is the one
before but for the mark on the task exactly if the attempt fired no join. In this case a new
attempt, made after any change of workflows, has the outcome and leaves the store that the failed
one would have had and left after this change. But if the attempt fired a join, a new attempt
succeeds and changes nothing but the mark. -/
theorem failed_attempt (seed : Nat) (start now : Timestamp) (e : Engine) (calls : List Call)
    (t : Task) (error : EngineError) :
    let env := (Environment.fresh seed start).serveAll e calls
    let failed := (e.progress t.id).leaves { env with now := now }
    t ∈ env.store.tasks → t.status.isOpen = false → failed.ids.InRange →
    ((e.progress t.id).runIn { env with now := now }).1 = .error error →
    ∃ σ, env.store.situation? t.instanceId = some σ ∧
      (failed.store = env.store.putTask (t.marked (.error error)) ↔
        ∀ s, ¬ σ.FiresJoin now t s) ∧
      ((∀ s, ¬ σ.FiresJoin now t s) → ∀ workflows later,
        let attempt := (e.progress t.id).runIn (env.amended workflows later)
        let retry := (Tasks.retry e t.id).runIn (failed.amended workflows later)
        (env.amended workflows later).Orderly → attempt.2.ids.InRange → retry.2.ids.InRange →
        retry.1 = attempt.1 ∧ retry.2.store = attempt.2.store) ∧
      ∀ s, σ.FiresJoin now t s → ∀ workflows later d s',
        let amended := failed.amended workflows later
        let retry := (Tasks.retry e t.id).runIn amended
        amended.Orderly → retry.2.ids.InRange → amended.store.definitionOf σ.record = .ok d →
        d.flowStep t = .ok s' → s'.id = s.id → s'.isParallel →
        retry.1 = .ok (t.marked (.ok ())) ∧
          retry.2.store = amended.store.putTask (t.marked (.ok ())) := by
  intro env failed ht hended hrange hfails
  let before : Environment := { env with now := now }
  have hgrows : before.ids.Grows failed.ids := progress_onlyDraws t.id before
  have hbefore : before.Orderly :=
    (serveAll_orderly (fresh_orderly seed start) calls (hrange.of_grows hgrows)).at_time now
  have hprogress : (e.progress t.id).StaysInRange before := .of_leaves hrange
  obtain ⟨hpending, σ, hσ, herror⟩ := outcome_of_progress hbefore ht hended hprogress hfails
  refine ⟨σ, hσ, store_of_failed hbefore ht hpending hended hσ herror hprogress, ?_, ?_⟩
  · intro hfires workflows later attempt retry hlater hattempt hretry
    obtain ⟨r, env', hfirst, hagain⟩ := retry_of_failed workflows later hbefore ht hpending hended
      hσ herror hfires hprogress hlater (.of_leaves hattempt)
      (.of_leaves hretry)
    exact ⟨hagain.outcome.trans hfirst.outcome.symm, hagain.store_eq.trans hfirst.store_eq.symm⟩
  · intro s hfires workflows later d s' amended retry hlater hretry hd hflow hsame hparallel
    have hyields := retry_of_fired hbefore ht hpending hended hσ herror hfires hprogress rfl hlater
      (.of_leaves hretry) hd hflow hsame hparallel
    exact ⟨hyields.outcome, hyields.store_eq⟩

/-! ### Two runs -/

/-- An engine that takes at most one step without a person. -/
def Engine.hasty : Engine := ⟨⟨1, 1, .default⟩, .silent⟩

/-- The task of a step is finished, and its instance is given up before it moves on. -/
def abandonedRun : List Call :=
  let workflow := IdSource.issue 0 .workflow 0
  Call.atOnce ⟨0, 0⟩
    [.createWorkflow "w" "" "\x7b\"steps\":[[\"s\",\"user_task\"]]\x7d",
      .applyAction .activate workflow, .startInstance workflow .null,
      .finish (IdSource.issue 0 .task 0) ⟨"u", []⟩ ⟨.completed, .null, none⟩,
      .cancelInstance (IdSource.issue 0 .run 0)]

/-- The task that is finished in `abandonedRun`. -/
def abandonedTask : Task :=
  { Task.new (IdSource.issue 0 .task 0) (IdSource.issue 0 .run 0) (IdSource.issue 0 .workflow 0)
      "s" "s" ⟨0, 0⟩ with
    assignee := some "u"
    status := .completed
    taskData := .obj [("previousTasksHistory", .arr [])]
    formData := .obj [("fields", .arr [])]
    result := some .completed
    completedAt := some ⟨0, 0⟩
    progression := .pending }

/-- An attempt for an instance that has been given up. -/
theorem failed_attempt_abandoned :
    ∃ σ, ((fresh 0 ⟨0, 0⟩).serveAll .hasty abandonedRun).store.situation?
        abandonedTask.instanceId = some σ ∧
      (((Engine.hasty.progress abandonedTask.id).leaves
          { (fresh 0 ⟨0, 0⟩).serveAll .hasty abandonedRun with now := ⟨0, 0⟩ }).store =
        ((fresh 0 ⟨0, 0⟩).serveAll .hasty abandonedRun).store.putTask
          (abandonedTask.marked (.error (.instanceNotRunning (IdSource.issue 0 .run 0)))) ↔
        ∀ s, ¬ σ.FiresJoin ⟨0, 0⟩ abandonedTask s) := by
  obtain ⟨σ, hσ, hstore, -⟩ := failed_attempt 0 ⟨0, 0⟩ ⟨0, 0⟩ .hasty abandonedRun
    abandonedTask (.instanceNotRunning (IdSource.issue 0 .run 0)) (by decide +kernel)
    (by decide +kernel) (by decide +kernel) (by decide +kernel)
  exact ⟨σ, hσ, hstore⟩

/-- The only branch of a parallel step is finished, and a step without a person comes behind it,
which is one too many for a hasty engine. The attempt fails and yet changes the record of the
instance. The next attempt succeeds, although nothing has been changed and no task is opened. -/
theorem failed_attempt_keeps_join :
    let workflow := IdSource.issue 0 .workflow 0
    let task := IdSource.issue 0 .task 0
    let env := (fresh 0 ⟨0, 0⟩).serveAll .hasty (Call.atOnce ⟨0, 0⟩
      [.createWorkflow "w" "" ("\x7b\"steps\":[\x7b\"id\":\"p\",\"type\":\"parallel\"," ++
          "\"parallelTasks\":[[\"b\",\"user_task\"]]\x7d,[\"a\",\"process\"]]\x7d"),
        .applyAction .activate workflow, .startInstance workflow .null,
        .finish task ⟨"u", []⟩ ⟨.completed, .null, none⟩])
    let attempt := (Engine.hasty.progress task).runIn env
    let retry := (Tasks.retry .hasty task).runIn attempt.2
    attempt.1 = .error (.stepLimitExceeded 1) ∧
      attempt.2.store.instances ≠ env.store.instances ∧
      retry.1.map Task.progression = .ok .advanced ∧
      retry.2.store.tasks.length = env.store.tasks.length := by
  decide +kernel

end ApprovalWorkflow
