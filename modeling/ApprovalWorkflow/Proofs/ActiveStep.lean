import ApprovalWorkflow.Proofs.Provenance
import Mathlib.Data.List.Pairwise

/-!
# One active step

An instance waits for the people of one step at a time: its open tasks are the task of one step,
or tasks of different branches of one parallel step. And an instance that is at its end waits for
nobody.

This alone is not kept by what people do. A task that is tried again moves the instance on, and so
does the last branch of a parallel step that is finished. What makes both safe is that an instance
is moved on only when nobody is waited for: as long as a task is open, none is there to be tried
again, and a branch that is finished before the others makes the instance wait for these, because
they come from branches of the same step (`Situation.course_of_beside`). So the invariant
(`Situation.IsFocused`) is about stalled tasks as well.
-/

set_option autoImplicit false

namespace ApprovalWorkflow

open Engine

/-! ## Tasks of one parallel step -/

namespace Task

/-- The tasks are for different branches of one parallel step. -/
structure Beside (t u : Task) : Prop where
  branch : t.isBranch
  parent : t.parentStepId = u.parentStepId
  key : t.key ≠ u.key

/-- If one task is beside another one, then so is the other beside the one. -/
theorem Beside.symm {t u : Task} (h : t.Beside u) : u.Beside t := by
  refine ⟨?_, h.parent.symm, h.key.symm⟩
  rw [isBranch, ← h.parent]
  exact h.branch

instance : Std.Symm Beside := ⟨fun _ _ => Beside.symm⟩

/-- Several tasks that stand beside each other belong to one parallel step. -/
theorem Beside.one_step {tasks : List Task} (h : tasks.Pairwise Beside) :
    tasks.length ≤ 1 ∨
      ∃ p, (∀ t ∈ tasks, t.parentStepId = some p) ∧ tasks.Pairwise fun t u => t.key ≠ u.key := by
  match tasks, h with
  | [], _ => exact .inl (Nat.zero_le 1)
  | [t], _ => exact .inl (Nat.le_refl 1)
  | t :: u :: tasks, h =>
    have hothers := (List.pairwise_cons.mp h).1
    obtain ⟨p, hp⟩ := Option.isSome_iff_exists.mp (hothers u List.mem_cons_self).branch
    refine .inr ⟨p, fun v hv => ?_, h.imp fun hb => hb.key⟩
    rcases List.mem_cons.mp hv with rfl | hv
    · exact hp
    · rw [← (hothers v hv).parent, hp]

/-- Work does not change which tasks stand beside each other. -/
theorem Beside.of_became {t u t' : Task} (h : t.Beside u) (ht : t.Became t') : t'.Beside u := by
  refine ⟨?_, ht.parentStepId_eq.trans h.parent, ?_⟩
  · rw [isBranch, ht.parentStepId_eq]
    exact h.branch
  · rw [ht.key_eq]
    exact h.key

end Task

section Opened

variable {e : Engine} {σ : Situation} {now : Timestamp} {ids : IdSource} {t u : Task}

/-- Where a task belongs: its key and its parallel step. -/
def Task.place (t : Task) : String × Option String := (t.key, t.parentStepId)

/-- The tasks of some openings belong where these say. -/
theorem map_place_buildAll (e : Engine) (i : Instance) (history : List Task) (now : Timestamp)
    (ids : IdSource) (os : List Opening) :
    (e.buildAll i history now ids os).map Task.place = os.map fun o => (o.key, o.parent) := by
  induction os generalizing ids with
  | nil => rfl
  | cons o os ih =>
    rw [buildAll, List.map_cons, List.map_cons, ih, Task.place, built_key, built_parentStepId]

/-- The tasks that a walk opens stand beside each other. -/
theorem walked_beside (e : Engine) (i : Instance) (history : List Task) (now : Timestamp)
    (ids : IdSource) {d : Definition} {ending : WalkEnd} (hd : d.HasDistinctIds)
    (hending : d.Contains ending) :
    (e.walked i history now ids ending).opened.Pairwise Task.Beside := by
  cases ending with
  | task s => exact List.pairwise_singleton _ _
  | branches parallel chosen =>
    obtain ⟨hparallel, -, hsublist⟩ := hending
    let Apart (x y : String × Option String) : Prop := x.2.isSome ∧ x.2 = y.2 ∧ x.1 ≠ y.1
    have hids : chosen.Pairwise fun b c => b.id ≠ c.id :=
      List.pairwise_map.mp ((hd.branches parallel hparallel).sublist (hsublist.map Step.id))
    have hplaces : ((WalkEnd.branches parallel chosen).openings.map fun o =>
        (o.key, o.parent)).Pairwise Apart := by
      rw [WalkEnd.openings, List.map_map, List.pairwise_map]
      exact hids.imp fun h => ⟨rfl, rfl, fun hkey => h (Step.branchKey_inj.mp hkey)⟩
    rw [← map_place_buildAll e i history now ids, List.pairwise_map] at hplaces
    exact hplaces.imp fun h => ⟨h.1, h.2.1, h.2.2⟩
  | completion => exact .nil
  | nothing => exact .nil
  | limit => exact .nil

/-- The task was opened at the time, and nobody has worked on it. -/
structure Task.IsFresh (now : Timestamp) (t : Task) : Prop where
  status : t.status = .pending
  progression : t.progression = .idle
  createdAt : t.createdAt = now

/-- A task that has just been opened is open. -/
theorem Task.IsFresh.isOpen (h : u.IsFresh now) : u.status.isOpen := by
  rw [h.status]
  rfl

/-- What the engine builds is fresh. -/
theorem built_fresh (e : Engine) (i : Instance) (history : List Task) (now : Timestamp)
    (id : Uuid) (o : Opening) : (e.built i history now id o).IsFresh now :=
  ⟨built_status i history now id o, built_progression i history now id o,
    built_createdAt i history now id o⟩

/-- A walk opens fresh tasks. -/
theorem walked_fresh {i : Instance} {history : List Task} {ending : WalkEnd}
    (hu : u ∈ (e.walked i history now ids ending).opened) : u.IsFresh now := by
  obtain ⟨o, -, id, rfl⟩ := walked_opened hu
  exact built_fresh e i history now id o

/-- A walk leaves the status of the instance, or completes it and opens no task. -/
theorem walked_status (e : Engine) (i : Instance) (history : List Task) (now : Timestamp)
    (ids : IdSource) (ending : WalkEnd) (j : Instance) :
    ((e.walked i history now ids ending).record.getD j).status = i.status ∨
      (e.walked i history now ids ending).opened = [] := by
  cases ending with
  | completion => exact .inr rfl
  | _ => exact .inl rfl

/-- The tasks that a course opens stand beside each other. -/
theorem effect_beside (e : Engine) (now : Timestamp) (ids : IdSource) (t : Task)
    (hdistinct : ∀ d, σ.followed = .ok d → d.HasDistinctIds) :
    (e.effect σ now ids t (σ.course e now t)).opened.Pairwise Task.Beside := by
  cases hc : σ.course e now t with
  | fails error => exact .nil
  | waits => exact .nil
  | walks i ending =>
    obtain ⟨d, s, hd, -, -, hending, -⟩ := of_course_walks hc
    exact walked_beside e i σ.tasks now ids (hdistinct d hd)
      (by rw [hending]; exact d.walk_contained _ _ _)
  | reopens previous origin => exact List.pairwise_singleton _ _

/-- A course opens fresh tasks. -/
theorem effect_fresh (hu : u ∈ (e.effect σ now ids t (σ.course e now t)).opened) :
    u.IsFresh now := by
  cases hc : σ.course e now t with
  | walks i ending =>
    rw [hc] at hu
    exact walked_fresh hu
  | reopens previous origin =>
    rw [hc] at hu
    obtain rfl := List.mem_singleton.mp hu
    have hbuilt := built_fresh e σ.record σ.tasks now (ids.draw .task).1
      ⟨origin.taskStep, previous.key, origin.parentId?⟩
    exact ⟨hbuilt.status, hbuilt.progression, hbuilt.createdAt⟩
  | _ =>
    rw [hc] at hu
    cases hu

/-- A course that fails adds at most a join record. -/
theorem effect_of_error (ids : IdSource) {error : EngineError}
    (h : (σ.course e now t).outcome e = .error error) :
    e.effect σ now ids t (σ.course e now t) = ⟨none, [], []⟩ ∨
      ∃ joins, e.effect σ now ids t (σ.course e now t) =
        ⟨some { σ.record with joins := joins }, [], []⟩ := by
  cases hc : σ.course e now t with
  | fails error => exact .inl rfl
  | waits => exact .inl rfl
  | walks i ending =>
    obtain ⟨joins, rfl⟩ := course_walks_record hc
    rw [hc] at h
    exact .inr ⟨joins, walked_of_failed h⟩
  | reopens previous origin =>
    rw [hc] at h
    cases h

/-- Where an instance fails to go on, no task is opened. -/
theorem effect_opened_of_failed {error : EngineError}
    (h : (σ.course e now t).outcome e = .error error) :
    (e.effect σ now ids t (σ.course e now t)).opened = [] := by
  rcases effect_of_error ids h with hnone | ⟨joins, hjoins⟩
  · rw [hnone]
  · rw [hjoins]

/-- A course leaves the status of the instance, or completes it and opens no task. -/
theorem effect_status (e : Engine) (σ : Situation) (now : Timestamp) (ids : IdSource) (t : Task) :
    ((e.effect σ now ids t (σ.course e now t)).record.getD σ.record).status = σ.record.status ∨
      (e.effect σ now ids t (σ.course e now t)).opened = [] := by
  cases hc : σ.course e now t with
  | walks i ending =>
    obtain ⟨joins, hi⟩ := course_walks_record hc
    have hstatus := walked_status e i σ.tasks now ids ending σ.record
    rwa [hi] at hstatus ⊢
  | _ => exact .inl rfl

end Opened

/-! ## Instances with one active step -/

namespace Situation

variable {e : Engine} {σ σ' : Situation} {now : Timestamp} {ids : IdSource} {t u : Task}

/-- The open tasks belong to one step, and tasks are open only in a running instance. While they
are, no task is there to be tried again; and otherwise there is at most one. -/
structure IsFocused (σ : Situation) : Prop where
  ended : σ.record.status = .completed ∨ σ.record.status = .failed →
    ∀ t ∈ σ.tasks, t.status.isOpen = false
  together : σ.record.isRunning → ∀ t ∈ σ.tasks, ∀ u ∈ σ.tasks, t.status.isOpen →
    u.status.isOpen → t = u ∨ t.Beside u
  settled : ∀ d, σ.followed = .ok d → ∀ t ∈ σ.tasks, t.status.isOpen → ∀ u ∈ σ.tasks,
    ¬ u.progression.isStalled
  single : ∀ d, σ.followed = .ok d → ∀ t ∈ σ.tasks, ∀ u ∈ σ.tasks, t.progression.isStalled →
    u.progression.isStalled → t = u

/-- A parallel step counts the tasks of its branches. -/
theorem mem_siblings {p b : Step} {tasks : List Task} (hu : u.IsFrom (.branch p b))
    (hmem : u ∈ tasks) : u ∈ p.siblings tasks := by
  refine List.mem_filter.mpr ⟨hmem, ?_⟩
  rw [hu.key]
  show p.branchStart.toList.isPrefixOf (p.branchKey b).toList = true
  rw [p.branchKey_toList, List.isPrefixOf_iff_prefix]
  exact List.prefix_append _ _

/-- A branch that is finished while another branch of its step is open makes the instance
wait. -/
theorem course_of_beside {d : Definition} (hd : σ.followed = .ok d) (hdistinct : d.HasDistinctIds)
    {origin other : TaskOrigin} (horigin : d.Has origin) (ht : t.IsFrom origin)
    (hother : d.Has other) (hu : u.IsFrom other) (hmem : u ∈ σ.tasks) (hopen : u.status.isOpen)
    (hbeside : t.Beside u) : σ.course e now t = .waits := by
  obtain ⟨p, b, rfl, hp⟩ := ht.of_isBranch hbeside.branch
  obtain ⟨q, c, rfl, hq⟩ := hu.of_isBranch hbeside.symm.branch
  have hid : q.id = p.id := by
    rw [hbeside.parent, hq] at hp
    exact Option.some.inj hp
  obtain rfl : q = p := List.inj_on_of_nodup_map hdistinct.steps hother.1 horigin.1 hid
  have hfiring : σ.firing? now q = none := by
    have hany : ((q.siblings σ.tasks).any fun t => t.status.isOpen) = true :=
      List.any_eq_true.mpr ⟨u, mem_siblings hu hmem, hopen⟩
    rw [firing?, Step.resolvedSiblings?]
    simp only [hany, Bool.or_true, if_true, Option.bind_none]
  exact course_waits hd (fun hback => hback.2 hbeside.branch) (ht.flowStep_eq hdistinct horigin)
    (Definition.isParallel_of_mem_branches horigin.2) hfiring

/-- The tasks of an instance that is carried on behind a task: the marked task, others from
before, and those that are opened. -/
theorem mem_carried_iff {v : Task} (hv : v ∈ (σ.carried e now ids t).tasks) :
    v = t.marked ((σ.course e now t).outcome e) ∨ (v ∈ σ.tasks ∧ v.id ≠ t.id) ∨
      v ∈ (e.effect σ now ids t (σ.course e now t)).opened := by
  obtain ⟨p, hmarked⟩ := marked_eq t ((σ.course e now t).outcome e)
  rcases (mem_put Task.id).mp hv with ⟨rfl, -⟩ | ⟨hv, hne⟩
  · exact .inl rfl
  · rw [hmarked] at hne
    rcases List.mem_append.mp hv with hv | hv
    · exact .inr (.inl ⟨hv, hne⟩)
    · exact .inr (.inr hv)

/-- Carrying on behind a task when nobody is waited for and nothing else has to be tried again. -/
theorem IsFocused.of_rest (hdistinct : ∀ d, σ.followed = .ok d → d.HasDistinctIds)
    (hended : t.status.isOpen = false)
    (hrest : ∀ v ∈ σ.tasks, v.id ≠ t.id →
      v.status.isOpen = false ∧ ¬ v.progression.isStalled) :
    (σ.carried e now ids t).IsFocused := by
  let m := t.marked ((σ.course e now t).outcome e)
  let opened := (e.effect σ now ids t (σ.course e now t)).opened
  obtain ⟨p, hmarked⟩ := marked_eq t ((σ.course e now t).outcome e)
  have hclosed : m.status.isOpen = false := by
    show (t.marked _).status.isOpen = false
    rw [hmarked]
    exact hended
  -- only what the course opens is open afterwards, and only the task itself may have to be tried
  -- again, if nothing has been opened
  have hopen : ∀ v ∈ (σ.carried e now ids t).tasks, v.status.isOpen → v ∈ opened := by
    intro v hv hopen
    rcases mem_carried_iff hv with rfl | ⟨hv, hne⟩ | hv
    · rw [hclosed] at hopen
      cases hopen
    · rw [(hrest v hv hne).1] at hopen
      cases hopen
    · exact hv
  have hstalled : ∀ v ∈ (σ.carried e now ids t).tasks, v.progression.isStalled →
      v = m ∧ opened = [] := by
    intro v hv hstalled
    rcases mem_carried_iff hv with rfl | ⟨hv, hne⟩ | hv
    · refine ⟨rfl, ?_⟩
      cases houtcome : (σ.course e now t).outcome e with
      | ok _ => rw [houtcome] at hstalled; cases hstalled
      | error error => exact effect_opened_of_failed houtcome
    · exact absurd hstalled (hrest v hv hne).2
    · rw [(effect_fresh hv).progression] at hstalled
      cases hstalled
  have hpairs := effect_beside e now ids t hdistinct
  refine ⟨fun hstatus v hv => ?_, fun _ v hv w hw hvopen hwopen => ?_,
    fun d _ v hv hvopen w hw hwstalled => ?_, fun d _ v hv w hw hvstalled hwstalled => ?_⟩
  · by_contra hvopen
    -- an open task has just been opened, in an instance that was running and goes on
    have hmem := hopen v hv (by simpa using hvopen)
    obtain ⟨d, -, hd, -⟩ := effect_isFrom hmem
    have hrunning : σ.record.status = .running := by
      simpa [Instance.isRunning] using (followed_eq_ok.mp hd).1
    rcases effect_status e σ now ids t with hsame | hnone
    · change (Option.getD _ σ.record).status = _ ∨ (Option.getD _ σ.record).status = _ at hstatus
      rw [hsame, hrunning] at hstatus
      rcases hstatus with hstatus | hstatus <;> cases hstatus
    · have hempty : opened = [] := hnone
      rw [hempty] at hmem
      cases hmem
  · by_cases hvw : v = w
    · exact .inl hvw
    · exact .inr (hpairs.forall (hopen v hv hvopen) (hopen w hw hwopen) hvw)
  · have hnone := (hstalled w hw hwstalled).2
    have hsome := hopen v hv hvopen
    rw [hnone] at hsome
    cases hsome
  · rw [(hstalled v hv hvstalled).1, (hstalled w hw hwstalled).1]

/-- Taking a task out of the open ones, unless it has to be tried again. -/
theorem IsFocused.of_closing (h : σ.IsFocused) {m : Task} (hrecord : σ'.record = σ.record)
    (hdefinition : σ'.definition = σ.definition)
    (htasks : ∀ v ∈ σ'.tasks, v = m ∨ v ∈ σ.tasks) (hended : m.status.isOpen = false)
    (hm : ∀ d, σ.followed = .ok d → ¬ m.progression.isStalled) : σ'.IsFocused := by
  have hfollowed : σ'.followed = σ.followed := by rw [followed, followed, hrecord, hdefinition]
  have hopen : ∀ v ∈ σ'.tasks, v.status.isOpen → v ∈ σ.tasks := by
    intro v hv hopen
    rcases htasks v hv with rfl | hv
    · rw [hended] at hopen
      cases hopen
    · exact hv
  have hstalled : ∀ d, σ.followed = .ok d → ∀ v ∈ σ'.tasks, v.progression.isStalled →
      v ∈ σ.tasks := by
    intro d hd v hv hstalled
    rcases htasks v hv with rfl | hv
    · exact absurd hstalled (hm d hd)
    · exact hv
  refine ⟨fun hstatus v hv => ?_, fun hrunning v hv w hw hvopen hwopen => ?_,
    fun d hd v hv hvopen w hw hwstalled => ?_, fun d hd v hv w hw hvstalled hwstalled => ?_⟩
  · rw [hrecord] at hstatus
    rcases htasks v hv with rfl | hv
    · exact hended
    · exact h.ended hstatus v hv
  · rw [hrecord] at hrunning
    exact h.together hrunning v (hopen v hv hvopen) w (hopen w hw hwopen) hvopen hwopen
  · rw [hfollowed] at hd
    exact h.settled d hd v (hopen v hv hvopen) hvopen w (hstalled d hd w hw hwstalled) hwstalled
  · rw [hfollowed] at hd
    exact h.single d hd v (hstalled d hd v hv hvstalled) w (hstalled d hd w hw hwstalled)
      hvstalled hwstalled

/-- The situation is another one in which something has become of a task. -/
structure Differs (σ₀ σ : Situation) (t₀ t : Task) : Prop where
  record : σ.record = σ₀.record
  definition : σ.definition = σ₀.definition
  task : t₀ ∈ σ₀.tasks
  became : t₀.Became t
  others : ∀ v : Task, v.id ≠ t.id → (v ∈ σ.tasks ↔ v ∈ σ₀.tasks)

variable {σ₀ : Situation} {t₀ : Task}

/-- What becomes of a task does not change the definition that its instance follows. -/
theorem Differs.followed_eq (h : σ₀.Differs σ t₀ t) : σ.followed = σ₀.followed := by
  rw [followed, followed, h.record, h.definition]

/-- When something has become of a task that was open before, or had to be tried again, there is
no definition to follow, or the instance waits, or nobody else is waited for and nothing else has
to be tried again. -/
theorem IsFocused.course_cases (h : σ₀.IsFocused) (hroot : σ₀.IsRooted)
    (hdiffers : σ₀.Differs σ t₀ t) (hid : t.id = t₀.id)
    (hbefore : t₀.status.isOpen ∨ t₀.progression.isStalled) (e : Engine) (now : Timestamp) :
    (∃ error, σ₀.followed = .error error ∧ σ.course e now t = .fails error) ∨
      σ.course e now t = .waits ∨
      ∀ v ∈ σ.tasks, v.id ≠ t.id → v.status.isOpen = false ∧ ¬ v.progression.isStalled := by
  cases hd : σ₀.followed with
  | error error =>
    refine .inl ⟨error, rfl, ?_⟩
    rw [course, hdiffers.followed_eq, hd]
  | ok d =>
    refine .inr ?_
    by_cases hrest : ∀ v ∈ σ.tasks, v.id ≠ t.id →
        v.status.isOpen = false ∧ ¬ v.progression.isStalled
    · exact .inr hrest
    -- the other task can only be an open one, and one of the same parallel step
    push Not at hrest
    obtain ⟨u, hmem, hne, hother⟩ := hrest
    have hu := (hdiffers.others u hne).mp hmem
    have hneq : t₀ ≠ u := by
      rintro rfl
      exact hne hid.symm
    have hopen : u.status.isOpen := by
      by_contra hclosed
      have hstalled := hother (by simpa using hclosed)
      rcases hbefore with hopen₀ | hstalled₀
      · exact h.settled d hd t₀ hdiffers.task hopen₀ u hu hstalled
      · exact hneq (h.single d hd t₀ hdiffers.task u hu hstalled₀ hstalled)
    have hopen₀ : t₀.status.isOpen :=
      hbefore.resolve_right (h.settled d hd u hu hopen t₀ hdiffers.task)
    have hbeside : t.Beside u := by
      rcases h.together (followed_eq_ok.mp hd).1 t₀ hdiffers.task u hu hopen₀ hopen with heq | hb
      · exact absurd heq hneq
      · exact hb.of_became hdiffers.became
    have hdefinition := (followed_eq_ok.mp hd).2
    obtain ⟨origin, horigin, hfrom⟩ := hroot.rooted d hdefinition t₀ hdiffers.task
    obtain ⟨other, hotherHas, hufrom⟩ := hroot.rooted d hdefinition u hu
    exact .inl (course_of_beside (hdiffers.followed_eq.trans hd)
      (Definition.hasDistinctIds_of_isSound (hroot.sound d hdefinition)) horigin
      (hfrom.of_became hdiffers.became) hotherHas hufrom hmem hopen hbeside)

/-- A course that opens nothing and leaves the record of the instance alone. -/
theorem IsFocused.of_idle (h : σ₀.IsFocused) (hdiffers : σ₀.Differs σ t₀ t)
    (hended : t.status.isOpen = false)
    (heffect : e.effect σ now ids t (σ.course e now t) = ⟨none, [], []⟩)
    (hmarked : ∀ d, σ₀.followed = .ok d →
      ¬ (t.marked ((σ.course e now t).outcome e)).progression.isStalled) :
    (σ.carried e now ids t).IsFocused := by
  obtain ⟨p, hp⟩ := marked_eq t ((σ.course e now t).outcome e)
  refine h.of_closing (m := t.marked ((σ.course e now t).outcome e)) ?_ hdiffers.definition
    (fun v hv => ?_) (by rw [hp]; exact hended) hmarked
  · show Option.getD _ σ.record = _
    rw [heffect]
    exact hdiffers.record
  · rcases mem_carried_iff hv with rfl | ⟨hv, hne⟩ | hv
    · exact .inl rfl
    · exact .inr ((hdiffers.others v hne).mp hv)
    · rw [heffect] at hv
      cases hv

/-- Carrying on behind a task that was open before, or had to be tried again. -/
theorem IsFocused.carried (h : σ₀.IsFocused) (hroot : σ₀.IsRooted)
    (hdiffers : σ₀.Differs σ t₀ t) (hid : t.id = t₀.id) (hended : t.status.isOpen = false)
    (hbefore : t₀.status.isOpen ∨ t₀.progression.isStalled) :
    (σ.carried e now ids t).IsFocused := by
  rcases h.course_cases hroot hdiffers hid hbefore e now with
    ⟨error, herror, hcourse⟩ | hcourse | hrest
  · exact h.of_idle hdiffers hended (by rw [hcourse]; rfl) fun d hd => by
      rw [herror] at hd
      cases hd
  · exact h.of_idle hdiffers hended (by rw [hcourse]; rfl) fun d _ => by
      rw [hcourse]
      exact Bool.false_ne_true
  · refine .of_rest (fun d hd => Definition.hasDistinctIds_of_isSound (hroot.sound d ?_)) hended
      hrest
    rw [hdiffers.followed_eq] at hd
    exact (followed_eq_ok.mp hd).2

/-- Claiming a task or handing it on. -/
theorem IsFocused.touched (h : σ.IsFocused) (ht : t ∈ σ.tasks) (hopen : t.status.isOpen)
    (hu : t.Touched u) : (σ.withTask u).IsFocused := by
  have hold : ∀ v ∈ (σ.withTask u).tasks, v = u ∨ v ∈ σ.tasks ∧ v.id ≠ u.id := by
    intro v hv
    rcases (mem_put Task.id).mp hv with ⟨rfl, -⟩ | hv
    · exact .inl rfl
    · exact .inr hv
  obtain ⟨assignee, status, claimedAt, hstatus, rfl⟩ := hu
  refine ⟨fun hended v hv => ?_, fun hrunning v hv w hw hvopen hwopen => ?_,
    fun d hd v hv hvopen w hw hwstalled => ?_, fun d hd v hv w hw hvstalled hwstalled => ?_⟩
  · exact absurd hopen (by rw [h.ended hended t ht]; exact Bool.false_ne_true)
  · rcases hold v hv with rfl | ⟨hv, hvid⟩ <;> rcases hold w hw with rfl | ⟨hw, hwid⟩
    · exact .inl rfl
    · rcases h.together hrunning t ht w hw hopen hwopen with rfl | hb
      · exact absurd rfl hwid
      · exact .inr ⟨hb.branch, hb.parent, hb.key⟩
    · rcases h.together hrunning v hv t ht hvopen hopen with rfl | hb
      · exact absurd rfl hvid
      · exact .inr ⟨hb.branch, hb.parent, hb.key⟩
    · exact h.together hrunning v hv w hw hvopen hwopen
  · rcases hold w hw with rfl | ⟨hw, -⟩
    · exact h.settled d hd t ht hopen t ht hwstalled
    · exact h.settled d hd t ht hopen w hw hwstalled
  · rcases hold v hv with rfl | ⟨hv, -⟩
    · exact absurd hvstalled (h.settled d hd t ht hopen t ht)
    · exact absurd hvstalled (h.settled d hd t ht hopen v hv)

/-- Finishing a task makes a situation in which something has become of it. -/
theorem differs_of_finished {c : Completion} (ht : t ∈ σ.tasks) (hu : t.Finished c now u) :
    σ.Differs (σ.withTask u) t u := by
  refine ⟨rfl, rfl, ht, hu.became, fun v hne => ?_⟩
  refine (mem_put Task.id).trans ⟨fun h => ?_, fun h => .inr ⟨h, hne⟩⟩
  rcases h with ⟨rfl, -⟩ | ⟨hv, -⟩
  · exact absurd rfl hne
  · exact hv

/-- The turns that whole requests make keep an instance focused. -/
theorem IsFocused.turn {r : Request} (h : σ.IsFocused) (hroot : σ.IsRooted)
    (hturn : Turn e now r σ σ') (hwhole : r.IsWhole) (hkeeps : r.Keeps σ.record.workflowId) :
    σ'.IsFocused := by
  cases hturn with
  | stays => exact h
  | orphaned =>
    -- an instance without a definition does not go on, so that the other two clauses say nothing
    refine ⟨h.ended, h.together, fun d hd => ?_, fun d hd => ?_⟩
    all_goals
      have hdefinition := (followed_eq_ok.mp hd).2
      cases hdefinition
  | redefined _ text => exact absurd rfl (hkeeps text)
  | cancelled hcancel =>
    have hstatus := congrArg Instance.status (Instance.of_cancel hcancel).2
    refine ⟨fun hended => ?_, fun hrunning => ?_, fun d hd => ?_, fun d hd => ?_⟩
    · rw [hstatus] at hended
      rcases hended with hended | hended <;> cases hended
    · simp [Instance.isRunning, hstatus] at hrunning
    · simp [Situation.followed, Instance.isRunning, hstatus] at hd
    · simp [Situation.followed, Instance.isRunning, hstatus] at hd
  | touched hr ht hopen htouched => exact h.touched ht hopen htouched
  | finished ht hfinished => cases hwhole
  | completed ids ht hfinished =>
    obtain ⟨hopen, hfinished⟩ := Task.of_finishedBy hfinished
    exact h.carried hroot (differs_of_finished ht hfinished) hfinished.place.1 hfinished.isOpen_eq
      (.inl hopen)
  | carried ids hr ht hpending hended =>
    rcases hr with ⟨-, hstalled⟩ | rfl
    · exact h.carried hroot ⟨rfl, rfl, ht, .refl _, fun _ _ => .rfl⟩ rfl hended (.inr hstalled)
    · cases hwhole

/-- A new instance whose first walk ends in its definition is focused. -/
theorem IsFocused.of_walked {i : Instance} {history : List Task} {d : Definition}
    {ending : WalkEnd} (htasks : σ.tasks = []) (hrunning : i.status = .running)
    (hdistinct : d.HasDistinctIds) (hending : d.Contains ending) :
    (σ.after (e.walked i history now ids ending)).IsFocused := by
  have hopened : (σ.after (e.walked i history now ids ending)).tasks =
      (e.walked i history now ids ending).opened := by
    rw [Situation.after, htasks, List.nil_append]
  have hpairs := walked_beside e i history now ids hdistinct hending
  have hidle : ∀ v ∈ (σ.after (e.walked i history now ids ending)).tasks,
      ¬ v.progression.isStalled := by
    intro v hv
    rw [hopened] at hv
    rw [(walked_fresh hv).progression]
    exact Bool.false_ne_true
  refine ⟨fun hended v hv => ?_, fun _ v hv w hw _ _ => ?_,
    fun d _ v _ _ w hw => hidle w hw, fun d _ v hv w _ hvstalled => absurd hvstalled (hidle v hv)⟩
  · rw [hopened] at hv
    rcases walked_status e i history now ids ending σ.record with hsame | hempty
    · change (Option.getD _ σ.record).status = _ ∨ (Option.getD _ σ.record).status = _ at hended
      rw [hsame, hrunning] at hended
      rcases hended with hended | hended <;> cases hended
    · rw [hempty] at hv
      cases hv
  · rw [hopened] at hv hw
    by_cases hvw : v = w
    · exact .inl hvw
    · exact .inr (hpairs.forall hv hw hvw)

/-- A new instance is focused. -/
theorem IsFocused.of_birth (h : σ.IsBirth now) :
    (σ.after (Workflows.launched e σ now ids)).IsFocused := by
  obtain ⟨hnone, ⟨id, workflow, input, hnew⟩, text, htext⟩ := h
  rcases launched_cases e σ now ids with hempty | ⟨d, ending, hd, hcontained, hwalked⟩
  · have hopened : (σ.after (Workflows.launched e σ now ids)).tasks = [] := by
      rw [Situation.after, hnone, hempty, List.nil_append]
    constructor <;> simp [hopened]
  · have hsound := Definition.isSound_of_parse (htext.symm.trans (followed_eq_ok.mp hd).2)
    rw [hwalked]
    exact .of_walked hnone (by rw [hnew]; rfl) (Definition.hasDistinctIds_of_isSound hsound)
      hcontained

end Situation

/-! ## Runs -/

namespace Environment

/-- Whole requests that keep definitions keep every instance rooted and focused. -/
theorem serveAll_focused (seed : Nat) (start : Timestamp) (e : Engine) (calls : List Call)
    (hcalls : ∀ c ∈ calls, c.request.IsWhole ∧ c.request.KeepsDefinitions)
    (hrange : ((fresh seed start).serveAll e calls).ids.InRange) {id : Uuid} {σ : Situation}
    (hσ : ((fresh seed start).serveAll e calls).store.situation? id = some σ) :
    σ.IsRooted ∧ σ.IsFocused := by
  refine serveAll_induction (P := fun _ σ => σ.IsRooted ∧ σ.IsFocused)
    (fun _ c σ ids _ hbirth => ⟨.of_birth hbirth, .of_birth hbirth⟩)
    (fun _ c σ σ' hc _ _ h hturn =>
      ⟨h.1.turn hturn (hc.2.keeps _), h.2.turn h.1 hturn hc.1 (hc.2.keeps _)⟩)
    (fresh_orderly seed start) calls (admitted_of_forall hcalls _) hrange (fun id σ hσ => ?_) hσ
  cases hσ

end Environment

/-- In every environment that whole requests reach without replacing a definition, the open tasks
of a running instance belong to one step: there is at most one, or they are tasks of one parallel
step under different keys. An instance that is completed or has failed has no open task. -/
theorem one_active_step (seed : Nat) (start : Timestamp) (e : Engine) (calls : List Call)
    (hcalls : ∀ c ∈ calls, c.request.IsWhole ∧ c.request.KeepsDefinitions)
    (hrange : ((Environment.fresh seed start).serveAll e calls).ids.InRange) {i : Instance}
    (hi : i ∈ ((Environment.fresh seed start).serveAll e calls).store.instances) :
    let tasks := (((Environment.fresh seed start).serveAll e calls).store.tasksOf i.id).filter
      fun t => t.status.isOpen
    (i.isRunning → tasks.length ≤ 1 ∨
      ∃ p, (∀ t ∈ tasks, t.parentStepId = some p) ∧ tasks.Pairwise fun t u => t.key ≠ u.key) ∧
    (i.status = .completed ∨ i.status = .failed → tasks = []) := by
  intro tasks
  let env := (Environment.fresh seed start).serveAll e calls
  have henv : env.Orderly :=
    Environment.serveAll_orderly (Environment.fresh_orderly seed start) calls hrange
  have hσ : env.store.situation? i.id =
      some ⟨i, env.store.tasksOf i.id, env.store.definitionOf i⟩ :=
    situation?_eq_some_iff.mpr ⟨i, henv.store.instance?_eq_some_iff.mpr ⟨hi, rfl⟩, rfl⟩
  obtain ⟨-, hfocused⟩ := Environment.serveAll_focused seed start e calls hcalls hrange hσ
  have hopen : ∀ t ∈ tasks, t ∈ env.store.tasksOf i.id ∧ t.status.isOpen := fun t ht =>
    ⟨List.mem_of_mem_filter ht, by simpa using (List.mem_filter.mp ht).2⟩
  refine ⟨fun hrunning => ?_, fun hended => ?_⟩
  · have hnodup : tasks.Nodup := ((List.Nodup.of_map Task.id henv.store.task_ids).filter _).filter _
    have hpairs : tasks.Pairwise Task.Beside := hnodup.pairwise_of_forall_ne fun t ht u hu hne => by
      obtain ⟨htmem, htopen⟩ := hopen t ht
      obtain ⟨humem, huopen⟩ := hopen u hu
      exact (hfocused.together hrunning t htmem u humem htopen huopen).resolve_left hne
    exact Task.Beside.one_step hpairs
  · refine List.filter_eq_nil_iff.mpr fun t ht => ?_
    rw [hfocused.ended hended t ht]
    exact Bool.false_ne_true

/-- A parallel step opens the tasks of two branches; another step follows. -/
def fanOutRun : List Call :=
  let workflow := IdSource.issue 0 .workflow 0
  Call.atOnce ⟨0, 0⟩
    [.createWorkflow "w" "" ("\x7b\"steps\":[\x7b\"id\":\"p\",\"type\":\"parallel\"," ++
        "\"parallelTasks\":[[\"b\",\"user_task\"],[\"c\",\"user_task\"]]\x7d," ++
        "[\"s\",\"user_task\"]]\x7d"),
      .applyAction .activate workflow, .startInstance workflow .null]

/-- The instance that is started in `fanOutRun`. -/
def fanOutInstance : Instance :=
  .new (IdSource.issue 0 .run 0) (IdSource.issue 0 .workflow 0) .null ⟨0, 0⟩

/-- The two tasks that are open belong to one step. -/
theorem one_active_step_fanOut :
    (((Environment.fresh 0 ⟨0, 0⟩).serveAll .default fanOutRun).store.tasksOf
        fanOutInstance.id).length = 2 ∧
      ∃ p, ∀ t ∈ (((Environment.fresh 0 ⟨0, 0⟩).serveAll .default fanOutRun).store.tasksOf
        fanOutInstance.id).filter fun t => t.status.isOpen, t.parentStepId = some p := by
  have htwo : ((((Environment.fresh 0 ⟨0, 0⟩).serveAll .default fanOutRun).store.tasksOf
      fanOutInstance.id).filter fun t => t.status.isOpen).length = 2 := by decide +kernel
  obtain ⟨htogether, -⟩ := one_active_step 0 ⟨0, 0⟩ .default fanOutRun
    (by simp [fanOutRun, Call.atOnce, Request.IsWhole, Request.KeepsDefinitions])
    (by decide +kernel) (i := fanOutInstance) (by decide +kernel)
  refine ⟨by decide +kernel, ?_⟩
  rcases htogether (by decide +kernel) with hone | ⟨p, hp, -⟩
  · rw [htwo] at hone
    omega
  · exact ⟨p, hp⟩

end ApprovalWorkflow
