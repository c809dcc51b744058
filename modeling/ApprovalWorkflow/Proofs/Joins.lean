import ApprovalWorkflow.Proofs.Timeline

/-!
# Joins

A parallel step opens a task for each of its branches, and goes on when all of them have ended. In
whichever order people finish these tasks, and whatever else they ask for meanwhile, the instance
waits and its record stays what it is until the last of them is finished; then one join record is
added, and one walk begins behind the parallel step (`join_fires_once`). If the clock does not run
backwards, the walk ends in the same place for every order.

A join is not fired again for tasks that have fired it before. This cannot stop the last branch:
a join record names only tasks that have ended (`Situation.IsJoined`), and the last branch was open
until now.
-/

set_option autoImplicit false

namespace ApprovalWorkflow

open Engine

/-! ## Tasks that have ended -/

namespace Situation

variable {e : Engine} {σ σ' : Situation} {now : Timestamp} {ids : IdSource} {t u : Task}
  {r : Request} {id : Uuid}

/-- The task of an identifier has ended. -/
def Closed (σ : Situation) (id : Uuid) : Prop :=
  ∃ t ∈ σ.tasks, t.id = id ∧ t.status.isOpen = false

/-- An open task has not ended. -/
theorem Closed.ne (h : σ.Closed id) (hids : (σ.tasks.map Task.id).Nodup) (ht : t ∈ σ.tasks)
    (hopen : t.status.isOpen) : t.id ≠ id := by
  obtain ⟨u, hu, rfl, hended⟩ := h
  intro hid
  rw [List.inj_on_of_nodup_map hids ht hu hid, hended] at hopen
  cases hopen

/-- What has ended has ended when a task takes the place of one that was open, or that has ended as
well. -/
theorem Closed.withTask (h : σ.Closed id) (hids : (σ.tasks.map Task.id).Nodup) (ht : t ∈ σ.tasks)
    (hid : u.id = t.id) (hended : t.status.isOpen = false → u.status.isOpen = false) :
    (σ.withTask u).Closed id := by
  obtain ⟨v, hv, rfl, hvended⟩ := h
  by_cases hvid : v.id = u.id
  · obtain rfl := List.inj_on_of_nodup_map hids hv ht (hvid.trans hid)
    exact ⟨u, mem_put_self Task.id ht hid, hid, hended hvended⟩
  · exact ⟨v, (mem_put Task.id).mpr (.inr ⟨hv, hvid⟩), rfl, hvended⟩

/-- What has ended has ended when a finished task is carried through. -/
theorem Closed.carried (h : σ.Closed id)
    (hids' : ((σ.carried e now ids t).tasks.map Task.id).Nodup) (ht : t ∈ σ.tasks)
    (hended : t.status.isOpen = false) : (σ.carried e now ids t).Closed id := by
  obtain ⟨v, hv, rfl, hvended⟩ := h
  have hafter : (σ.after (e.effect σ now ids t (σ.course e now t))).Closed v.id :=
    ⟨v, List.mem_append_left _ hv, rfl, hvended⟩
  obtain ⟨p, hmarked⟩ := marked_eq t ((σ.course e now t).outcome e)
  refine hafter.withTask ?_ (List.mem_append_left _ ht) (by rw [hmarked]) fun _ => ?_
  · rwa [Situation.carried, ids_withTask] at hids'
  · rw [hmarked]
    exact hended

/-- What has ended stays so. -/
theorem Closed.turn (h : σ.Closed id) (hids : (σ.tasks.map Task.id).Nodup)
    (hids' : (σ'.tasks.map Task.id).Nodup) (hturn : Turn e now r σ σ') : σ'.Closed id := by
  cases hturn with
  | stays => exact h
  | orphaned => exact h
  | redefined => exact h
  | cancelled => exact h
  | touched hr ht hopen htouched =>
    refine h.withTask hids ht htouched.id_eq fun hended => ?_
    rw [hopen] at hended
    cases hended
  | finished ht hu =>
    obtain ⟨-, hfinished⟩ := Task.of_finishedBy hu
    exact h.withTask hids ht hfinished.place.1 fun _ => hfinished.isOpen_eq
  | completed ids ht hu =>
    obtain ⟨-, hfinished⟩ := Task.of_finishedBy hu
    have hid := hfinished.place.1
    have hworked := h.withTask hids ht hid fun _ => hfinished.isOpen_eq
    exact hworked.carried hids' (mem_put_self Task.id ht hid) hfinished.isOpen_eq
  | carried ids hr ht hpending hended => exact h.carried hids' ht hended

/-! ## Join records -/

/-- What a resolved join says: there are branch tasks, all of them have ended, and their ids stand
in order. -/
theorem of_resolvedSiblings? {parallel : Step} {tasks : List Task} {taskIds : List Uuid}
    (h : parallel.resolvedSiblings? tasks = some taskIds) :
    parallel.siblings tasks ≠ [] ∧
      (∀ t ∈ parallel.siblings tasks, t.status.isOpen = false) ∧
      taskIds = Instance.sortedIds ((parallel.siblings tasks).map Task.id) := by
  unfold Step.resolvedSiblings? at h
  dsimp only at h
  split at h <;> cases h
  next hresolved =>
  refine ⟨fun hnone => hresolved ?_, fun t ht => ?_, rfl⟩
  · rw [hnone]
    rfl
  · by_contra hopen
    refine hresolved (Bool.or_eq_true_iff.mpr (.inr (List.any_eq_true.mpr ⟨t, ht, ?_⟩)))
    simpa using hopen

/-- The tasks that wait for one another at a resolved join have ended. -/
theorem closed_of_resolved {parallel : Step} {taskIds : List Uuid}
    (h : parallel.resolvedSiblings? σ.tasks = some taskIds) (hid : id ∈ taskIds) :
    σ.Closed id := by
  obtain ⟨-, hended, rfl⟩ := of_resolvedSiblings? h
  obtain ⟨t, ht, rfl⟩ := List.mem_map.mp (List.mem_mergeSort.mp hid)
  exact ⟨t, List.mem_of_mem_filter ht, rfl, hended t ht⟩

/-- The tasks that join records name have ended. -/
def IsJoined (σ : Situation) : Prop := ∀ j ∈ σ.record.joins, ∀ id ∈ j.taskIds, σ.Closed id

/-- A walk leaves the join records of the instance. -/
theorem walked_joins (e : Engine) (i : Instance) (history : List Task) (now : Timestamp)
    (ids : IdSource) (ending : WalkEnd) (j : Instance) :
    ((e.walked i history now ids ending).record.getD j).joins = i.joins := by
  cases ending <;> rfl

/-- A join record that a course adds names the tasks of a resolved join. -/
theorem effect_join {j : JoinRecord}
    (hj : j ∈ ((e.effect σ now ids t (σ.course e now t)).record.getD σ.record).joins) :
    j ∈ σ.record.joins ∨ ∃ s taskIds, Step.resolvedSiblings? s σ.tasks = some taskIds ∧
      j = ⟨s.id, Instance.sortedIds taskIds, now⟩ := by
  cases hc : σ.course e now t with
  | walks i ending =>
    rw [hc] at hj
    have hjoins : j ∈ i.joins := by
      rwa [← walked_joins e i σ.tasks now ids ending σ.record]
    obtain ⟨d, s, -, -, -, -, ⟨-, rfl⟩ | ⟨-, hfiring⟩⟩ := of_course_walks hc
    · exact .inl hjoins
    · obtain ⟨taskIds, hresolved, rfl⟩ := of_firing? hfiring
      rcases List.mem_append.mp hjoins with hold | hnew
      · exact .inl hold
      · exact .inr ⟨s, taskIds, hresolved, List.mem_singleton.mp hnew⟩
  | _ =>
    rw [hc] at hj
    exact .inl hj

/-- A join record that a course adds names tasks that have ended. -/
theorem effect_joins {j : JoinRecord}
    (hj : j ∈ ((e.effect σ now ids t (σ.course e now t)).record.getD σ.record).joins) :
    j ∈ σ.record.joins ∨ ∀ id ∈ j.taskIds, σ.Closed id := by
  rcases effect_join hj with hold | ⟨s, taskIds, hresolved, rfl⟩
  · exact .inl hold
  · exact .inr fun id hid => closed_of_resolved hresolved (List.mem_mergeSort.mp hid)

/-- Join records name only tasks that have ended after every turn. -/
theorem IsJoined.turn (h : σ.IsJoined) (hids : (σ.tasks.map Task.id).Nodup)
    (hids' : (σ'.tasks.map Task.id).Nodup) (hturn : Turn e now r σ σ') : σ'.IsJoined := by
  have hstay : ∀ {id}, σ.Closed id → σ'.Closed id := fun hclosed => hclosed.turn hids hids' hturn
  cases hturn with
  | stays => exact h
  | orphaned => exact h
  | redefined => exact h
  | cancelled hcancel =>
    intro j hj id hid
    rw [(Instance.of_cancel hcancel).2] at hj
    exact hstay (h j hj id hid)
  | touched hr ht hopen htouched => exact fun j hj id hid => hstay (h j hj id hid)
  | finished ht hu => exact fun j hj id hid => hstay (h j hj id hid)
  | completed ids ht hu =>
    obtain ⟨-, hfinished⟩ := Task.of_finishedBy hu
    have hid := hfinished.place.1
    intro j hj id hid'
    rcases effect_joins (σ := σ.withTask _) hj with hold | hnew
    · exact hstay (h j hold id hid')
    · exact (hnew id hid').carried hids' (mem_put_self Task.id ht hid) hfinished.isOpen_eq
  | carried ids hr ht hpending hended =>
    intro j hj id hid
    rcases effect_joins hj with hold | hnew
    · exact hstay (h j hold id hid)
    · exact (hnew id hid).carried hids' ht hended

/-- A new instance has no join records. -/
theorem joins_of_birth (h : σ.IsBirth now) :
    (σ.after (Workflows.launched e σ now ids)).record.joins = [] := by
  obtain ⟨-, ⟨id, workflow, input, hnew⟩, -⟩ := h
  have hjoins : ((Workflows.launched e σ now ids).record.getD σ.record).joins =
      σ.record.joins := by
    unfold Workflows.launched
    split
    · unfold begun
      split
      · rfl
      · exact walked_joins e _ _ now ids _ σ.record
    · rfl
  rw [after, hjoins, hnew]
  rfl

/-- A start records no join, so all tasks that join records name have ended. -/
theorem IsJoined.of_birth (h : σ.IsBirth now) :
    (σ.after (Workflows.launched e σ now ids)).IsJoined := by
  intro j hj
  rw [joins_of_birth h] at hj
  cases hj

/-! ## Steady instances -/

/-- What whole requests keep of an instance as long as its definition stays. It is in the order of
time if the clock does not run backwards. -/
structure IsSteady (forward : Prop) (now : Timestamp) (σ : Situation) : Prop where
  rooted : σ.IsRooted
  focused : σ.IsFocused
  joined : σ.IsJoined
  timely : forward → σ.IsTimely now

variable {forward : Prop} {now' : Timestamp}

/-- Turns keep an instance steady as long as they keep its definition. -/
theorem IsSteady.turn (h : σ.IsSteady forward now) (hnow : forward → now.le now')
    (hids : (σ.tasks.map Task.id).Nodup) (hids' : (σ'.tasks.map Task.id).Nodup)
    (hturn : Turn e now' r σ σ') (hwhole : r.IsWhole) (hkeeps : r.Keeps σ.record.workflowId) :
    σ'.IsSteady forward now' where
  rooted := h.rooted.turn hturn hkeeps
  focused := h.focused.turn h.rooted hturn hwhole hkeeps
  joined := h.joined.turn hids hids' hturn
  timely hforward :=
    (h.timely hforward).turn (hnow hforward) hids hids' h.focused h.rooted hturn hwhole

/-- A new instance is steady. -/
theorem IsSteady.of_birth (h : σ.IsBirth now) :
    (σ.after (Workflows.launched e σ now ids)).IsSteady forward now :=
  ⟨.of_birth h, .of_birth h, .of_birth h, fun _ => .of_birth h⟩

end Situation

/-- An instance is steady if whole requests have kept its definition since it was started. -/
theorem Environment.serveAll_steady {e : Engine} {env : Environment} (henv : env.Orderly)
    (forward : Prop) {calls : List Call} {i : Instance} (hnew : env.store.instance? i.id = none)
    (hforward : forward → Admitted (fun now c => now.le c.time) env.now calls)
    (hcalls : ∀ c ∈ calls, c.request.IsWhole ∧ c.request.Keeps i.workflowId)
    (hrange : (env.serveAll e calls).ids.InRange) {σ : Situation}
    (hσ : (env.serveAll e calls).store.situation? i.id = some σ)
    (hworkflow : σ.record.workflowId = i.workflowId) :
    σ.IsSteady forward (env.serveAll e calls).now := by
  have horderly := serveAll_orderly henv calls hrange
  refine serveAll_induction
    (P := fun now σ => σ.record.id = i.id ∧ σ.record.workflowId = i.workflowId →
      σ.IsSteady forward now)
    (fun _ c σ ids _ hbirth _ => .of_birth hbirth)
    (fun now c σ σ' hc hids hids' h hturn hsame => ?_) henv calls
    ((admitted_of_imp hforward).and hcalls) hrange
    (fun id τ hτ hsame => ?_) hσ ⟨(record_id hσ).2, hworkflow⟩
  · obtain ⟨hid, hworkflow⟩ := hturn.record_eq
    have hbefore := hsame.2
    rw [hid, hworkflow] at hsame
    exact (h hsame).turn hc.1 hids hids' hturn hc.2.1 (by rw [hsame.2]; exact hc.2.2)
  · obtain ⟨hstored, -⟩ := record_id hτ
    rw [hsame.1, hnew] at hstored
    cases hstored

/-! ## Instances that wait -/

/-- What people may do with a task while its instance waits: they work on it as long as it is
open. -/
def Task.Proceeds (t u : Task) : Prop := t.Became u ∧ (t.status.isOpen = false → u = t)

/-- A request about anything but the definition and the end of an instance. -/
structure Request.Spares (i : Instance) (r : Request) : Prop where
  whole : r.IsWhole
  keeps : r.Keeps i.workflowId
  leaves : r ≠ .deleteWorkflow i.workflowId
  continues : r ≠ .cancelInstance i.id

namespace Situation

variable {e : Engine} {σ₀ σ σ' : Situation} {now now' : Timestamp} {ids : IdSource} {t u : Task}
  {a : Actor} {c : Completion} {r : Request} {d : Definition} {forward : Prop}

/-- A branch that is finished while another task is open makes the instance wait. -/
theorem course_of_early (hsteady : σ.IsSteady forward now) (hd : σ.followed = .ok d)
    (ht : t ∈ σ.tasks) (hu : t.finishedBy a c now' = .ok u)
    (hearly : ∃ v ∈ (σ.withTask u).tasks, v.status.isOpen) :
    (σ.withTask u).course e now' u = .waits := by
  obtain ⟨hopen, hfinished⟩ := Task.of_finishedBy hu
  obtain ⟨v, hv, hvopen⟩ := hearly
  rcases hsteady.focused.course_cases hsteady.rooted (differs_of_finished ht hfinished)
    hfinished.place.1 (.inl hopen) e now' with ⟨error, herror, -⟩ | hwaits | hrest
  · rw [hd] at herror
    cases herror
  · exact hwaits
  · have hother : v.id ≠ u.id := by
      rcases (mem_put Task.id).mp hv with ⟨rfl, -⟩ | ⟨-, hne⟩
      · rw [hfinished.isOpen_eq] at hvopen
        cases hvopen
      · exact hne
    rw [(hrest v hv hother).1] at hvopen
    cases hvopen

/-- An instance that waits is carried on without any change but a mark. -/
theorem carried_of_waits (h : σ.course e now t = .waits) :
    σ.carried e now ids t = σ.withTask (t.marked (.ok ())) := by
  rw [carried, h]
  show (Situation.after σ ⟨none, [], []⟩).withTask _ = _
  rw [after, List.append_nil]
  rfl

/-- Of two changes of one task the last one counts. -/
theorem withTask_withTask (hid : t.id = u.id) : (σ.withTask t).withTask u = σ.withTask u := by
  rw [withTask, withTask, withTask, put_put Task.id hid]

/-- The instance has not gone on: people have worked on its open tasks. -/
structure Waits (σ₀ σ : Situation) : Prop where
  record : σ.record = σ₀.record
  definition : σ.definition = σ₀.definition
  tasks : ∃ f : Task → Task, σ.tasks = σ₀.tasks.map f ∧ ∀ t ∈ σ₀.tasks, t.Proceeds (f t)

/-- An instance about which nothing has been done waits. -/
theorem Waits.refl (σ : Situation) : σ.Waits σ :=
  ⟨rfl, rfl, id, (List.map_id _).symm, fun t _ => ⟨.refl t, fun _ => rfl⟩⟩

/-- An instance that waits follows its definition. -/
theorem Waits.followed_eq (h : σ₀.Waits σ) : σ.followed = σ₀.followed := by
  rw [followed, followed, h.record, h.definition]

/-- An instance waits while people work on open tasks. -/
theorem Waits.withTask (h : σ₀.Waits σ) (hids : (σ.tasks.map Task.id).Nodup) (ht : t ∈ σ.tasks)
    (hopen : t.status.isOpen) (hu : t.Became u) : σ₀.Waits (σ.withTask u) := by
  obtain ⟨f, hf, hproceeds⟩ := h.tasks
  refine ⟨h.record, h.definition, fun v => if (f v).id = u.id then u else f v, ?_,
    fun v hv => ?_⟩
  · show put Task.id u σ.tasks = _
    rw [hf, put, List.map_map]
    rfl
  · obtain ⟨hbecame, hended⟩ := hproceeds v hv
    dsimp only
    split
    · next hsame =>
      have hmem : f v ∈ σ.tasks := hf ▸ List.mem_map_of_mem hv
      have hfv := List.inj_on_of_nodup_map hids hmem ht (hsame.trans hu.id_eq)
      rw [hfv] at hbecame hended
      refine ⟨hbecame.trans hu, fun hclosed => ?_⟩
      rw [hended hclosed, hclosed] at hopen
      cases hopen
    · exact ⟨hbecame, hended⟩

/-- An instance that waits has the tasks that it had. -/
theorem Waits.ids_eq (h : σ₀.Waits σ) : σ.tasks.map Task.id = σ₀.tasks.map Task.id := by
  obtain ⟨f, hf, hproceeds⟩ := h.tasks
  rw [hf, List.map_map]
  exact List.map_congr_left fun t ht => (hproceeds t ht).1.id_eq

/-- Each open task of an instance that waits was open before. -/
theorem Waits.of_mem (h : σ₀.Waits σ) (ht : t ∈ σ.tasks) (hopen : t.status.isOpen) :
    ∃ t₀ ∈ σ₀.tasks, t₀.Became t ∧ t₀.status.isOpen := by
  obtain ⟨f, hf, hproceeds⟩ := h.tasks
  rw [hf] at ht
  obtain ⟨t₀, ht₀, rfl⟩ := List.mem_map.mp ht
  refine ⟨t₀, ht₀, (hproceeds t₀ ht₀).1, ?_⟩
  by_contra hclosed
  rw [(hproceeds t₀ ht₀).2 (by simpa using hclosed)] at hopen
  exact hclosed hopen

/-- All tasks that were open have ended. -/
def Resolved (σ₀ σ : Situation) : Prop :=
  ∀ t ∈ σ₀.tasks, t.status.isOpen → σ.Closed t.id

/-- If nobody is waited for any more, all tasks that were open have ended. -/
theorem Waits.resolved (h : σ₀.Waits σ) (hclosed : ∀ v ∈ σ.tasks, σ'.Closed v.id) :
    σ₀.Resolved σ' := by
  obtain ⟨f, hf, hproceeds⟩ := h.tasks
  intro t ht _
  rw [← (hproceeds t ht).1.id_eq]
  exact hclosed (f t) (hf ▸ List.mem_map_of_mem ht)

/-- While a task is open, a turn leaves the instance waiting, or all tasks that were open have
ended. -/
theorem Waits.turn (h : σ₀.Waits σ)
    (hsteady : σ.IsSteady forward now) (hids : (σ.tasks.map Task.id).Nodup)
    (hids' : (σ'.tasks.map Task.id).Nodup) (hd : σ.followed = .ok d)
    (hopen : ∃ v ∈ σ.tasks, v.status.isOpen) (hturn : Turn e now' r σ σ')
    (hr : r.Spares σ.record) : σ₀.Waits σ' ∨ σ₀.Resolved σ' := by
  cases hturn with
  | stays => exact .inl h
  | orphaned => exact absurd rfl hr.leaves
  | redefined _ text => exact absurd rfl (hr.keeps text)
  | cancelled => exact absurd rfl hr.continues
  | touched hr' ht htopen htouched => exact .inl (h.withTask hids ht htopen htouched.became)
  | finished ht hu => cases hr.whole
  | @completed _ t u a c ids ht hu =>
    obtain ⟨htopen, hfinished⟩ := Task.of_finishedBy hu
    -- if this was the last open task, the join fires and may open others
    by_cases hearly : ∃ v ∈ (σ.withTask u).tasks, v.status.isOpen
    · rw [carried_of_waits (course_of_early hsteady hd ht hu hearly), withTask_withTask (by rfl)]
      exact .inl (h.withTask hids ht htopen (hfinished.became.trans (u.became_marked _)))
    · refine .inr (h.resolved fun v hv => ?_)
      refine Closed.carried ?_ hids' (mem_put_self Task.id ht hfinished.place.1)
        hfinished.isOpen_eq
      have hthere : v.id ∈ (σ.withTask u).tasks.map Task.id := by
        rw [ids_withTask]
        exact List.mem_map_of_mem hv
      obtain ⟨w, hw, hwid⟩ := List.mem_map.mp hthere
      refine ⟨w, hw, hwid, ?_⟩
      by_contra hwopen
      exact hearly ⟨w, hw, by simpa using hwopen⟩
  | carried ids hr' ht hpending hended =>
    rcases hr' with ⟨-, hstalled⟩ | rfl
    · obtain ⟨v, hv, hvopen⟩ := hopen
      exact absurd hstalled (hsteady.focused.settled d hd v hv hvopen _ ht)
    · cases hr.whole

end Situation

/-- While requests spare an instance, it waits until all tasks that were open have ended. -/
theorem Environment.serveAll_waits {e : Engine} {env : Environment} (henv : env.Orderly)
    {calls : List Call} (σ₀ : Situation) {d : Definition}
    (hσ₀ : env.store.situation? σ₀.record.id = some σ₀) (hd : σ₀.followed = .ok d)
    (hsteady : σ₀.IsSteady False env.now) (hcalls : ∀ c ∈ calls, c.request.Spares σ₀.record)
    (hrange : (env.serveAll e calls).ids.InRange) :
    ∃ σ, (env.serveAll e calls).store.situation? σ₀.record.id = some σ ∧
      σ.IsSteady False (env.serveAll e calls).now ∧ (σ₀.Waits σ ∨ σ₀.Resolved σ) := by
  have hturn : ∀ (now : Timestamp) (c : Call) (σ σ' : Situation),
      c.request.Spares σ₀.record → (σ.tasks.map Task.id).Nodup → (σ'.tasks.map Task.id).Nodup →
      σ.record.workflowId = σ₀.record.workflowId ∧ σ.IsSteady False now ∧
        (σ₀.Waits σ ∨ σ₀.Resolved σ) →
      Turn e c.time c.request σ σ' →
      σ'.record.workflowId = σ₀.record.workflowId ∧ σ'.IsSteady False c.time ∧
        (σ₀.Waits σ' ∨ σ₀.Resolved σ') := by
    rintro now c σ σ' hc hids hids' ⟨hworkflow, hsteady, hbefore⟩ hturn
    refine ⟨hturn.record_eq.2.trans hworkflow, hsteady.turn False.elim hids hids' hturn hc.whole
      (by rw [hworkflow]; exact hc.keeps), ?_⟩
    -- what has ended stays so; until then, the turn is one of a waiting instance
    rcases hbefore with hwaits | hresolved
    · by_cases hopen : ∃ v ∈ σ.tasks, v.status.isOpen
      · exact hwaits.turn hsteady hids hids' (hwaits.followed_eq.trans hd) hopen hturn
          (by rw [hwaits.record]; exact hc)
      · refine .inr (hwaits.resolved fun v hv => .turn ⟨v, hv, rfl, ?_⟩ hids hids' hturn)
        by_contra hvopen
        exact hopen ⟨v, hv, by simpa using hvopen⟩
    · exact .inr fun t ht hopen => (hresolved t ht hopen).turn hids hids' hturn
  obtain ⟨σ, hσ, -, hkept⟩ := serveAll_turns hturn henv calls (admitted_of_forall hcalls _)
    hrange hσ₀ ⟨rfl, hsteady, .inl (.refl σ₀)⟩
  exact ⟨σ, hσ, hkept⟩

/-! ## The last branch -/

/-- A join is resolved if a task of the step is there and none is open. -/
theorem Step.resolvedSiblings?_eq {p : Step} {tasks : List Task} {u : Task}
    (hu : u ∈ p.siblings tasks) (hended : ∀ v ∈ tasks, v.status.isOpen = false) :
    p.resolvedSiblings? tasks = some (Instance.sortedIds ((p.siblings tasks).map Task.id)) := by
  have hsome : (p.siblings tasks).isEmpty = false := by
    rw [List.isEmpty_eq_false_iff]
    exact List.ne_nil_of_mem hu
  have hnone : ((p.siblings tasks).any fun t => t.status.isOpen) = false := by
    rw [List.any_eq_false]
    intro v hv
    rw [hended v (List.mem_of_mem_filter hv)]
    exact Bool.false_ne_true
  rw [resolvedSiblings?]
  simp only [hsome, hnone, Bool.or_false, Bool.false_eq_true, if_false]

/-- The instance with one more join record. -/
def Instance.withJoin (i : Instance) (p : Step) (ids : List Uuid) (now : Timestamp) : Instance :=
  { i with joins := i.joins ++ [⟨p.id, sortedIds ids, now⟩] }

namespace Situation

variable {e : Engine} {σ : Situation} {now now' : Timestamp} {t u : Task} {a : Actor}
  {c : Completion} {d : Definition} {p : Step} {forward : Prop}

/-- A branch that is finished last fires the join of its step. -/
theorem course_of_last (hsteady : σ.IsSteady forward now) (hids : (σ.tasks.map Task.id).Nodup)
    (hd : σ.followed = .ok d) (hp : p ∈ d.steps) (ht : t ∈ σ.tasks)
    (hparent : t.parentStepId = some p.id) (hu : t.finishedBy a c now' = .ok u)
    (hlast : ∀ v ∈ (σ.withTask u).tasks, v.status.isOpen = false) :
    ∃ ids, p.resolvedSiblings? (σ.withTask u).tasks = some ids ∧
      (σ.withTask u).course e now' u = .walks (σ.record.withJoin p ids now')
        (d.walk (σ.withTask u).around e.settings.maxAutoSteps p) := by
  obtain ⟨hopen, hfinished⟩ := Task.of_finishedBy hu
  have hid := hfinished.place.1
  have hmem : u ∈ (σ.withTask u).tasks := mem_put_self Task.id ht hid
  have hdefinition := (followed_eq_ok.mp hd).2
  have hdistinct := Definition.hasDistinctIds_of_isSound (hsteady.rooted.sound d hdefinition)
  obtain ⟨origin, horigin, hfrom⟩ := hsteady.rooted.rooted d hdefinition t ht
  have hbranch : t.isBranch := by
    rw [Task.isBranch, hparent]
    rfl
  obtain ⟨q, b, rfl, hq⟩ := hfrom.of_isBranch hbranch
  obtain rfl : q = p := by
    refine List.inj_on_of_nodup_map hdistinct.steps horigin.1 hp ?_
    rw [hparent] at hq
    exact (Option.some.inj hq).symm
  have hufrom := hfrom.of_became hfinished.became
  have hsibling := mem_siblings hufrom hmem
  have hresolved := Step.resolvedSiblings?_eq hsibling hlast
  have hfiring : (σ.withTask u).firing? now' q = some (σ.record.withJoin q
      (Instance.sortedIds ((q.siblings (σ.withTask u).tasks).map Task.id)) now') := by
    rw [firing?, hresolved]
    refine if_neg fun hclaimed => ?_
    -- the record would name the task that was open until now
    obtain ⟨j, hj, hsame⟩ := List.any_eq_true.mp hclaimed
    rw [Bool.and_eq_true] at hsame
    have hids' : j.taskIds = _ := eq_of_beq hsame.2
    have hnamed : u.id ∈ j.taskIds := by
      rw [hids', Instance.sortedIds, Instance.sortedIds, List.mem_mergeSort, List.mem_mergeSort]
      exact List.mem_map_of_mem hsibling
    exact (hsteady.joined j hj _ hnamed).ne hids ht hopen hid.symm
  refine ⟨_, hresolved, course_fires hd (fun hback => hback.2 ?_)
    (hufrom.flowStep_eq hdistinct horigin) (Definition.isParallel_of_mem_branches horigin.2)
    hfiring⟩
  rw [Task.isBranch, hufrom.parent]
  rfl

/-- The records of an instance that has walked on behind a finished task. -/
theorem of_walked {s : Store} {source ids : IdSource} {id : Uuid} {i : Instance}
    {ending : WalkEnd} {outcome : Except EngineError Unit} (hs : s.Orderly source)
    (h : s.situation? id = some ((σ.after (e.walked i σ.tasks now ids ending)).withTask
      (u.marked outcome))) (hu : u ∈ σ.tasks) :
    s.instance? id = (e.walked i σ.tasks now ids ending).record ∧
      s.tasksOf id =
        put Task.id (u.marked outcome) σ.tasks ++ (e.walked i σ.tasks now ids ending).opened := by
  have hids := situation_task_ids hs h
  obtain ⟨j, hj, heq⟩ := situation?_eq_some_iff.mp h
  have hrecord : (e.walked i σ.tasks now ids ending).record.getD σ.record = j :=
    congrArg Situation.record heq
  have htasks : put Task.id (u.marked outcome)
      (σ.tasks ++ (e.walked i σ.tasks now ids ending).opened) = s.tasksOf id :=
    congrArg Situation.tasks heq
  refine ⟨by rw [hj, ← hrecord]; rfl, ?_⟩
  rw [← htasks, put_append]
  congr 1
  -- a task that is opened has an identifier of its own
  refine put_of_not_mem Task.id fun v hv hsame => ?_
  obtain ⟨p, hmarked⟩ := marked_eq u outcome
  rw [hmarked] at hsame
  rw [ids_withTask, after, List.map_append] at hids
  exact (List.nodup_append.mp hids).2.2 u.id (List.mem_map_of_mem hu) v.id
    (List.mem_map_of_mem hv) hsame.symm

end Situation

/-! ## Orders of completion -/

/-- All open tasks of a running instance are for branches of one parallel step. -/
structure Environment.Awaits (env : Environment) (i : Instance) (d : Definition) (p : Step) :
    Prop where
  stored : env.store.instance? i.id = some i
  running : i.isRunning
  definition : env.store.definitionOf i = .ok d
  step : p ∈ d.steps
  branches : ∀ t ∈ env.store.tasksOf i.id, t.status.isOpen → t.parentStepId = some p.id

/-- The situation of an instance that waits for branches. -/
theorem Environment.Awaits.situation?_eq {env : Environment} {i : Instance} {d : Definition}
    {p : Step} (h : env.Awaits i d p) :
    env.store.situation? i.id = some ⟨i, env.store.tasksOf i.id, .ok d⟩ :=
  situation?_eq_some_iff.mpr ⟨i, h.stored, by rw [h.definition]⟩

/-- The situation is steady if whole requests have kept the definition since the instance was
started. -/
theorem Environment.Awaits.steady {e : Engine} {env : Environment} {since : List Call}
    {i : Instance} {d : Definition} {p : Step} (h : (env.serveAll e since).Awaits i d p)
    (henv : env.Orderly) (hnew : env.store.instance? i.id = none)
    (hsince : ∀ c ∈ since, c.request.IsWhole ∧ c.request.Keeps i.workflowId)
    (hrange : (env.serveAll e since).ids.InRange) :
    Situation.IsSteady False (env.serveAll e since).now
      ⟨i, (env.serveAll e since).store.tasksOf i.id, .ok d⟩ :=
  serveAll_steady henv False hnew False.elim hsince hrange h.situation?_eq rfl

/-- Requests that spare an instance, and then the permitted completion of a task that was open at
first. -/
structure BranchCompletion (e : Engine) (env : Environment) (i : Instance) where
  calls : List Call
  spares : ∀ c ∈ calls, c.request.Spares i
  time : Timestamp
  actor : Actor
  completion : Completion
  task : Task
  finished : Task
  stored : task ∈ (env.serveAll e calls).store.tasksOf i.id
  awaited : ∃ t ∈ env.store.tasksOf i.id, t.status.isOpen ∧ t.id = task.id
  permitted : task.finishedBy actor completion time = .ok finished

namespace BranchCompletion

variable {e : Engine} {env : Environment} {i : Instance}

/-- The completion as a call. -/
def call (f : BranchCompletion e env i) : Call :=
  ⟨f.time, .complete f.task.id f.actor f.completion⟩

/-- The environment before the completion. -/
def before (f : BranchCompletion e env i) : Environment := env.serveAll e f.calls

/-- The environment after the completion. -/
def after (f : BranchCompletion e env i) : Environment := f.before.serve e f.call

/-- The tasks of the instance with the finished one. -/
def tasks (f : BranchCompletion e env i) : List Task :=
  put Task.id f.finished (f.before.store.tasksOf i.id)

/-- It is the last one: no task is open any more. -/
def IsLast (f : BranchCompletion e env i) : Prop := ∀ t ∈ f.tasks, t.status.isOpen = false

instance (f : BranchCompletion e env i) : Decidable f.IsLast :=
  inferInstanceAs (Decidable (∀ t ∈ f.tasks, t.status.isOpen = false))

variable {d : Definition} {p : Step}

/-- If identifiers last beyond a completion, they do so before it. -/
theorem before_inRange (f : BranchCompletion e env i) (hrange : f.after.ids.InRange) :
    f.before.ids.InRange := hrange.of_grows (f.before.serve_grows e f.call)

/-- If identifiers last beyond a completion, they do so before the calls that it comes behind. -/
theorem inRange (f : BranchCompletion e env i) (hrange : f.after.ids.InRange) :
    env.ids.InRange := (f.before_inRange hrange).of_grows (env.serveAll_grows e f.calls)

/-- The instance waits until the completion, which carries it on. -/
theorem situation (f : BranchCompletion e env i) (henv : env.Orderly) (hawaits : env.Awaits i d p)
    (hsteady : Situation.IsSteady False env.now ⟨i, env.store.tasksOf i.id, .ok d⟩)
    (hrange : f.after.ids.InRange) :
    ∃ σ ids, f.before.store.situation? i.id = some σ ∧ σ.IsSteady False f.before.now ∧
      Situation.Waits ⟨i, env.store.tasksOf i.id, .ok d⟩ σ ∧ f.task ∈ σ.tasks ∧
      f.tasks = (σ.withTask f.finished).tasks ∧
      f.after.store.situation? i.id =
        some ((σ.withTask f.finished).carried e f.time ids f.finished) := by
  have hbefore := f.before_inRange hrange
  have horderly : f.before.Orderly := Environment.serveAll_orderly henv f.calls hbefore
  obtain ⟨σ, hσ, hkept, hcases⟩ := Environment.serveAll_waits henv
    ⟨i, env.store.tasksOf i.id, .ok d⟩ hawaits.situation?_eq
    (followed_eq_ok.mpr ⟨hawaits.running, rfl⟩) hsteady f.spares hbefore
  have htasks : σ.tasks = f.before.store.tasksOf i.id := by
    obtain ⟨j, -, rfl⟩ := situation?_eq_some_iff.mp hσ
    rfl
  have hmem : f.task ∈ σ.tasks := htasks ▸ f.stored
  obtain ⟨hstored, hinstance⟩ := Store.mem_tasksOf.mp f.stored
  have hwaits : Situation.Waits ⟨i, env.store.tasksOf i.id, .ok d⟩ σ := by
    rcases hcases with hwaits | hresolved
    · exact hwaits
    -- the task that is completed is still open
    · obtain ⟨t, ht, hopen, hid⟩ := f.awaited
      exact absurd hid.symm ((hresolved t ht hopen).ne (situation_task_ids horderly.store hσ) hmem
        (Task.of_finishedBy f.permitted).1)
  obtain ⟨ids, hafter⟩ := Environment.serve_complete horderly hstored f.permitted
    (by rw [hinstance]; exact hσ) hrange
  rw [hinstance] at hafter
  exact ⟨σ, ids, hσ, hkept, hwaits, hmem, by rw [tasks, ← htasks]; rfl, hafter⟩

/-- A task that is finished early leaves the record of the instance and opens no task. -/
theorem early (f : BranchCompletion e env i) (henv : env.Orderly) (hawaits : env.Awaits i d p)
    (hsteady : Situation.IsSteady False env.now ⟨i, env.store.tasksOf i.id, .ok d⟩)
    (hrange : f.after.ids.InRange) (hearly : ¬ f.IsLast) :
    f.after.store.instance? i.id = some i ∧
      f.after.store.tasksOf i.id =
        put Task.id { f.finished with progression := .advanced } f.tasks := by
  obtain ⟨σ, ids, hσ, hkept, hwaits, hmem, htasks, hafter⟩ :=
    f.situation henv hawaits hsteady hrange
  have hopen : ∃ v ∈ (σ.withTask f.finished).tasks, v.status.isOpen := by
    by_contra hnone
    refine hearly fun v hv => ?_
    rw [htasks] at hv
    by_contra hvopen
    exact hnone ⟨v, hv, by simpa using hvopen⟩
  have hd : σ.followed = .ok d :=
    hwaits.followed_eq.trans (followed_eq_ok.mpr ⟨hawaits.running, rfl⟩)
  rw [Situation.carried_of_waits (Situation.course_of_early hkept hd hmem f.permitted hopen)]
    at hafter
  obtain ⟨j, hj, heq⟩ := situation?_eq_some_iff.mp hafter
  have hrecord : σ.record = j := congrArg Situation.record heq
  have hresult := congrArg Situation.tasks heq
  refine ⟨by rw [hj, ← hrecord, hwaits.record], ?_⟩
  rw [htasks]
  exact hresult.symm

/-- The task that is finished last adds one record to the joins of the instance, and what the end
of the walk behind the parallel step adds. -/
theorem last (f : BranchCompletion e env i) (henv : env.Orderly) (hawaits : env.Awaits i d p)
    (hsteady : Situation.IsSteady False env.now ⟨i, env.store.tasksOf i.id, .ok d⟩)
    (hrange : f.after.ids.InRange) (hlast : f.IsLast) :
    ∃ taskIds ids, p.resolvedSiblings? f.tasks = some taskIds ∧
      let ending := d.walk ⟨i.input, f.tasks⟩ e.settings.maxAutoSteps p
      let walked := e.walked (i.withJoin p taskIds f.time) f.tasks f.time ids ending
      f.after.store.instance? i.id = walked.record ∧
        f.after.store.tasksOf i.id =
          put Task.id (f.finished.marked (ending.outcome e.settings.maxAutoSteps)) f.tasks ++
            walked.opened := by
  obtain ⟨σ, ids, hσ, hkept, hwaits, hmem, htasks, hafter⟩ :=
    f.situation henv hawaits hsteady hrange
  have hbefore := f.before_inRange hrange
  have horderly : f.before.Orderly := Environment.serveAll_orderly henv f.calls hbefore
  have hids := situation_task_ids horderly.store hσ
  have hd : σ.followed = .ok d :=
    hwaits.followed_eq.trans (followed_eq_ok.mpr ⟨hawaits.running, rfl⟩)
  obtain ⟨t₀, ht₀, hbecame, hopen₀⟩ := hwaits.of_mem hmem (Task.of_finishedBy f.permitted).1
  have hparent : f.task.parentStepId = some p.id :=
    hbecame.parentStepId_eq.trans (hawaits.branches t₀ ht₀ hopen₀)
  have hended : ∀ v ∈ (σ.withTask f.finished).tasks, v.status.isOpen = false := by
    rw [← htasks]
    exact hlast
  obtain ⟨taskIds, hresolved, hcourse⟩ := Situation.course_of_last (e := e) hkept hids hd
    hawaits.step hmem hparent f.permitted hended
  rw [Situation.carried, hcourse] at hafter
  have hfinished : f.finished ∈ (σ.withTask f.finished).tasks :=
    mem_put_self Task.id hmem (Task.of_finishedBy f.permitted).2.place.1
  have horderly' : f.after.Orderly := (Environment.serve_spec horderly f.call hrange).1
  have hresult := Situation.of_walked horderly'.store hafter hfinished
  have haround : (σ.withTask f.finished).around =
      ⟨σ.record.input, (σ.withTask f.finished).tasks⟩ := rfl
  rw [haround, ← htasks, hwaits.record] at hresult
  rw [← htasks] at hresolved
  exact ⟨taskIds, ids, hresolved, hresult⟩

/-- The completion of a branch changes no identifier of a task, and neither do the calls before
it. -/
theorem ids_eq (f : BranchCompletion e env i) (henv : env.Orderly) (hawaits : env.Awaits i d p)
    (hsteady : Situation.IsSteady False env.now ⟨i, env.store.tasksOf i.id, .ok d⟩)
    (hrange : f.after.ids.InRange) :
    f.tasks.map Task.id = (env.store.tasksOf i.id).map Task.id := by
  obtain ⟨σ, -, -, -, hwaits, -, htasks, -⟩ := f.situation henv hawaits hsteady hrange
  rw [htasks, ← hwaits.ids_eq]
  exact Situation.ids_withTask σ f.finished

/-- The clock does not run backwards from a time on. -/
def Forward (f : BranchCompletion e env i) (now : Timestamp) (since : List Call) : Prop :=
  Environment.Admitted (fun now c => now.le c.time) now (since ++ f.calls ++ [f.call])

instance (f : BranchCompletion e env i) (now : Timestamp) (since : List Call) :
    Decidable (f.Forward now since) :=
  inferInstanceAs (Decidable (Environment.Admitted _ _ _))

/-- If the clock does not run backwards, then after the last completion the tasks stand in the
order of time, and they are those that were there at first, as people have worked on them. -/
theorem inOrder {since : List Call} (henv : env.Orderly)
    (hnew : env.store.instance? i.id = none)
    (hsince : ∀ c ∈ since, c.request.IsWhole ∧ c.request.Keeps i.workflowId)
    (hawaits : (env.serveAll e since).Awaits i d p)
    (f : BranchCompletion e (env.serveAll e since) i) (hrange : f.after.ids.InRange)
    (hforward : f.Forward env.now since) (hlast : f.IsLast) :
    (f.tasks.Pairwise fun t u => t.key = u.key → t.finishedBefore u) ∧
      ∃ work : Task → Task, f.tasks = ((env.serveAll e since).store.tasksOf i.id).map work ∧
        ∀ t ∈ (env.serveAll e since).store.tasksOf i.id, t.Proceeds (work t) := by
  have hbefore := f.before_inRange hrange
  have hwaiting := Environment.serveAll_orderly henv since (f.inRange hrange)
  have horderly : f.before.Orderly := Environment.serveAll_orderly hwaiting f.calls hbefore
  have hwhole : env.serveAll e (since ++ f.calls) = f.before :=
    env.serveAll_append e since f.calls
  obtain ⟨σ, -, hσ, -, hwaits, hmem, htasks, -⟩ := f.situation hwaiting hawaits
    (hawaits.steady henv hnew hsince (f.inRange hrange)) hrange
  have hids := situation_task_ids horderly.store hσ
  obtain ⟨hforward, hlater, -⟩ := hforward.of_append henv (by rw [hwhole]; exact hbefore)
  rw [hwhole] at hlater
  have hcalls : ∀ c ∈ since ++ f.calls, c.request.IsWhole ∧ c.request.Keeps i.workflowId := by
    intro c hc
    rcases List.mem_append.mp hc with hc | hc
    · exact hsince c hc
    · exact ⟨(f.spares c hc).whole, (f.spares c hc).keeps⟩
  -- that the clock does not run backwards counts from the start of the instance on, since tasks of
  -- earlier rounds may be there
  have htimely : σ.IsTimely f.before.now := by
    have hkept := Environment.serveAll_steady henv True hnew (fun _ => hforward)
      hcalls (by rw [hwhole]; exact hbefore) (by rw [hwhole]; exact hσ)
      (congrArg Instance.workflowId hwaits.record)
    rw [hwhole] at hkept
    exact hkept.timely trivial
  obtain ⟨hopen, hfinished⟩ := Task.of_finishedBy f.permitted
  rw [IsLast, htasks] at hlast
  rw [htasks]
  exact ⟨((htimely.later hlater).finished hids hmem f.permitted).inOrder hlast,
    (hwaits.withTask hids hmem hopen hfinished.became).tasks⟩

/-- Where the last completion leads does not depend on the order, if the tasks give out the
same. -/
theorem walk_congr {since : List Call} (henv : env.Orderly)
    (hnew : env.store.instance? i.id = none)
    (hsince : ∀ c ∈ since, c.request.IsWhole ∧ c.request.Keeps i.workflowId)
    (hawaits : (env.serveAll e since).Awaits i d p)
    {f g : BranchCompletion e (env.serveAll e since) i} (hf : f.after.ids.InRange)
    (hg : g.after.ids.InRange) (hfForward : f.Forward env.now since)
    (hgForward : g.Forward env.now since) (hfLast : f.IsLast) (hgLast : g.IsLast)
    (hsame : ∀ t ∈ (env.serveAll e since).store.tasksOf i.id, t.status.isOpen →
      ∀ u ∈ f.tasks, ∀ v ∈ g.tasks, u.id = t.id → v.id = t.id → u.output = v.output)
    (remaining : Nat) (s : Step) :
    d.walk ⟨i.input, f.tasks⟩ remaining s = d.walk ⟨i.input, g.tasks⟩ remaining s := by
  obtain ⟨hfOrder, f', hf', hfWork⟩ := inOrder henv hnew hsince hawaits f hf hfForward hfLast
  obtain ⟨hgOrder, g', hg', hgWork⟩ := inOrder henv hnew hsince hawaits g hg hgForward hgLast
  rw [hf', hg'] at hsame
  rw [hf'] at hfOrder
  rw [hg'] at hgOrder
  rw [hf', hg']
  refine d.walk_congr (Surroundings.agrees_of_inOrder hfOrder hgOrder (fun t ht => ?_) i.input)
    remaining s
  obtain ⟨hfBecame, hfEnded⟩ := hfWork t ht
  obtain ⟨hgBecame, hgEnded⟩ := hgWork t ht
  refine ⟨hfBecame.key_eq.trans hgBecame.key_eq.symm, ?_⟩
  -- a task of an earlier round is the same whatever the order
  by_cases hopen : t.status.isOpen
  · exact hsame t ht hopen _ (List.mem_map_of_mem ht) _ (List.mem_map_of_mem ht) hfBecame.id_eq
      hgBecame.id_eq
  · rw [hfEnded (by simpa using hopen), hgEnded (by simpa using hopen)]

end BranchCompletion

/-- A parallel step whose branches people finish in any order, while they ask for anything else
that does not end the instance or take its definition away: as long as a task is open, the instance
stays what it is and no task is opened. The task that is finished last adds one join record, and
what the end of one walk behind the parallel step adds. If the clock does not run backwards, this
walk ends in the same place for all orders in which the tasks give out the same. -/
theorem join_fires_once (seed : Nat) (start : Timestamp) (e : Engine) (earlier since : List Call)
    {i : Instance} {d : Definition} {p : Step}
    (hnew : ((Environment.fresh seed start).serveAll e earlier).store.instance? i.id = none)
    (hsince : ∀ c ∈ since, c.request.IsWhole ∧ c.request.Keeps i.workflowId)
    (hawaits :
      (((Environment.fresh seed start).serveAll e earlier).serveAll e since).Awaits i d p) :
    let young := (Environment.fresh seed start).serveAll e earlier
    let env := young.serveAll e since
    (∀ f : BranchCompletion e env i, f.after.ids.InRange →
      f.tasks.map Task.id = (env.store.tasksOf i.id).map Task.id ∧
      (¬ f.IsLast →
        f.after.store.instance? i.id = some i ∧
        f.after.store.tasksOf i.id =
          put Task.id { f.finished with progression := .advanced } f.tasks) ∧
      (f.IsLast → ∃ taskIds ids, p.resolvedSiblings? f.tasks = some taskIds ∧
        let ending := d.walk ⟨i.input, f.tasks⟩ e.settings.maxAutoSteps p
        let walked := e.walked (i.withJoin p taskIds f.time) f.tasks f.time ids ending
        (∃ j, f.after.store.instance? i.id = some j ∧ walked.record = some j ∧
          j.joins = i.joins ++ [⟨p.id, Instance.sortedIds taskIds, f.time⟩]) ∧
        f.after.store.tasksOf i.id =
          put Task.id (f.finished.marked (ending.outcome e.settings.maxAutoSteps)) f.tasks ++
            walked.opened)) ∧
    ∀ f g : BranchCompletion e env i, f.after.ids.InRange → g.after.ids.InRange →
      f.Forward young.now since → g.Forward young.now since → f.IsLast → g.IsLast →
      (∀ t ∈ env.store.tasksOf i.id, t.status.isOpen → ∀ u ∈ f.tasks, ∀ v ∈ g.tasks,
        u.id = t.id → v.id = t.id → u.output = v.output) →
      d.walk ⟨i.input, f.tasks⟩ e.settings.maxAutoSteps p =
        d.walk ⟨i.input, g.tasks⟩ e.settings.maxAutoSteps p := by
  intro young env
  have hstart := Environment.fresh_orderly seed start
  have horderly : ∀ f : BranchCompletion e env i, f.after.ids.InRange → young.Orderly := by
    intro f hrange
    exact Environment.serveAll_orderly hstart earlier
      ((f.inRange hrange).of_grows (young.serveAll_grows e since))
  refine ⟨fun f hrange => ?_, fun f g hf hg hfForward hgForward hfLast hgLast hsame => ?_⟩
  · have hyoung := horderly f hrange
    have henv : env.Orderly := Environment.serveAll_orderly hyoung since (f.inRange hrange)
    have hsteady := hawaits.steady hyoung hnew hsince (f.inRange hrange)
    refine ⟨f.ids_eq henv hawaits hsteady hrange, f.early henv hawaits hsteady hrange,
      fun hlast => ?_⟩
    obtain ⟨taskIds, ids, hresolved, hrecord, htasks⟩ := f.last henv hawaits hsteady hrange hlast
    refine ⟨taskIds, ids, hresolved, ⟨_, hrecord, rfl, ?_⟩, htasks⟩
    exact Situation.walked_joins e (i.withJoin p taskIds f.time) f.tasks f.time ids _ i
  · exact BranchCompletion.walk_congr (horderly f hf) hnew hsince hawaits hf hg hfForward
      hgForward hfLast hgLast hsame _ p

/-- The definition of `fanOutRun`. -/
def fanOut : Definition :=
  .ofSteps "" [.parallel "p" [.userTask "b", .userTask "c"], .userTask "s"]

/-- The parallel step of `fanOut`. -/
def fanOutStep : Step := .parallel "p" [.userTask "b", .userTask "c"]

/-- The environment after `fanOutRun`. -/
abbrev fanOutEnvironment : Environment :=
  ((Environment.fresh 0 ⟨0, 0⟩).serveAll .default (fanOutRun.take 2)).serveAll .default
    (fanOutRun.drop 2)

/-- The task that is opened for a branch in `fanOutRun`. -/
def fanOutTask (number : Nat) (branch : String) : Task :=
  Engine.default.built fanOutInstance [] ⟨0, 0⟩ (IdSource.issue 0 .task number)
    ⟨.userTask branch, "p_" ++ branch, some "p"⟩

/-- The task when somebody has finished it. -/
def fanOutFinished (number : Nat) (branch : String) : Task :=
  { fanOutTask number branch with
    assignee := some "u"
    status := .completed
    output := .null
    result := some .completed
    completedAt := some ⟨0, 0⟩
    progression := .pending }

/-- Finishing a task of `fanOutRun`. -/
def fanOutCall (number : Nat) : Call :=
  ⟨⟨0, 0⟩, .complete (IdSource.issue 0 .task number) ⟨"u", []⟩ ⟨.completed, .null, none⟩⟩

/-- Finishing a task takes nothing from the instance. -/
theorem fanOutCall_spares (number : Nat) :
    ∀ c ∈ [fanOutCall number], c.request.Spares fanOutInstance := by
  intro c hc
  obtain rfl := List.mem_singleton.mp hc
  exact ⟨trivial, fun _ => nofun, nofun, nofun⟩

/-- The instance waits for both branches, and for each when the other one has been finished. -/
theorem fanOut_waits :
    (fanOutEnvironment.store.instance? fanOutInstance.id = some fanOutInstance ∧
      fanOutInstance.isRunning ∧ fanOutEnvironment.store.definitionOf fanOutInstance = .ok fanOut ∧
      fanOutStep ∈ fanOut.steps ∧
      fanOutEnvironment.store.tasksOf fanOutInstance.id = [fanOutTask 0 "b", fanOutTask 1 "c"]) ∧
      fanOutTask 1 "c" ∈ (fanOutEnvironment.serveAll .default [fanOutCall 0]).store.tasksOf
        fanOutInstance.id ∧
      fanOutTask 0 "b" ∈ (fanOutEnvironment.serveAll .default [fanOutCall 1]).store.tasksOf
        fanOutInstance.id := by decide +kernel

/-- The second branch is finished when the first one has been. -/
def secondLast : BranchCompletion .default fanOutEnvironment fanOutInstance where
  calls := [fanOutCall 0]
  spares := fanOutCall_spares 0
  time := ⟨0, 0⟩
  actor := ⟨"u", []⟩
  completion := ⟨.completed, .null, none⟩
  task := fanOutTask 1 "c"
  finished := fanOutFinished 1 "c"
  stored := fanOut_waits.2.1
  awaited := by
    rw [fanOut_waits.1.2.2.2.2]
    decide
  permitted := by decide +kernel

/-- The first branch is finished when the second one has been. -/
def firstLast : BranchCompletion .default fanOutEnvironment fanOutInstance where
  calls := [fanOutCall 1]
  spares := fanOutCall_spares 1
  time := ⟨0, 0⟩
  actor := ⟨"u", []⟩
  completion := ⟨.completed, .null, none⟩
  task := fanOutTask 0 "b"
  finished := fanOutFinished 0 "b"
  stored := fanOut_waits.2.2
  awaited := by
    rw [fanOut_waits.1.2.2.2.2]
    decide
  permitted := by decide +kernel

/-- Both orders use up no more identifiers than there are, and finish all branches with the same
outputs. -/
theorem fanOut_orders :
    (secondLast.after.ids.InRange ∧ secondLast.IsLast ∧ firstLast.after.ids.InRange ∧
      firstLast.IsLast) ∧
      ∀ u ∈ secondLast.tasks, ∀ v ∈ firstLast.tasks, u.output = v.output := by decide +kernel

/-- In both orders the join fires once, and the same step follows. -/
theorem join_fires_once_fanOut :
    (∃ j, secondLast.after.store.instance? fanOutInstance.id = some j ∧ j.joins.length = 1) ∧
      fanOut.walk ⟨.null, secondLast.tasks⟩ 1000 fanOutStep =
        fanOut.walk ⟨.null, firstLast.tasks⟩ 1000 fanOutStep := by
  obtain ⟨⟨hstored, hrunning, hdefinition, hstep, htasks⟩, -⟩ := fanOut_waits
  obtain ⟨⟨hsecond, hsecondLast, hfirst, hfirstLast⟩, houtputs⟩ := fanOut_orders
  obtain ⟨hfires, hsame⟩ := join_fires_once 0 ⟨0, 0⟩ .default (fanOutRun.take 2)
    (fanOutRun.drop 2) (i := fanOutInstance) (d := fanOut) (p := fanOutStep) (by decide +kernel)
    (by simp [fanOutRun, Call.atOnce, Request.IsWhole, Request.Keeps])
    ⟨hstored, hrunning, hdefinition, hstep, by rw [htasks]; decide⟩
  obtain ⟨-, -, hlast⟩ := hfires secondLast hsecond
  refine ⟨?_, ?_⟩
  · obtain ⟨taskIds, ids, -, ⟨j, hj, -, hjoins⟩, -⟩ := hlast hsecondLast
    refine ⟨j, hj, ?_⟩
    rw [hjoins]
    rfl
  · exact hsame secondLast firstLast hsecond hfirst (by decide +kernel) (by decide +kernel)
      hsecondLast hfirstLast fun t _ _ u hu v hv _ _ => houtputs u hu v hv

end ApprovalWorkflow
