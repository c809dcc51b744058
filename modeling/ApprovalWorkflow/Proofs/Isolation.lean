import ApprovalWorkflow.Proofs.ActiveStep
import ApprovalWorkflow.Proofs.Dealings

/-!
# Instances do not interfere

All tasks stand in one table, and so do all instances and all entries. A dealing with an instance
still leaves what belongs to others alone: its impact lies within the instance
(`Dealing.upshot_within`, `Environment.dealt_spares`). And nothing that belongs to others has an
influence on it, since reply and impact are computed from the share of the instance. Only the
identifiers of new records come from a source that all instances draw from; from another source
they are other identifiers in the same places (`Dealing.upshot_renamed`). So in any two stores that
agree on an instance a dealing with it has one outcome, up to the names of what is new.
-/

set_option autoImplicit false

namespace ApprovalWorkflow

open Engine Operation

-- powers are those of the core library, whatever else is imported
attribute [local instance (2000)] instPowNat

/-! ## What belongs to others -/

/-- What is in the store beside an instance, its tasks and the entries about them is the same as
before. -/
structure Store.Spares (i : Uuid) (s s' : Store) : Prop where
  workflows : s'.workflows = s.workflows
  instances : s'.instances.filter (fun j => j.id != i) = s.instances.filter fun j => j.id != i
  tasks : s'.tasks.filter (fun t => t.instanceId != i) =
    s.tasks.filter fun t => t.instanceId != i
  history : s'.history.filter (fun h => h.instanceId != i) =
    s.history.filter fun h => h.instanceId != i

/-- An impact within an instance spares the others. -/
theorem Environment.dealt_spares {env : Environment} {ids : IdSource} {i : Uuid} {c : Impact}
    (hs : env.store.Orderly ids) (hc : c.Within i env.store) :
    env.store.Spares i (env.dealt c).store where
  workflows := rfl
  instances := by
    show (c.onInstances _).filter _ = _
    unfold Impact.onInstances
    cases hrecord : c.record with
    | none => rfl
    | some j =>
      have hid := hc.record j hrecord
      refine filter_put_of_not Instance.id (by simp [hid]) fun k _ hk => ?_
      simp [hk, hid]
  tasks := by
    show (c.onTasks _ ++ c.opened).filter _ = _
    have hopened : c.opened.filter (fun t => t.instanceId != i) = [] :=
      List.filter_eq_nil_iff.mpr fun t ht => by simp [hc.opened t ht]
    rw [List.filter_append, hopened, List.append_nil]
    unfold Impact.onTasks
    cases hchanged : c.changed with
    | none => rfl
    | some t =>
      obtain ⟨howner, u, hu, hid⟩ := hc.changed t hchanged
      obtain ⟨hmem, hinstance⟩ := Store.mem_tasksOf.mp hu
      refine filter_put_of_not Task.id (by simp [howner]) fun v hv hvid => ?_
      -- the task that gives way is the one of the instance
      rw [hs.task_eq hv hmem (hvid.trans hid.symm), hinstance]
      simp
  history := by
    have hentries : c.entries.filter (fun h => h.instanceId != i) = [] :=
      List.filter_eq_nil_iff.mpr fun h hh => by simp [hc.entries h hh]
    show (_ ++ c.entries).filter _ = _
    rw [List.filter_append, hentries, List.append_nil]

/-! ## Names of what is new -/

/-- Other identifiers for tasks and for entries. -/
structure Renaming where
  tasks : Uuid → Uuid
  entries : Uuid → Uuid

namespace Renaming

variable (ρ : Renaming)

/-- The task under its other identifier. -/
def task (t : Task) : Task := { t with id := ρ.tasks t.id }

/-- The entry under its other identifier, about the task under its other one. -/
def entry (h : HistoryEntry) : HistoryEntry :=
  { h with id := ρ.entries h.id, taskId := ρ.tasks h.taskId }

/-- The notice, about the task under its other identifier. -/
def notice : Notice → Notice
  | .taskCreated t => .taskCreated (ρ.task t)
  | .taskAssigned t user => .taskAssigned (ρ.task t) user
  | .taskCompleted t => .taskCompleted (ρ.task t)
  | .workflowCompleted i => .workflowCompleted i

/-- The reply, with the task under its other identifier if it is one. -/
def reply : Reply → Reply
  | .task t => .task (ρ.task t)
  | r => r

/-- The effect, with its tasks under their other identifiers. -/
def effect (f : Effect) : Effect := ⟨f.record, f.opened.map ρ.task, f.notices.map ρ.notice⟩

/-- The impact, with its tasks and entries under their other identifiers. -/
def impact (c : Impact) : Impact where
  record := c.record
  changed := c.changed.map ρ.task
  opened := c.opened.map ρ.task
  entries := c.entries.map ρ.entry
  notices := c.notices.map ρ.notice

/-- The upshot, renamed in its reply and in its impact. -/
def upshot (u : Upshot) : Upshot := ⟨u.reply.map ρ.reply, ρ.impact u.impact⟩

/-- The renaming takes the next identifiers for tasks of one source, so many of them, to those of
another one. -/
def CarriesTasks (ids ids' : IdSource) (count : Nat) : Prop :=
  ∀ n < count, ρ.tasks (IdSource.issue ids.seed .task (ids.tasks + n)) =
    IdSource.issue ids'.seed .task (ids'.tasks + n)

/-- The renaming takes the next identifier for entries of one source to that of another one. -/
def CarriesEntry (ids ids' : IdSource) : Prop :=
  ρ.entries (ids.draw .entry).1 = (ids'.draw .entry).1

/-- The renaming leaves the tasks their identifiers. -/
def Keeps (tasks : List Task) : Prop := ∀ t ∈ tasks, ρ.tasks t.id = t.id

variable {ρ} {ids ids' : IdSource} {count : Nat} {e : Engine} {t u : Task}

/-- A task whose identifier stays is not renamed. -/
theorem task_eq (h : ρ.tasks t.id = t.id) : ρ.task t = t := by rw [task, h]

/-- The next identifier of one source is carried to that of the other one. -/
theorem CarriesTasks.first (h : ρ.CarriesTasks ids ids' (count + 1)) :
    ρ.tasks (ids.draw .task).1 = (ids'.draw .task).1 := h 0 count.succ_pos

/-- What is left to carry when one identifier has been drawn is carried from the sources behind
it. -/
theorem CarriesTasks.next (h : ρ.CarriesTasks ids ids' (count + 1)) :
    ρ.CarriesTasks (ids.draw .task).2 (ids'.draw .task).2 count := by
  intro n hn
  have hnext := h (n + 1) (Nat.succ_lt_succ hn)
  rwa [← Nat.add_assoc, Nat.add_right_comm, ← Nat.add_assoc, Nat.add_right_comm ids'.tasks] at hnext

/-- An entry about a task that keeps its identifier only gets another one of its own. -/
theorem entry_record {id id' : Uuid} (hu : ρ.tasks u.id = u.id) (hid : ρ.entries id = id')
    (action : HistoryAction) (actor : String) (now : Timestamp) :
    ρ.entry (.record id u action actor now) = .record id' u action actor now := by
  simp only [entry, HistoryEntry.record, hu, hid]

/-- The entry about a delegation is renamed to the entry about the same delegation. -/
theorem entry_delegated {id id' : Uuid} (hu : ρ.tasks u.id = u.id) (hid : ρ.entries id = id')
    (actor toUser : String) (now : Timestamp) :
    ρ.entry (.delegated id u actor toUser now) = .delegated id' u actor toUser now := by
  simp only [entry, HistoryEntry.delegated, HistoryEntry.record, hu, hid]

/-- The entry about a completion is renamed to the entry about the same completion. -/
theorem entry_completed {id id' : Uuid} (hu : ρ.tasks u.id = u.id) (hid : ρ.entries id = id')
    (actor : String) (now : Timestamp) :
    ρ.entry (.completed id u actor now) = .completed id' u actor now := by
  simp only [entry, HistoryEntry.completed, HistoryEntry.record, hu, hid]

/-- What is built under an identifier is built under any other one as well. -/
theorem task_built (i : Instance) (history : List Task) (now : Timestamp) (id : Uuid)
    (o : Opening) : ρ.task (e.built i history now id o) = e.built i history now (ρ.tasks id) o := by
  rw [task, built_id, built, built, Task.build_value, Task.build_value]
  rfl

/-- An identifier for an entry makes no difference to those for tasks. -/
theorem CarriesTasks.past_entry (h : ρ.CarriesTasks ids ids' count) :
    ρ.CarriesTasks (ids.draw .entry).2 (ids'.draw .entry).2 count := h

/-- Tasks that are built of the same openings differ in their identifiers only. The induction is
on the openings. -/
theorem map_buildAll (i : Instance) (history : List Task) (now : Timestamp) (os : List Opening)
    (h : ρ.CarriesTasks ids ids' (e.buildAll i history now ids os).length) :
    (e.buildAll i history now ids os).map ρ.task = e.buildAll i history now ids' os := by
  induction os generalizing ids ids' with
  | nil => rfl
  | cons o os ih =>
    rw [buildAll, List.length_cons] at h
    rw [buildAll, List.map_cons, task_built, h.first, ih h.next, buildAll]

end Renaming

/-- Sending does not look at names. -/
theorem Notifier.map_sent (n : Notifier) (f : Notice → Notice) (notices : List Notice) :
    (n.sent notices).map f = n.sent (notices.map f) := by cases n <;> rfl

section Names

variable {ρ : Renaming} {ids ids' : IdSource} {e : Engine} {σ : Situation} {now : Timestamp}
  {t u : Task}

/-- What the end of a walk adds is the same up to the names of the new tasks. -/
theorem Engine.ended_renamed {i : Instance} {history : List Task} {ending : WalkEnd}
    (h : ρ.CarriesTasks ids ids' (e.ended i history now ids ending).opened.length) :
    e.ended i history now ids' ending = ρ.effect (e.ended i history now ids ending) := by
  have hopening : ∀ os, ρ.CarriesTasks ids ids' (e.buildAll i history now ids os).length →
      e.opening i history now ids' os = ρ.effect (e.opening i history now ids os) := by
    intro os hos
    have hmap := ρ.map_buildAll i history now os hos
    simp only [opening, Renaming.effect, Notifier.map_sent, List.map_map, hmap]
    rw [← hmap, List.map_map]
    rfl
  cases ending with
  | completion =>
    simp only [ended, Renaming.effect, Notifier.map_sent]
    rfl
  | _ => exact hopening _ h

/-- What a walk adds is the same up to the names of the new tasks. -/
theorem Engine.walked_renamed {i : Instance} {history : List Task} {ending : WalkEnd}
    (h : ρ.CarriesTasks ids ids' (e.walked i history now ids ending).opened.length) :
    e.walked i history now ids' ending = ρ.effect (e.walked i history now ids ending) := by
  rw [walked, ended_renamed h]
  rfl

/-- A course opens the same tasks under other names. -/
theorem Engine.effect_renamed {c : Course}
    (h : ρ.CarriesTasks ids ids' (e.effect σ now ids t c).opened.length) :
    e.effect σ now ids' t c = ρ.effect (e.effect σ now ids t c) := by
  cases c with
  | walks i ending => exact walked_renamed h
  | reopens previous origin =>
    have hfirst : ρ.tasks (ids.draw .task).1 = (ids'.draw .task).1 :=
      Renaming.CarriesTasks.first h
    have hreopened : ρ.task (e.reopened σ now (ids.draw .task).1 t previous origin) =
        e.reopened σ now (ids'.draw .task).1 t previous origin := by
      have hbuilt := ρ.task_built (e := e) σ.record σ.tasks now (ids.draw .task).1
        ⟨origin.taskStep, previous.key, origin.parentId?⟩
      rw [hfirst] at hbuilt
      rw [reopened, reopened, ← hbuilt]
      rfl
    have hnotice : ∀ u, ρ.notice (reopenedNotice u) = reopenedNotice (ρ.task u) := by
      intro u
      unfold reopenedNotice
      rw [show (ρ.task u).assignee = u.assignee from rfl]
      cases u.assignee <;> rfl
    simp only [effect, Renaming.effect, Notifier.map_sent, List.map_cons, List.map_nil, hnotice,
      hreopened]
  | _ =>
    show _ = ρ.effect ⟨none, [], []⟩
    rfl

/-- What a start adds is the same up to the names of the new tasks. -/
theorem Engine.begun_renamed (h : ρ.CarriesTasks ids ids' (e.begun σ now ids).opened.length) :
    e.begun σ now ids' = ρ.effect (e.begun σ now ids) := by
  unfold begun at h ⊢
  split
  · rfl
  · next hopening =>
    rw [hopening] at h
    exact walked_renamed h

/-- To rename an effect and to take it as an impact may be done in either order. -/
theorem Renaming.impact_effect (f : Effect) : ρ.impact f.impact = (ρ.effect f).impact := rfl

namespace Upshot

/-- What work on a task comes to is the same up to the name of its entry. -/
theorem ofWork_renamed {r : Except EngineError Task} (hr : ∀ u, r = .ok u → ρ.tasks u.id = u.id)
    {entry : Task → Uuid → HistoryEntry} {notice : Task → Notice}
    (hentry : ∀ u id id', ρ.tasks u.id = u.id → ρ.entries id = id' →
      ρ.entry (entry u id) = entry u id')
    (hnotice : ∀ u, ρ.notice (notice u) = notice (ρ.task u)) (h : ρ.CarriesEntry ids ids') :
    ofWork e ids' entry notice r = ρ.upshot (ofWork e ids entry notice r) := by
  cases r with
  | error error => rfl
  | ok u =>
    have hkept := hr u rfl
    have hsame := ρ.task_eq hkept
    simp only [ofWork, Renaming.upshot, Renaming.impact, Except.map, Renaming.reply,
      Option.map_some, List.map_cons, List.map_nil, Notifier.map_sent, hnotice, hsame,
      hentry u _ _ hkept h]

end Upshot

/-- What is replied when there is no error does not change whether there is one. -/
theorem Renaming.map_reply (ρ : Renaming) (r : Except EngineError Unit) (reply : Reply) :
    (r.map fun _ => reply).map ρ.reply = r.map fun _ => ρ.reply reply := by cases r <;> rfl

namespace Situation

/-- What a progression comes to is the same up to the names of the new tasks. -/
theorem progressed_renamed (ht : ρ.tasks t.id = t.id)
    (h : ρ.CarriesTasks ids ids' (σ.progressed e now ids t).impact.opened.length) :
    σ.progressed e now ids' t = ρ.upshot (σ.progressed e now ids t) := by
  unfold progressed at h ⊢
  split
  · simp only [Renaming.upshot, Except.map, Renaming.reply, ρ.task_eq ht]
    rfl
  · next hadvanced =>
    rw [if_neg hadvanced] at h
    split
    · rfl
    · next hopen =>
      rw [if_neg hopen] at h
      have heffect := effect_renamed (c := σ.course e now t) h
      obtain ⟨mark, hmarked⟩ := marked_eq t ((σ.course e now t).outcome e)
      have hsame : ρ.task (t.marked ((σ.course e now t).outcome e)) =
          t.marked ((σ.course e now t).outcome e) := ρ.task_eq (by rw [hmarked]; exact ht)
      simp only [Renaming.upshot, ρ.map_reply, Renaming.reply, Renaming.impact, Option.map_some,
        hsame, heffect]
      rfl

/-- What a completion comes to is the same up to the names of the new tasks and of its entry. -/
theorem completed_renamed {a : Actor} (hu : ρ.tasks u.id = u.id) (hentry : ρ.CarriesEntry ids ids')
    (h : ρ.CarriesTasks ids ids' (σ.completed e now ids a u).impact.opened.length) :
    σ.completed e now ids' a u = ρ.upshot (σ.completed e now ids a u) := by
  have heffect := effect_renamed (c := (σ.withTask u).course e now u) h.past_entry
  obtain ⟨mark, hmarked⟩ := marked_eq u (((σ.withTask u).course e now u).outcome e)
  have hmark : ρ.task (u.marked (((σ.withTask u).course e now u).outcome e)) =
      u.marked (((σ.withTask u).course e now u).outcome e) :=
    ρ.task_eq (by rw [hmarked]; exact hu)
  have hrecord := ρ.entry_completed hu hentry a.user now
  simp only [completed, Renaming.upshot, Except.map, Renaming.reply, Renaming.impact,
    Renaming.effect, Effect.impact, Option.map_some, List.map_cons, List.map_nil, List.map_append,
    Notifier.map_sent, Renaming.notice, ρ.task_eq hu, heffect, hmark, hrecord]

/-- What going back comes to is the same up to the name of the task that is opened again. -/
theorem ledBack_renamed {d : Definition}
    (h : ρ.CarriesTasks ids ids' (σ.ledBack e now ids t d).impact.opened.length) :
    σ.ledBack e now ids' t d = ρ.upshot (σ.ledBack e now ids t d) := by
  have heffect := effect_renamed (c := σ.back now d t) h
  simp only [ledBack, Renaming.upshot, ρ.map_reply, heffect, Renaming.impact_effect]
  cases hback : σ.back now d t with
  | reopens previous origin =>
    rw [hback] at heffect
    have hreopened : [e.reopened σ now (ids'.draw .task).1 t previous origin] =
        [ρ.task (e.reopened σ now (ids.draw .task).1 t previous origin)] :=
      congrArg Effect.opened heffect
    dsimp only
    rw [(List.cons.inj hreopened).1]
    rfl
  | _ => rfl

end Situation

/-- With another source of identifiers the upshot of a dealing is the same but for the names of what
is new. -/
theorem Dealing.upshot_renamed {p : Share} (d : Dealing) (hkept : ρ.Keeps p.tasks)
    (hentry : ρ.CarriesEntry ids ids')
    (h : ρ.CarriesTasks ids ids' (d.upshot e p now ids).impact.opened.length) :
    d.upshot e p now ids' = ρ.upshot (d.upshot e p now ids) := by
  -- a task of the share keeps its identifier, and so does what becomes of it
  have honTask : ∀ (id : Uuid) (f f' : Task → Upshot),
      (∀ t ∈ p.tasks, ρ.tasks t.id = t.id →
        ρ.CarriesTasks ids ids' (f t).impact.opened.length → f' t = ρ.upshot (f t)) →
      ρ.CarriesTasks ids ids' (p.onTask id f).impact.opened.length →
      p.onTask id f' = ρ.upshot (p.onTask id f) := by
    intro id f f' hf hcarries
    unfold Share.onTask at hcarries ⊢
    cases hfound : p.tasks.find? fun t => t.id == id with
    | none => rfl
    | some t =>
      rw [hfound] at hcarries
      have hmem := List.mem_of_find?_eq_some hfound
      exact hf t hmem (hkept t hmem) hcarries
  cases d with
  | claim task a =>
    refine honTask _ _ _ (fun t _ ht _ => Upshot.ofWork_renamed (fun u hu => ?_)
      (fun u id id' hu hid => ρ.entry_record hu hid _ _ _) (fun _ => rfl) hentry) h
    rw [(Task.of_claimedBy hu).2.id_eq, ht]
  | delegate task a toUser =>
    refine honTask _ _ _ (fun t _ ht _ => Upshot.ofWork_renamed (fun u hu => ?_)
      (fun u id id' hu hid => ρ.entry_delegated hu hid _ _ _) (fun _ => rfl) hentry) h
    rw [(Task.of_delegatedBy hu).2.id_eq, ht]
  | finish task a c =>
    refine honTask _ _ _ (fun t _ ht _ => Upshot.ofWork_renamed (fun u hu => ?_)
      (fun u id id' hu hid => ρ.entry_completed hu hid _ _) (fun _ => rfl) hentry) h
    rw [(Task.of_finishedBy hu).2.place.1, ht]
  | complete task a c =>
    refine honTask _ _ _ (fun t _ ht hcarries => ?_) h
    cases hu : t.finishedBy a c now with
    | error error => rfl
    | ok u =>
      rw [hu] at hcarries
      refine Situation.completed_renamed ?_ hentry hcarries
      rw [(Task.of_finishedBy hu).2.place.1, ht]
  | progress task =>
    exact honTask _ _ _ (fun t _ ht hcarries => Situation.progressed_renamed ht hcarries) h
  | retry task =>
    refine honTask _ _ _ (fun t _ ht hcarries => ?_) h
    split
    · next hstalled =>
      rw [if_pos hstalled] at hcarries
      exact Situation.progressed_renamed ht hcarries
    · rfl
  | cancel run =>
    rw [upshot, upshot]
    cases p.record.cancel now <;> rfl
  | start run =>
    unfold upshot at h ⊢
    cases hadmits : p.admits with
    | error error => rfl
    | ok _ =>
      rw [hadmits] at h
      dsimp only at h ⊢
      rw [begun_renamed h, Renaming.upshot, ρ.map_reply]
      rfl
  | continueAfter t =>
    unfold upshot at h ⊢
    cases hfollowed : p.situation.followed with
    | error error => rfl
    | ok d =>
      rw [hfollowed] at h
      dsimp only at h ⊢
      rw [effect_renamed h, Renaming.upshot, ρ.map_reply]
      rfl
  | goBack t =>
    unfold upshot at h ⊢
    cases hfollowed : p.situation.followed with
    | error error => rfl
    | ok d =>
      rw [hfollowed] at h
      exact Situation.ledBack_renamed h

end Names

/-! ## From one source to another -/

namespace IdSource

/-- Takes the next identifiers of one source, so many of them for tasks, to those of another one. -/
def renamingTo (ids ids' : IdSource) (count : Nat) : Renaming where
  tasks id :=
    match (List.range count).find? fun n => id == issue ids.seed .task (ids.tasks + n) with
    | some n => issue ids'.seed .task (ids'.tasks + n)
    | none => id
  entries id := if id = (ids.draw .entry).1 then (ids'.draw .entry).1 else id

variable {ids ids' : IdSource} {count : Nat}

/-- The renaming of one source to another one carries the next identifier for entries. -/
theorem renamingTo_carriesEntry : (ids.renamingTo ids' count).CarriesEntry ids ids' := if_pos rfl

/-- The renaming of one source to another one carries so many identifiers for tasks, as the
numbers of these last. -/
theorem renamingTo_carriesTasks (hrange : ids.tasks + count ≤ 2 ^ (60 : Nat)) :
    (ids.renamingTo ids' count).CarriesTasks ids ids' count := by
  intro n hn
  have hfound : (List.range count).find? (fun k =>
      issue ids.seed .task (ids.tasks + n) == issue ids.seed .task (ids.tasks + k)) = some n := by
    -- an earlier serial number makes another identifier
    refine List.find?_range_eq_some.mpr ⟨by simp, List.mem_range.mpr hn, fun k hk => ?_⟩
    rw [Bool.not_eq_true', beq_eq_false_iff_ne]
    intro heq
    have hserial := (issue_injective (by omega) (by omega) heq).2
    omega
  simp only [renamingTo, hfound]

/-- What has been issued before keeps its name. -/
theorem renamingTo_keeps (hrange : ids.tasks + count ≤ 2 ^ (60 : Nat)) {tasks : List Task}
    (hissued : ∀ t ∈ tasks, ids.Issued .task t.id) : (ids.renamingTo ids' count).Keeps tasks := by
  intro t ht
  obtain ⟨n, hn, hid⟩ := hissued t ht
  have habsent : (List.range count).find?
      (fun k => t.id == issue ids.seed .task (ids.tasks + k)) = none := by
    refine List.find?_eq_none.mpr fun k hk heq => ?_
    have hk := List.mem_range.mp hk
    have hn : n < ids.tasks := hn
    rw [beq_iff_eq, hid] at heq
    have hserial := (issue_injective (by omega) (by omega) heq).2
    omega
  simp only [renamingTo, habsent]

end IdSource

/-! ## Stores that agree on an instance -/

section Agreement

variable {e : Engine} {env env' : Environment} {s s' : Store} {ids : IdSource} {i : Uuid}
  {c : Impact} {p : Share} {d : Dealing} {ρ : Renaming}

/-- The record of an instance after an impact within it. -/
theorem Environment.instance?_dealt (hc : c.Within i env.store) :
    (env.dealt c).store.instance? i = (env.store.instance? i).map c.record.getD := by
  show (c.onInstances env.store.instances).find? _ = _
  unfold Impact.onInstances
  cases hrecord : c.record with
  | none => exact Option.map_id'.symm
  | some j =>
    obtain rfl := hc.record j hrecord
    cases hi : env.store.instance? j.id with
    | none =>
      have habsent := (find?_eq_none_iff Instance.id).mp hi
      have hunchanged : put Instance.id j env.store.instances = env.store.instances :=
        put_of_not_mem Instance.id habsent
      simp only [hunchanged]
      exact hi
    | some k => exact find?_put_self Instance.id (Option.isSome_iff_exists.mpr ⟨k, hi⟩)

/-- The tasks of an instance after an impact within it. -/
theorem Environment.tasksOf_dealt (hs : env.store.Orderly ids) (hc : c.Within i env.store) :
    (env.dealt c).store.tasksOf i = c.onTasks (env.store.tasksOf i) ++ c.opened := by
  have hopened : c.opened.filter (fun t => t.instanceId == i) = c.opened :=
    List.filter_eq_self.mpr fun t ht => by simp [hc.opened t ht]
  show (c.onTasks env.store.tasks ++ c.opened).filter _ = _
  rw [List.filter_append, hopened]
  unfold Impact.onTasks
  cases hchanged : c.changed with
  | none => rfl
  | some t =>
    obtain ⟨howner, u, hu, hid⟩ := hc.changed t hchanged
    obtain ⟨hmem, hinstance⟩ := Store.mem_tasksOf.mp hu
    have hput := Store.tasksOf_putTask
      (stays_of_orderly hs hmem hid.symm (howner.trans hinstance.symm)) i
    exact congrArg (· ++ c.opened) hput

/-- The tasks that are there keep their names under an impact, and so does the one that changes. -/
theorem Renaming.Keeps.onTasks (hkept : ρ.Keeps (s.tasksOf i)) (hc : c.Within i s) :
    (ρ.impact c).onTasks (s.tasksOf i) = (c.onTasks (s.tasksOf i)).map ρ.task := by
  have hsame : ∀ tasks : List Task, (∀ t ∈ tasks, ρ.tasks t.id = t.id) →
      tasks.map ρ.task = tasks := fun tasks htasks =>
    (List.map_congr_left fun t ht => ρ.task_eq (htasks t ht)).trans (List.map_id' tasks)
  unfold Impact.onTasks Renaming.impact
  cases hchanged : c.changed with
  | none => exact (hsame _ hkept).symm
  | some t =>
    obtain ⟨-, u, hu, hid⟩ := hc.changed t hchanged
    have ht : ρ.tasks t.id = t.id := hid ▸ hkept u hu
    dsimp only [Option.map_some]
    rw [ρ.task_eq ht]
    refine (hsame _ fun v hv => ?_).symm
    rcases (mem_put Task.id).mp hv with ⟨rfl, -⟩ | ⟨hv, -⟩
    · exact ht
    · exact hkept v hv

/-- Under other names an impact lies within the same instance. -/
theorem Impact.Within.renamed (hc : c.Within i s) (hkept : ρ.Keeps (s.tasksOf i))
    (htasks : s'.tasksOf i = s.tasksOf i) : (ρ.impact c).Within i s' where
  record := hc.record
  changed := by
    intro t' ht'
    obtain ⟨t, ht, rfl⟩ := Option.map_eq_some_iff.mp ht'
    obtain ⟨howner, u, hu, hid⟩ := hc.changed t ht
    refine ⟨howner, u, by rw [htasks]; exact hu, ?_⟩
    exact (hkept u hu).symm.trans (congrArg ρ.tasks hid)
  opened := by
    intro t' ht'
    obtain ⟨t, ht, rfl⟩ := List.mem_map.mp ht'
    exact hc.opened t ht
  entries := by
    intro h' hh'
    obtain ⟨h, hh, rfl⟩ := List.mem_map.mp hh'
    exact hc.entries h hh

/-- Whom a dealing concerns depends on the tasks of the instance. -/
theorem Dealing.concerns_congr (h : s'.tasksOf i = s.tasksOf i) (hd : d.Concerns s i) :
    d.Concerns s' i := by
  cases d <;> simpa only [Concerns, h] using hd

/-- Stores with one share of an instance have its record and its tasks in common. -/
theorem Store.eq_of_share? {ids' : IdSource} (hs : s.Orderly ids) (hs' : s'.Orderly ids')
    (h : s'.share? i = s.share? i) :
    s'.instance? i = s.instance? i ∧ s'.tasksOf i = s.tasksOf i := by
  cases hp : s.share? i with
  | none =>
    rw [hp] at h
    rw [share?_eq_none_iff] at h hp
    exact ⟨h.trans hp.symm, (hs'.tasksOf_eq_nil h).trans (hs.tasksOf_eq_nil hp).symm⟩
  | some p =>
    rw [hp] at h
    exact ⟨(instance?_of_share? h).trans (instance?_of_share? hp).symm,
      (tasks_of_share? h).symm.trans (tasks_of_share? hp)⟩

/-- A dealing has an upshot within the instance, and in an environment that agrees on the instance
the same upshot under other names. -/
theorem Dealing.comesTo_both (henv : env.Orderly) (henv' : env'.Orderly)
    (htime : env'.now = env.now) (hd : d.Concerns env.store i)
    (hagree : env'.store.share? i = env.store.share? i) (hrange : (d.perform e).StaysInRange env)
    (hrange' : (d.perform e).StaysInRange env') :
    ∃ (u : Upshot) (ρ : Renaming), u.impact.Within i env.store ∧ ρ.Keeps (env.store.tasksOf i) ∧
      d.ComesTo e env u ∧ d.ComesTo e env' (ρ.upshot u) := by
  have hd' : d.Concerns env'.store i :=
    concerns_congr (Store.eq_of_share? henv.store henv'.store hagree).2 hd
  cases hp : env.store.share? i with
  | none =>
    rw [hp] at hagree
    exact ⟨.refused (.instanceNotFound i), ⟨id, id⟩, Impact.nothing_within, fun _ _ => rfl,
      missing_comesTo henv hp hd, missing_comesTo henv' hagree hd'⟩
  | some p =>
    rw [hp] at hagree
    let u := d.upshot e p env.now env.ids
    have hyields : d.ComesTo e env u := comesTo henv hp hd hrange
    have hyields' := comesTo henv' hagree hd' hrange'
    -- there are identifiers for all tasks that are opened
    have hlast : env.ids.tasks + u.impact.opened.length < 2 ^ (60 : Nat) :=
      hrange.ids_inRange hyields .task
    let ρ := env.ids.renamingTo env'.ids u.impact.opened.length
    have hkept : ρ.Keeps (env.store.tasksOf i) :=
      IdSource.renamingTo_keeps (Nat.le_of_lt hlast) fun t ht =>
        henv.store.task_issued t (Store.mem_tasksOf.mp ht).1
    have hrenamed : d.upshot e p env.now env'.ids = ρ.upshot u :=
      d.upshot_renamed (by rw [Store.tasks_of_share? hp]; exact hkept)
        IdSource.renamingTo_carriesEntry (IdSource.renamingTo_carriesTasks (Nat.le_of_lt hlast))
    rw [htime, hrenamed] at hyields'
    exact ⟨u, ρ, upshot_within henv.store hp hd env.now env.ids, hkept, hyields, hyields'⟩

end Agreement

open Operation in
/-- Instances do not interfere. A dealing with an instance leaves the workflows, the other
instances, their tasks and the entries about these as they are. And in any two environments that
agree on the instance, on its tasks and on its workflow it has, at one time and with one engine,
the same outcome, whatever else the stores contain: the same reply, the same record of the
instance, the same tasks, and the same entries and notices are added. Only new tasks and entries
may have other identifiers. Every run from an empty store leads to an orderly environment
(`Environment.serveAll_orderly`). -/
theorem instances_do_not_interfere (e : Engine) {env env' : Environment} (henv : env.Orderly)
    (henv' : env'.Orderly) (htime : env'.now = env.now) {i : Uuid} {d : Dealing}
    (hd : d.Concerns env.store i) (hagree : env'.store.share? i = env.store.share? i)
    (hrange : ((d.perform e).leaves env).ids.InRange)
    (hrange' : ((d.perform e).leaves env').ids.InRange) :
    let after := (d.perform e).leaves env
    let after' := (d.perform e).leaves env'
    env.store.Spares i after.store ∧
      ∃ ρ : Renaming, ρ.Keeps (env.store.tasksOf i) ∧
        ((d.perform e).runIn env').1 = ((d.perform e).runIn env).1.map ρ.reply ∧
        after'.store.instance? i = after.store.instance? i ∧
        after'.store.tasksOf i = (after.store.tasksOf i).map ρ.task ∧
        ∃ entries notices,
          after.store.history = env.store.history ++ entries ∧
          after'.store.history = env'.store.history ++ entries.map ρ.entry ∧
          after.notices = env.notices ++ notices ∧
          after'.notices = env'.notices ++ notices.map ρ.notice := by
  intro after after'
  obtain ⟨hrecord, htasks⟩ := Store.eq_of_share? henv.store henv'.store hagree
  obtain ⟨u, ρ, hwithin, hkept, hyields, hyields'⟩ :=
    Dealing.comesTo_both henv henv' htime hd hagree (.of_leaves hrange) (.of_leaves hrange')
  have hwithin' := hwithin.renamed hkept htasks
  obtain ⟨log, hafter⟩ := hyields.leaves_eq
  obtain ⟨log', hafter'⟩ := hyields'.leaves_eq
  have hstore : after.store = (env.dealt u.impact).store := by rw [show after = _ from hafter]
  have hstore' : after'.store = (env'.dealt (ρ.impact u.impact)).store := by
    rw [show after' = _ from hafter']
    rfl
  refine ⟨?_, ρ, hkept, ?_, ?_, ?_, u.impact.entries, u.impact.notices, ?_, ?_, ?_, ?_⟩
  · rw [hstore]
    exact Environment.dealt_spares henv.store hwithin
  · rw [hyields.outcome, hyields'.outcome]
    rfl
  · rw [hstore, hstore', Environment.instance?_dealt hwithin, Environment.instance?_dealt hwithin',
      hrecord]
    rfl
  · rw [hstore, hstore', Environment.tasksOf_dealt henv.store hwithin,
      Environment.tasksOf_dealt henv'.store hwithin', htasks, hkept.onTasks hwithin,
      List.map_append]
    rfl
  · rw [hstore]
    rfl
  · rw [hstore']
    rfl
  · rw [show after = _ from hafter]
    rfl
  · rw [show after' = _ from hafter']
    rfl

/-- One branch of `fanOutRun` is completed. -/
def lastBranchRun : List Call :=
  fanOutRun ++ Call.atOnce ⟨0, 0⟩
    [.complete (IdSource.issue 0 .task 0) ⟨"u", []⟩ ⟨.completed, .null, none⟩]

/-- After `lastBranchRun`, another instance is started. -/
def crowdedRun : List Call :=
  lastBranchRun ++ Call.atOnce ⟨0, 0⟩ [.startInstance (IdSource.issue 0 .workflow 0) .null]

/-- Completing the last branch opens the same task with and without the other instance, but as the
third task of the store or as the fifth one. -/
theorem instances_do_not_interfere_crowded :
    let e : Engine := ⟨.default, .logging⟩
    let env := (Environment.fresh 0 ⟨0, 0⟩).serveAll e lastBranchRun
    let env' := (Environment.fresh 0 ⟨0, 0⟩).serveAll e crowdedRun
    let d := Dealing.complete (IdSource.issue 0 .task 1) ⟨"u", []⟩ ⟨.completed, .null, none⟩
    let after := ((d.perform e).leaves env).store.tasksOf fanOutInstance.id
    let after' := ((d.perform e).leaves env').store.tasksOf fanOutInstance.id
    after.map Task.id = [0, 1, 2].map (IdSource.issue 0 .task) ∧
      after'.map Task.id = [0, 1, 4].map (IdSource.issue 0 .task) ∧
      ∃ ρ : Renaming, after' = after.map ρ.task := by
  intro e env env' d after after'
  have hstart := Environment.fresh_orderly 0 ⟨0, 0⟩
  have hruns : env.ids.InRange ∧ env'.ids.InRange ∧ env'.now = env.now ∧
      (∃ t ∈ env.store.tasksOf fanOutInstance.id, t.id = IdSource.issue 0 .task 1) ∧
      env'.store.share? fanOutInstance.id = env.store.share? fanOutInstance.id := by
    decide +kernel
  have hafter : ((d.perform e).leaves env).ids.InRange ∧ ((d.perform e).leaves env').ids.InRange ∧
      after.map Task.id = [0, 1, 2].map (IdSource.issue 0 .task) ∧
      after'.map Task.id = [0, 1, 4].map (IdSource.issue 0 .task) := by
    decide +kernel
  obtain ⟨hrange, hrange', htime, hconcerns, hagree⟩ := hruns
  obtain ⟨hlast, hlast', hnames, hnames'⟩ := hafter
  obtain ⟨-, ρ, -, -, -, htasks, -⟩ := instances_do_not_interfere e
    (Environment.serveAll_orderly hstart lastBranchRun hrange)
    (Environment.serveAll_orderly hstart crowdedRun hrange') htime (d := d) hconcerns hagree hlast
    hlast'
  exact ⟨hnames, hnames', ρ, htasks⟩

end ApprovalWorkflow
