import ApprovalWorkflow.Proofs.AuditTrail
import ApprovalWorkflow.Proofs.Provenance
import Mathlib.Data.List.Forall2

/-!
# What notices tell

An engine that sends its notices tells of all that it stores. A request first sends one notice for
every entry that it leaves in the audit trail, then one for every task that it opens, and at last
one for the instance that has come to its end by it, if one has (`Environment.Tells`).

So the notices about a task begin with the one that announces it, and go on with one for every
entry about it. The notices about the end of an instance are one if it is completed, and none
otherwise (`notices_match_store`).
-/

set_option autoImplicit false

namespace ApprovalWorkflow

open Engine

/-! ## Notices -/

namespace Notice

/-- The task that a notice is about. -/
def taskId? : Notice → Option Uuid
  | .taskCreated t => some t.id
  | .taskAssigned t _ => some t.id
  | .taskCompleted t => some t.id
  | .workflowCompleted _ => none

/-- The instance whose end a notice is about. -/
def runId? : Notice → Option Uuid
  | .workflowCompleted i => some i.id
  | _ => none

/-- Whether somebody is told to be asked to do a task. -/
def isAssignment : Notice → Bool
  | .taskAssigned _ _ => true
  | _ => false

/-- Whether a task is told to have ended. -/
def isCompletion : Notice → Bool
  | .taskCompleted _ => true
  | _ => false

/-- The notice tells of the work that the entry is about, with the task as it stood then. -/
def TellsOf (entry : HistoryEntry) : Notice → Prop
  | .taskAssigned t user =>
    entry.action ≠ .completed ∧ t.id = entry.taskId ∧ t.standing = entry.standing ∧
      t.assignee = some user
  | .taskCompleted t =>
    entry.action = .completed ∧ t.id = entry.taskId ∧ t.standing = entry.standing
  | _ => False

/-- How a task is announced when it is opened. If it is opened again after a rejection, somebody
may be asked to do it at once. -/
def announcing (again : Bool) (t : Task) : Notice :=
  if again then reopenedNotice t else .taskCreated t

/-- What is told of the end of an instance whose record this is. -/
def ofEnd : Option Instance → List Notice
  | some i => if i.status = .completed then [.workflowCompleted i] else []
  | none => []

variable {entry : HistoryEntry} {n : Notice} {i : Instance} {again : Bool} {t : Task}

/-- A notice that tells of an entry is about the task of the entry. -/
theorem TellsOf.taskId?_eq (h : n.TellsOf entry) : n.taskId? = some entry.taskId := by
  cases n with
  | taskAssigned t user => exact congrArg some h.2.1
  | taskCompleted t => exact congrArg some h.2.1
  | _ => cases h

/-- A notice that tells of an entry is not about the end of an instance. -/
theorem TellsOf.runId?_eq (h : n.TellsOf entry) : n.runId? = none := by
  cases n with
  | workflowCompleted i => cases h
  | _ => rfl

/-- An entry about the end of a task is told by a notice about that, and any other one by a notice
that somebody is asked to do the task. -/
theorem TellsOf.kind (h : n.TellsOf entry) :
    n.isCompletion = decide (entry.action = .completed) ∧
      n.isAssignment = decide (entry.action ≠ .completed) := by
  cases n with
  | taskAssigned t user => simp [isCompletion, isAssignment, h.1]
  | taskCompleted t => simp [isCompletion, isAssignment, h.1]
  | _ => cases h

/-- The announcement of a task is about this task. -/
theorem taskId?_announcing : (announcing again t).taskId? = some t.id := by
  unfold announcing reopenedNotice
  split
  · split <;> rfl
  · rfl

/-- The announcement of a task is not about the end of an instance. -/
theorem runId?_announcing : (announcing again t).runId? = none := by
  unfold announcing reopenedNotice
  split
  · split <;> rfl
  · rfl

/-- The announcement of a task does not tell that it has ended. -/
theorem isCompletion_announcing : (announcing again t).isCompletion = false := by
  unfold announcing reopenedNotice
  split
  · split <;> rfl
  · rfl

/-- Nothing is told of the end of an instance that is not completed. -/
theorem ofEnd_of_ne (h : i.status ≠ .completed) : ofEnd (some i) = [] := if_neg h

/-- Nothing is told of the end of an instance that is running. -/
theorem ofEnd_of_running (h : i.isRunning) : ofEnd (some i) = [] := by
  refine ofEnd_of_ne fun hcompleted => ?_
  rw [Instance.isRunning, hcompleted] at h
  cases h

/-- What is told of the end of an instance is that it is completed. -/
theorem of_mem_ofEnd {record : Option Instance} (h : n ∈ ofEnd record) :
    ∃ i, record = some i ∧ n = .workflowCompleted i := by
  cases record with
  | none => cases h
  | some i =>
    unfold ofEnd at h
    dsimp only at h
    split at h
    · exact ⟨i, rfl, List.mem_singleton.mp h⟩
    · cases h

end Notice

namespace Environment

/-- The notices about a task. -/
def noticesAbout (env : Environment) (task : Uuid) : List Notice :=
  env.notices.filter fun n => n.taskId? = some task

/-- The notices about the end of an instance. -/
def noticesOfEnd (env : Environment) (run : Uuid) : List Notice :=
  env.notices.filter fun n => n.runId? = some run

end Environment

namespace Request

/-- The task whose end a request carries through, with the result that it has then. -/
def carried? (s : Store) : Request → Option Task
  | .complete task _ c => (s.task? task).map fun t => { t with result := some c.result }
  | .retry task => s.task? task
  | .progress task => s.task? task
  | _ => none

/-- Whether a request carries through a rejection that leads back. -/
def leadsBack (s : Store) (r : Request) : Bool := (r.carried? s).any fun t => t.GoesBack

end Request

/-! ## What engines tell -/

section Effects

open Notice

variable {e : Engine} {σ : Situation} {now : Timestamp} {ids : IdSource} {t : Task}
  {again : Bool} {f : Effect}

/-- What an effect opens is announced, and what it completes is told. -/
def Effect.Tells (again : Bool) (f : Effect) : Prop :=
  f.notices = f.opened.map (announcing again) ++ ofEnd f.record

/-- A walk of a running instance tells what it does. -/
theorem walked_tells (hsends : e.notifier = .logging) {i : Instance} (hrunning : i.isRunning)
    (history : List Task) (now : Timestamp) (ids : IdSource) (ending : WalkEnd) :
    (e.walked i history now ids ending).Tells false := by
  have hrecord : ofEnd (some i) = [] := ofEnd_of_running hrunning
  unfold Effect.Tells
  cases ending with
  | completion =>
    simp [walked, ended, hsends, Notifier.sent, ofEnd, Instance.completed]
  | _ =>
    simp only [walked, ended, opening, hsends, Notifier.sent, Option.getD_none, hrecord,
      List.append_nil]
    rfl

/-- A course tells what it does. It leads back if the task does. -/
theorem course_tells (hsends : e.notifier = .logging) (now : Timestamp) (ids : IdSource)
    (t : Task) : (e.effect σ now ids t (σ.course e now t)).Tells (decide t.GoesBack) := by
  cases hcourse : σ.course e now t with
  | fails error => rfl
  | waits => rfl
  | walks i ending =>
    obtain ⟨d, s, hd, hback, -⟩ := of_course_walks hcourse
    obtain ⟨joins, rfl⟩ := course_walks_record hcourse
    have hrunning : Instance.isRunning { σ.record with joins := joins } := (followed_eq_ok.mp hd).1
    rw [decide_eq_false hback]
    exact walked_tells hsends hrunning σ.tasks now ids ending
  | reopens previous origin =>
    obtain ⟨d, -, hback, -⟩ := of_course_reopens hcourse
    rw [decide_eq_true hback]
    simp [Effect.Tells, effect, hsends, Notifier.sent, announcing, ofEnd]

/-- Only a running instance is stored again. -/
theorem course_running {j : Instance}
    (hj : (e.effect σ now ids t (σ.course e now t)).record = some j) : σ.record.isRunning := by
  cases hcourse : σ.course e now t with
  | walks i ending =>
    obtain ⟨d, s, hd, -⟩ := of_course_walks hcourse
    exact (followed_eq_ok.mp hd).1
  | _ =>
    rw [hcourse] at hj
    cases hj

/-- The start of a running instance tells what it does. -/
theorem launched_tells (hsends : e.notifier = .logging) (hrunning : σ.record.isRunning)
    (now : Timestamp) (ids : IdSource) : (Workflows.launched e σ now ids).Tells false := by
  unfold Workflows.launched
  split
  · unfold begun
    split
    · rfl
    · exact walked_tells (i := { σ.record with startedAt := now }) hsends hrunning σ.tasks now ids _
  · next error _ =>
    have hfailed : (σ.record.failedWith error now).status ≠ .completed := by
      rw [Instance.failedWith]
      intro h
      cases h
    exact (ofEnd_of_ne hfailed).symm

end Effects

/-! ## What requests tell -/

namespace Environment

open Notice

variable {e : Engine} {env env₁ env' : Environment} {again : Bool} {t u : Task} {id : Uuid}

/-- From one environment to another everything is told that is stored: the entries that are added
to the audit trail, the tasks that are opened, and the instances that are completed. -/
inductive Tells (again : Bool) (env env' : Environment) : Prop
  | intro (entries : List HistoryEntry) (told : List Notice) (opened : List Task)
    (ends : List Notice)
    (hnotices : env'.notices = env.notices ++ (told ++ opened.map (announcing again) ++ ends))
    (hhistory : env'.store.history = env.store.history ++ entries)
    (htold : List.Forall₂ (fun entry n => n.TellsOf entry) entries told)
    (hids : env'.store.tasks.map Task.id = env.store.tasks.map Task.id ++ opened.map Task.id)
    (hopened : ∀ t ∈ opened, t ∈ env'.store.tasks)
    (hends : ∀ n ∈ ends, ∃ i, n = .workflowCompleted i)
    (hrecords : ∀ id, ofEnd (env'.store.instance? id) =
      ofEnd (env.store.instance? id) ++ ends.filter fun n => n.runId? = some id)

namespace Tells

/-- Where nothing is stored that is to be told, nothing is told. -/
theorem silently (hnotices : env'.notices = env.notices)
    (hhistory : env'.store.history = env.store.history)
    (hids : env'.store.tasks.map Task.id = env.store.tasks.map Task.id)
    (hrecords : ∀ id, ofEnd (env'.store.instance? id) = ofEnd (env.store.instance? id)) :
    Tells again env env' := by
  refine .intro [] [] [] [] ?_ ?_ .nil ?_ (fun _ ht => (by cases ht)) (fun _ hn => (by cases hn))
    fun id => ?_
  · rw [hnotices]
    exact (List.append_nil _).symm
  · rw [hhistory, List.append_nil]
  · rw [hids]
    exact (List.append_nil _).symm
  · rw [hrecords, List.filter_nil, List.append_nil]

/-- Where nothing happens there is nothing to tell. -/
theorem refl (again : Bool) (env : Environment) : Tells again env env :=
  silently rfl rfl rfl fun _ => rfl

/-- Changes of which nothing is to be told may come first. -/
theorem of_silent (h : Tells again env₁ env') (hnotices : env₁.notices = env.notices)
    (hhistory : env₁.store.history = env.store.history)
    (hids : env₁.store.tasks.map Task.id = env.store.tasks.map Task.id)
    (hrecords : ∀ id, ofEnd (env₁.store.instance? id) = ofEnd (env.store.instance? id)) :
    Tells again env env' := by
  obtain ⟨entries, told, opened, ends, h₁, h₂, htold, h₃, hopened, hends, h₄⟩ := h
  refine .intro entries told opened ends ?_ ?_ htold ?_ hopened hends fun id => ?_
  · rw [h₁, hnotices]
  · rw [h₂, hhistory]
  · rw [h₃, hids]
  · rw [h₄, hrecords]

/-- Work on a task comes first, and is told first. -/
theorem of_worked (hsends : e.notifier = .logging) {entry : Task → Uuid → HistoryEntry}
    {notice : Task → Notice} (htells : ∀ id, (notice u).TellsOf (entry u id))
    (h : Tells again (env.worked e entry notice (.ok u)) env') : Tells again env env' := by
  obtain ⟨entries, told, opened, ends, h₁, h₂, htold, h₃, hopened, hends, h₄⟩ := h
  refine .intro (entry u (env.ids.draw .entry).1 :: entries) (notice u :: told) opened ends ?_ ?_
    (.cons (htells _) htold) ?_ hopened hends h₄
  · rw [h₁]
    simp [worked, hsends, Notifier.sent]
  · rw [h₂]
    simp [worked, Store.appendHistory, Store.putTask]
  · rw [h₃]
    exact congrArg (· ++ _) (map_key_put Task.id u env.store.tasks)

/-- What an effect tells is told when an environment has it. -/
theorem of_after {f : Effect} (hf : f.Tells again)
    (hrecord : ∀ j, f.record = some j → ∃ i, env.store.instance? j.id = some i ∧ i.isRunning) :
    Tells again env (env.after f) := by
  refine .intro [] [] f.opened (ofEnd f.record) ?_ (List.append_nil _).symm .nil
    List.map_append (fun t ht => List.mem_append_right _ ht) ?_ fun id => ?_
  · rw [List.nil_append, ← hf]
    rfl
  · intro n hn
    obtain ⟨i, -, rfl⟩ := of_mem_ofEnd hn
    exact ⟨i, rfl⟩
  · cases hj : f.record with
    | none => simp [after, hj, Store.instance?, ofEnd]
    | some j =>
      obtain ⟨i, hi, hrunning⟩ := hrecord j hj
      by_cases hid : id = j.id
      · -- the instance was running, so that nothing has been told of its end before
        subst hid
        have hread := instance?_after hi (c := f) fun k hk => by
          rw [hj] at hk
          rw [Option.some.inj hk]
        have hown : (ofEnd (some j)).filter (fun n => n.runId? = some j.id) = ofEnd (some j) := by
          refine List.filter_eq_self.mpr fun n hn => ?_
          obtain ⟨k, hk, rfl⟩ := of_mem_ofEnd hn
          rw [Option.some.inj hk]
          exact decide_eq_true rfl
        rw [hread, hi, ofEnd_of_running hrunning, hj, hown]
        rfl
      · have hother : (env.after f).store.instance? id = env.store.instance? id := by
          have hput : (put Instance.id j env.store.instances).find? (fun k => k.id == id) =
              env.store.instances.find? fun k => k.id == id := find?_put_of_ne Instance.id hid
          simpa [after, hj, Store.instance?] using hput
        have hforeign : (ofEnd (some j)).filter (fun n => n.runId? = some id) = [] := by
          refine List.filter_eq_nil_iff.mpr fun n hn => ?_
          obtain ⟨k, hk, rfl⟩ := of_mem_ofEnd hn
          rw [← Option.some.inj hk]
          simpa [runId?] using Ne.symm hid
        rw [hother, hforeign, List.append_nil]

/-- A task that is put in the place of an old one is not told of. -/
theorem putTask (h : Tells again env env₁) (hu : u.id ∈ env.store.tasks.map Task.id)
    (hnodup : (env₁.store.tasks.map Task.id).Nodup) : Tells again env (env₁.putTask u) := by
  obtain ⟨entries, told, opened, ends, h₁, h₂, htold, h₃, hopened, hends, h₄⟩ := h
  refine .intro entries told opened ends h₁ h₂ htold ?_ (fun t ht => ?_) hends h₄
  · exact (map_key_put Task.id u env₁.store.tasks).trans h₃
  · refine (mem_put Task.id).mpr (.inr ⟨hopened t ht, fun hid => ?_⟩)
    rw [h₃, List.nodup_append] at hnodup
    exact hnodup.2.2 _ hu _ (List.mem_map_of_mem ht) hid.symm

end Tells

end Environment

namespace Request

open Environment Notice

variable {e : Engine} {env env' : Environment} {t u : Task} {r : Request}

/-- The request, served in the environment, tells what it stores. -/
def Tells (r : Request) (e : Engine) (env : Environment) : Prop :=
  ∃ result env', (r.perform e).Yields env result env' ∧
    Environment.Tells (r.leadsBack env.store) env env'

/-- A request tells what the operation behind it tells. -/
theorem tells_of_yields {α : Type} {x : Operation α} (hr : r.perform e = do let _ ← x)
    {result : Except EngineError α} (hx : x.Yields env result env')
    (h : Environment.Tells (r.leadsBack env.store) env env') : r.Tells e env :=
  ⟨_, env', by rw [hr]; exact hx.discard, h⟩

/-- A change of the workflows, of which nothing is told. -/
theorem ruled_tells (again : Bool) (env : Environment) (w : Except EngineError Workflow) :
    Environment.Tells again env (Workflows.ruled env w) := by
  cases w with
  | error error => exact .refl _ _
  | ok w => exact .silently rfl rfl rfl fun _ => rfl

/-- An operation that tries to work on a task. -/
theorem tells_of_work (hsends : e.notifier = .logging) {x : Operation Task} {id : Uuid}
    {how : Task → Except EngineError Task} {entry : Task → Uuid → HistoryEntry}
    {notice : Task → Notice} (hr : r.perform e = do let _ ← x)
    (hx : x.Yields env (env.store.tryTask id how)
      (env.worked e entry notice (env.store.tryTask id how)))
    (htells : ∀ t u, how t = .ok u → ∀ id, (notice u).TellsOf (entry u id)) : r.Tells e env := by
  refine tells_of_yields hr hx ?_
  cases hresult : env.store.tryTask id how with
  | error error => exact .refl _ _
  | ok u =>
    obtain ⟨t, -, hu⟩ := Store.tryTask_eq_ok.mp hresult
    exact .of_worked hsends (htells t u hu) (.refl _ _)

/-- A claim is told by the notice about its entry. -/
theorem claim_tells (hsends : e.notifier = .logging) (henv : env.Orderly) (id : Uuid) (a : Actor) :
    (claim id a).Tells e env := by
  refine tells_of_work hsends rfl (Tasks.claim_yields henv a) fun t u hu entry => ?_
  obtain ⟨-, rfl⟩ := Task.eq_of_claimedBy hu
  exact ⟨nofun, rfl, rfl, rfl⟩

/-- A delegation is told by the notice about its entry. -/
theorem delegate_tells (hsends : e.notifier = .logging) (henv : env.Orderly) (id : Uuid)
    (a : Actor) (toUser : String) : (delegate id a toUser).Tells e env := by
  refine tells_of_work hsends rfl (Tasks.delegate_yields henv a toUser) fun t u hu entry => ?_
  have htoUser := HistoryEntry.toUser?_delegated entry u a.user toUser env.now
  obtain ⟨-, rfl⟩ := Task.eq_of_delegatedBy hu
  exact ⟨nofun, rfl, congrArg (Standing.mk .pending) htoUser.symm, rfl⟩

/-- The notice about a task that has been finished tells of the entry about that. -/
theorem finished_tellsOf {a : Actor} {c : Completion} {now : Timestamp}
    (hu : t.finishedBy a c now = .ok u) (entry : Uuid) :
    (Notice.taskCompleted u).TellsOf (.completed entry u a.user now) := by
  obtain ⟨-, rfl⟩ := Task.eq_of_finishedBy hu
  exact ⟨rfl, rfl, rfl⟩

/-- The end of a task is told by the notice about its entry. -/
theorem finish_tells (hsends : e.notifier = .logging) (henv : env.Orderly) (id : Uuid) (a : Actor)
    (c : Completion) : (finish id a c).Tells e env :=
  tells_of_work hsends rfl (Tasks.finish_yields henv a c) fun _ _ hu => finished_tellsOf hu

/-- Carrying a task through tells what its course does. -/
theorem carried_tells (hsends : e.notifier = .logging) (ht : t ∈ env.store.tasks)
    {σ : Situation} (hσ : env.store.situation? t.instanceId = some σ)
    (horderly : ((env.after (e.effect σ env.now env.ids t (σ.course e env.now t))).putTask
      (t.marked ((σ.course e env.now t).outcome e))).Orderly) :
    Environment.Tells (decide t.GoesBack) env
      ((env.after (e.effect σ env.now env.ids t (σ.course e env.now t))).putTask
        (t.marked ((σ.course e env.now t).outcome e))) := by
  obtain ⟨hstored, -⟩ := record_id hσ
  have hid : (t.marked ((σ.course e env.now t).outcome e)).id = t.id := by
    obtain ⟨p, hmarked⟩ := marked_eq t ((σ.course e env.now t).outcome e)
    rw [hmarked]
  refine .putTask (.of_after (course_tells hsends env.now env.ids t) fun j hj => ?_) ?_ ?_
  · rw [((course_effect e σ env.now env.ids t).1 j hj).1]
    exact ⟨σ.record, hstored, course_running hj⟩
  · rw [hid]
    exact List.mem_map_of_mem ht
  · have hnodup := horderly.store.task_ids
    rwa [putTask, Store.putTask, map_key_put] at hnodup

/-- A completion is told by the notice about its entry, and then by those about the progression
behind it. -/
theorem complete_tells (hsends : e.notifier = .logging) (henv : env.Orderly) (id : Uuid)
    (a : Actor) (c : Completion) (hrange : ((complete id a c).perform e).StaysInRange env) :
    (complete id a c).Tells e env := by
  cases hresult : env.store.tryTask id fun t => t.finishedBy a c env.now with
  | error error =>
    exact tells_of_yields (x := Tasks.complete e id a c) rfl (Tasks.complete_refused henv hresult)
      (.refl _ _)
  | ok u =>
    obtain ⟨t, ht, hu⟩ := Store.tryTask_eq_ok.mp hresult
    obtain ⟨hmem, rfl⟩ := henv.store.task?_eq_some_iff.mp ht
    obtain ⟨σ, hσ, -⟩ := situation_of_task henv.store hmem
    obtain ⟨hσ₁, hyields, horderly₁, horderly₂⟩ := Tasks.complete_carried henv hmem hu hσ
      (hrange.first fun _ => .pure ())
    have hfinished := Task.of_finishedBy hu
    have hu₁ := mem_put_self Task.id hmem hfinished.2.place.1
    -- the request names the task before it was finished, with the result that it gets
    have hback : (complete t.id a c).leadsBack env.store = decide u.GoesBack := by
      obtain ⟨-, assignee, rfl⟩ := hfinished
      simp only [leadsBack, carried?, ht, Option.map_some, Option.any_some]
      rfl
    refine tells_of_yields rfl hyields ?_
    rw [hback]
    exact .of_worked hsends (finished_tellsOf hu)
      (carried_tells hsends hu₁ hσ₁ horderly₂)

/-- A progression tells the tasks that it opens and the end of the instance, if it comes to that.
-/
theorem progress_tells (hsends : e.notifier = .logging) (henv : env.Orderly) {id : Uuid}
    (hrange : (e.progress id).StaysInRange env) :
    ∃ result env', (e.progress id).Yields env result env' ∧
      Environment.Tells ((progress id).leadsBack env.store) env env' := by
  cases ht : env.store.task? id with
  | none => exact ⟨_, env, progress_of_missing henv.outage ht, .refl _ _⟩
  | some t =>
    obtain ⟨hmem, rfl⟩ := henv.store.task?_eq_some_iff.mp ht
    by_cases hadvanced : t.progression = .advanced
    · exact ⟨_, env, progress_of_advanced henv.outage ht hadvanced, .refl _ _⟩
    cases hopen : t.status.isOpen with
    | true => exact ⟨_, env, progress_of_open henv.outage ht hadvanced hopen, .refl _ _⟩
    | false =>
      obtain ⟨σ, hσ, -⟩ := situation_of_task henv.store hmem
      obtain ⟨hyields, horderly⟩ := progress_yields henv ht hadvanced hopen hσ hrange
      have hback : (progress t.id).leadsBack env.store = decide t.GoesBack := by
        rw [leadsBack, carried?, ht, Option.any_some]
      refine ⟨_, _, hyields, ?_⟩
      rw [hback]
      exact carried_tells hsends hmem hσ horderly

/-- A retry tells what its progression tells. -/
theorem retry_tells (hsends : e.notifier = .logging) (henv : env.Orderly) (id : Uuid)
    (hrange : ((retry id).perform e).StaysInRange env) : (retry id).Tells e env := by
  cases ht : env.store.task? id with
  | none =>
    have hfound := Repository.task_yields id henv.outage
    rw [ht] at hfound
    exact tells_of_yields (x := Tasks.retry e id) rfl (.bind_error hfound) (.refl _ _)
  | some t =>
    by_cases hstalled : t.progression.isStalled
    · have hacts := Tasks.retry_actsAs (e := e) henv ht hstalled
      have hretry : (Tasks.retry e id).StaysInRange env := hrange.first fun _ => .pure ()
      obtain ⟨result, env', hyields, htells⟩ :=
        progress_tells hsends henv (hretry.of_actsAs hacts)
      exact tells_of_yields rfl (hacts.yields hyields) htells
    · exact tells_of_yields rfl (Tasks.retry_refused henv ht hstalled) (.refl _ _)

/-- That an instance is cancelled is not told. -/
theorem cancelInstance_tells (henv : env.Orderly) (id : Uuid) :
    (cancelInstance id).Tells e env := by
  rcases Workflows.cancelInstance_yields henv with ⟨error, hyields⟩ | ⟨i, j, hi, hcancel, hyields⟩
  · exact tells_of_yields rfl hyields (.refl _ _)
  · obtain ⟨hrunning, rfl⟩ := Instance.of_cancel hcancel
    obtain rfl := (henv.store.instance?_eq_some_iff.mp hi).2
    let j : Instance := { i with status := .cancelled, completedAt := some env.now }
    have hnothing : ofEnd (some j) = [] := ofEnd_of_ne (by simp [j])
    -- giving the instance up is an effect that opens nothing and completes nothing
    have hafter : env.after ⟨some j, [], []⟩ = { env with store := env.store.putInstance j } := by
      simp [Environment.after, Store.putInstance]
    refine tells_of_yields rfl hyields (hafter ▸ .of_after ?_ fun k hk => ?_)
    · exact hnothing.symm
    obtain rfl := Option.some.inj hk
    exact ⟨i, hi, hrunning⟩

/-- A start tells the tasks that it opens, and the end of an instance that needs none. -/
theorem startInstance_tells (hsends : e.notifier = .logging) (henv : env.Orderly) (id : Uuid)
    (input : Json) (hrange : ((startInstance id input).perform e).StaysInRange env) :
    (startInstance id input).Tells e env := by
  by_cases hstartable : ∃ w, env.store.workflow? id = some w ∧ w.status = .active
  · obtain ⟨w, hw, hactive⟩ := hstartable
    obtain ⟨horderly₁, hσ, -, hyields⟩ := Workflows.startInstance_yields henv hw hactive input
      (hrange.first fun _ => .pure ())
    let i := Workflows.newborn env w input
    let σ := Workflows.birth env w input
    obtain ⟨hstored, -⟩ := record_id hσ
    have hrunning : σ.record.isRunning := rfl
    have hlaunched : Environment.Tells false (Workflows.withInstance env i)
        ((Workflows.withInstance env i).after
          (Workflows.launched e σ env.now (Workflows.withInstance env i).ids)) := by
      refine .of_after (launched_tells hsends hrunning _ _) fun j hj => ?_
      rw [((launched_effect e σ env.now _).1 j hj).1]
      exact ⟨i, hstored, hrunning⟩
    have hback : (startInstance id input).leadsBack env.store = false := rfl
    refine tells_of_yields rfl hyields ?_
    rw [hback]
    refine hlaunched.of_silent rfl rfl rfl fun other => ?_
    -- the new instance is running
    have hfree : env.store.instance? i.id = none := henv.store.instance?_next (henv.in_range .run)
    by_cases hother : other = i.id
    · subst hother
      have hread : (Workflows.withInstance env i).store.instance? i.id = some i := hstored
      rw [hread, hfree]
      rfl
    · have hsame : (Workflows.withInstance env i).store.instance? other =
          env.store.instance? other := by
        simp [Workflows.withInstance, Store.instance?, List.find?_append, Ne.symm hother]
      rw [hsame]
  · obtain ⟨error, hyields⟩ := Workflows.startInstance_refused (e := e) henv input
      fun w hw hactive => hstartable ⟨w, hw, hactive⟩
    exact tells_of_yields rfl hyields (.refl _ _)

/-- Every request tells what it stores. -/
theorem tells (hsends : e.notifier = .logging) (henv : env.Orderly) (r : Request)
    (hrange : (r.perform e).StaysInRange env) : r.Tells e env := by
  cases r with
  | createWorkflow name description definition =>
    rcases Workflows.create_yields henv name description definition with
      ⟨error, hyields⟩ | ⟨w, -, -, hyields⟩
    · exact tells_of_yields rfl hyields (.refl _ _)
    · exact tells_of_yields rfl hyields (.silently rfl rfl rfl fun _ => rfl)
  | applyAction action workflow =>
    exact tells_of_yields rfl (Workflows.apply_yields henv action) (ruled_tells _ _ _)
  | deleteWorkflow workflow =>
    rcases Workflows.delete_yields henv with ⟨error, hyields⟩ | ⟨w, -, -, hyields⟩
    · exact ⟨_, _, hyields, .refl _ _⟩
    · exact ⟨_, _, hyields, .silently rfl rfl rfl fun _ => rfl⟩
  | updateDefinition workflow definition =>
    exact tells_of_yields rfl (Workflows.updateDefinition_yields henv definition)
      (ruled_tells _ _ _)
  | startInstance workflow input => exact startInstance_tells hsends henv workflow input hrange
  | cancelInstance run => exact cancelInstance_tells henv run
  | claim task a => exact claim_tells hsends henv task a
  | complete task a c => exact complete_tells hsends henv task a c hrange
  | delegate task a toUser => exact delegate_tells hsends henv task a toUser
  | retry task => exact retry_tells hsends henv task hrange
  | inquire q =>
    obtain ⟨result, hyields⟩ := q.perform_yields e henv.outage
    exact ⟨result, env, hyields, .refl _ _⟩
  | finish task a c => exact finish_tells hsends henv task a c
  | progress task =>
    obtain ⟨result, env', hyields, htells⟩ :=
      progress_tells hsends henv (hrange.first fun _ => .pure ())
    exact tells_of_yields rfl hyields htells

end Request

/-! ## Runs -/

namespace Environment

open Notice

variable {e : Engine} {env env' : Environment} {again : Bool} {t : Task} {id : Uuid}

namespace Tells

/-- What is told about one task: of the entries about it, and then of its opening. -/
theorem about (h : Tells again env env') (id : Uuid) :
    ∃ entries told, ∃ opened : List Task,
      env'.noticesAbout id = env.noticesAbout id ++ (told ++ opened.map (announcing again)) ∧
      env'.store.historyOf id = env.store.historyOf id ++ entries ∧
      List.Forall₂ (fun entry n => n.TellsOf entry) entries told ∧
      (∀ t ∈ opened, t ∈ env'.store.tasks ∧ t.id = id) ∧
      (env'.store.tasks.map Task.id).count id =
        (env.store.tasks.map Task.id).count id + opened.length := by
  obtain ⟨entries, told, opened, ends, hnotices, hhistory, htold, hids, hopened, hends, -⟩ := h
  refine ⟨entries.filter fun entry => entry.taskId == id,
    told.filter fun n => n.taskId? = some id, opened.filter fun t => t.id == id, ?_,
    Store.historyOf_append hhistory id, ?_, fun t ht => ?_, ?_⟩
  · have hnone : ends.filter (fun n => n.taskId? = some id) = [] := by
      refine List.filter_eq_nil_iff.mpr fun n hn => ?_
      obtain ⟨i, rfl⟩ := hends n hn
      simp [taskId?]
    have hannounced : (opened.map (announcing again)).filter (fun n => n.taskId? = some id) =
        (opened.filter fun t => t.id == id).map (announcing again) := by
      rw [List.filter_map]
      congr 1
      refine List.filter_congr fun t _ => ?_
      simp only [Function.comp_apply, taskId?_announcing, Option.some.injEq]
      exact Bool.beq_eq_decide_eq _ _ |>.symm
    simp only [noticesAbout, hnotices, List.filter_append, hnone, hannounced, List.append_nil]
  · refine List.rel_filter (fun entry n htells => ?_) htold
    simp [htells.taskId?_eq]
  · obtain ⟨hmem, hid⟩ := List.mem_filter.mp ht
    exact ⟨hopened t hmem, beq_iff_eq.mp hid⟩
  · have hnew : (opened.map Task.id).count id = (opened.filter fun t => t.id == id).length := by
      rw [List.count_eq_countP, List.countP_map, List.countP_eq_length_filter]
      rfl
    rw [hids, List.count_append, hnew]

/-- About a task that was there before, the entries about it are told and nothing else. -/
theorem about_old (h : Tells again env env') (hnodup : (env'.store.tasks.map Task.id).Nodup)
    (hid : id ∈ env.store.tasks.map Task.id) :
    ∃ entries told, env'.noticesAbout id = env.noticesAbout id ++ told ∧
      env'.store.historyOf id = env.store.historyOf id ++ entries ∧
      List.Forall₂ (fun entry n => n.TellsOf entry) entries told ∧
      id ∈ env'.store.tasks.map Task.id := by
  obtain ⟨entries, told, opened, hnotices, hhistory, htold, -, hcount⟩ := h.about id
  have hbefore := List.one_le_count_iff.mpr hid
  have hafter := List.nodup_iff_count_le_one.mp hnodup id
  obtain rfl : opened = [] := List.eq_nil_of_length_eq_zero (by omega)
  refine ⟨entries, told, by rw [hnotices]; simp, hhistory, htold, List.one_le_count_iff.mp ?_⟩
  omega

/-- About a task that is new, it is told that it has been opened and nothing else. -/
theorem about_new (h : Tells again env env') (hnodup : (env'.store.tasks.map Task.id).Nodup)
    (ht : t ∈ env'.store.tasks) (hid : t.id ∉ env.store.tasks.map Task.id)
    (hhistory : env'.store.historyOf t.id = []) :
    env'.noticesAbout t.id = env.noticesAbout t.id ++ [announcing again t] := by
  obtain ⟨entries, told, opened, hnotices, hentries, htold, hopened, hcount⟩ := h.about t.id
  rw [hhistory, eq_comm, List.append_eq_nil_iff] at hentries
  obtain rfl := List.forall₂_nil_left_iff.mp (hentries.2 ▸ htold)
  rw [List.count_eq_one_of_mem hnodup (List.mem_map_of_mem ht), List.count_eq_zero_of_not_mem hid,
    Nat.zero_add] at hcount
  obtain ⟨u, rfl⟩ := List.length_eq_one_iff.mp hcount.symm
  obtain ⟨hu, hsame⟩ := hopened u List.mem_cons_self
  obtain rfl := List.inj_on_of_nodup_map hnodup hu ht hsame
  exact hnotices

/-- About a task that is not there nothing is told. -/
theorem about_absent (h : Tells again env env') (hid : id ∉ env'.store.tasks.map Task.id)
    (hhistory : env'.store.historyOf id = []) :
    env'.noticesAbout id = env.noticesAbout id ∧ id ∉ env.store.tasks.map Task.id := by
  obtain ⟨entries, told, opened, hnotices, hentries, htold, hopened, hcount⟩ := h.about id
  rw [hhistory, eq_comm, List.append_eq_nil_iff] at hentries
  obtain rfl := List.forall₂_nil_left_iff.mp (hentries.2 ▸ htold)
  rw [List.count_eq_zero_of_not_mem hid] at hcount
  obtain rfl : opened = [] := List.eq_nil_of_length_eq_zero (by omega)
  refine ⟨by rw [hnotices]; simp, List.count_eq_zero.mp ?_⟩
  omega

/-- The end of an instance is told when it comes. -/
theorem ofEnd_eq (h : Tells again env env')
    (hends : env.noticesOfEnd id = ofEnd (env.store.instance? id)) :
    env'.noticesOfEnd id = ofEnd (env'.store.instance? id) := by
  obtain ⟨entries, told, opened, ends, hnotices, -, htold, -, -, -, hrecords⟩ := h
  have hwork : List.Forall₂ (fun entry n => n.TellsOf entry) (entries.filter fun _ => false)
      (told.filter fun n => n.runId? = some id) :=
    List.rel_filter (fun entry n htells => by simp [htells.runId?_eq]) htold
  rw [List.filter_false, List.forall₂_nil_left_iff] at hwork
  have hopened : (opened.map (announcing again)).filter (fun n => n.runId? = some id) = [] := by
    refine List.filter_eq_nil_iff.mpr fun n hn => ?_
    obtain ⟨t, -, rfl⟩ := List.mem_map.mp hn
    simp [runId?_announcing]
  rw [hrecords, ← hends]
  simp only [noticesOfEnd, hnotices, List.filter_append, hwork, hopened, List.nil_append]

end Tells

/-- Serving a request tells what it stores. -/
theorem serve_tells (hsends : e.notifier = .logging) (henv : env.Orderly) (c : Call)
    (hrange : (env.serve e c).ids.InRange) :
    Tells (c.request.leadsBack env.store) env (env.serve e c) := by
  obtain ⟨result, env', hyields, htells⟩ :=
    c.request.tells hsends (henv.at_time c.time) (.of_leaves hrange)
  obtain ⟨log, hserve⟩ := serve_eq hyields
  obtain ⟨entries, told, opened, ends, h₁, h₂, htold, h₃, hopened, hends, h₄⟩ := htells
  rw [hserve]
  exact .intro entries told opened ends h₁ h₂ htold h₃ hopened hends h₄

/-- The entries about a task of the store are told in the course of a run. -/
theorem serveAll_told (hsends : e.notifier = .logging) (henv : env.Orderly) (calls : List Call)
    (hrange : (env.serveAll e calls).ids.InRange) (hid : id ∈ env.store.tasks.map Task.id) :
    ∃ entries told, (env.serveAll e calls).noticesAbout id = env.noticesAbout id ++ told ∧
      (env.serveAll e calls).store.historyOf id = env.store.historyOf id ++ entries ∧
      List.Forall₂ (fun entry n => n.TellsOf entry) entries told := by
  induction calls generalizing env with
  | nil => exact ⟨[], [], (List.append_nil _).symm, (List.append_nil _).symm, .nil⟩
  | cons c calls ih =>
    have hfirst := hrange.of_grows ((env.serve e c).serveAll_grows e calls)
    have horderly := (serve_spec henv c hfirst).1
    obtain ⟨entries, told, hnotices, hhistory, htold, hthere⟩ :=
      (serve_tells hsends henv c hfirst).about_old horderly.store.task_ids hid
    obtain ⟨more, others, hnotices', hhistory', hothers⟩ := ih horderly hrange hthere
    refine ⟨entries ++ more, told ++ others, ?_, ?_, List.rel_append htold hothers⟩
    · rw [serveAll, hnotices', hnotices, List.append_assoc]
    · rw [serveAll, hhistory', hhistory, List.append_assoc]

/-- Nothing is told about tasks that are not there, and of the ends of instances what there is to
tell. -/
structure IsTold (env : Environment) : Prop where
  subjects : env.store.HasSubjects
  absent : ∀ id ∉ env.store.tasks.map Task.id, env.noticesAbout id = []
  ends : ∀ id, env.noticesOfEnd id = ofEnd (env.store.instance? id)

/-- If all has been told, this is still so when another request has been served. -/
theorem IsTold.serve (h : env.IsTold) (hsends : e.notifier = .logging) (henv : env.Orderly)
    (c : Call) (hrange : (env.serve e c).ids.InRange) : (env.serve e c).IsTold := by
  have htells := serve_tells hsends henv c hrange
  have hsubjects := (serve_records henv c hrange).hasSubjects h.subjects
  refine ⟨hsubjects, fun id hid => ?_, fun id => htells.ofEnd_eq (h.ends id)⟩
  have hunentered : (env.serve e c).store.historyOf id = [] :=
    Store.historyOf_eq_nil fun entry hentry hsame => hid (hsame ▸ hsubjects entry hentry)
  obtain ⟨hnotices, hbefore⟩ := htells.about_absent hid hunentered
  rw [hnotices, h.absent id hbefore]

/-- If all has been told, this is so throughout a run. The induction is on the calls. -/
theorem IsTold.serveAll (h : env.IsTold) (hsends : e.notifier = .logging) (henv : env.Orderly)
    (calls : List Call) (hrange : (env.serveAll e calls).ids.InRange) :
    (env.serveAll e calls).IsTold := by
  induction calls generalizing env with
  | nil => exact h
  | cons c calls ih =>
    have hfirst := hrange.of_grows ((env.serve e c).serveAll_grows e calls)
    exact ih (h.serve hsends henv c hfirst) (serve_spec henv c hfirst).1 hrange

/-- In a new environment all has been told, as there is nothing to tell. -/
theorem fresh_isTold (seed : Nat) (start : Timestamp) : (fresh seed start).IsTold :=
  ⟨fun _ hentry => (by cases hentry), fun _ _ => rfl, fun _ => rfl⟩

end Environment

/-! ## Counting notices -/

section Counting

open Notice

variable {entries : List HistoryEntry} {told : List Notice} {t : Task} {now : Timestamp}

/-- The notices that somebody is asked to do a task tell of the claims and handovers. -/
theorem forall₂_assignments (h : List.Forall₂ (fun entry n => n.TellsOf entry) entries told) :
    List.Forall₂ (fun entry n => n.TellsOf entry)
      (entries.filter fun entry => entry.action ≠ .completed) (told.filter isAssignment) :=
  List.rel_filter (fun entry n htells => by simp [htells.kind.2]) h

/-- There are as many notices that a task has ended as entries about that. -/
theorem countP_isCompletion (h : List.Forall₂ (fun entry n => n.TellsOf entry) entries told) :
    told.countP isCompletion = entries.countP fun entry => entry.action = .completed := by
  induction h with
  | nil => rfl
  | cons htells _ ih => simp only [List.countP_cons, ih, htells.kind.1]

/-- One entry tells of the completion of a task that has ended, and none of that of an open one. -/
theorem Task.IsRecordedIn.countP_eq (h : t.IsRecordedIn entries) :
    entries.countP (fun entry => entry.action = .completed) =
      if t.status.isTerminal then 1 else 0 := by
  split
  · next hterminal =>
    obtain ⟨earlier, last, rfl, hearlier, hlast, -⟩ := h.finished hterminal
    have hnone : earlier.countP (fun entry => entry.action = .completed) = 0 :=
      List.countP_eq_zero.mpr fun entry hentry => by simpa using hearlier entry hentry
    rw [List.countP_append, hnone, List.countP_singleton, hlast]
    rfl
  · next hopen =>
    refine List.countP_eq_zero.mpr fun entry hentry => ?_
    simpa using h.unfinished (by simpa [TaskStatus.isOpen] using hopen) entry hentry

end Counting

/-- The notices of every run match the store. A task of the store was opened by one of the calls,
which told nothing about it but how it was announced: that it is there, or, if the call carried a
rejection through that leads back, and the task has an assignee, that this one is asked to do it.
Then come the notices about it that tell of the entries about it, one for each: those that somebody
is asked to do it for the claims and the handovers, and the one that it has ended for its
completion. About other tasks nothing was told, and of the end of an instance once if it is
completed, with its record. -/
theorem notices_match_store (seed : Nat) (start : Timestamp) (settings : Settings)
    (calls : List Call)
    (hrange : ((Environment.fresh seed start).serveAll ⟨settings, .logging⟩ calls).ids.InRange) :
    let e : Engine := ⟨settings, .logging⟩
    let env := (Environment.fresh seed start).serveAll e
    (∀ t ∈ (env calls).store.tasks, ∃ before c after, ∃ t₀ : Task, ∃ told,
      let announcement := Notice.announcing (c.request.leadsBack (env before).store) t₀
      calls = before ++ c :: after ∧ t₀.id = t.id ∧ t₀.OpenedBy (env before) e c ∧
        (env before).noticesAbout t.id = [] ∧
        ((env before).serve e c).noticesAbout t.id = [announcement] ∧
        (env calls).noticesAbout t.id = announcement :: told ∧
        List.Forall₂ (fun entry n => n.TellsOf entry) ((env calls).store.historyOf t.id) told ∧
        List.Forall₂ (fun entry n => n.TellsOf entry)
          (((env calls).store.historyOf t.id).filter fun entry => entry.action ≠ .completed)
          (told.filter Notice.isAssignment) ∧
        ((env calls).noticesAbout t.id).countP Notice.isCompletion =
          if t.status.isTerminal then 1 else 0) ∧
      (∀ id, (env calls).store.task? id = none → (env calls).noticesAbout id = []) ∧
      ∀ id, (env calls).noticesOfEnd id = Notice.ofEnd ((env calls).store.instance? id) := by
  intro e env
  have hstart := Environment.fresh_orderly seed start
  have hall := (Environment.fresh_isTold seed start).serveAll (e := e) rfl hstart calls hrange
  refine ⟨fun t ht => ?_, fun id hid => ?_, hall.ends⟩
  · obtain ⟨before, c, after, t₀, hcalls, hopened, hlives⟩ :=
      Environment.serveAll_born seed start calls hrange ht
    have hid := hlives.became.id_eq
    obtain ⟨-, entries, hlived, hhistory⟩ := hlives
    obtain ⟨hbefore, hserved⟩ := Environment.serveAll_inRange_at hcalls hrange
    have hrest : env calls = ((env before).serve e c).serveAll e after := by
      rw [hcalls]
      exact Environment.serveAll_append _ e before (c :: after)
    have horderly := Environment.serveAll_orderly hstart before hbefore
    have horderly' := (Environment.serve_spec horderly c hserved).1
    have habsent : t₀.id ∉ (env before).store.tasks.map Task.id :=
      (find?_eq_none_iff_not_mem Task.id).mp hopened.absent
    -- the call announces the task, and the rest of the run tells what is entered about it
    have hnone := ((Environment.fresh_isTold seed start).serveAll (e := e) rfl hstart before
      hbefore).absent t₀.id habsent
    have hannounced := (Environment.serve_tells (e := e) rfl horderly c hserved).about_new
      horderly'.store.task_ids hopened.stored habsent hopened.unentered
    rw [hnone, List.nil_append] at hannounced
    obtain ⟨entries', told, hnotices, hhistory', htold⟩ :=
      Environment.serveAll_told (e := e) rfl horderly' after (by rw [← hrest]; exact hrange)
        (List.mem_map_of_mem hopened.stored)
    rw [← hrest, hannounced, List.singleton_append] at hnotices
    rw [← hrest, hopened.unentered, List.nil_append] at hhistory'
    rw [hopened.unentered, List.nil_append, hhistory'] at hhistory
    obtain rfl := hhistory
    have hrecorded := hlived.recorded hopened.blank.recorded
    refine ⟨before, c, after, t₀, told, hcalls, hid.symm, hopened, ?_, ?_, ?_, ?_, ?_, ?_⟩
    · exact hid ▸ hnone
    · exact hid ▸ hannounced
    · exact hid ▸ hnotices
    · rw [hid, hhistory']
      exact htold
    · rw [hid, hhistory']
      exact forall₂_assignments htold
    · rw [hid, hnotices, List.countP_cons_of_neg (by simp [Notice.isCompletion_announcing]),
        countP_isCompletion htold, hrecorded.countP_eq]
  · exact hall.absent id ((find?_eq_none_iff_not_mem Task.id).mp hid)

/-- After `rejectionRun`, the rejection is carried through. -/
def reopeningRun : List Call :=
  rejectionRun ++ Call.atOnce ⟨0, 0⟩ [.progress (IdSource.issue 0 .task 1)]

/-- An open task is left, and all that is told about it is that somebody is asked to do it. -/
theorem reopeningRun_asks :
    let env := (Environment.fresh 0 ⟨0, 0⟩).serveAll ⟨.default, .logging⟩ reopeningRun
    env.ids.InRange ∧ ∃ t ∈ env.store.tasks, t.status.isOpen ∧
      (env.noticesAbout t.id).all Notice.isAssignment := by decide +kernel

/-- The task that is opened again is announced to the one who has completed it before. -/
theorem notices_match_store_reopened :
    let env := (Environment.fresh 0 ⟨0, 0⟩).serveAll ⟨.default, .logging⟩ reopeningRun
    ∃ t ∈ env.store.tasks, t.status.isOpen ∧ ∃ announcement told,
      env.noticesAbout t.id = announcement :: told ∧ announcement.isAssignment ∧
        (env.noticesAbout t.id).countP Notice.isCompletion = 0 := by
  obtain ⟨hrange, t, ht, hopen, hassigned⟩ := reopeningRun_asks
  obtain ⟨htasks, -⟩ := notices_match_store 0 ⟨0, 0⟩ .default reopeningRun hrange
  obtain ⟨_, _, _, _, told, -, -, -, -, -, hnotices, -, -, hcount⟩ := htasks t ht
  have hunfinished : ¬ t.status.isTerminal := by simpa [TaskStatus.isOpen] using hopen
  refine ⟨t, ht, hopen, _, told, hnotices, ?_, hcount.trans (if_neg hunfinished)⟩
  rw [hnotices, List.all_cons, Bool.and_eq_true] at hassigned
  exact hassigned.1

end ApprovalWorkflow
