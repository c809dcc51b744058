import ApprovalWorkflow.Proofs.Turns

/-!
# Failed starts

The instance of a start is stored before the engine walks, and the engine stores it once more when
it sets out. A walk opens a task or completes the instance only where it ends without an error. So
whatever keeps the instance from starting, a definition that cannot be followed or a walk without
an end, the failure is written down over the one record that has been added
(`Workflows.startInstance_error`). After a start that fails, the store has one failed instance more
and is otherwise as it was, and nobody has been told anything
(`failed_start_leaves_failed_instance`).

The requests before the start may each have been served by another engine
(`Environment.serveEach`).
-/

set_option autoImplicit false

namespace ApprovalWorkflow

/-! ## Runs with changing engines -/

namespace Environment

/-- The environment after several requests, each served by an engine of its own. -/
def serveEach (env : Environment) : List (Engine × Call) → Environment
  | [] => env
  | (e, c) :: calls => (env.serve e c).serveEach calls

/-- A run of engines only draws identifiers. The induction is on the calls. -/
theorem serveEach_grows (env : Environment) (calls : List (Engine × Call)) :
    env.ids.Grows (env.serveEach calls).ids := by
  induction calls generalizing env with
  | nil => exact .refl _
  | cons call calls ih => exact (env.serve_grows call.1 call.2).trans (ih _)

/-- A run of engines keeps the environment orderly. The induction is on the calls. -/
theorem serveEach_orderly {env : Environment} (henv : env.Orderly) (calls : List (Engine × Call))
    (hrange : (env.serveEach calls).ids.InRange) : (env.serveEach calls).Orderly := by
  induction calls generalizing env with
  | nil => exact henv
  | cons call calls ih =>
    have hfirst := hrange.of_grows ((env.serve call.1 call.2).serveEach_grows calls)
    exact ih (serve_spec henv call.2 hfirst).1 hrange

end Environment

/-! ## Starts -/

/-- The instance is what is left of a start that has ended with an error. -/
structure Instance.IsFailedStart (i : Instance) (workflow : Uuid) (error : EngineError) : Prop where
  workflowId : i.workflowId = workflow
  status : i.status = .failed
  errorMessage : i.errorMessage = some error.message
  completedAt : i.completedAt.isSome
  joins : i.joins = []

namespace Workflows

variable {e : Engine} {env : Environment} {id : Uuid} {w : Workflow}

/-- The record of a failure takes the place of the new instance. -/
theorem store_after_failure (henv : env.Orderly) (w : Workflow) (input : Json)
    (error : EngineError) (now : Timestamp) :
    let i := newborn env w input
    ((withInstance env i).after ⟨some (i.failedWith error now), [], []⟩).store =
      { env.store with instances := env.store.instances ++ [i.failedWith error now] } := by
  intro i
  have hother : ∀ j ∈ env.store.instances, j.id ≠ (i.failedWith error now).id :=
    (find?_eq_none_iff Instance.id).mp (henv.store.instance?_next (henv.in_range .run))
  have hput : put Instance.id (i.failedWith error now) (env.store.instances ++ [i]) =
      env.store.instances ++ [i.failedWith error now] := by
    have hid : i.id = (i.failedWith error now).id := rfl
    rw [put_append, put_of_not_mem Instance.id hother, put, List.map_singleton, if_pos hid]
  simp [Environment.after, withInstance, hput]

/-- A start that is begun leaves the instance running, or completes it. -/
theorem begun_record_status {σ : Situation} {now : Timestamp} {ids : IdSource}
    (hrunning : σ.record.isRunning) {j : Instance}
    (h : (e.begun σ now ids).record = some j) : j.status = .running ∨ j.status = .completed := by
  unfold Engine.begun at h
  split at h
  · cases h
  · rcases Engine.walked_record h with rfl | rfl
    · exact .inl (by simpa [Instance.isRunning] using hrunning)
    · exact .inr rfl

/-- A start of an active workflow that fails leaves the failed instance and nothing else. -/
theorem startInstance_error (henv : env.Orderly) (hw : env.store.workflow? id = some w)
    (hactive : w.status = .active) (input : Json)
    (hrange : (startInstance e id input).StaysInRange env) {error : EngineError}
    (herror : ((startInstance e id input).runIn env).1 = .error error) :
    let next := (startInstance e id input).leaves env
    next.notices = env.notices ∧ ∃ i : Instance, i.IsFailedStart id error ∧
      env.store.instance? i.id = none ∧
      next.store = { env.store with instances := env.store.instances ++ [i] } := by
  intro next
  obtain ⟨-, -, -, hyields⟩ := startInstance_yields henv hw hactive input hrange
  cases hstartable : (birth env w input).startable e with
  | ok _ =>
    have houtcome := hyields.outcome
    rw [hstartable, herror] at houtcome
    cases houtcome
  | error cause =>
    -- The record of the failure is all that is launched, and it is stored over the new instance.
    have heffect : launched e (birth env w input) env.now
        (withInstance env (newborn env w input)).ids
        = ⟨some ((newborn env w input).failedWith cause env.now), [], []⟩ := by
      rw [launched, hstartable]
      rfl
    rw [hstartable, heffect] at hyields
    obtain rfl : error = cause := by
      have houtcome := hyields.outcome
      rw [herror] at houtcome
      exact Except.error.inj houtcome
    obtain ⟨_, hleaves⟩ := hyields.leaves_eq
    refine ⟨?_, (newborn env w input).failedWith error env.now,
      ⟨(henv.store.workflow?_eq_some_iff.mp hw).2, rfl, rfl, rfl, rfl⟩,
      henv.store.instance?_next (henv.in_range .run), ?_⟩
    · rw [show next = _ from hleaves]
      exact List.append_nil _
    · rw [← store_after_failure henv w input error env.now]
      exact hyields.store_eq

/-- A start that does not fail stores the instance as it says, running or completed. -/
theorem startInstance_ok (henv : env.Orderly) (hw : env.store.workflow? id = some w)
    (hactive : w.status = .active) (input : Json)
    (hrange : (startInstance e id input).StaysInRange env) {i : Instance}
    (hi : ((startInstance e id input).runIn env).1 = .ok i) :
    ((startInstance e id input).leaves env).store.instance? i.id = some i ∧
      (i.status = .running ∨ i.status = .completed) := by
  obtain ⟨-, hσ, -, hyields⟩ := startInstance_yields henv hw hactive input hrange
  cases hstartable : (birth env w input).startable e with
  | error _ =>
    have houtcome := hyields.outcome
    rw [hstartable, hi] at houtcome
    cases houtcome
  | ok _ =>
    have heffect : launched e (birth env w input) env.now
        (withInstance env (newborn env w input)).ids
        = e.begun (birth env w input) env.now (withInstance env (newborn env w input)).ids := by
      rw [launched, hstartable]
    rw [hstartable, heffect] at hyields
    have houtcome := hyields.outcome
    rw [hi] at houtcome
    obtain rfl := Except.ok.inj houtcome
    obtain ⟨hstored, -⟩ := Engine.record_id hσ
    -- The walk stores the record again if it completes the instance, and leaves it otherwise.
    have hfound := Engine.instance?_after hstored
      (c := e.begun (birth env w input) env.now (withInstance env (newborn env w input)).ids)
      (begun_record_id rfl)
    rw [hyields.store_eq]
    cases hrecord : (e.begun (birth env w input) env.now
        (withInstance env (newborn env w input)).ids).record with
    | none =>
      rw [hrecord] at hfound
      exact ⟨hfound, .inl rfl⟩
    | some j =>
      rw [hrecord] at hfound
      refine ⟨?_, begun_record_status rfl hrecord⟩
      rwa [Option.getD_some, begun_record_id rfl j hrecord]

end Workflows

/-- A start that fails leaves one failed instance and nothing else. In whatever store a run of
requests has led to, and whatever engine starts the instance: if the start ends with an error, then
nobody is notified, and either the workflow is missing or not active and the store is as it was, or
the store is as it was but for one instance more, which is failed, with the text of the error as its
message, a time of its end and no joins. If it ends without one, then the instance that it gives is
in the store, running or completed. -/
theorem failed_start_leaves_failed_instance (seed : Nat) (start : Timestamp)
    (calls : List (Engine × Call)) (e : Engine) (time : Timestamp) (workflow : Uuid)
    (input : Json) :
    let env := { (Environment.fresh seed start).serveEach calls with now := time }
    let outcome := ((Workflows.startInstance e workflow input).runIn env).1
    let next := (Workflows.startInstance e workflow input).leaves env
    next.ids.InRange →
      (∀ error, outcome = .error error → next.notices = env.notices ∧
        ((∀ w, env.store.workflow? workflow = some w → w.status ≠ .active) ∧
            next.store = env.store ∨
          (∃ w, env.store.workflow? workflow = some w ∧ w.status = .active) ∧
            ∃ i : Instance, i.IsFailedStart workflow error ∧ env.store.instance? i.id = none ∧
              next.store = { env.store with instances := env.store.instances ++ [i] })) ∧
      ∀ i, outcome = .ok i → next.store.instance? i.id = some i ∧
        (i.status = .running ∨ i.status = .completed) := by
  intro env outcome next hrange
  have hids : env.ids.InRange := hrange.of_grows (Workflows.startInstance_onlyDraws input env)
  have henv : env.Orderly :=
    (Environment.serveEach_orderly (Environment.fresh_orderly seed start) calls hids).at_time time
  by_cases hactive : ∃ w, env.store.workflow? workflow = some w ∧ w.status = .active
  · obtain ⟨w, hw, hstatus⟩ := hactive
    refine ⟨fun error herror => ?_, fun i hi => ?_⟩
    · obtain ⟨hnotices, hleft⟩ :=
        Workflows.startInstance_error henv hw hstatus input (.of_leaves hrange) herror
      exact ⟨hnotices, .inr ⟨⟨w, hw, hstatus⟩, hleft⟩⟩
    · exact Workflows.startInstance_ok henv hw hstatus input (.of_leaves hrange) hi
  · have hinactive (w : Workflow) (hw : env.store.workflow? workflow = some w) :
        w.status ≠ .active := fun hstatus => hactive ⟨w, hw, hstatus⟩
    obtain ⟨refusal, hyields⟩ := Workflows.startInstance_refused (e := e) henv input hinactive
    obtain ⟨_, hleaves⟩ := hyields.leaves_eq
    refine ⟨fun _ _ => ⟨?_, .inl ⟨hinactive, ?_⟩⟩, fun i hi => ?_⟩
    · rw [show next = _ from hleaves]
    · exact hyields.store_eq
    · cases hyields.outcome.symm.trans hi

/-- A workflow of two steps that follow each other for ever, with nobody asked in between. -/
def circularRun : List (Engine × Call) :=
  [(.default, ⟨⟨0, 0⟩, .createWorkflow "loop" "" ("\x7b\"steps\":[" ++
      "\x7b\"id\":\"a\",\"type\":\"process\",\"nextSteps\":[\"b\"]\x7d," ++
      "\x7b\"id\":\"b\",\"type\":\"process\",\"nextSteps\":[\"a\"]\x7d]\x7d")⟩),
    (.default, ⟨⟨0, 0⟩, .applyAction .activate (IdSource.issue 0 .workflow 0)⟩)]

/-- The instance of a workflow that goes in circles comes to the limit of automatic steps. -/
theorem failed_start_leaves_failed_instance_circular :
    let workflow := IdSource.issue 0 .workflow 0
    let env := { (Environment.fresh 0 ⟨0, 0⟩).serveEach circularRun with now := ⟨1, 0⟩ }
    let next := (Workflows.startInstance .default workflow .null).leaves env
    next.ids.InRange ∧
      ((Workflows.startInstance .default workflow .null).runIn env).1 =
        .error (.stepLimitExceeded 64) ∧
      next.notices = env.notices ∧ ∃ i : Instance,
        i.IsFailedStart workflow (.stepLimitExceeded 64) ∧
          next.store = { env.store with instances := env.store.instances ++ [i] } := by
  intro workflow env next
  have hrange : next.ids.InRange := by decide +kernel
  have herror : ((Workflows.startInstance .default workflow .null).runIn env).1 =
      .error (.stepLimitExceeded 64) := by decide +kernel
  have hactive : ∃ w ∈ env.store.workflow? workflow, w.status = .active := by decide +kernel
  obtain ⟨hfailed, -⟩ := failed_start_leaves_failed_instance 0 ⟨0, 0⟩ circularRun .default ⟨1, 0⟩
    workflow .null hrange
  obtain ⟨hnotices, ⟨hinactive, -⟩ | ⟨-, i, hi, -, hstore⟩⟩ := hfailed _ herror
  · obtain ⟨w, hw, hstatus⟩ := hactive
    exact absurd hstatus (hinactive w hw)
  · exact ⟨hrange, herror, hnotices, i, hi, hstore⟩

end ApprovalWorkflow
