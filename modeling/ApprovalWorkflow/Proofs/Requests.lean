import ApprovalWorkflow.Proofs.Management

/-!
# Requests and runs

A request is one of the things that people ask of the management of workflows and tasks. Two
more stand for parts of a completion, so that runs also reach the states in which completions are
under way: finishing a task without moving its instance on, and carrying a finished task through.

A run serves requests one after the other, each at its own time. Identifiers are the only thing
that a run may use up: what is proved about runs asks that the source of identifiers is still in
range at the end, which it then has been all the time (`serve_grows`).
-/

set_option autoImplicit false

namespace ApprovalWorkflow

open Operation

/-- An operation whose result does not count yields what it yields, and fails if it does. -/
theorem Operation.Yields.discard {α : Type} {x : Operation α} {env env' : Environment}
    {r : Except EngineError α} (h : x.Yields env r env') :
    (do let _ ← x : Operation Unit).Yields env (r.map fun _ => ()) env' := by
  cases r with
  | error error => exact .bind_error h
  | ok a => exact .bind h (.pure () env')

/-- What people can ask without changing anything. -/
inductive Inquiry where
  | workflow (id : Uuid)
  | workflows
  | instances (workflow : Uuid)
  | run (id : Uuid)
  | task (id : Uuid)
  | openTasks (run : Uuid)
  | stalled (run : Uuid)
  | history (task : Uuid)

/-- What people can ask for. -/
inductive Request where
  | createWorkflow (name description definition : String)
  | applyAction (action : WorkflowAction) (workflow : Uuid)
  | deleteWorkflow (workflow : Uuid)
  | updateDefinition (workflow : Uuid) (definition : String)
  | startInstance (workflow : Uuid) (input : Json)
  | cancelInstance (run : Uuid)
  | claim (task : Uuid) (a : Actor)
  | complete (task : Uuid) (a : Actor) (c : Completion)
  | delegate (task : Uuid) (a : Actor) (toUser : String)
  | retry (task : Uuid)
  | inquire (q : Inquiry)
  /-- The first part of a completion. -/
  | finish (task : Uuid) (a : Actor) (c : Completion)
  /-- The second part of a completion. -/
  | progress (task : Uuid)

namespace Inquiry

/-- Looks up what is asked for. -/
def perform (e : Engine) : Inquiry → Operation Unit
  | .workflow id => do let _ ← Workflows.get id
  | .workflows => do let _ ← Workflows.list
  | .instances id => do let _ ← Workflows.instances id
  | .run id => do let _ ← Workflows.getInstance id
  | .task id => do let _ ← Tasks.get id
  | .openTasks id => do let _ ← Tasks.openTasks e id
  | .stalled id => do let _ ← Tasks.stalled e id
  | .history id => do let _ ← Tasks.history id

/-- An operation whose result does not count yields what it yields. -/
theorem discard_yields {α : Type} {x : Operation α} {env env' : Environment}
    {r : Except EngineError α} (h : x.Yields env r env') :
    ∃ r, (do let _ ← x : Operation Unit).Yields env r env' := ⟨_, h.discard⟩

/-- An inquiry changes nothing. -/
theorem perform_yields (e : Engine) (q : Inquiry) {env : Environment} (h : env.outage = none) :
    ∃ r, (q.perform e).Yields env r env := by
  cases q with
  | workflow id => exact discard_yields (Repository.workflow_yields id h)
  | workflows => exact discard_yields (Repository.query_yields _ _ h)
  | instances id =>
    exact discard_yields (Repository.query_yields .listInstances (fun s => s.listInstances id) h)
  | run id => exact discard_yields (Repository.instanceOf_yields id h)
  | task id => exact discard_yields (Repository.task_yields id h)
  | openTasks id =>
    exact discard_yields (Yields.bind (e.tasksOf_yields id h) (.pure _ _))
  | stalled id =>
    exact discard_yields (Yields.bind (e.tasksOf_yields id h) (.pure _ _))
  | history id =>
    have hfound := Repository.task_yields id h
    cases ht : env.store.task? id with
    | none =>
      rw [ht] at hfound
      exact discard_yields (Yields.bind_error hfound)
    | some t =>
      rw [ht] at hfound
      exact discard_yields (Yields.bind hfound (Repository.query_yields _ _ h))

/-- An inquiry takes no identifier back. -/
theorem perform_onlyDraws (e : Engine) (q : Inquiry) : (q.perform e).OnlyDraws := by
  cases q with
  | workflow id => exact .bind (Repository.workflow_onlyDraws id) fun _ => .pure _
  | workflows => exact .bind (.perform _ _) fun _ => .pure _
  | instances id => exact .bind (.perform _ _) fun _ => .pure _
  | run id => exact .bind (Repository.instanceOf_onlyDraws id) fun _ => .pure _
  | task id => exact .bind (Repository.task_onlyDraws id) fun _ => .pure _
  | openTasks id =>
    exact .bind (.bind (Engine.tasksOf_onlyDraws id) fun _ => .pure _) fun _ => .pure _
  | stalled id =>
    exact .bind (.bind (Engine.tasksOf_onlyDraws id) fun _ => .pure _) fun _ => .pure _
  | history id =>
    exact .bind (.bind (Repository.task_onlyDraws id) fun _ => .perform _ _) fun _ => .pure _

end Inquiry

namespace Request

/-- Does what is asked for. -/
def perform (e : Engine) : Request → Operation Unit
  | .createWorkflow name description definition => do
    let _ ← Workflows.create name description definition
  | .applyAction action workflow => do let _ ← Workflows.apply action workflow
  | .deleteWorkflow workflow => Workflows.delete workflow
  | .updateDefinition workflow definition => do
    let _ ← Workflows.updateDefinition workflow definition
  | .startInstance workflow input => do let _ ← Workflows.startInstance e workflow input
  | .cancelInstance run => do let _ ← Workflows.cancelInstance run
  | .claim task a => do let _ ← Tasks.claim e task a
  | .complete task a c => do let _ ← Tasks.complete e task a c
  | .delegate task a toUser => do let _ ← Tasks.delegate e task a toUser
  | .retry task => do let _ ← Tasks.retry e task
  | .inquire q => q.perform e
  | .finish task a c => do let _ ← Tasks.finish e task a c
  | .progress task => do let _ ← e.progress task

/-- A request, and not a part of one. -/
def IsWhole : Request → Prop
  | .finish _ _ _ => False
  | .progress _ => False
  | _ => True

/-- The request leaves all definitions as they are. -/
def KeepsDefinitions : Request → Prop
  | .updateDefinition _ _ => False
  | _ => True

/-- The request leaves the definition of a workflow as it is. -/
def Keeps (r : Request) (workflow : Uuid) : Prop :=
  ∀ definition, r ≠ .updateDefinition workflow definition

/-- A request that keeps all definitions keeps that of each workflow. -/
theorem KeepsDefinitions.keeps {r : Request} (h : r.KeepsDefinitions) (workflow : Uuid) :
    r.Keeps workflow := by
  rintro definition rfl
  exact h

/-- A request takes no identifier back. -/
theorem perform_onlyDraws (e : Engine) (r : Request) : (r.perform e).OnlyDraws := by
  cases r with
  | createWorkflow name description definition =>
    exact .bind (Workflows.create_onlyDraws _ _ _) fun _ => .pure _
  | applyAction action workflow => exact .bind (Workflows.apply_onlyDraws _) fun _ => .pure _
  | deleteWorkflow workflow => exact Workflows.delete_onlyDraws
  | updateDefinition workflow definition =>
    exact .bind (Workflows.updateDefinition_onlyDraws _) fun _ => .pure _
  | startInstance workflow input =>
    exact .bind (Workflows.startInstance_onlyDraws _) fun _ => .pure _
  | cancelInstance run => exact .bind Workflows.cancelInstance_onlyDraws fun _ => .pure _
  | claim task a => exact .bind (Tasks.claim_onlyDraws a) fun _ => .pure _
  | complete task a c => exact .bind (Tasks.complete_onlyDraws a c) fun _ => .pure _
  | delegate task a toUser => exact .bind (Tasks.delegate_onlyDraws a toUser) fun _ => .pure _
  | retry task => exact .bind Tasks.retry_onlyDraws fun _ => .pure _
  | inquire q => exact q.perform_onlyDraws e
  | finish task a c => exact .bind (Tasks.finish_onlyDraws a c) fun _ => .pure _
  | progress task => exact .bind (Engine.progress_onlyDraws task) fun _ => .pure _

end Request

/-! ## Runs -/

/-- A request and the time at which it is served. -/
structure Call where
  time : Timestamp
  request : Request

/-- Requests that are all served at one time. -/
def Call.atOnce (time : Timestamp) (requests : List Request) : List Call :=
  requests.map fun r => ⟨time, r⟩

namespace Environment

/-- An environment without records, from which runs begin. -/
def fresh (seed : Nat) (now : Timestamp) : Environment :=
  ⟨.empty, now, .new seed, none, [], []⟩

/-- The environment after a request. -/
def serve (env : Environment) (e : Engine) (c : Call) : Environment :=
  (c.request.perform e).leaves { env with now := c.time }

/-- The environment after several requests. -/
def serveAll (env : Environment) (e : Engine) : List Call → Environment
  | [] => env
  | c :: calls => (env.serve e c).serveAll e calls

/-- The environment after a request that yields another one. -/
theorem serve_eq {env env' : Environment} {e : Engine} {c : Call} {r : Except EngineError Unit}
    (h : (c.request.perform e).Yields { env with now := c.time } r env') :
    ∃ log, env.serve e c = { env' with log := log } := h.leaves_eq

/-- A request only draws identifiers. -/
theorem serve_grows (env : Environment) (e : Engine) (c : Call) :
    env.ids.Grows (env.serve e c).ids := c.request.perform_onlyDraws e { env with now := c.time }

/-- A run only draws identifiers. -/
theorem serveAll_grows (env : Environment) (e : Engine) (calls : List Call) :
    env.ids.Grows (env.serveAll e calls).ids := by
  induction calls generalizing env with
  | nil => exact .refl _
  | cons c calls ih => exact (env.serve_grows e c).trans (ih _)

/-- To serve calls and then others is to serve all of them. -/
theorem serveAll_append (env : Environment) (e : Engine) (calls others : List Call) :
    env.serveAll e (calls ++ others) = (env.serveAll e calls).serveAll e others := by
  induction calls generalizing env with
  | nil => rfl
  | cons c calls ih => exact ih _

/-- To serve calls and then one more is to serve all of them. -/
theorem serveAll_concat (env : Environment) (e : Engine) (calls : List Call) (c : Call) :
    env.serveAll e (calls ++ [c]) = (env.serveAll e calls).serve e c :=
  env.serveAll_append e calls [c]

/-- A run that stays in range has been in range before and after each of its calls. -/
theorem serveAll_inRange_at {env : Environment} {e : Engine} {calls before after : List Call}
    {c : Call} (hcalls : calls = before ++ c :: after)
    (hrange : (env.serveAll e calls).ids.InRange) :
    (env.serveAll e before).ids.InRange ∧ ((env.serveAll e before).serve e c).ids.InRange := by
  rw [hcalls, serveAll_append] at hrange
  have hserved : ((env.serveAll e before).serve e c).ids.InRange :=
    hrange.of_grows (serveAll_grows _ e after)
  exact ⟨hserved.of_grows (serve_grows _ e c), hserved⟩

/-- An environment without records is orderly. -/
theorem fresh_orderly (seed : Nat) (now : Timestamp) : (fresh seed now).Orderly where
  outage := rfl
  in_range := fun kind => by cases kind <;> exact Nat.two_pow_pos 60
  store := .empty _

/-- The log does not matter for order. -/
theorem Orderly.with_log {env : Environment} (h : env.Orderly) (log : List LogLine) :
    { env with log := log }.Orderly := ⟨h.outage, h.in_range, h.store⟩

/-- The time does not matter for order. -/
theorem Orderly.at_time {env : Environment} (h : env.Orderly) (time : Timestamp) :
    { env with now := time }.Orderly := ⟨h.outage, h.in_range, h.store⟩

end Environment

end ApprovalWorkflow
