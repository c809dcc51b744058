import ApprovalWorkflow.Proofs.Frozen
import ApprovalWorkflow.Proofs.Turns

/-!
# What requests do to workflows

A request adds one draft, takes one workflow a step further in its life, gives it another
definition or removes it; requests about instances and tasks leave all workflows alone
(`Environment.serve_rules`). A name is checked before it is stored, and a text gets into a workflow
only after it has been read as a sound definition, so that in every state of a run each workflow has
a name and a definition that can be read (`Environment.serveAll_sound`).
-/

set_option autoImplicit false

namespace ApprovalWorkflow

/-! ## Changes of one workflow -/

namespace Workflow

variable {v w : Workflow} {now : Timestamp} {name text : String}

/-- The text of the workflow is that of a sound definition. -/
def IsReadable (w : Workflow) : Prop := ∃ d, w.parsedDefinition.value = .ok d

/-- The workflow has a name that is not blank, and its definition can be read. -/
structure IsSound (w : Workflow) : Prop where
  named : Text.isBlankText w.name = false
  readable : w.IsReadable

/-- A draft has a name, and its definition can be read. -/
theorem of_checkParts (h : (checkParts name text).value = .ok ()) :
    Text.isBlankText name = false ∧ ∃ d, (Definition.parse text).value = .ok d := by
  unfold checkParts at h
  split at h
  · cases h
  · next hnamed =>
    rw [Logged.value_bind] at h
    cases hparse : (Definition.parse text).value with
    | error error => rw [hparse] at h; cases h
    | ok d => exact ⟨by simpa using hnamed, d, rfl⟩

/-- A step in the life of a workflow changes its status and the time of its last change. -/
theorem eq_of_apply {a : WorkflowAction} (h : v.apply a now = .ok w) :
    w = { v with status := a.target, updatedAt := now } := by
  unfold apply at h
  split at h <;> cases h
  rfl

/-- Another definition of a workflow can be read. -/
theorem eq_of_replaceDefinition (h : (v.replaceDefinition text now).value = .ok w) :
    (∃ d, (Definition.parse text).value = .ok d) ∧
      w = { v with definition := text, updatedAt := now } := by
  unfold replaceDefinition at h
  split at h
  · cases h
  · rw [Logged.value_bind] at h
    cases hparse : (Definition.parse text).value with
    | error error => rw [hparse] at h; cases h
    | ok d =>
      rw [hparse] at h
      cases h
      exact ⟨⟨d, rfl⟩, rfl⟩

end Workflow

/-! ## Requests -/

/-- What becomes of the workflows of a store when a request is served at a time. -/
inductive Store.Rules (now : Timestamp) (s s' : Store) : Request → Prop
  /-- Nothing. -/
  | stays (r : Request) (h : s'.workflows = s.workflows) : Rules now s s' r
  /-- There is one more draft. -/
  | created {name description text : String} (id : Uuid)
    (hparts : (Workflow.checkParts name text).value = .ok ())
    (h : s'.workflows = s.workflows ++ [.draft id name description text now]) :
    Rules now s s' (.createWorkflow name description text)
  /-- A workflow has been taken a step further. -/
  | acted {v w : Workflow} {a : WorkflowAction} (hv : v ∈ s.workflows)
    (hw : v.apply a now = .ok w) (h : s'.workflows = put Workflow.id w s.workflows) :
    Rules now s s' (.applyAction a v.id)
  /-- A workflow has got another definition. -/
  | redefined {v w : Workflow} {text : String} (hv : v ∈ s.workflows)
    (hw : (v.replaceDefinition text now).value = .ok w)
    (h : s'.workflows = put Workflow.id w s.workflows) :
    Rules now s s' (.updateDefinition v.id text)
  /-- A workflow has been removed. -/
  | deleted {w : Workflow} (hw : w ∈ s.workflows) (hmay : w.canDelete)
    (h : s'.workflows = s.workflows.filter fun v => v.id != w.id) :
    Rules now s s' (.deleteWorkflow w.id)

namespace Store.Rules

variable {now : Timestamp} {s s' : Store} {r : Request}

/-- What holds of drafts and outlasts the changes of a workflow holds of all workflows. -/
theorem forall_workflows {P : Workflow → Prop} (h : s.Rules now s' r)
    (hdraft : ∀ id name description text, (Workflow.checkParts name text).value = .ok () →
      P (.draft id name description text now))
    (hacted : ∀ v w a, P v → Workflow.apply v a now = .ok w → P w)
    (hredefined : ∀ v w text, P v → (Workflow.replaceDefinition v text now).value = .ok w → P w)
    (hs : ∀ w ∈ s.workflows, P w) : ∀ w ∈ s'.workflows, P w := by
  -- What changes a workflow puts it in the place of its old record.
  have hput : ∀ v, P v → ∀ w ∈ put Workflow.id v s.workflows, P w := by
    intro v hv w hw
    rcases (mem_put Workflow.id).mp hw with ⟨rfl, -⟩ | ⟨hw, -⟩
    · exact hv
    · exact hs w hw
  intro w hw
  cases h with
  | stays _ h => exact hs w (h ▸ hw)
  | created id hparts h =>
    rw [h] at hw
    rcases List.mem_append.mp hw with hold | hnew
    · exact hs w hold
    · rw [List.mem_singleton.mp hnew]
      exact hdraft id _ _ _ hparts
  | acted hv hu h => exact hput _ (hacted _ _ _ (hs _ hv) hu) w (h ▸ hw)
  | redefined hv hu h => exact hput _ (hredefined _ _ _ (hs _ hv) hu) w (h ▸ hw)
  | deleted _ _ h =>
    rw [h] at hw
    exact hs w (List.mem_filter.mp hw).1

end Store.Rules

namespace Request

open Operation

variable {e : Engine} {env : Environment}

/-- A request that changes a workflow stores what becomes of it, unless it is refused. -/
theorem rules_of_ruled {r : Request} {x : Operation Workflow} {id : Uuid}
    {how : Workflow → Except EngineError Workflow} (henv : env.Orderly)
    (hr : r.perform e = do let _ ← x)
    (hx : x.Yields env (Workflows.tryWorkflow env.store id how)
      (Workflows.ruled env (Workflows.tryWorkflow env.store id how)))
    (hrules : ∀ (v w : Workflow) (s' : Store), v ∈ env.store.workflows → v.id = id →
      how v = .ok w → s'.workflows = put Workflow.id w env.store.workflows →
      env.store.Rules env.now s' r) :
    env.store.Rules env.now ((r.perform e).leaves env).store r := by
  rw [hr, hx.discard.store_eq]
  cases hresult : Workflows.tryWorkflow env.store id how with
  | error error => exact .stays r rfl
  | ok w =>
    unfold Workflows.tryWorkflow at hresult
    split at hresult
    · next v hv =>
      obtain ⟨hmem, hid⟩ := henv.store.workflow?_eq_some_iff.mp hv
      exact hrules v w _ hmem hid hresult rfl
    · cases hresult

/-- What a request does to the workflows. -/
theorem rules (henv : env.Orderly) (r : Request) :
    env.store.Rules env.now ((r.perform e).leaves env).store r := by
  by_cases hr : r.LeavesWorkflows
  · exact .stays r (perform_proceeds hr).workflows
  cases r with
  | createWorkflow name description text =>
    rcases Workflows.create_yields henv name description text with
      ⟨error, hyields⟩ | ⟨w, hparts, rfl, hyields⟩
    · exact .stays _ (congrArg Store.workflows hyields.discard.store_eq)
    · exact .created _ hparts (congrArg Store.workflows hyields.discard.store_eq)
  | applyAction a id =>
    refine rules_of_ruled henv rfl (Workflows.apply_yields henv a) ?_
    rintro v w s' hv rfl hw hs'
    exact .acted hv hw hs'
  | deleteWorkflow id =>
    rcases @Workflows.delete_yields env id henv with ⟨error, hyields⟩ | ⟨w, hw, hmay, hyields⟩
    · exact .stays _ (congrArg Store.workflows hyields.store_eq)
    · obtain ⟨hmem, rfl⟩ := henv.store.workflow?_eq_some_iff.mp hw
      exact .deleted hmem hmay (congrArg Store.workflows hyields.store_eq)
  | updateDefinition id text =>
    refine rules_of_ruled henv rfl (Workflows.updateDefinition_yields henv text) ?_
    rintro v w s' hv rfl hw hs'
    exact .redefined hv hw hs'
  | _ => exact absurd trivial hr

end Request

/-! ## Runs -/

namespace Environment

variable {e : Engine} {env : Environment}

/-- What serving a request does to the workflows. -/
theorem serve_rules (henv : env.Orderly) (c : Call) :
    env.store.Rules c.time (env.serve e c).store c.request :=
  c.request.rules (henv.at_time c.time)

/-- What holds of drafts and outlasts the changes of a workflow holds of all workflows of a run. -/
theorem serveAll_forall_workflows {P : Workflow → Prop} (Admits : Call → Prop)
    (hdraft : ∀ c id name description text, Admits c →
      (Workflow.checkParts name text).value = .ok () →
      P (.draft id name description text c.time))
    (hacted : ∀ c v w a, Admits c → P v → Workflow.apply v a c.time = .ok w → P w)
    (hredefined : ∀ c v w text, Admits c → P v →
      (Workflow.replaceDefinition v text c.time).value = .ok w → P w)
    (henv : env.Orderly) (calls : List Call) (hadmits : ∀ c ∈ calls, Admits c)
    (hrange : (env.serveAll e calls).ids.InRange) (hP : ∀ w ∈ env.store.workflows, P w) :
    ∀ w ∈ (env.serveAll e calls).store.workflows, P w := by
  induction calls generalizing env with
  | nil => exact hP
  | cons c calls ih =>
    have hfirst := hrange.of_grows ((env.serve e c).serveAll_grows e calls)
    have hc := hadmits c List.mem_cons_self
    refine ih (serve_spec henv c hfirst).1 (fun c' hc' => hadmits c' (List.mem_cons_of_mem c hc'))
      hrange ?_
    exact (serve_rules henv c).forall_workflows (fun id name description text =>
      hdraft c id name description text hc) (fun v w a => hacted c v w a hc)
      (fun v w text => hredefined c v w text hc) hP

/-- In every state of a run each workflow has a name and a definition that can be read. -/
theorem serveAll_sound (seed : Nat) (start : Timestamp) (calls : List Call)
    (hrange : ((fresh seed start).serveAll e calls).ids.InRange) :
    ∀ w ∈ ((fresh seed start).serveAll e calls).store.workflows, w.IsSound := by
  refine serveAll_forall_workflows (fun _ => True) (fun _ id name description text _ hparts => ?_)
    (fun _ v w a _ hv hw => ?_) (fun _ v w text _ hv hw => ?_) (fresh_orderly seed start) calls
    (fun _ _ => trivial) hrange (fun w hw => (by cases hw))
  · obtain ⟨hnamed, hreadable⟩ := Workflow.of_checkParts hparts
    exact ⟨hnamed, hreadable⟩
  · rw [Workflow.eq_of_apply hw]
    exact ⟨hv.named, hv.readable⟩
  · obtain ⟨hreadable, rfl⟩ := Workflow.eq_of_replaceDefinition hw
    exact ⟨hv.named, hreadable⟩

/-- In every state of a run each stored definition can be read. -/
theorem serveAll_readable (seed : Nat) (start : Timestamp) (calls : List Call)
    (hrange : ((fresh seed start).serveAll e calls).ids.InRange) :
    ∀ w ∈ ((fresh seed start).serveAll e calls).store.workflows, w.IsReadable :=
  fun w hw => (serveAll_sound seed start calls hrange w hw).readable

end Environment

end ApprovalWorkflow
