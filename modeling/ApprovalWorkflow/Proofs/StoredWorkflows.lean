import ApprovalWorkflow.Proofs.Lives
import ApprovalWorkflow.Proofs.Workflows

/-!
# What becomes of a workflow

A workflow is stored as a draft. What is done about it later changes its status, its definition and
the time of its last change and nothing else, and once it has ended nothing changes it any more
(`Workflow.Became`). It leaves the store only when it is deleted as a draft or as a cancelled
workflow (`Environment.serve_keeps`), and it does not come back, because no identifier is given out
twice (`Environment.serve_absent`).

An instance is created only under a workflow that is active at that moment
(`Environment.serve_creates`).
-/

set_option autoImplicit false

namespace ApprovalWorkflow

open Engine

/-! ## One workflow -/

/-- Nothing can be done about a workflow that has ended. -/
theorem WorkflowAction.not_isTerminal_of_mem_sources {a : WorkflowAction} {status : WorkflowStatus}
    (h : status ∈ a.sources) : status.isTerminal = false := by
  cases a <;> cases status <;> simp [sources, WorkflowStatus.isTerminal] at h ⊢

/-- No step in the life of a workflow makes it a draft. -/
theorem WorkflowAction.target_ne_draft (a : WorkflowAction) : a.target ≠ .draft := by
  cases a <;> exact nofun

namespace Workflow

variable {u v w : Workflow} {now : Timestamp}

/-- A workflow has become another one: it is still the same one under the same name, it is no draft
again, and it has not changed at all if it had ended. -/
structure Became (v w : Workflow) : Prop where
  id : w.id = v.id
  name : w.name = v.name
  description : w.description = v.description
  createdAt : w.createdAt = v.createdAt
  begun : v.status ≠ .draft → w.status ≠ .draft
  ended : v.status.isTerminal → w = v

/-- A workflow about which nothing is done is what it has become. -/
theorem Became.refl (w : Workflow) : w.Became w := ⟨rfl, rfl, rfl, rfl, fun h => h, fun _ => rfl⟩

/-- What becomes of what has become of a workflow has become of the workflow. -/
theorem Became.trans (huv : u.Became v) (hvw : v.Became w) : u.Became w where
  id := hvw.id.trans huv.id
  name := hvw.name.trans huv.name
  description := hvw.description.trans huv.description
  createdAt := hvw.createdAt.trans huv.createdAt
  begun := fun h => hvw.begun (huv.begun h)
  ended := by
    intro hended
    have hv := huv.ended hended
    rw [← hv] at hended
    rw [hvw.ended hended, hv]

/-- A workflow whose status has changed is what it may become. -/
theorem became_of_apply {a : WorkflowAction} (h : v.apply a now = .ok w) : v.Became w := by
  have heq := eq_of_apply h
  refine ⟨by rw [heq], by rw [heq], by rw [heq], by rw [heq], ?_, ?_⟩
  · intro _
    rw [heq]
    exact a.target_ne_draft
  · intro hended
    unfold apply at h
    split at h
    · next hsource =>
      rw [WorkflowAction.not_isTerminal_of_mem_sources (List.contains_iff_mem.mp hsource)] at hended
      cases hended
    · cases h

/-- A workflow whose definition has been replaced is what it may become. -/
theorem became_of_replaceDefinition {text : String}
    (h : (v.replaceDefinition text now).value = .ok w) : v.Became w := by
  obtain ⟨-, heq⟩ := eq_of_replaceDefinition h
  refine ⟨by rw [heq], by rw [heq], by rw [heq], by rw [heq], ?_, ?_⟩
  · intro hdraft
    rwa [heq]
  · intro hended
    unfold replaceDefinition at h
    rw [if_pos hended] at h
    cases h

end Workflow

/-- A workflow that takes the place of one that it has become leaves every other one. -/
theorem Store.became_of_put {s s' : Store} {u v w : Workflow}
    (hids : (s.workflows.map Workflow.id).Nodup) (hw : w ∈ s.workflows) (hv : v ∈ s.workflows)
    (hbecame : v.Became u) (h : s'.workflows = put Workflow.id u s.workflows) :
    ∃ w' ∈ s'.workflows, w.Became w' := by
  rw [h]
  by_cases hsame : w.id = u.id
  · obtain rfl := List.inj_on_of_nodup_map hids hw hv (hsame.trans hbecame.id)
    exact ⟨u, mem_put_self Workflow.id hw hbecame.id, hbecame⟩
  · exact ⟨w, (mem_put Workflow.id).mpr (.inr ⟨hw, hsame⟩), .refl w⟩

/-- The call deletes the workflow of the store, which is a draft or has been cancelled. -/
structure Call.Deletes (c : Call) (env : Environment) (e : Engine) (w : Workflow) : Prop where
  request : c.request = .deleteWorkflow w.id
  answer : env.answer e c = .ok ()
  stored : env.store.workflow? w.id = some w
  status : w.status = .draft ∨ w.status = .cancelled
  gone : (env.serve e c).store.workflow? w.id = none

/-- What can become of a workflow in the course of some calls, which begin in `env`: it is still in
the store, or one of the calls has deleted it. -/
inductive Workflow.Fate (e : Engine) (env : Environment) (calls : List Call) (w : Workflow) : Prop
  | kept (u : Workflow) (hu : (env.serveAll e calls).store.workflow? w.id = some u)
    (hbecame : w.Became u)
  | deleted (before : List Call) (c : Call) (after : List Call) (u : Workflow)
    (hcalls : calls = before ++ c :: after) (hbecame : w.Became u)
    (hdeletes : c.Deletes (env.serveAll e before) e u)
    (hgone : (env.serveAll e calls).store.workflow? w.id = none)

namespace Environment

variable {e : Engine} {env : Environment} {id : Uuid} {v w : Workflow}

/-! ## One call -/

/-- A call that is to delete a workflow takes it out of the store, or leaves all workflows. -/
theorem serve_deletes (henv : env.Orderly) (c : Call) (hrequest : c.request = .deleteWorkflow id) :
    (env.serve e c).store.workflows = env.store.workflows ∨
      (env.serve e c).store.workflows = (env.store.workflows.filter fun w => w.id != id) ∧
        ∃ w, env.store.workflow? id = some w ∧ c.Deletes env e w := by
  have hdelete : c.request.perform e = Workflows.delete id := by
    rw [hrequest]
    rfl
  rcases @Workflows.delete_yields _ id (henv.at_time c.time) with
    ⟨error, hyields⟩ | ⟨w, hw, hmay, hyields⟩
  · left
    rw [← hdelete] at hyields
    obtain ⟨log, hserve⟩ := serve_eq hyields
    rw [hserve]
  · right
    rw [← hdelete] at hyields
    obtain ⟨log, hserve⟩ := serve_eq hyields
    have hfilter : (env.serve e c).store.workflows =
        env.store.workflows.filter fun w => w.id != id := by rw [hserve]
    obtain rfl := (henv.store.workflow?_eq_some_iff.mp hw).2
    refine ⟨hfilter, w, hw, hrequest, hyields.outcome, hw, ?_, ?_⟩
    · unfold Workflow.canDelete at hmay
      split at hmay
      · next hdraft => exact .inl hdraft
      · next hcancelled => exact .inr hcancelled
      · cases hmay
    · apply (find?_eq_none_iff Workflow.id).mpr
      intro v hv
      rw [hfilter] at hv
      simpa using (List.mem_filter.mp hv).2

/-- A call leaves every workflow in the store, changed or not, except for one that it deletes. -/
theorem serve_keeps (henv : env.Orderly) (c : Call) (hw : w ∈ env.store.workflows) :
    (∃ u ∈ (env.serve e c).store.workflows, w.Became u) ∨ c.Deletes env e w := by
  have hrules := serve_rules (e := e) henv c
  have hids := henv.store.workflow_ids
  generalize hrequest : c.request = r at hrules
  cases hrules with
  | stays _ h =>
    left
    rw [h]
    exact ⟨w, hw, .refl w⟩
  | created _ _ h =>
    left
    rw [h]
    exact ⟨w, List.mem_append_left _ hw, .refl w⟩
  | acted hv hu h =>
    left
    exact Store.became_of_put hids hw hv (Workflow.became_of_apply hu) h
  | redefined hv hu h =>
    left
    exact Store.became_of_put hids hw hv (Workflow.became_of_replaceDefinition hu) h
  | @deleted v hv _ _ =>
    rcases serve_deletes (e := e) henv c hrequest with hstays | ⟨hfilter, u, hu, hdeletes⟩
    · left
      rw [hstays]
      exact ⟨w, hw, .refl w⟩
    by_cases hsame : w.id = v.id
    · right
      have hfound := henv.store.workflow?_eq_some_iff.mpr ⟨hw, hsame⟩
      obtain rfl := Option.some.inj (hu.symm.trans hfound)
      exact hdeletes
    · left
      rw [hfilter]
      exact ⟨w, List.mem_filter.mpr ⟨hw, by simpa using hsame⟩, .refl w⟩

/-- A workflow that is gone does not come back: a new one has an identifier of its own. -/
theorem serve_absent (henv : env.Orderly) (c : Call) (hissued : env.ids.Issued .workflow id)
    (hnone : env.store.workflow? id = none) : (env.serve e c).store.workflow? id = none := by
  have hothers := (find?_eq_none_iff Workflow.id).mp hnone
  have hput : ∀ v u : Workflow, v ∈ env.store.workflows → u.id = v.id →
      ∀ w ∈ put Workflow.id u env.store.workflows, w.id ≠ id := by
    intro v u hv hid w hw
    rcases (mem_put Workflow.id).mp hw with ⟨rfl, -⟩ | ⟨hold, -⟩
    · rw [hid]
      exact hothers v hv
    · exact hothers w hold
  apply (find?_eq_none_iff Workflow.id).mpr
  have hrules := serve_rules (e := e) henv c
  generalize hrequest : c.request = r at hrules
  cases hrules with
  | stays _ h =>
    rw [h]
    exact hothers
  | @created name description text _ _ h =>
    -- the rule does not say which identifier is taken, the operation does
    have hcreate : c.request.perform e =
        (do let _ ← Workflows.create name description text : Operation Unit) := by
      rw [hrequest]
      rfl
    rcases Workflows.create_yields (henv.at_time c.time) name description text with
      ⟨error, hyields⟩ | ⟨w, -, rfl, hyields⟩
    · have hdone := hyields.discard
      rw [← hcreate] at hdone
      obtain ⟨log, hserve⟩ := serve_eq hdone
      rw [hserve]
      exact hothers
    · have hdone := hyields.discard
      rw [← hcreate] at hdone
      obtain ⟨log, hserve⟩ := serve_eq hdone
      rw [hserve]
      intro v hv
      rcases List.mem_append.mp hv with hold | hnew
      · exact hothers v hold
      · rw [List.mem_singleton.mp hnew]
        exact (hissued.ne_next (henv.in_range .workflow)).symm
  | acted hv hu h =>
    rw [h]
    exact hput _ _ hv (Workflow.became_of_apply hu).id
  | redefined hv hu h =>
    rw [h]
    exact hput _ _ hv (Workflow.became_of_replaceDefinition hu).id
  | deleted _ _ h =>
    rw [h]
    intro v hv
    exact hothers v (List.mem_filter.mp hv).1

/-- An instance that a call creates follows a workflow that is active at that moment. -/
theorem serve_creates (henv : env.Orderly) (c : Call) (hrange : (env.serve e c).ids.InRange)
    {i : Instance} (hnone : env.store.instance? i.id = none)
    (hi : i ∈ (env.serve e c).store.instances) :
    ∃ w input, c.request = .startInstance w.id input ∧
      env.store.workflow? i.workflowId = some w ∧ w.status = .active := by
  obtain ⟨horderly, -, hturned⟩ := serve_spec henv c hrange
  have hfound := horderly.store.instance?_eq_some_iff.mpr ⟨hi, rfl⟩
  have hturned := hturned i.id
  have hbefore : env.store.situation? i.id = none := by
    rw [Store.situation?, hnone]
    rfl
  have hafter := situation?_eq_some_iff.mpr ⟨i, hfound, rfl⟩
  rw [hbefore] at hturned
  generalize (env.serve e c).store.situation? i.id = o at hturned hafter
  cases hturned with
  | absent => cases hafter
  | @born σ ids hbirth hr =>
    obtain ⟨input, hrequest⟩ := hr
    have hworkflow : i.workflowId = σ.record.workflowId := by
      have hrecord : (σ.after (Workflows.launched e σ c.time ids)).record = i :=
        congrArg Situation.record (Option.some.inj hafter)
      rw [← hrecord, Situation.after]
      cases hj : (Workflows.launched e σ c.time ids).record with
      | none => rfl
      | some j => exact ((launched_effect e σ c.time ids).1 j hj).2
    rw [← hworkflow] at hrequest
    by_cases hactive : ∃ w, env.store.workflow? i.workflowId = some w ∧ w.status = .active
    · obtain ⟨w, hw, hstatus⟩ := hactive
      have hid := (henv.store.workflow?_eq_some_iff.mp hw).2
      exact ⟨w, input, by rw [hrequest, hid], hw, hstatus⟩
    · -- a start that is refused stores no instance
      obtain ⟨error, hyields⟩ := Workflows.startInstance_refused (e := e) (henv.at_time c.time)
        input fun w hw hstatus => hactive ⟨w, hw, hstatus⟩
      have hstart : c.request.perform e =
          (do let _ ← Workflows.startInstance e i.workflowId input : Operation Unit) := by
        rw [hrequest]
        rfl
      have hdone := hyields.discard
      rw [← hstart] at hdone
      obtain ⟨log, hserve⟩ := serve_eq hdone
      have hsame : (env.serve e c).store = env.store := by rw [hserve]
      rw [hsame, hnone] at hfound
      cases hfound

/-! ## Runs -/

/-- A workflow that is gone does not come back in the course of a run. -/
theorem serveAll_absent (henv : env.Orderly) (calls : List Call)
    (hrange : (env.serveAll e calls).ids.InRange) (hissued : env.ids.Issued .workflow id)
    (hnone : env.store.workflow? id = none) : (env.serveAll e calls).store.workflow? id = none := by
  induction calls generalizing env with
  | nil => exact hnone
  | cons c calls ih =>
    have hfirst := hrange.of_grows ((env.serve e c).serveAll_grows e calls)
    have horderly := (serve_spec henv c hfirst).1
    apply ih horderly hrange
    · exact hissued.mono (env.serve_grows e c)
    · exact serve_absent henv c hissued hnone

/-- What becomes of a workflow in the course of a run. The induction is on the calls: what the first
one leaves of the workflow is carried on by the others. -/
theorem serveAll_fate (henv : env.Orderly) (calls : List Call)
    (hrange : (env.serveAll e calls).ids.InRange) (hw : w ∈ env.store.workflows) :
    w.Fate e env calls := by
  induction calls generalizing env w with
  | nil => exact .kept w (henv.store.workflow?_eq_some_iff.mpr ⟨hw, rfl⟩) (.refl w)
  | cons c calls ih =>
    have hfirst := hrange.of_grows ((env.serve e c).serveAll_grows e calls)
    have horderly := (serve_spec henv c hfirst).1
    rcases serve_keeps (e := e) henv c hw with ⟨u, hu, hbecame⟩ | hdeletes
    · cases ih horderly hrange hu with
      | kept v hv hlater =>
        refine .kept v ?_ (hbecame.trans hlater)
        rw [← hbecame.id]
        exact hv
      | deleted before c' after v hcalls hlater hdeletes hgone =>
        refine .deleted (c :: before) c' after v ?_ (hbecame.trans hlater) hdeletes ?_
        · rw [hcalls]
          rfl
        · rw [← hbecame.id]
          exact hgone
    · refine .deleted [] c calls w rfl (.refl w) hdeletes ?_
      have hissued := (henv.store.workflow_issued w hw).mono (env.serve_grows e c)
      exact serveAll_absent horderly calls hrange hissued hdeletes.gone

end Environment

/-- A workflow that has ended stays as it is, unless it has been cancelled and is deleted. -/
theorem Workflow.Fate.of_ended {e : Engine} {env : Environment} {calls : List Call} {w : Workflow}
    (h : w.Fate e env calls) (hended : w.status.isTerminal) :
    (env.serveAll e calls).store.workflow? w.id = some w ∨
      (env.serveAll e calls).store.workflow? w.id = none ∧ w.status = .cancelled := by
  cases h with
  | kept u hu hbecame =>
    left
    rwa [hbecame.ended hended] at hu
  | deleted before c after u hcalls hbecame hdeletes hgone =>
    right
    obtain rfl := hbecame.ended hended
    refine ⟨hgone, ?_⟩
    rcases hdeletes.status with hdraft | hcancelled
    · rw [hdraft] at hended
      cases hended
    · exact hcancelled

/-- The workflows of every run. In every state each of them has a name and a definition that can be
read. From each state on a workflow stays the same one under the same name, with the description and
the time of its creation, unless one of the calls deletes it; it does not change at all when it has
ended, and is gone then only if it was cancelled. An instance that a call creates follows a workflow
that is active at that moment. -/
theorem workflows_stay_sound (seed : Nat) (start : Timestamp) (e : Engine) (calls : List Call)
    (hrange : ((Environment.fresh seed start).serveAll e calls).ids.InRange) :
    let env := (Environment.fresh seed start).serveAll e
    (∀ w ∈ (env calls).store.workflows, w.IsSound) ∧
      (∀ before after, calls = before ++ after → ∀ w ∈ (env before).store.workflows,
        w.Fate e (env before) after ∧
          (w.status.isTerminal → (env calls).store.workflow? w.id = some w ∨
            (env calls).store.workflow? w.id = none ∧ w.status = .cancelled)) ∧
      ∀ before c after, calls = before ++ c :: after →
        ∀ i ∈ ((env before).serve e c).store.instances, (env before).store.instance? i.id = none →
          ∃ w input, c.request = .startInstance w.id input ∧
            (env before).store.workflow? i.workflowId = some w ∧ w.status = .active := by
  intro env
  have hstart := Environment.fresh_orderly seed start
  refine ⟨Environment.serveAll_sound seed start calls hrange, ?_, ?_⟩
  · intro before after hcalls w hw
    have hall : env calls = (env before).serveAll e after := by
      rw [hcalls]
      exact Environment.serveAll_append _ e before after
    have hlast : ((env before).serveAll e after).ids.InRange := by
      rw [← hall]
      exact hrange
    have hbefore := hlast.of_grows ((env before).serveAll_grows e after)
    have henv := Environment.serveAll_orderly hstart before hbefore
    have hfate := Environment.serveAll_fate henv after hlast hw
    refine ⟨hfate, fun hended => ?_⟩
    rw [hall]
    exact hfate.of_ended hended
  · intro before c after hcalls i hi hnone
    obtain ⟨hbefore, hserved⟩ := Environment.serveAll_inRange_at hcalls hrange
    have henv := Environment.serveAll_orderly hstart before hbefore
    exact Environment.serve_creates henv c hserved hnone hi

/-- After `fanOutRun` the workflow is cancelled. -/
def cancellingRun : List Call :=
  fanOutRun ++ Call.atOnce ⟨0, 0⟩ [.applyAction .cancel (IdSource.issue 0 .workflow 0)]

/-- After `cancellingRun` the workflow is deleted, and another one is stored. -/
def replacingRun : List Call :=
  Call.atOnce ⟨1, 0⟩ [.deleteWorkflow (IdSource.issue 0 .workflow 0),
    .createWorkflow "v" "" "\x7b\"steps\":[[\"s\",\"user_task\"]]\x7d"]

/-- The workflow that was cancelled is gone in the end, and the one that is there is sound. -/
theorem workflows_stay_sound_replaced :
    let env := (Environment.fresh 0 ⟨0, 0⟩).serveAll .default
    (∃ w ∈ (env cancellingRun).store.workflows, w.status = .cancelled ∧
        w.Fate .default (env cancellingRun) replacingRun ∧
        (env (cancellingRun ++ replacingRun)).store.workflow? w.id = none) ∧
      ∃ w ∈ (env (cancellingRun ++ replacingRun)).store.workflows, w.IsSound := by
  have hrun : ((Environment.fresh 0 ⟨0, 0⟩).serveAll .default
        (cancellingRun ++ replacingRun)).ids.InRange ∧
      (∃ w ∈ ((Environment.fresh 0 ⟨0, 0⟩).serveAll .default cancellingRun).store.workflows,
        w.status.isTerminal ∧ ((Environment.fresh 0 ⟨0, 0⟩).serveAll .default
          (cancellingRun ++ replacingRun)).store.workflow? w.id = none) ∧
      ∃ w ∈ ((Environment.fresh 0 ⟨0, 0⟩).serveAll .default
        (cancellingRun ++ replacingRun)).store.workflows, w.status = .draft := by decide +kernel
  obtain ⟨hrange, ⟨w, hw, hended, hgone⟩, v, hv, -⟩ := hrun
  obtain ⟨hsound, hfates, -⟩ :=
    workflows_stay_sound 0 ⟨0, 0⟩ .default (cancellingRun ++ replacingRun) hrange
  obtain ⟨hfate, hstays⟩ := hfates cancellingRun replacingRun rfl w hw
  refine ⟨⟨w, hw, ?_, hfate, hgone⟩, v, hv, hsound v hv⟩
  rcases hstays hended with hthere | ⟨-, hcancelled⟩
  · rw [hgone] at hthere
    cases hthere
  · exact hcancelled

end ApprovalWorkflow
