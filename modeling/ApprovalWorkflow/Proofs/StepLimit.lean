import ApprovalWorkflow.Proofs.Attempts
import ApprovalWorkflow.Proofs.Frozen

/-!
# The limit of automatic steps

A walk goes on by itself behind a step that needs nobody (`Step.isAutomatic`), until it opens a
task, completes the instance or finds no step that follows. `Definition.RunsThrough` says which
such steps it executes in a row, without looking at the limit; a walk that goes in circles runs
through lists of any length.

The engine does not count these steps but the times that it goes on from a step. A start has
executed a step before it goes on for the first time, and a continuation has not: it goes on from
the step of a finished task. So a start fails at the limit exactly when its walk would execute
more automatic steps than the limit, but a continuation already when it would execute as many
(`step_limit_exceeded`).
-/

set_option autoImplicit false

namespace ApprovalWorkflow

open Operation

/-! ## Automatic steps -/

/-- A step behind which the walk goes on by itself: it asks nothing of anybody, or all that it
asks is up to branches of which none qualifies. -/
def Step.isAutomatic (around : Surroundings) (s : Step) : Bool :=
  match s.kind with
  | .userTask _ => false
  | .process => true
  | .parallel branches => branches.all fun b => !(b.passes around).value
  | .complete => false
  | .unknown _ => true

/-- No branch qualifies if the guard of none of them holds. -/
theorem Engine.qualifying_isEmpty (around : Surroundings) (branches : List Step) :
    (qualifying around branches).value.isEmpty =
      branches.all fun b => !(b.passes around).value := by
  induction branches with
  | nil => rfl
  | cons b branches ih =>
    rw [qualifying, Logged.value_bind, Logged.value_bind, List.all_cons, ← ih]
    cases (b.passes around).value <;> rfl

namespace Definition

variable {d : Definition} {around : Surroundings} {next : Option Step}

/-- A walk that gets to a step, if to any, executes these automatic steps one after the other. -/
inductive RunsThrough (d : Definition) (around : Surroundings) :
    Option Step → List Step → Prop
  | stop (next : Option Step) : RunsThrough d around next []
  | step {s : Step} {steps : List Step} (hs : s.isAutomatic around)
      (h : RunsThrough d around (d.successor around s).value steps) :
      RunsThrough d around (some s) (s :: steps)

/-- Whether a walk that gets to a step, if to any, executes so many automatic steps. -/
def takes (d : Definition) (around : Surroundings) : Nat → Option Step → Bool
  | 0, _ => true
  | _ + 1, none => false
  | count + 1, some s =>
    s.isAutomatic around && takes d around count (d.successor around s).value

/-- The way from a step takes so many steps exactly if the walk runs through as many at least. -/
theorem takes_iff {count : Nat} :
    d.takes around count next ↔
      ∃ steps, d.RunsThrough around next steps ∧ count ≤ steps.length := by
  induction count generalizing next with
  | zero => exact ⟨fun _ => ⟨[], .stop next, Nat.le_refl 0⟩, fun _ => rfl⟩
  | succ count ih =>
    cases next with
    | none =>
      constructor
      · intro h
        cases h
      · rintro ⟨_, ⟨⟩, hcount⟩
        simp at hcount
    | some s =>
      rw [takes, Bool.and_eq_true, ih]
      constructor
      · rintro ⟨hs, steps, hsteps, hcount⟩
        exact ⟨s :: steps, .step hs hsteps, Nat.succ_le_succ hcount⟩
      · rintro ⟨_, hsteps, hcount⟩
        cases hsteps with
        | stop => simp at hcount
        | step hs hsteps => exact ⟨hs, _, hsteps, Nat.le_of_succ_le_succ hcount⟩

/-- A walk that arrives at a step ends at the limit if it goes on from there and ends at it. -/
theorem arrival_eq_limit {s : Step} {onward : WalkEnd} :
    arrival around s onward = .limit ↔ s.isAutomatic around ∧ onward = .limit := by
  unfold arrival Step.isAutomatic
  cases s.kind with
  | parallel branches =>
    dsimp only
    rw [← Engine.qualifying_isEmpty]
    split <;> simp_all
  | _ => simp

/-- A walk ends at the limit when it executes as many automatic steps as it may go on from
steps. The step that it goes on from first is not among those that it executes. -/
theorem walk_eq_limit (remaining : Nat) (s : Step) :
    d.walk around remaining s = .limit ↔
      d.takes around remaining (d.successor around s).value := by
  induction remaining generalizing s with
  | zero => simp [walk, takes]
  | succ remaining ih =>
    rw [walk]
    cases (d.successor around s).value with
    | none => simp [takes]
    | some next => rw [takes, Bool.and_eq_true, ← ih, ← arrival_eq_limit]

/-- A walk that executes its first step before it goes on may execute one more. -/
theorem arrival_walk_eq_limit (remaining : Nat) (first : Step) :
    arrival around first (d.walk around remaining first) = .limit ↔
      d.takes around (remaining + 1) (some first) := by
  rw [arrival_eq_limit, walk_eq_limit, takes, Bool.and_eq_true]

end Definition

/-- A text that holds no sound definition is refused for what is wrong with it. -/
theorem Definition.invalid_of_parse_error {text : String} {error : EngineError}
    (h : (parse text).value = .error error) : ∃ problems, error = .invalidDefinition problems := by
  unfold parse at h
  split at h
  · cases h
    exact ⟨_, rfl⟩
  · next d hd =>
    rw [accept, Logged.value_bind, Logged.value_bind] at h
    cases hchecked : d.check.value with
    | ok d' =>
      rw [hchecked] at h
      cases h
    | error problems =>
      rw [hchecked] at h
      cases h
      exact ⟨problems, rfl⟩

/-- An instance that follows no definition is not refused for the number of its steps. -/
theorem Situation.followed_spares {s : Store} {id : Uuid} {σ : Situation}
    (hσ : s.situation? id = some σ) {error : EngineError} (h : σ.followed = .error error)
    (n : Nat) : error ≠ .stepLimitExceeded n := by
  obtain ⟨i, -, rfl⟩ := Engine.situation?_eq_some_iff.mp hσ
  unfold followed at h
  split at h
  · change s.definitionOf i = _ at h
    unfold Store.definitionOf at h
    split at h
    · obtain ⟨problems, rfl⟩ := Definition.invalid_of_parse_error h
      simp
    · cases h
      simp
  · cases h
    simp

/-- A task that leads nowhere is not refused for the number of steps. -/
theorem Definition.flowStep_spares {d : Definition} {t : Task} {error : EngineError}
    (h : d.flowStep t = .error error) (n : Nat) : error ≠ .stepLimitExceeded n := by
  unfold flowStep at h
  dsimp only at h
  split at h <;> cases h
  simp

/-! ## Which walk a call makes -/

/-- A walk that a call sets out on: the definition, what guards can refer to, and the step that
the walk gets to first, if there is one. -/
structure Journey where
  definition : Definition
  around : Surroundings
  first : Option Step

namespace Journey

/-- The walk executes at least so many automatic steps before it ends. -/
def ExecutesAtLeast (j : Journey) (count : Nat) : Prop :=
  ∃ steps, j.definition.RunsThrough j.around j.first steps ∧ count ≤ steps.length

/-- A journey executes so many steps exactly if its definition takes them from its first step on.
-/
theorem executesAtLeast_iff {j : Journey} {count : Nat} :
    j.ExecutesAtLeast count ↔ j.definition.takes j.around count j.first :=
  Definition.takes_iff.symm

instance (j : Journey) (count : Nat) : Decidable (j.ExecutesAtLeast count) :=
  decidable_of_iff _ executesAtLeast_iff.symm

end Journey

namespace Store

/-- The walk of a start, unless the start is refused. -/
def startJourney? (s : Store) (id : Uuid) : Option Journey := do
  let i ← s.instance? id
  let w ← s.workflow? i.workflowId
  let d ← w.parsedDefinition.value.toOption
  let first ← d.steps.head?
  if i.isRunning ∧ w.status = .active then some ⟨d, ⟨i.input, s.tasksOf i.id⟩, some first⟩
  else none

/-- The walk of a continuation behind a task, unless the continuation is refused or has to
wait. -/
def continuationJourney? (s : Store) (now : Timestamp) (t : Task) : Option Journey := do
  let σ ← s.situation? t.instanceId
  let d ← σ.followed.toOption
  let current ← (d.flowStep t).toOption
  if current.isParallel → (σ.firing? now current).isSome then
    some ⟨d, σ.around, (d.successor σ.around current).value⟩
  else none

end Store

/-! ## What fails at the limit -/

namespace Operation

variable {α β : Type} {env env₁ : Environment} {limit : Nat} {p : Prop}

/-- Without an outage the operation comes to an end, and that is a failure at the limit exactly
if `p` holds. -/
def FailsAtLimitIff (limit : Nat) (p : Prop) (x : Operation α) (env : Environment) : Prop :=
  ∃ r env', x.Yields env r env' ∧ env'.outage = none ∧
    ∀ n, r = .error (.stepLimitExceeded n) ↔ n = limit ∧ p

/-- A result that may be an error yields what it is. -/
theorem Yields.lift_of_eq {x r : Except EngineError α} (h : x = r) :
    (Operation.lift x).Yields env r env := h ▸ .lift x env

namespace FailsAtLimitIff

/-- The outcome of an operation that fails at the limit exactly if `p` holds. -/
theorem outcome_iff {x : Operation α} (h : x.FailsAtLimitIff limit p env) :
    ∀ n, (x.runIn env).1 = .error (.stepLimitExceeded n) ↔ n = limit ∧ p := by
  obtain ⟨r, env', hyields, -, hr⟩ := h
  rw [hyields.outcome]
  exact hr

/-- An operation that succeeds does not fail at the limit. -/
theorem of_ok {x : Operation α} {a : α} (hx : x.Yields env (.ok a) env₁)
    (h : env₁.outage = none) : x.FailsAtLimitIff limit False env :=
  ⟨_, _, hx, h, by simp⟩

/-- What fails with another error does not fail at the limit. -/
theorem of_error {x : Operation α} {error : EngineError} (hx : x.Yields env (.error error) env₁)
    (h : env₁.outage = none) (herror : ∀ n, error ≠ .stepLimitExceeded n) :
    x.FailsAtLimitIff limit False env :=
  ⟨_, _, hx, h, by simpa using herror⟩

/-- The condition under which an operation fails at the limit may be put in other words. -/
theorem congr {q : Prop} {x : Operation α} (h : x.FailsAtLimitIff limit p env) (hpq : p ↔ q) :
    x.FailsAtLimitIff limit q env := by
  rwa [hpq] at h

/-- An operation that is refused for another reason does not fail at the limit. -/
theorem of_refused {x : Operation α} {error : EngineError}
    (hx : x.Yields env (.error error) env₁) (h : env₁.outage = none)
    (herror : ∀ n, error ≠ .stepLimitExceeded n) (hp : ¬ p) : x.FailsAtLimitIff limit p env :=
  (of_error hx h herror).congr (iff_of_false id hp)

/-- Behind what succeeds it depends on the rest. -/
theorem after {x : Operation α} {f : α → Operation β} {a : α} (hx : x.Yields env (.ok a) env₁)
    (hf : (f a).FailsAtLimitIff limit p env₁) : (x >>= f).FailsAtLimitIff limit p env := by
  obtain ⟨r, env', hyields, houtage, hr⟩ := hf
  exact ⟨r, env', .bind hx hyields, houtage, hr⟩

/-- What is put together of parts that do not fail at the limit does not either. -/
theorem bind {x : Operation α} {f : α → Operation β} (hx : x.FailsAtLimitIff limit False env)
    (hf : ∀ a env', env'.outage = none → (f a).FailsAtLimitIff limit False env') :
    (x >>= f).FailsAtLimitIff limit False env := by
  obtain ⟨r, env₁, hyields, houtage, hr⟩ := hx
  cases r with
  | ok a => exact .after hyields (hf a env₁ houtage)
  | error error => exact .of_error (.bind_error hyields) houtage (by simpa using hr)

/-- An operation that acts as another one fails at the limit under the same condition. -/
theorem of_actsAs {x y : Operation α} (h : x.ActsAs y env)
    (hy : y.FailsAtLimitIff limit p env) : x.FailsAtLimitIff limit p env := by
  obtain ⟨r, env', hyields, houtage, hr⟩ := hy
  exact ⟨r, env', h.yields hyields, houtage, hr⟩

/-- A result that is no failure at the limit does not become one by being lifted. -/
theorem lift {x : Except EngineError α} (h : env.outage = none)
    (hx : ∀ error, x = .error error → ∀ n, error ≠ .stepLimitExceeded n) :
    (Operation.lift x).FailsAtLimitIff limit False env :=
  ⟨x, env, .lift x env, h, by simpa using fun n hfails => hx _ hfails n rfl⟩

/-- A change of the store that is refused for another reason. -/
theorem change {call : StoreCall} {run : Store → Except EngineError Store}
    (houtage : env.outage = none)
    (h : ∀ error, run env.store = .error error → ∀ n, error ≠ .stepLimitExceeded n) :
    (Operation.change call run).FailsAtLimitIff limit False env := by
  cases hrun : run env.store with
  | ok s => exact .of_ok (Repository.change_yields houtage hrun) houtage
  | error error =>
    refine .of_error (fun log => ⟨log, ?_⟩) houtage (h error hrun)
    rw [Operation.change, perform_of_no_outage call _ { env with log := log } houtage]
    simp only [hrun]
    rfl

end FailsAtLimitIff

end Operation

namespace Engine

variable {e : Engine} {i : Instance} {env : Environment} {limit : Nat} {σ : Situation}

/-- Opening a task does not fail at the limit. -/
theorem openTask_spares (h : env.outage = none) (i : Instance) (s : Step) (key : String)
    (parent : Option String) (history : List Task) :
    (e.openTask i s key parent history).FailsAtLimitIff limit False env := by
  refine .after (.freshId .task env) (.after (.now _) (.after (.heed _ _) (.bind ?_ ?_)))
  · refine .change h fun error herror => ?_
    unfold Store.saveTask at herror
    split at herror <;> cases herror
    simp [Store.alreadyThere]
  · intro _ env₁ h₁
    exact .after (.say _ _ _) (.of_ok (.bind (.announce e.notifier _ _) (.pure _ _)) h₁)

/-- Opening several tasks does not fail at the limit. The induction is on the openings. -/
theorem openAll_spares (h : env.outage = none) (i : Instance) (history : List Task)
    (os : List Opening) : (e.openAll i history os).FailsAtLimitIff limit False env := by
  induction os generalizing env with
  | nil => exact .of_ok (.pure () env) h
  | cons o os ih => exact .bind (openTask_spares h ..) fun _ _ h₁ => ih h₁

/-- Updating an instance does not fail at the limit. -/
theorem updateInstance_spares (h : env.outage = none) (i : Instance) :
    (Repository.updateInstance i).FailsAtLimitIff limit False env := by
  refine .change h fun error herror => ?_
  unfold Store.updateInstance at herror
  split at herror <;> cases herror
  simp

/-- Completing an instance does not fail at the limit. -/
theorem completeInstance_spares (h : env.outage = none) (i : Instance) :
    (e.completeInstance i).FailsAtLimitIff limit False env := by
  refine .after (e.tasksOf_yields i.id h) (.after (.now env) (.bind (.lift h ?_) ?_))
  · intro error herror
    unfold Instance.complete Instance.finish at herror
    split at herror <;> cases herror
    simp
  · intro j env₁ h₁
    refine .bind (updateInstance_spares h₁ j) fun _ env₂ h₂ => ?_
    exact .after (.say _ _ _) (.of_ok (.announce e.notifier _ _) h₂)

/-- Of the ends of a walk only the limit fails at it. -/
theorem settle_failsAtLimitIff (h : env.outage = none) (i : Instance) (history : List Task)
    (ending : WalkEnd) :
    (e.settle i history ending).FailsAtLimitIff e.settings.maxAutoSteps (ending = .limit)
      env := by
  cases ending with
  | task s => exact (openAll_spares h i history _).congr (by simp)
  | branches parallel chosen => exact (openAll_spares h i history _).congr (by simp)
  | completion => exact (completeInstance_spares h i).congr (by simp)
  | nothing => exact (openAll_spares h i history _).congr (by simp)
  | limit => exact ⟨_, _, .throw _ _, h, by simp [eq_comm]⟩

/-! ## Starts and continuations -/

/-- An instance that is there is stored again, which leaves all tasks as they are. -/
theorem updateInstance_goes (h : env.outage = none) {i j : Instance}
    (hj : env.store.instance? i.id = some j) :
    ∃ s, (Repository.updateInstance i).Yields env (.ok ()) { env with store := s } ∧
      s.tasks = env.store.tasks := by
  refine ⟨{ env.store with
    instances := replaceFirst (fun k => k.id == i.id) i env.store.instances }, ?_, rfl⟩
  apply Repository.change_yields h
  rw [Store.updateInstance, hj]
  rfl

/-- A join that is to fire does, which leaves all tasks as they are. -/
theorem fireJoin_goes (h : env.outage = none) (hi : env.store.instance? i.id = some i)
    (hσ : σ = ⟨i, env.store.tasksOf i.id, env.store.definitionOf i⟩) (parallel : Step) :
    ∃ s, (e.fireJoin i parallel).Yields env (.ok (σ.firing? env.now parallel))
        { env with store := s } ∧ s.tasks = env.store.tasks := by
  have htasks := e.tasksOf_yields i.id h
  subst hσ
  unfold fireJoin Situation.firing?
  dsimp only
  cases hids : parallel.resolvedSiblings? (env.store.tasksOf i.id) with
  | none =>
    refine ⟨env.store, .bind htasks ?_, rfl⟩
    rw [hids]
    exact .bind (.say _ _ _) (.pure _ _)
  | some ids =>
    rw [Option.bind_some]
    cases hclaim : i.claimJoin? parallel.id ids env.now with
    | none =>
      refine ⟨env.store, .bind htasks ?_, rfl⟩
      rw [hids]
      refine .bind (.now _) ?_
      rw [hclaim]
      exact .bind (.say _ _ _) (.pure _ _)
    | some j =>
      -- The record of the join is stored with the instance, and nothing else changes.
      have hid : j.id = i.id := by rw [Instance.of_claimJoin? hclaim]
      obtain ⟨s, hupdate, hs⟩ := updateInstance_goes h (i := j) (by rw [hid]; exact hi)
      refine ⟨s, .bind htasks ?_, hs⟩
      rw [hids]
      refine .bind (.now _) ?_
      rw [hclaim]
      exact .bind hupdate (.bind (.say _ _ _) (.pure _ _))

/-- Going on from a step fails at the limit exactly if as many automatic steps are executed as
the limit says. -/
theorem advance_failsAtLimitIff (h : env.outage = none) (d : Definition) (s : Step) :
    (e.advance d i e.settings.maxAutoSteps s).FailsAtLimitIff e.settings.maxAutoSteps
      (let around : Surroundings := ⟨i.input, env.store.tasksOf i.id⟩
       d.takes around e.settings.maxAutoSteps (d.successor around s).value) env := by
  refine .of_actsAs (advance_actsAs h d _ s) ?_
  exact (settle_failsAtLimitIff h i _ _).congr (Definition.walk_eq_limit _ s)

/-- Executing a step and going on from it fails at the limit exactly if one automatic step more
is executed than the limit says. -/
theorem execute_failsAtLimitIff (h : env.outage = none) (d : Definition) (first : Step) :
    (e.execute i first (e.advance d i e.settings.maxAutoSteps first)).FailsAtLimitIff
      e.settings.maxAutoSteps
      (d.takes ⟨i.input, env.store.tasksOf i.id⟩ (e.settings.maxAutoSteps + 1) (some first))
      env := by
  refine .of_actsAs (execute_actsAs h first (advance_actsAs h d _ first)) ?_
  exact (settle_failsAtLimitIff h i _ _).congr (Definition.arrival_walk_eq_limit _ first)

/-- What a start does when it is known which definition the instance follows. -/
def setOut (e : Engine) (i : Instance) (w : Workflow) (d : Definition) : Operation Unit := do
  match d.steps with
  | [] => throw (.invalidDefinition [.noSteps])
  | first :: _ => do
    let i := { i with startedAt := ← now }
    Repository.updateInstance i
    say .info ("Starting instance " ++ i.id.toString ++ " of workflow '" ++ w.name
      ++ "' at step '" ++ first.id ++ "'")
    e.execute i first (e.advance d i e.settings.maxAutoSteps first)

/-- Setting out fails at the limit exactly if the walk from the first step would execute more
automatic steps. -/
theorem setOut_failsAtLimitIff (h : env.outage = none) {j : Instance}
    (hj : env.store.instance? i.id = some j) (w : Workflow) (d : Definition) :
    (e.setOut i w d).FailsAtLimitIff e.settings.maxAutoSteps
      (∃ first ∈ d.steps.head?, d.takes ⟨i.input, env.store.tasksOf i.id⟩
        (e.settings.maxAutoSteps + 1) (some first)) env := by
  unfold setOut
  cases d.steps with
  | nil => exact .of_refused (.throw _ _) h (by simp) (by simp)
  | cons first others =>
    let i' := { i with startedAt := env.now }
    obtain ⟨s, hupdate, hs⟩ := updateInstance_goes h (i := i') hj
    have htasks : s.tasksOf i.id = env.store.tasksOf i.id := by
      rw [Store.tasksOf, Store.tasksOf, hs]
    have houtage : ({ env with store := s } : Environment).outage = none := h
    have hwalk := execute_failsAtLimitIff (e := e) (i := i') houtage d first
    refine .after (.now env) (.after hupdate (.after (.say _ _ _) (hwalk.congr ?_)))
    simp [i', htasks]

/-- A start fails at the limit exactly if its walk would execute more automatic steps. -/
theorem start_failsAtLimitIff (h : env.outage = none) (id : Uuid) :
    (e.start id).FailsAtLimitIff e.settings.maxAutoSteps
      (∃ j ∈ env.store.startJourney? id, j.ExecutesAtLeast (e.settings.maxAutoSteps + 1)) env := by
  have hstart : e.start id = (do
      let i ← Repository.instanceOf id
      lift i.ensureRunning
      let w ← Repository.workflow i.workflowId
      lift w.ensureStartable
      let d ← heedResult w.parsedDefinition
      e.setOut i w d) := rfl
  -- One thing after the other is looked up. Where one is missing the start is refused, which is no
  -- failure at the limit, and there is no journey either.
  rw [hstart]
  have hinstance := Repository.instanceOf_yields id h
  cases hi : env.store.instance? id with
  | none =>
    rw [hi] at hinstance
    refine .of_refused (.bind_error hinstance) h (by simp) ?_
    simp [Store.startJourney?, hi]
  | some i =>
    obtain rfl := Store.id_of_instance? hi
    rw [hi] at hinstance
    refine .after hinstance ?_
    by_cases hrunning : i.isRunning
    swap
    · have hensure : (lift i.ensureRunning).Yields env (.error (.instanceNotRunning i.id)) env :=
        .lift_of_eq (if_neg hrunning)
      refine .of_refused (.bind_error hensure) h (by simp) ?_
      simp [Store.startJourney?, hi, hrunning]
    refine .after (.lift_of_eq (if_pos hrunning)) ?_
    have hworkflow := Repository.workflow_yields i.workflowId h
    cases hw : env.store.workflow? i.workflowId with
    | none =>
      rw [hw] at hworkflow
      refine .of_refused (.bind_error hworkflow) h (by simp) ?_
      simp [Store.startJourney?, hi, hw]
    | some w =>
      rw [hw] at hworkflow
      refine .after hworkflow ?_
      by_cases hactive : w.status = .active
      swap
      · have hstartable : (lift w.ensureStartable).Yields env (.error _) env :=
          .lift_of_eq (if_neg hactive)
        refine .of_refused (.bind_error hstartable) h (by simp) ?_
        simp [Store.startJourney?, hi, hw, hactive]
      refine .after (.lift_of_eq (if_pos hactive)) ?_
      have hparsed := Yields.heedResult w.parsedDefinition env
      cases hd : w.parsedDefinition.value with
      | error error =>
        obtain ⟨problems, rfl⟩ := Definition.invalid_of_parse_error hd
        rw [hd] at hparsed
        refine .of_refused (.bind_error hparsed) h (by simp) ?_
        simp [Store.startJourney?, hi, hw, hd, Except.toOption]
      | ok d =>
        rw [hd] at hparsed
        refine .after hparsed ((setOut_failsAtLimitIff h hi w d).congr ?_)
        cases hsteps : d.steps <;>
          simp [Store.startJourney?, hi, hw, hd, Except.toOption, hrunning, hactive, hsteps,
            Journey.executesAtLeast_iff]

/-- Continuing behind a step fails at the limit exactly if the step leads on and the walk would
execute as many automatic steps or more. -/
theorem leadOn_failsAtLimitIff (h : env.outage = none) (hi : env.store.instance? i.id = some i)
    (hσ : σ = ⟨i, env.store.tasksOf i.id, env.store.definitionOf i⟩) (d : Definition)
    (current : Step) :
    (e.leadOn i d current).FailsAtLimitIff e.settings.maxAutoSteps
      ((current.isParallel → (σ.firing? env.now current).isSome) ∧
        d.takes σ.around e.settings.maxAutoSteps (d.successor σ.around current).value) env := by
  unfold leadOn
  split
  · next hparallel =>
    obtain ⟨s, hfire, hs⟩ := fireJoin_goes (e := e) h hi hσ current
    refine .after hfire ?_
    cases hfiring : σ.firing? env.now current with
    | none =>
      dsimp only
      refine (FailsAtLimitIff.of_ok (.pure () { env with store := s }) h).congr ?_
      simp [hparallel]
    | some j =>
      obtain ⟨ids, -, hj⟩ := of_firing? hfiring
      have htasks : s.tasksOf j.id = σ.tasks := by
        rw [hj, hσ, Store.tasksOf, Store.tasksOf, hs]
      have hinput : j.input = σ.record.input := by rw [hj]
      have houtage : ({ env with store := s } : Environment).outage = none := h
      refine (advance_failsAtLimitIff (i := j) houtage d current).congr ?_
      rw [htasks, hinput]
      simp [Situation.around]
  · next hplain =>
    subst hσ
    refine (advance_failsAtLimitIff h d current).congr ?_
    simp [hplain, Situation.around]

/-- A continuation fails at the limit exactly if its walk would execute as many automatic steps
or more. -/
theorem continueAfter_failsAtLimitIff (h : env.outage = none) (t : Task) :
    (e.continueAfter t).FailsAtLimitIff e.settings.maxAutoSteps
      (∃ j ∈ env.store.continuationJourney? env.now t,
        j.ExecutesAtLeast e.settings.maxAutoSteps) env := by
  have hcontinue : e.continueAfter t = (runningInstance t.instanceId >>= fun r =>
      lift (r.2.flowStep t) >>= e.leadOn r.1 r.2) := rfl
  rw [hcontinue]
  simp only [Journey.executesAtLeast_iff]
  cases hσ : env.store.situation? t.instanceId with
  | none =>
    have hinstance := Repository.instanceOf_yields t.instanceId h
    rw [Option.map_eq_none_iff.mp hσ] at hinstance
    refine .of_refused (.bind_error (.bind_error hinstance)) h (by simp) ?_
    simp [Store.continuationJourney?, hσ]
  | some σ =>
    have hlookup := runningInstance_yields h hσ
    cases hd : σ.followed with
    | error error =>
      rw [hd] at hlookup
      have hspares := Situation.followed_spares hσ hd
      refine .of_refused (.bind_error hlookup) h hspares ?_
      simp [Store.continuationJourney?, hσ, hd, Except.toOption]
    | ok d =>
      rw [hd] at hlookup
      refine .after hlookup ?_
      dsimp only
      cases hcurrent : d.flowStep t with
      | error error =>
        have hspares := Definition.flowStep_spares hcurrent
        refine .of_refused (.bind_error (.throw _ _)) h hspares ?_
        simp [Store.continuationJourney?, hσ, hd, hcurrent, Except.toOption]
      | ok current =>
        obtain ⟨i, hi, rfl⟩ := situation?_eq_some_iff.mp hσ
        have hid := Store.id_of_instance? hi
        have hleads := leadOn_failsAtLimitIff (e := e) h (by rwa [hid]) (by rw [hid]) d current
        refine .after (.pure _ _) (hleads.congr ?_)
        simp [Store.continuationJourney?, hσ, hd, hcurrent, Except.toOption]

end Engine

/-! ## The limit -/

/-- A start fails at the limit exactly when its walk would execute more automatic steps than the
limit, and a continuation when it would execute as many or more. -/
theorem step_limit_exceeded (e : Engine) (env : Environment) (h : env.outage = none) (n : Nat) :
    (∀ id, ((e.start id).runIn env).1 = .error (.stepLimitExceeded n) ↔
      n = e.settings.maxAutoSteps ∧
        ∃ j ∈ env.store.startJourney? id, j.ExecutesAtLeast (n + 1)) ∧
    ∀ t, ((e.continueAfter t).runIn env).1 = .error (.stepLimitExceeded n) ↔
      n = e.settings.maxAutoSteps ∧
        ∃ j ∈ env.store.continuationJourney? env.now t, j.ExecutesAtLeast n := by
  constructor
  · intro id
    rw [(Engine.start_failsAtLimitIff h id).outcome_iff n]
    apply and_congr_right
    rintro rfl
    rfl
  · intro t
    rw [(Engine.continueAfter_failsAtLimitIff h t).outcome_iff n]
    apply and_congr_right
    rintro rfl
    rfl

/-- Two steps without a person, a task that is finished, and one step more without a person. -/
def interruptedRun : List Call :=
  let workflow := IdSource.issue 0 .workflow 0
  Call.atOnce ⟨0, 0⟩
    [.createWorkflow "w" "" ("\x7b\"steps\":[[\"p\",\"process\"],[\"q\",\"process\"]," ++
        "[\"a\",\"user_task\"],[\"r\",\"process\"],[\"b\",\"user_task\"]]\x7d"),
      .applyAction .activate workflow, .startInstance workflow .null,
      .finish (IdSource.issue 0 .task 0) ⟨"u", []⟩ ⟨.completed, .null, none⟩]

/-- The two steps before the task are too many for the start of a hasty engine. -/
theorem step_limit_exceeded_interrupted :
    ((Engine.hasty.start (IdSource.issue 0 .run 0)).runIn
      ((Environment.fresh 0 ⟨0, 0⟩).serveAll .default interruptedRun)).1 =
        .error (.stepLimitExceeded 1) := by
  obtain ⟨hstart, -⟩ := step_limit_exceeded .hasty
    ((Environment.fresh 0 ⟨0, 0⟩).serveAll .default interruptedRun) (by decide +kernel) 1
  exact (hstart _).mpr ⟨rfl, by decide +kernel⟩

/-- The one step behind the task is too many as well, although a hasty engine may take one: the
walk executes no second one. -/
theorem step_limit_of_one_step :
    let env := (Environment.fresh 0 ⟨0, 0⟩).serveAll .default interruptedRun
    ∃ t ∈ env.store.tasks,
      ((Engine.hasty.continueAfter t).runIn env).1 = .error (.stepLimitExceeded 1) ∧
        ∃ j ∈ env.store.continuationJourney? env.now t, ¬ j.ExecutesAtLeast 2 := by
  decide +kernel

end ApprovalWorkflow
