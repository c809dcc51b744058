import ApprovalWorkflow.Proofs.StepLimit
import ApprovalWorkflow.Proofs.Successors

/-!
# What comes of a walk

A walk runs through automatic steps until it ends, and there are five ways in which it may end
(`Definition.Walks`): a step asks a person, qualifying branches of a parallel step ask people, a
step completes the instance, nothing follows, or the limit of automatic steps is reached. As each
step but the first is reached by going on from another one, no walk executes more than one step
above the limit.

A walk brings about what its end says and nothing else (`Definition.Brings`): tasks are opened
only when nothing can fail any more, and a walk that fails leaves everything as it has found it.
What has been brought about tells the end, so that every start and every continuation that walks
comes out in exactly one of the five ways (`walk_outcome`).
-/

set_option autoImplicit false

namespace ApprovalWorkflow

open Operation

/-! ## The steps of a walk and its end -/

/-- A walk that executes the step ends in this way, because the step needs somebody or completes
the instance. -/
inductive Step.Settles (around : Surroundings) (s : Step) : WalkEnd → Prop
  | task {params : TaskParams} (hkind : s.kind = .userTask params) : s.Settles around (.task s)
  | branches {branches : List Step} (hkind : s.kind = .parallel branches)
      (hne : (branches.filter fun b => (b.passes around).value) ≠ []) :
      s.Settles around (.branches s (branches.filter fun b => (b.passes around).value))
  | completion (hkind : s.kind = .complete) : s.Settles around .completion

namespace Definition

/-- A walk that goes on from a step, and may do so a number of times, executes these steps and
ends in this way. -/
inductive Walks (d : Definition) (around : Surroundings) :
    Nat → Step → List Step → WalkEnd → Prop
  | limit (s : Step) : Walks d around 0 s [] .limit
  | nothing {remaining : Nat} {s : Step} (h : d.Follows around s none) :
      Walks d around (remaining + 1) s [] .nothing
  | settled {remaining : Nat} {s t : Step} {ending : WalkEnd} (h : d.Follows around s (some t))
      (hend : t.Settles around ending) : Walks d around (remaining + 1) s [t] ending
  | onward {remaining : Nat} {s t : Step} {steps : List Step} {ending : WalkEnd}
      (h : d.Follows around s (some t)) (hauto : t.isAutomatic around)
      (hrest : Walks d around remaining t steps ending) :
      Walks d around (remaining + 1) s (t :: steps) ending

/-- A walk that begins with a step and may go on a number of times executes these steps and ends
in this way. -/
inductive Arrives (d : Definition) (around : Surroundings) (remaining : Nat) (s : Step) :
    List Step → WalkEnd → Prop
  | settled {ending : WalkEnd} (hend : s.Settles around ending) :
      Arrives d around remaining s [s] ending
  | onward {steps : List Step} {ending : WalkEnd} (hauto : s.isAutomatic around)
      (hrest : d.Walks around remaining s steps ending) :
      Arrives d around remaining s (s :: steps) ending

section

variable {d : Definition} {around : Surroundings} {remaining : Nat} {s t : Step}
  {steps : List Step} {ending onward : WalkEnd}

/-- A walk executes at most as many steps as it may go on from. -/
theorem Walks.length_le (h : d.Walks around remaining s steps ending) :
    steps.length ≤ remaining := by
  induction h with
  | limit => exact Nat.le_refl 0
  | nothing => exact Nat.zero_le _
  | settled => exact Nat.succ_le_succ (Nat.zero_le _)
  | onward _ _ _ ih => exact Nat.succ_le_succ ih

/-- A walk that begins with a step executes that one and as many as are left to it, at the most.
-/
theorem Arrives.length_le (h : d.Arrives around remaining s steps ending) :
    steps.length ≤ remaining + 1 := by
  cases h with
  | settled => exact Nat.succ_le_succ (Nat.zero_le _)
  | onward _ hrest => exact Nat.succ_le_succ hrest.length_le

/-- Going on to a step is beginning with it. -/
theorem Arrives.walks (hfollows : d.Follows around s (some t))
    (h : d.Arrives around remaining t steps ending) :
    d.Walks around (remaining + 1) s steps ending := by
  cases h with
  | settled hend => exact .settled hfollows hend
  | onward hauto hrest => exact .onward hfollows hauto hrest

/-- At an automatic step a walk arrives where it gets to behind it. -/
theorem arrival_of_automatic (hauto : s.isAutomatic around) :
    arrival around s onward = onward := by
  unfold Step.isAutomatic at hauto
  unfold arrival
  cases hkind : s.kind with
  | parallel branches =>
    rw [hkind] at hauto
    dsimp only at hauto ⊢
    rw [Engine.qualifying_isEmpty, if_pos hauto]
  | _ => simp_all

/-- The branches whose guards hold, in their order. -/
theorem qualifying_value (around : Surroundings) (branches : List Step) :
    (Engine.qualifying around branches).value =
      branches.filter fun b => (b.passes around).value := by
  induction branches with
  | nil => rfl
  | cons b branches ih =>
    rw [Engine.qualifying, Logged.value_bind, Logged.value_bind, List.filter_cons, ← ih]
    rfl

/-- A step that is not automatic settles a walk. -/
theorem settles_arrival (hauto : s.isAutomatic around = false) :
    s.Settles around (arrival around s onward) := by
  unfold Step.isAutomatic at hauto
  unfold arrival
  cases hkind : s.kind with
  | userTask params => exact .task hkind
  | parallel branches =>
    rw [hkind] at hauto
    dsimp only at hauto ⊢
    have hchosen : (Engine.qualifying around branches).value.isEmpty = false := by
      rw [Engine.qualifying_isEmpty, hauto]
    rw [if_neg (by simp [hchosen]), qualifying_value]
    refine .branches hkind ?_
    rw [← qualifying_value]
    simpa using hchosen
  | complete => exact .completion hkind
  | process =>
    rw [hkind] at hauto
    cases hauto
  | unknown typeName =>
    rw [hkind] at hauto
    cases hauto

end

end Definition

/-! ## What is executed -/

namespace Operation.Executes

variable {α β : Type} {i : Uuid} {env env₁ : Environment} {p : List Step → List Task → Prop}

/-- Behind an operation that succeeds and executes nothing the rest is what counts. -/
theorem follow {x : Operation α} {f : α → Operation β} {a : α} (hx : x.Idles i)
    (hyields : x.Yields env (.ok a) env₁)
    (hf : ∀ log, (f a).Executes i p { env₁ with log := log }) : (x >>= f).Executes i p env := by
  obtain ⟨log, hrun⟩ := hyields.runIn_eq
  obtain ⟨opened, hfirst, hopened⟩ := hx env
  obtain rfl : opened = [] := List.eq_nil_iff_forall_not_mem.mpr hopened
  rw [leaves, hrun] at hfirst
  obtain ⟨steps, opened, hsecond, hp⟩ := hf log
  refine ⟨steps, opened, ?_, hp⟩
  rw [leaves, runIn_bind, hrun]
  exact hfirst.trans hsecond

/-- Behind the report of its execution a step has been executed, and only the log has changed. -/
theorem reported {s : Step} {f : Unit → Operation β}
    (hf : ∀ log, (f ()).Executes i (fun steps opened => p (s :: steps) opened)
      { env with log := log }) :
    (Operation.say (s.executionLine i).level (s.executionLine i).text >>= f).Executes i p env := by
  obtain ⟨steps, opened, hrest, hp⟩ := hf (env.log ++ [s.executionLine i])
  have hline : env.Executed i { env with log := env.log ++ [s.executionLine i] } [s] [] :=
    ⟨⟨[s.executionLine i], rfl, by simp [LogLine.isExecution_executionLine]⟩, by simp⟩
  exact ⟨s :: steps, opened, hline.trans hrest, hp⟩

end Operation.Executes

namespace Engine

variable {e : Engine} {d : Definition} {around : Surroundings} {i : Instance}
  {env : Environment} {σ : Situation}

/-- Writing to the log idles at every level but that of the lines about executions. -/
theorem say_idles {level : LogLevel} {text : String} (h : level ≠ .debug) (id : Uuid) :
    (say level text).Idles id := .say (LogLine.not_isExecution_of_level h)

/-- Executing a step executes what a walk does that begins with it, if what is done when the step
needs nobody executes what a walk does that goes on from it. -/
theorem execute_arrives (h : env.outage = none) {remaining : Nat} {s : Step} {ending : WalkEnd}
    {onward : Operation Unit} (haround : around = ⟨i.input, env.store.tasksOf i.id⟩)
    (honward : ∀ log, onward.Executes i.id (fun steps _ => d.Walks around remaining s steps ending)
      { env with log := log }) :
    (e.execute i s onward).Executes i.id (fun steps _ =>
      d.Arrives around remaining s steps (Definition.arrival around s ending)) env := by
  refine .reported fun log => ?_
  have hsettled : s.isAutomatic around = false → ∀ (steps : List Step), steps = [] →
      d.Arrives around remaining s (s :: steps) (Definition.arrival around s ending) := by
    rintro hauto _ rfl
    exact .settled (Definition.settles_arrival hauto)
  have hbehind : s.isAutomatic around → ∀ log, onward.Executes i.id (fun steps _ =>
      d.Arrives around remaining s (s :: steps) (Definition.arrival around s ending))
      { env with log := log } := by
    intro hauto log
    refine (honward log).mono fun steps _ hwalks => ?_
    rw [Definition.arrival_of_automatic hauto]
    exact .onward hauto hwalks
  cases hkind : s.kind with
  | userTask params =>
    refine .follow (tasksOf_idles i.id i.id) (e.tasksOf_yields i.id h) fun log => ?_
    refine .of_opens (.bind (openTask_opens i.id i _ (.step s)) fun _ => .pure ()) fun _ _ => ?_
    exact hsettled (by rw [Step.isAutomatic, hkind]) [] rfl
  | process => exact hbehind (by rw [Step.isAutomatic, hkind]) log
  | parallel branches =>
    have hempty : (qualifying around branches).value.isEmpty = s.isAutomatic around := by
      rw [qualifying_isEmpty, Step.isAutomatic, hkind]
    refine .follow (tasksOf_idles i.id i.id) (e.tasksOf_yields i.id h) fun log => ?_
    refine .follow (.heed (qualifying_idle branches)) (.heed _ _) fun log => ?_
    dsimp only
    rw [← haround, hempty]
    cases hauto : s.isAutomatic around with
    | true =>
      rw [if_pos rfl]
      exact .follow (say_idles (by simp) i.id) (.say _ _ _) (hbehind hauto)
    | false =>
      rw [if_neg (by simp)]
      exact .of_opens (openBranches_opens i.id i s _ _) fun _ _ => hsettled hauto [] rfl
  | complete =>
    exact .of_idles (completeInstance_idles i.id i)
      (hsettled (by rw [Step.isAutomatic, hkind]) [] rfl)
  | unknown typeName =>
    exact .follow (say_idles (by simp) i.id) (.say _ _ _)
      (hbehind (by rw [Step.isAutomatic, hkind]))

/-- Going on from a step executes what a walk does that goes on from it. The induction is on the
number of times that the walk may go on. -/
theorem advance_walks (hd : d.HasDistinctIds) (h : env.outage = none) (remaining : Nat)
    {s : Step} (hs : s ∈ d.steps) (haround : around = ⟨i.input, env.store.tasksOf i.id⟩) :
    (e.advance d i remaining s).Executes i.id (fun steps _ =>
      d.Walks around remaining s steps (d.walk around remaining s)) env := by
  induction remaining generalizing s env with
  | zero => exact .of_idles (.throw _) (.limit s)
  | succ remaining ih =>
    rw [advance, Definition.walk]
    have hfollows : d.Follows around s (d.successor around s).value := (hd.follows_iff hs).mpr rfl
    have hidles : (e.nextStep d s i).Idles i.id :=
      .bind (tasksOf_idles i.id i.id) fun _ => .heed (Definition.successor_idle s)
    refine .follow hidles (e.nextStep_yields d s i h) fun log => ?_
    rw [← haround]
    cases hnext : (d.successor around s).value with
    | none =>
      rw [hnext] at hfollows
      exact .of_idles (say_idles (by simp) i.id) (.nothing hfollows)
    | some next =>
      rw [hnext] at hfollows
      have hexecute : (e.execute i next (e.advance d i remaining next)).Executes i.id
          (fun steps _ => d.Arrives around remaining next steps
            (Definition.arrival around next (d.walk around remaining next)))
          { env with log := log } := by
        have houtage : ∀ log, ({ env with log := log } : Environment).outage = none := fun _ => h
        refine execute_arrives (houtage log) haround fun log' => ?_
        exact ih (houtage log') (Definition.successor_mem hnext) haround
      exact hexecute.mono fun steps _ harrives => harrives.walks hfollows

end Engine

/-! ## What walks bring about -/

/-- A task that has just been opened for an instance from an origin. -/
structure Task.IsNewFrom (t : Task) (i : Uuid) (origin : TaskOrigin) : Prop where
  owner : t.instanceId = i
  pending : t.status = .pending
  origin : t.IsFrom origin

/-- The end of a walk that has opened no task, from its result and from the record of the
instance. -/
def WalkEnd.withoutTasks (result : Except EngineError Unit) (record : Instance) : WalkEnd :=
  match result with
  | .error _ => .limit
  | .ok _ => if record.isRunning then .nothing else .completion

/-- An end that opens tasks is known from their origins. -/
theorem WalkEnd.eq_of_origins_eq {ending ending' : WalkEnd} (h : ending'.origins = ending.origins)
    (hne : ending.origins ≠ []) : ending' = ending := by
  cases ending with
  | task s =>
    cases ending' with
    | task s' => cases h; rfl
    | branches p' chosen' => cases chosen' <;> cases h
    | _ => cases h
  | branches p chosen =>
    obtain ⟨b, bs, rfl⟩ := List.exists_cons_of_ne_nil (mt (congrArg (List.map _)) hne)
    cases ending' with
    | branches p' chosen' =>
      cases chosen' with
      | nil => cases h
      | cons b' bs' =>
        obtain ⟨hfirst, hothers⟩ := List.cons.inj h
        obtain ⟨rfl, rfl⟩ := TaskOrigin.branch.inj hfirst
        have hinjective : Function.Injective (TaskOrigin.branch p') := fun _ _ heq =>
          (TaskOrigin.branch.inj heq).2
        rw [List.map_injective_iff.mpr hinjective hothers]
    | _ => cases h
  | _ => exact absurd rfl hne

namespace Definition

/-- A walk that ends in this way brings about this result, this record of the instance, and these
tasks. Before the walk the record is `j`. -/
def Brings (d : Definition) (around : Surroundings) (limit : Nat) (now : Timestamp)
    (j : Instance) (result : Except EngineError Unit) (record : Instance) (opened : List Task) :
    WalkEnd → Prop
  | .task s => result = .ok () ∧ record = j ∧ s ∈ d.steps ∧ s.params?.isSome ∧
      ∃ t : Task, opened = [t] ∧ t.IsNewFrom j.id (.step s)
  | .branches p chosen => result = .ok () ∧ record = j ∧ p ∈ d.steps ∧ p.isParallel ∧
      chosen = p.branches.filter (fun b => (b.passes around).value) ∧ chosen ≠ [] ∧
      List.Forall₂ (fun b (t : Task) => t.IsNewFrom j.id (.branch p b)) chosen opened
  | .completion => result = .ok () ∧ record = j.completed around.tasks now ∧ opened = []
  | .nothing => result = .ok () ∧ record = j ∧ opened = []
  | .limit => result = .error (.stepLimitExceeded limit) ∧ record = j ∧ opened = []

variable {d : Definition} {around : Surroundings} {limit : Nat} {now : Timestamp}
  {j record : Instance} {result : Except EngineError Unit} {opened : List Task}
  {ending ending' : WalkEnd}

/-- The tasks that are opened are fresh ones from the origins of the end. -/
theorem Brings.fresh (h : d.Brings around limit now j result record opened ending) :
    List.Forall₂ (fun o (t : Task) => t.IsNewFrom j.id o) ending.origins opened ∧
      ∀ o ∈ ending.origins, d.Has o := by
  cases ending with
  | task s =>
    obtain ⟨-, -, hs, -, t, rfl, ht⟩ := h
    exact ⟨.cons ht .nil, by simpa [WalkEnd.origins, Has] using hs⟩
  | branches p chosen =>
    obtain ⟨-, -, hp, -, rfl, -, hopened⟩ := h
    refine ⟨by simpa [WalkEnd.origins, List.forall₂_map_left_iff] using hopened, ?_⟩
    intro o ho
    obtain ⟨b, hb, rfl⟩ := List.mem_map.mp ho
    exact ⟨hp, (List.mem_filter.mp hb).1⟩
  | _ =>
    obtain ⟨-, -, rfl⟩ := h
    exact ⟨.nil, by simp [WalkEnd.origins]⟩

/-- An end that opens no task is known from the result and from the record. -/
theorem Brings.of_no_origins (hrunning : j.isRunning)
    (h : d.Brings around limit now j result record opened ending) (hnone : ending.origins = []) :
    ending = .withoutTasks result record := by
  cases ending with
  | task s => cases hnone
  | branches p chosen =>
    obtain ⟨-, -, -, -, -, hne, -⟩ := h
    exact absurd (List.map_eq_nil_iff.mp hnone) hne
  | completion =>
    obtain ⟨rfl, rfl, -⟩ := h
    rfl
  | nothing =>
    obtain ⟨rfl, rfl, -⟩ := h
    exact (if_pos hrunning).symm
  | limit =>
    obtain ⟨rfl, -⟩ := h
    rfl

/-- With distinct ids the origins of fresh tasks are known from the tasks. -/
theorem HasDistinctIds.origins_eq (hd : d.HasDistinctIds) {i : Uuid}
    {origins origins' : List TaskOrigin} (hhas : ∀ o ∈ origins, d.Has o)
    (hhas' : ∀ o ∈ origins', d.Has o)
    (h : List.Forall₂ (fun o (t : Task) => t.IsNewFrom i o) origins opened)
    (h' : List.Forall₂ (fun o (t : Task) => t.IsNewFrom i o) origins' opened) :
    origins = origins' := by
  induction h generalizing origins' with
  | nil =>
    cases h'
    rfl
  | cons hfirst hrest ih =>
    cases h' with
    | cons hfirst' hrest' =>
      obtain ⟨ho, hos⟩ := List.forall_mem_cons.mp hhas
      obtain ⟨ho', hos'⟩ := List.forall_mem_cons.mp hhas'
      rw [ih hos hos' hrest', hd.origin_eq ho ho'
        (hfirst.origin.key.symm.trans hfirst'.origin.key)
        (hfirst.origin.parent.symm.trans hfirst'.origin.parent)]

/-- What a walk has brought about tells how it has ended. -/
theorem Brings.ending_eq (hd : d.HasDistinctIds) (hrunning : j.isRunning)
    (h : d.Brings around limit now j result record opened ending)
    (h' : d.Brings around limit now j result record opened ending') : ending' = ending := by
  have horigins : ending'.origins = ending.origins :=
    hd.origins_eq h'.fresh.2 h.fresh.2 h'.fresh.1 h.fresh.1
  by_cases hnone : ending.origins = []
  · rw [h.of_no_origins hrunning hnone, h'.of_no_origins hrunning (horigins.trans hnone)]
  · exact WalkEnd.eq_of_origins_eq horigins hnone

/-- A walk in a definition ends because a step of it settles the walk, because nothing follows, or
at the limit. -/
def IsEnd (d : Definition) (around : Surroundings) (ending : WalkEnd) : Prop :=
  (∃ s ∈ d.steps, s.Settles around ending) ∨ ending = .nothing ∨ ending = .limit

variable {remaining : Nat} {s : Step} {steps : List Step}

/-- Where a walk behind a step ends is an end of the definition. -/
theorem Walks.isEnd (hd : d.HasDistinctIds) (h : d.Walks around remaining s steps ending) :
    d.IsEnd around ending := by
  induction h with
  | limit => exact .inr (.inr rfl)
  | nothing => exact .inr (.inl rfl)
  | settled hfollows hend =>
    exact .inl ⟨_, successor_mem (hfollows.eq_successor hd).symm, hend⟩
  | onward _ _ _ ih => exact ih

/-- Where a walk that begins with a step ends is an end of the definition. -/
theorem Arrives.isEnd (hd : d.HasDistinctIds) (hs : s ∈ d.steps)
    (h : d.Arrives around remaining s steps ending) : d.IsEnd around ending := by
  cases h with
  | settled hend => exact .inl ⟨s, hs, hend⟩
  | onward _ hrest => exact hrest.isEnd hd

end Definition

namespace Engine

variable {e : Engine} {d : Definition} {around : Surroundings} {i j : Instance}
  {env : Environment} {σ : Situation} {id : Uuid}

/-- The tasks that are built for origins are new ones from these. -/
theorem buildAll_isNewFrom (e : Engine) (j : Instance) (history : List Task) (now : Timestamp)
    (ids : IdSource) (origins : List TaskOrigin) :
    List.Forall₂ (fun o (t : Task) => t.IsNewFrom j.id o) origins
      (e.buildAll j history now ids (origins.map .ofOrigin)) := by
  induction origins generalizing ids with
  | nil => exact .nil
  | cons o os ih =>
    exact .cons ⟨built_instanceId .., built_status .., e.built_isFrom j history now _ o⟩ (ih _)

/-- What is done at the end of a walk is what the walk brings about. -/
theorem ended_brings (j : Instance) (now : Timestamp) (ids : IdSource) {ending : WalkEnd}
    (hend : d.IsEnd around ending) (limit : Nat) :
    d.Brings around limit now j (ending.outcome limit)
      ((e.ended j around.tasks now ids ending).record.getD j)
      (e.ended j around.tasks now ids ending).opened ending := by
  rcases hend with ⟨s, hs, hsettles⟩ | rfl | rfl
  · have hnew := e.buildAll_isNewFrom j around.tasks now ids ending.origins
    rw [← ending.openings_eq] at hnew
    cases hsettles with
    | task hkind =>
      refine ⟨rfl, rfl, hs, by rw [Step.params?, hkind]; rfl, _, rfl, ?_⟩
      exact (List.forall₂_cons.mp hnew).1
    | branches hkind hne =>
      refine ⟨rfl, rfl, hs, by rw [Step.isParallel, hkind], by rw [Step.branches, hkind], hne, ?_⟩
      exact List.forall₂_map_left_iff.mp hnew
    | completion => exact ⟨rfl, rfl, rfl⟩
  · exact ⟨rfl, rfl, rfl⟩
  · exact ⟨rfl, rfl, rfl⟩

end Engine

/-- How a walk has come out: the steps that it has executed and its end, the result of the call,
the record of the instance, and the tasks that have been opened. -/
structure WalkOutcome where
  steps : List Step
  ending : WalkEnd
  result : Except EngineError Unit
  record : Instance
  opened : List Task

/-- A call has come out so that sets out on a walk when the record of the instance is `j`. -/
structure WalkOutcome.IsOf (o : WalkOutcome) (call : Operation Unit) (env : Environment)
    (d : Definition) (around : Surroundings) (limit : Nat) (j : Instance) : Prop where
  executed : env.Executed j.id (call.leaves env) o.steps o.opened
  result : (call.runIn env).1 = o.result
  /-- Nothing is changed in the store but the record of the instance and the tasks. -/
  store : (call.leaves env).store = { env.store with
    instances := put Instance.id o.record env.store.instances
    tasks := env.store.tasks ++ o.opened }
  brings : d.Brings around limit env.now j o.result o.record o.opened o.ending
  only : ∀ ending, d.Brings around limit env.now j o.result o.record o.opened ending →
    ending = o.ending

namespace Engine

variable {e : Engine} {d : Definition} {around : Surroundings} {i j : Instance}
  {env : Environment} {σ : Situation} {id : Uuid}

/-- A call that executes the steps of a walk and adds what its end says has an outcome. -/
theorem exists_outcome {call : Operation Unit} {ending : WalkEnd} {p : List Step → Prop}
    (hd : d.HasDistinctIds) (hrunning : j.isRunning)
    (hexecutes : call.Executes j.id (fun steps _ => p steps) env)
    (hyields : call.Yields env (ending.outcome e.settings.maxAutoSteps)
      (env.after (e.walked j around.tasks env.now env.ids ending)))
    (hend : ∀ steps, p steps → d.IsEnd around ending) :
    ∃ o : WalkOutcome, o.IsOf call env d around e.settings.maxAutoSteps j ∧ p o.steps ∧
      o.ending = ending := by
  obtain ⟨steps, opened, hexecuted, hp⟩ := hexecutes
  have hbrings := ended_brings (e := e) j env.now env.ids (hend steps hp) e.settings.maxAutoSteps
  have hopened : opened = (e.ended j around.tasks env.now env.ids ending).opened := by
    have htasks := hexecuted.tasks
    rw [hyields.store_eq] at htasks
    exact (List.append_cancel_left htasks).symm
  subst hopened
  exact ⟨⟨steps, ending, _, _, _⟩, ⟨hexecuted, hyields.outcome, hyields.store_eq, hbrings,
    fun ending' h' => hbrings.ending_eq hd hrunning h'⟩, hp, rfl⟩

end Engine


/-! ## Starts and continuations that walk -/

/-- The record with which an instance walks on from a step, unless it has to wait for the join of
the step. -/
def Situation.departure? (σ : Situation) (now : Timestamp) (s : Step) : Option Instance :=
  if s.isParallel then σ.firing? now s else some σ.record

namespace Definition

variable {d : Definition}

/-- A sound definition has a first step. -/
theorem steps_ne_nil (h : d.isSound) : d.steps ≠ [] := by
  intro hnone
  have hproblems : d.problems = [] := List.isEmpty_iff.mp h
  rw [problems, hnone] at hproblems
  cases hproblems

/-- The step that decides behind a task is one of the definition. -/
theorem mem_of_flowStep {t : Task} {s : Step} (h : d.flowStep t = .ok s) : s ∈ d.steps := by
  unfold flowStep at h
  dsimp only at h
  split at h
  · next u hu =>
    cases h
    split at hu
    · exact (of_find?_eq_some hu).1
    · obtain ⟨origin, horigin, rfl⟩ := Option.map_eq_some_iff.mp hu
      have hhas := (of_resolve?_eq_some horigin).1
      cases origin with
      | step u => exact hhas
      | branch p b => exact hhas.1
  · cases h

end Definition

namespace Engine

variable {e : Engine} {d : Definition} {around : Surroundings} {i j : Instance}
  {env : Environment} {σ : Situation} {id : Uuid}

/-- An instance that departs from a step is the same one, but for its join records. -/
theorem of_departure? {now : Timestamp} {s : Step} (h : σ.departure? now s = some j) :
    ∃ joins, j = { σ.record with joins := joins } := by
  unfold Situation.departure? at h
  split at h
  · obtain ⟨_, -, hj⟩ := of_firing? h
    exact ⟨_, hj⟩
  · cases h
    exact ⟨_, rfl⟩

/-- An instance that departs walks. -/
theorem leadOn_of_departure {now : Timestamp} {s : Step} (h : σ.departure? now s = some j) :
    σ.leadOn e now d s = .walks j (d.walk σ.around e.settings.maxAutoSteps s) := by
  unfold Situation.departure? at h
  unfold Situation.leadOn
  dsimp only
  split at h
  · next hparallel => rw [if_pos hparallel, h]
  · next hplain =>
    cases h
    rw [if_neg hplain]

/-- The definition that a running instance follows is sound. -/
theorem isSound_of_followed (hσ : env.store.situation? id = some σ) (hd : σ.followed = .ok d) :
    d.isSound := by
  obtain ⟨i, -, rfl⟩ := situation?_eq_some_iff.mp hσ
  have hdefinition : env.store.definitionOf i = .ok d := (followed_eq_ok.mp hd).2
  unfold Store.definitionOf at hdefinition
  split at hdefinition
  · exact Definition.isSound_of_parse hdefinition
  · cases hdefinition

/-- Finding a running instance idles. -/
theorem runningInstance_idles (i run : Uuid) : (runningInstance run).Idles i := by
  refine .bind (Repository.instanceOf_idles run) fun _ => .bind (.lift _) fun _ => ?_
  refine .bind (Repository.workflow_idles _) fun _ => ?_
  exact .bind (.heedResult (Definition.parse_idle _)) fun _ => .pure _

/-- Firing a join idles. -/
theorem fireJoin_idles (id : Uuid) (i : Instance) (parallel : Step) :
    (e.fireJoin i parallel).Idles id := by
  refine .bind (tasksOf_idles id i.id) fun tasks => ?_
  split
  · exact .bind (say_idles (by simp) id) fun _ => .pure _
  · refine .bind .now fun now => ?_
    split
    · refine .bind (.say ?_) fun _ => .pure _
      exact LogLine.not_isExecution_of_initial 'J' (Text.head?_append (Text.head?_append
        (Text.head?_append (by decide) _) _) _) (by decide)
    · refine .bind (Repository.updateInstance_idles _) fun _ => ?_
      exact .bind (say_idles (by simp) id) fun _ => .pure _

/-- Setting out executes what a walk does that begins with the first step. -/
theorem setOut_arrives (h : env.outage = none) (hi : env.store.instance? i.id = some i)
    (w : Workflow) (hdistinct : d.HasDistinctIds) {first : Step} {others : List Step}
    (hsteps : d.steps = first :: others)
    (haround : around = ⟨i.input, env.store.tasksOf i.id⟩) :
    (e.setOut i w d).Executes i.id (fun steps _ =>
      d.Arrives around e.settings.maxAutoSteps first steps (Definition.arrival around first
        (d.walk around e.settings.maxAutoSteps first))) env := by
  have hfirst : first ∈ d.steps := by simp [hsteps]
  unfold setOut
  rw [hsteps]
  refine .follow .now (.now _) fun log => ?_
  -- the record of the instance changes, but guards see only its input and its tasks
  let j := { i with startedAt := env.now }
  have houtage : ∀ s log, ({ env with store := s, log := log } : Environment).outage = none :=
    fun _ _ => h
  obtain ⟨s, hupdate, hs⟩ := updateInstance_goes (i := j) (houtage env.store log) hi
  refine .follow (Repository.updateInstance_idles j) hupdate fun log => ?_
  refine .follow (say_idles (by simp) i.id) (.say _ _ _) fun log => ?_
  have htasks : around = ⟨j.input, s.tasksOf j.id⟩ := by
    rw [haround, Store.tasksOf, Store.tasksOf, hs]
  refine execute_arrives (i := j) (houtage s log) htasks fun log => ?_
  exact advance_walks hdistinct (houtage s log) _ hfirst htasks

/-- A start executes what a walk does that begins with the first step. -/
theorem start_arrives (h : env.outage = none) (hσ : env.store.situation? id = some σ)
    (hd : σ.followed = .ok d) (hdistinct : d.HasDistinctIds) {w : Workflow}
    (hw : env.store.workflow? σ.record.workflowId = some w) (hactive : w.status = .active)
    {first : Step} {others : List Step} (hsteps : d.steps = first :: others) :
    (e.start id).Executes σ.record.id (fun steps _ =>
      d.Arrives σ.around e.settings.maxAutoSteps first steps (Definition.arrival σ.around first
        (d.walk σ.around e.settings.maxAutoSteps first))) env := by
  obtain ⟨hrunning, hdefinition⟩ := followed_eq_ok.mp hd
  obtain ⟨i, hi, rfl⟩ := situation?_eq_some_iff.mp hσ
  obtain rfl := Store.id_of_instance? hi
  dsimp only at hw hrunning hdefinition
  have houtage : ∀ log, ({ env with log := log } : Environment).outage = none := fun _ => h
  have hinstance := Repository.instanceOf_yields i.id h
  rw [hi] at hinstance
  refine .follow (Repository.instanceOf_idles _) hinstance fun log => ?_
  refine .follow (.lift _) (.lift_of_eq (if_pos hrunning)) fun log => ?_
  have hworkflow := Repository.workflow_yields i.workflowId (houtage log)
  rw [hw] at hworkflow
  refine .follow (Repository.workflow_idles _) hworkflow fun log => ?_
  refine .follow (.lift _) (.lift_of_eq (if_pos hactive)) fun log => ?_
  have hparsed : w.parsedDefinition.value = .ok d := by rwa [Store.definitionOf, hw] at hdefinition
  have hread := Yields.heedResult w.parsedDefinition { env with log := log }
  rw [hparsed] at hread
  refine .follow (.heedResult (Definition.parse_idle _)) hread fun log => ?_
  exact setOut_arrives (houtage log) hi w hdistinct hsteps rfl

/-- A continuation executes what a walk does that goes on from the step that decides. -/
theorem continueAfter_walks (h : env.outage = none) (hσ : env.store.situation? id = some σ)
    (hd : σ.followed = .ok d) (hdistinct : d.HasDistinctIds) {t : Task} (ht : t.instanceId = id)
    {s : Step} (hs : d.flowStep t = .ok s) (hj : σ.departure? env.now s = some j) :
    (e.continueAfter t).Executes σ.record.id (fun steps _ =>
      d.Walks σ.around e.settings.maxAutoSteps s steps
        (d.walk σ.around e.settings.maxAutoSteps s)) env := by
  have hlookup := runningInstance_yields h hσ
  rw [hd] at hlookup
  obtain ⟨i, hi, rfl⟩ := situation?_eq_some_iff.mp hσ
  obtain rfl := Store.id_of_instance? hi
  have houtage : ∀ s log, ({ env with store := s, log := log } : Environment).outage = none :=
    fun _ _ => h
  rw [continueAfter, ht]
  refine .follow (runningInstance_idles _ _) hlookup fun log => ?_
  refine .follow (.lift _) (.lift_of_eq hs) fun log => ?_
  dsimp only
  obtain ⟨joins, rfl⟩ := of_departure? hj
  unfold Situation.departure? at hj
  split at hj
  · next hparallel =>
    rw [if_pos hparallel]
    obtain ⟨store, hfire, hstore⟩ := fireJoin_goes (e := e) (houtage env.store log) hi rfl s
    rw [hj] at hfire
    refine .follow (fireJoin_idles _ _ _) hfire fun log => ?_
    apply advance_walks (i := { i with joins := joins }) hdistinct (houtage store log) _
      (Definition.mem_of_flowStep hs)
    rw [Situation.around, Store.tasksOf, Store.tasksOf, hstore]
  · next hplain =>
    rw [if_neg hplain]
    exact advance_walks hdistinct (houtage env.store log) _ (Definition.mem_of_flowStep hs) rfl

/-- What a start brings about when it gets to the first step. -/
theorem start_outcome (henv : env.Orderly) (hσ : env.store.situation? id = some σ)
    (hd : σ.followed = .ok d) {w : Workflow}
    (hw : env.store.workflow? σ.record.workflowId = some w) (hactive : w.status = .active)
    (hrange : ((e.start id).leaves env).ids.InRange) :
    ∃ first, d.steps.head? = some first ∧ ∃ o : WalkOutcome,
      o.IsOf (e.start id) env d σ.around e.settings.maxAutoSteps
          { σ.record with startedAt := env.now } ∧
        d.Arrives σ.around e.settings.maxAutoSteps first o.steps o.ending := by
  have hsound := isSound_of_followed hσ hd
  have hdistinct := Definition.hasDistinctIds_of_isSound hsound
  obtain ⟨hrunning, hdefinition⟩ := followed_eq_ok.mp hd
  obtain ⟨hyields, -⟩ := start_yields henv hσ hrunning hw hactive (.of_leaves hrange)
  cases hsteps : d.steps with
  | nil => exact absurd hsteps (Definition.steps_ne_nil hsound)
  | cons first others =>
    have hopening : σ.opening e = .ok (Definition.arrival σ.around first
        (d.walk σ.around e.settings.maxAutoSteps first)) := by
      rw [Situation.opening, hd]
      dsimp only
      rw [hsteps]
    rw [Situation.startable, begun, hopening] at hyields
    have harrives := start_arrives (e := e) henv.outage hσ hd hdistinct hw hactive hsteps
    obtain ⟨o, ho, hp, hending⟩ := exists_outcome (j := { σ.record with startedAt := env.now })
      hdistinct hrunning harrives hyields
      fun steps h => h.isEnd hdistinct (by simp [hsteps])
    exact ⟨first, rfl, o, ho, hending ▸ hp⟩

/-- What a continuation brings about when it goes on from a step. -/
theorem continueAfter_outcome (henv : env.Orderly) {t : Task}
    (hσ : env.store.situation? t.instanceId = some σ)
    (hd : σ.followed = .ok d) {s : Step} (hs : d.flowStep t = .ok s)
    (hj : σ.departure? env.now s = some j)
    (hrange : ((e.continueAfter t).leaves env).ids.InRange) :
    ∃ o : WalkOutcome, o.IsOf (e.continueAfter t) env d σ.around e.settings.maxAutoSteps j ∧
      d.Walks σ.around e.settings.maxAutoSteps s o.steps o.ending := by
  have hdistinct := Definition.hasDistinctIds_of_isSound (isSound_of_followed hσ hd)
  have hrunning := (followed_eq_ok.mp hd).1
  obtain ⟨hyields, -⟩ := continueAfter_yields henv hσ hd (.of_leaves hrange)
  rw [Situation.onward, hs] at hyields
  dsimp only at hyields
  rw [leadOn_of_departure hj, Course.outcome, effect] at hyields
  have hwalks := continueAfter_walks (e := e) henv.outage hσ hd hdistinct rfl hs hj
  obtain ⟨joins, rfl⟩ := of_departure? hj
  obtain ⟨o, ho, hp, hending⟩ := exists_outcome (j := { σ.record with joins := joins })
    hdistinct hrunning hwalks hyields fun steps h => h.isEnd hdistinct
  exact ⟨o, ho, hending ▸ hp⟩

end Engine

/-- A start or a continuation of a running instance that gets to walk executes the steps of a
walk, at most one more than the limit of automatic steps, or no more than the limit in a
continuation, which has not executed the step that it goes on from. It brings about what one end
of this walk says, and what no other end says. -/
theorem walk_outcome (e : Engine) {env : Environment} (henv : env.Orderly) {id : Uuid}
    {σ : Situation} (hσ : env.store.situation? id = some σ) {d : Definition}
    (hd : σ.followed = .ok d) :
    (∀ w, env.store.workflow? σ.record.workflowId = some w → w.status = .active →
      ((e.start id).leaves env).ids.InRange →
      ∃ first, d.steps.head? = some first ∧ ∃ o : WalkOutcome,
        o.IsOf (e.start id) env d σ.around e.settings.maxAutoSteps
            { σ.record with startedAt := env.now } ∧
          d.Arrives σ.around e.settings.maxAutoSteps first o.steps o.ending ∧
          o.steps.length ≤ e.settings.maxAutoSteps + 1) ∧
    ∀ t s j, t.instanceId = id → d.flowStep t = .ok s → σ.departure? env.now s = some j →
      ((e.continueAfter t).leaves env).ids.InRange →
      ∃ o : WalkOutcome, o.IsOf (e.continueAfter t) env d σ.around e.settings.maxAutoSteps j ∧
        d.Walks σ.around e.settings.maxAutoSteps s o.steps o.ending ∧
        o.steps.length ≤ e.settings.maxAutoSteps := by
  constructor
  · intro w hw hactive hrange
    obtain ⟨first, hfirst, o, ho, harrives⟩ := Engine.start_outcome henv hσ hd hw hactive hrange
    exact ⟨first, hfirst, o, ho, harrives, harrives.length_le⟩
  · rintro t s j rfl hs hj hrange
    obtain ⟨o, ho, hwalks⟩ := Engine.continueAfter_outcome henv hσ hd hs hj hrange
    exact ⟨o, ho, hwalks, hwalks.length_le⟩

/-- A result that is kept as an option is the result. -/
theorem eq_ok_of_mem_toOption {α : Type} {x : Except EngineError α} {a : α}
    (h : a ∈ x.toOption) : x = .ok a := by
  cases x with
  | error error => cases h
  | ok b => rw [Option.some.inj h]

/-- In `interruptedRun` a hasty engine can walk from the start and behind the task. -/
theorem walk_outcome_interrupted :
    let env := (Environment.fresh 0 ⟨0, 0⟩).serveAll .default interruptedRun
    let id := IdSource.issue 0 .run 0
    ∃ σ d, env.store.situation? id = some σ ∧ σ.followed = .ok d ∧
      (∃ o : WalkOutcome, o.IsOf (Engine.hasty.start id) env d σ.around 1
        { σ.record with startedAt := env.now } ∧ o.steps.length ≤ 2) ∧
      ∃ t ∈ env.store.tasks, ∃ j, ∃ o : WalkOutcome,
        o.IsOf (Engine.hasty.continueAfter t) env d σ.around 1 j ∧ o.steps.length ≤ 1 := by
  intro env id
  have henv : env.Orderly :=
    Environment.serveAll_orderly (Environment.fresh_orderly 0 ⟨0, 0⟩) _ (by decide +kernel)
  obtain ⟨σ, hσ, d, hd, ⟨w, hw, hactive⟩, t, ht, hid, hrange, s, hs, hj⟩ :
      ∃ σ ∈ env.store.situation? id, ∃ d ∈ σ.followed.toOption,
        (∃ w ∈ env.store.workflow? σ.record.workflowId, w.status = .active) ∧
        ∃ t ∈ env.store.tasks, t.instanceId = id ∧
          ((Engine.hasty.continueAfter t).leaves env).ids.InRange ∧
          ∃ s ∈ (d.flowStep t).toOption, (σ.departure? env.now s).isSome := by
    decide +kernel
  obtain ⟨j, hj⟩ := Option.isSome_iff_exists.mp hj
  obtain ⟨hstart, hcontinue⟩ := walk_outcome .hasty henv hσ (eq_ok_of_mem_toOption hd)
  obtain ⟨first, -, o, ho, -, hlength⟩ := hstart w hw hactive (by decide +kernel)
  obtain ⟨o', ho', -, hlength'⟩ :=
    hcontinue t s j hid (eq_ok_of_mem_toOption hs) hj hrange
  exact ⟨σ, d, hσ, eq_ok_of_mem_toOption hd, ⟨o, ho, hlength⟩, t, ht, j, o', ho', hlength'⟩

end ApprovalWorkflow
