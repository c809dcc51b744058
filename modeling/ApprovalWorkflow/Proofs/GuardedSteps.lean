import ApprovalWorkflow.Proofs.ActiveStep
import ApprovalWorkflow.Proofs.Leads
import ApprovalWorkflow.Proofs.Provenance

/-!
# Guards on the way

Every step that is executed is reported in the log before anything else is done about it
(`Step.executionLine`), so the log tells which steps a call executes. `Environment.Executed`
reads this off two environments: the steps of which the log reports the execution in between,
and the tasks that have been opened.

A walk gets to a step through a search for a successor, and every such search asks the guard
(`Definition.successor_allowed`); so do parallel steps for their branches. Only the first step of
a start is taken as it is. So a continuation executes only steps that their guards allow, and a
start does so behind its first step (`guards_respected`).
-/

set_option autoImplicit false

namespace ApprovalWorkflow

open Operation

/-! ## Guards of steps and branches -/

/-- The step may be executed: it has no guard, or the guard evaluates to true. -/
def Step.IsAllowed (around : Surroundings) (s : Step) : Prop :=
  ∀ guard, s.guard? = some guard → Condition.evaluate around guard = .ok true

/-- The search lets a step pass exactly if it may be executed. -/
theorem Step.passes_iff {around : Surroundings} {s : Step} :
    (s.passes around).value = true ↔ s.IsAllowed around := by
  unfold passes IsAllowed
  cases s.guard? with
  | none => simp
  | some guard =>
    simp only [Option.some.injEq, forall_eq', Condition.holds]
    cases Condition.evaluate around guard <;> simp

namespace Definition

variable {d : Definition} {around : Surroundings} {s : Step}

/-- A successor that is found among the declared ones may be executed. -/
theorem firstDeclared_allowed {origin : String} {ids : List String}
    (h : (d.firstDeclared around origin ids).value = some s) : s.IsAllowed around := by
  induction ids with
  | nil => cases h
  | cons id ids ih =>
    rw [firstDeclared] at h
    cases hfound : d.find? id with
    | none =>
      rw [hfound] at h
      exact ih h
    | some u =>
      rw [hfound, Logged.value_bind] at h
      split at h
      · next hpasses =>
        cases h
        exact Step.passes_iff.mp hpasses
      · exact ih h

/-- A successor that is found in the row of steps may be executed. -/
theorem firstInRow_allowed {steps : List Step}
    (h : (d.firstInRow around steps).value = some s) : s.IsAllowed around := by
  induction steps with
  | nil => cases h
  | cons u steps ih =>
    rw [firstInRow, Logged.value_bind] at h
    split at h
    · next hpasses =>
      cases h
      exact Step.passes_iff.mp hpasses
    · rw [Logged.value_bind] at h
      split at h
      · exact ih h
      · exact firstDeclared_allowed h

/-- What follows a step may be executed. -/
theorem successor_allowed {next : Step} (h : (d.successor around s).value = some next) :
    next.IsAllowed around := by
  rw [successor] at h
  split at h
  · exact firstInRow_allowed h
  · exact firstDeclared_allowed h

end Definition

/-- A branch qualifies if it may be executed. -/
theorem Engine.mem_qualifying {around : Surroundings} {branches : List Step} {b : Step}
    (h : b ∈ (qualifying around branches).value) : b ∈ branches ∧ b.IsAllowed around := by
  refine ⟨(Definition.qualifying_sublist around branches).subset h, ?_⟩
  induction branches with
  | nil => cases h
  | cons c branches ih =>
    rw [qualifying, Logged.value_bind, Logged.value_bind] at h
    change b ∈ (if _ then _ else _ : List Step) at h
    split at h
    · next hpasses =>
      rcases List.mem_cons.mp h with rfl | h
      · exact Step.passes_iff.mp hpasses
      · exact ih h
    · exact ih h

/-! ## What the log reports -/

/-- The line that reports the execution of a step for an instance. -/
def Step.executionLine (i : Uuid) (s : Step) : LogLine :=
  ⟨.debug, "Instance " ++ i.toString ++ ": executing " ++ s.typeName ++ " step '" ++ s.id ++ "'"⟩

namespace LogLine

/-- The line reports the execution of a step for an instance. -/
def IsExecution (i : Uuid) (l : LogLine) : Prop :=
  l.level = .debug ∧ ("Instance " ++ i.toString ++ ": executing ").toList <+: l.text.toList

instance (i : Uuid) (l : LogLine) : Decidable (l.IsExecution i) :=
  inferInstanceAs (Decidable (_ ∧ _))

variable {i : Uuid} {l : LogLine}

/-- The line of an execution reports an execution. -/
theorem isExecution_executionLine (s : Step) : (s.executionLine i).IsExecution i := by
  refine ⟨rfl, ?_⟩
  simp only [Step.executionLine, String.toList_append, List.append_assoc]
  simp

/-- Executions are reported for those who look for faults. -/
theorem not_isExecution_of_level (h : l.level ≠ .debug) : ¬ l.IsExecution i :=
  fun hexecution => h hexecution.1

/-- A line that begins with another letter reports no execution. -/
theorem not_isExecution_of_initial (letter : Char) (h : l.text.toList.head? = some letter)
    (hletter : letter ≠ 'I') : ¬ l.IsExecution i := by
  rintro ⟨-, rest, hrest⟩
  have hinitial : ("Instance " ++ i.toString ++ ": executing ").toList.head? = some 'I' :=
    Text.head?_append (Text.head?_append (by decide) _) _
  rw [← hrest, List.head?_append, hinitial] at h
  exact hletter (Option.some.inj h).symm

end LogLine

/-- The lines report no execution for an instance. -/
def Logged.IsIdle {α : Type} (i : Uuid) (x : Logged α) : Prop :=
  ∀ l ∈ x.lines, ¬ l.IsExecution i

namespace Logged.IsIdle

variable {α β : Type} {i : Uuid}

/-- A value without lines reports no execution. -/
theorem pure (a : α) : (Pure.pure a : Logged α).IsIdle i := by
  intro l hl
  cases hl

/-- Two logged values in a row report no execution if neither does. -/
theorem bind {x : Logged α} {f : α → Logged β} (hx : x.IsIdle i) (hf : ∀ a, (f a).IsIdle i) :
    (x >>= f).IsIdle i := by
  intro l hl
  rcases List.mem_append.mp hl with hl | hl
  · exact hx l hl
  · exact hf x.value l hl

/-- Lines that are written report no execution if none of them does. -/
theorem write {lines : List LogLine} (h : ∀ l ∈ lines, ¬ l.IsExecution i) :
    (Logged.write lines).IsIdle i := h

/-- A line that is written reports no execution if it is no such line. -/
theorem line {level : LogLevel} {text : String} (h : ¬ (⟨level, text⟩ : LogLine).IsExecution i) :
    (Logged.line level text).IsIdle i := by
  intro l hl
  rwa [List.mem_singleton.mp hl]

end Logged.IsIdle

section Remarks

variable {i : Uuid} {d : Definition} {around : Surroundings}

/-- A step that is skipped is not reported as executed. -/
theorem Definition.skipped_idle (s : Step) : ¬ (skipped s).IsExecution i :=
  LogLine.not_isExecution_of_initial 'S'
    (Text.head?_append (Text.head?_append (by decide) _) _) (by decide)

/-- Asking the guard of a step reports no execution. -/
theorem Step.passes_idle (s : Step) : (s.passes around).IsIdle i := by
  unfold passes
  cases s.guard? with
  | none => exact .pure _
  | some guard =>
    dsimp only [Condition.holds]
    cases Condition.evaluate around guard with
    | ok b => exact .pure b
    | error error => exact .line (LogLine.not_isExecution_of_level (by simp))

/-- The search among the declared successors reports no execution. -/
theorem Definition.firstDeclared_idle (origin : String) (ids : List String) :
    (d.firstDeclared around origin ids).IsIdle i := by
  induction ids with
  | nil => exact .pure _
  | cons id ids ih =>
    rw [firstDeclared]
    cases d.find? id with
    | none => exact .bind (.line (LogLine.not_isExecution_of_level (by simp))) fun _ => ih
    | some s =>
      refine .bind s.passes_idle fun passes => ?_
      cases passes with
      | true => exact .pure _
      | false => exact .bind (.write (by simpa using skipped_idle s)) fun _ => ih

/-- The search in the row of steps reports no execution. -/
theorem Definition.firstInRow_idle (steps : List Step) :
    (d.firstInRow around steps).IsIdle i := by
  induction steps with
  | nil => exact .pure _
  | cons s steps ih =>
    rw [firstInRow]
    refine .bind s.passes_idle fun passes => ?_
    cases passes with
    | true => exact .pure _
    | false =>
      refine .bind (.write (by simpa using skipped_idle s)) fun _ => ?_
      split
      · exact ih
      · exact firstDeclared_idle s.id s.nextSteps

/-- The search for a successor reports no execution. -/
theorem Definition.successor_idle (s : Step) : (d.successor around s).IsIdle i := by
  unfold successor
  split
  · exact firstInRow_idle _
  · exact firstDeclared_idle _ _

/-- Asking which branches qualify reports no execution. -/
theorem Engine.qualifying_idle (branches : List Step) :
    (qualifying around branches).IsIdle i := by
  induction branches with
  | nil => exact .pure _
  | cons b branches ih => exact .bind b.passes_idle fun _ => .bind ih fun _ => .pure _

/-- Building a task reports no execution. -/
theorem Task.build_idle (id : Uuid) (run : Instance) (s : Step) (key : String)
    (parent : Option String) (history : List Task) (labels : ResultLabels) (now : Timestamp) :
    (build id run s key parent history labels now).IsIdle i := by
  have hwarn : ∀ text, (Logged.line .warn text).IsIdle i := fun text =>
    .line (LogLine.not_isExecution_of_level (by simp))
  refine .bind ?_ fun due => .bind ?_ fun t => .pure _
  · unfold dueDateOf
    split
    · exact .pure _
    · split
      · exact .pure _
      · exact .bind (hwarn _) fun _ => .pure _
  · unfold applyParams
    dsimp only
    split
    · exact .bind (hwarn _) fun _ => .pure _
    · exact .bind (.pure _) fun _ => .pure _

/-- The remarks on a step report no execution. -/
theorem Definition.stepRemarks_idle {s : Step} : ∀ l ∈ stepRemarks s, ¬ l.IsExecution i := by
  intro l hl
  unfold stepRemarks at hl
  split at hl
  · cases hl
  split at hl
  · rw [List.mem_singleton.mp hl]
    exact LogLine.not_isExecution_of_level (by simp)
  · split at hl
    · rw [List.mem_singleton.mp hl]
      exact LogLine.not_isExecution_of_initial 'S'
        (Text.head?_append (Text.head?_append (by decide) _) _) (by decide)
    · cases hl
  · cases hl

/-- The remarks on a sound definition report no execution. -/
theorem Definition.soundRemarks_idle : ∀ l ∈ d.soundRemarks, ¬ l.IsExecution i := by
  intro l hl
  apply LogLine.not_isExecution_of_level
  unfold soundRemarks at hl
  split at hl <;> simp at hl
  · rw [hl]
    simp
  · rcases hl with rfl | rfl <;> simp

/-- Checking a definition reports no execution. -/
theorem Definition.check_idle : d.check.IsIdle i := by
  intro l hl
  rcases List.mem_cons.mp hl with rfl | hl
  · exact LogLine.not_isExecution_of_initial 'V'
      (Text.head?_append (Text.head?_append (by decide) _) _) (by decide)
  rcases List.mem_append.mp hl with hl | hl
  · split at hl
    · cases hl
    · obtain ⟨s, -, hs⟩ := List.mem_flatMap.mp hl
      exact stepRemarks_idle l hs
  · split at hl
    · exact soundRemarks_idle l hl
    · cases hl

/-- Reading a definition reports no execution. -/
theorem Definition.parse_idle (text : String) : (parse text).IsIdle i := by
  unfold parse
  split
  · exact .pure _
  · refine .bind (.line (LogLine.not_isExecution_of_initial 'P' ?_ (by decide))) fun _ =>
      .bind check_idle fun _ => .pure _
    exact Text.head?_append (Text.head?_append (Text.head?_append (Text.head?_append
      (by decide) _) _) _) _

end Remarks

/-! ## What operations execute -/

namespace Environment

/-- From one environment to another the log reports the execution of some steps for an instance,
in their order, and some tasks are opened. -/
structure Executed (i : Uuid) (env env' : Environment) (steps : List Step) (opened : List Task) :
    Prop where
  log : ∃ lines, env'.log = env.log ++ lines ∧
    lines.filter (fun l => l.IsExecution i) = steps.map (Step.executionLine i)
  tasks : env'.store.tasks = env.store.tasks ++ opened

namespace Executed

variable {i : Uuid} {env env₁ env₂ : Environment} {steps steps' : List Step}
  {opened opened' : List Task}

/-- Where neither log nor tasks have changed, nothing has been executed or opened. -/
theorem nothing (hlog : env₁.log = env.log) (htasks : env₁.store.tasks = env.store.tasks) :
    env.Executed i env₁ [] [] :=
  ⟨⟨[], by simp [hlog]⟩, by simp [htasks]⟩

/-- What is executed and opened on the way to one environment and from there to another follows
each other. -/
theorem trans (h : env.Executed i env₁ steps opened)
    (h' : env₁.Executed i env₂ steps' opened') :
    env.Executed i env₂ (steps ++ steps') (opened ++ opened') := by
  obtain ⟨lines, hlog, hlines⟩ := h.log
  obtain ⟨lines', hlog', hlines'⟩ := h'.log
  refine ⟨⟨lines ++ lines', ?_, ?_⟩, ?_⟩
  · rw [hlog', hlog, List.append_assoc]
  · rw [List.filter_append, hlines, hlines', List.map_append]
  · rw [h'.tasks, h.tasks, List.append_assoc]

end Executed

end Environment

namespace Operation

variable {α β : Type} {i : Uuid} {env : Environment}

/-- The operation executes no step for the instance and opens only tasks of which `Q` holds. -/
def Opens (i : Uuid) (Q : Task → Prop) (x : Operation α) : Prop :=
  ∀ env : Environment, ∃ opened, env.Executed i (x.leaves env) [] opened ∧ ∀ u ∈ opened, Q u

/-- The operation executes no step for the instance and opens no task. -/
def Idles (i : Uuid) (x : Operation α) : Prop := x.Opens i fun _ => False

namespace Opens

variable {Q : Task → Prop}

/-- An operation that adds nothing to the tasks and only such lines to the log. -/
theorem of_lines {x : Operation α} (lines : List LogLine)
    (hlines : ∀ l ∈ lines, ¬ l.IsExecution i)
    (hlog : ∀ env, (x.leaves env).log = env.log ++ lines)
    (htasks : ∀ env, (x.leaves env).store.tasks = env.store.tasks) : x.Opens i Q :=
  fun env => ⟨[], ⟨⟨lines, hlog env, by simpa using hlines⟩, by simp [htasks]⟩, by simp⟩

/-- An operation that changes neither the log nor the tasks executes and opens nothing. -/
theorem of_unchanged {x : Operation α} (hlog : ∀ env, (x.leaves env).log = env.log)
    (htasks : ∀ env, (x.leaves env).store.tasks = env.store.tasks) : x.Opens i Q :=
  of_lines [] (by simp) (by simpa using hlog) htasks

/-- What an operation opens may be described more loosely. -/
theorem mono {R : Task → Prop} {x : Operation α} (hx : x.Opens i Q) (h : ∀ u, Q u → R u) :
    x.Opens i R := by
  intro env
  obtain ⟨opened, hexecuted, hopened⟩ := hx env
  exact ⟨opened, hexecuted, fun u hu => h u (hopened u hu)⟩

/-- Two operations in a row open only such tasks if both do. -/
theorem bind {x : Operation α} {f : α → Operation β} (hx : x.Opens i Q)
    (hf : ∀ a, (f a).Opens i Q) : (x >>= f).Opens i Q := by
  intro env
  obtain ⟨opened, hfirst, hopened⟩ := hx env
  rw [leaves] at hfirst ⊢
  rw [runIn_bind]
  rcases hrun : x.runIn env with ⟨error | a, env'⟩
  · rw [hrun] at hfirst
    exact ⟨opened, hfirst, hopened⟩
  · rw [hrun] at hfirst
    obtain ⟨opened', hsecond, hopened'⟩ := hf a env'
    refine ⟨opened ++ opened', hfirst.trans hsecond, ?_⟩
    intro u hu
    rcases List.mem_append.mp hu with hu | hu
    · exact hopened u hu
    · exact hopened' u hu

/-- Giving a value at once executes and opens nothing. -/
theorem pure (a : α) : (Pure.pure a : Operation α).Opens i Q :=
  of_unchanged (fun _ => rfl) fun _ => rfl

/-- Failing executes and opens nothing. -/
theorem throw (e : EngineError) : (MonadExcept.throw e : Operation α).Opens i Q :=
  of_unchanged (fun _ => rfl) fun _ => rfl

/-- Reading the clock executes and opens nothing. -/
theorem now : Operation.now.Opens i Q := of_unchanged (fun _ => rfl) fun _ => rfl

/-- Looking at the environment executes and opens nothing. -/
theorem get : (MonadState.get : Operation Environment).Opens i Q :=
  of_unchanged (fun _ => rfl) fun _ => rfl

/-- Drawing an id executes and opens nothing. -/
theorem freshId (kind : RecordKind) : (Operation.freshId kind).Opens i Q :=
  of_unchanged (fun _ => rfl) fun _ => rfl

/-- Lifting a result executes and opens nothing. -/
theorem lift (x : Except EngineError α) : (Operation.lift x).Opens i Q := by
  cases x with
  | ok a => exact pure a
  | error e => exact throw e

/-- Taking over the lines of a logged value executes nothing if they report no execution. -/
theorem heed {x : Logged α} (hx : x.IsIdle i) : (Operation.heed x).Opens i Q :=
  of_lines x.lines hx (fun _ => rfl) fun _ => rfl

/-- Behind a result with its lines for the log there is the result. -/
theorem heed_bind {x : Logged α} {f : α → Operation β} (hx : x.IsIdle i)
    (hf : (f x.value).Opens i Q) : (Operation.heed x >>= f).Opens i Q := by
  intro env
  obtain ⟨opened, hrest, hopened⟩ := hf { env with log := env.log ++ x.lines }
  have hlines : env.Executed i { env with log := env.log ++ x.lines } [] [] :=
    ⟨⟨x.lines, rfl, by simpa [Logged.IsIdle] using hx⟩, by simp⟩
  exact ⟨opened, hlines.trans hrest, hopened⟩

/-- Taking over the lines of a logged result executes nothing if they report no execution. -/
theorem heedResult {x : Logged (Except EngineError α)} (hx : x.IsIdle i) :
    (Operation.heedResult x).Opens i Q := .bind (.heed hx) fun r => .lift r

/-- Writing a line to the log executes nothing if it is not the line of an execution. -/
theorem say {level : LogLevel} {text : String}
    (h : ¬ (⟨level, text⟩ : LogLine).IsExecution i) : (Operation.say level text).Opens i Q := by
  refine of_lines [⟨level, text⟩] ?_ (fun _ => rfl) fun _ => rfl
  simpa using h

/-- Announcing a notice executes and opens nothing, although it may be logged. -/
theorem announce (n : Notifier) (notice : Notice) :
    (Operation.announce n notice).Opens i Q := by
  cases n with
  | silent => exact .pure ()
  | logging =>
    refine of_lines [⟨.info, notice.text⟩] ?_ (fun _ => rfl) fun _ => rfl
    simp [LogLine.IsExecution]

/-- A call of the store that adds to the tasks only such of which `Q` holds. -/
theorem perform {call : StoreCall} {run : Store → Except EngineError (α × Store)}
    (h : ∀ s a s', run s = .ok (a, s') →
      ∃ opened, s'.tasks = s.tasks ++ opened ∧ ∀ u ∈ opened, Q u) :
    (Operation.perform call run).Opens i Q := by
  intro env
  show ∃ opened, env.Executed i (Operation.perform call run env).2 [] opened ∧ _
  unfold Operation.perform
  rcases Outage.meet env.outage call with ⟨_ | _ | _, outage⟩ <;>
    rcases hrun : run env.store with _ | ⟨a, s⟩ <;>
      first
        | exact ⟨[], .nothing rfl rfl, by simp⟩
        | obtain ⟨opened, htasks, hopened⟩ := h _ a s hrun
          exact ⟨opened, ⟨⟨[], by simp⟩, htasks⟩, hopened⟩

/-- A look into the store executes and opens nothing. -/
theorem query (call : StoreCall) (look : Store → α) : (Operation.query call look).Opens i Q := by
  apply perform
  intro s a s' h
  cases h
  exact ⟨[], by simp⟩

/-- A change of the store opens the tasks that it adds, and executes nothing. -/
theorem change {call : StoreCall} {run : Store → Except EngineError Store}
    (h : ∀ s s', run s = .ok s' → ∃ opened, s'.tasks = s.tasks ++ opened ∧ ∀ u ∈ opened, Q u) :
    (Operation.change call run).Opens i Q := by
  apply perform
  intro s a s' hrun
  cases hs : run s with
  | error error =>
    rw [hs] at hrun
    cases hrun
  | ok t =>
    rw [hs] at hrun
    cases hrun
    exact h s _ hs

end Opens

/-- From the environment the operation executes steps and opens tasks as `p` says. -/
def Executes (i : Uuid) (p : List Step → List Task → Prop) (x : Operation α)
    (env : Environment) : Prop :=
  ∃ steps opened, env.Executed i (x.leaves env) steps opened ∧ p steps opened

namespace Executes

variable {p : List Step → List Task → Prop}

/-- An operation that idles executes no step and opens no task. -/
theorem of_idles {x : Operation α} (hx : x.Idles i) (hp : p [] []) : x.Executes i p env := by
  obtain ⟨opened, hexecuted, hopened⟩ := hx env
  obtain rfl : opened = [] := List.eq_nil_iff_forall_not_mem.mpr hopened
  exact ⟨[], [], hexecuted, hp⟩

/-- An operation that only opens tasks. -/
theorem of_opens {Q : Task → Prop} {x : Operation α} (hx : x.Opens i Q)
    (hp : ∀ opened, (∀ u ∈ opened, Q u) → p [] opened) : x.Executes i p env := by
  obtain ⟨opened, hexecuted, hopened⟩ := hx env
  exact ⟨[], opened, hexecuted, hp opened hopened⟩

/-- What an operation executes may be described more loosely. -/
theorem mono {q : List Step → List Task → Prop} {x : Operation α} (h : x.Executes i p env)
    (himp : ∀ steps opened, p steps opened → q steps opened) : x.Executes i q env := by
  obtain ⟨steps, opened, hexecuted, hp⟩ := h
  exact ⟨steps, opened, hexecuted, himp steps opened hp⟩

/-- Behind an operation that idles the tasks are what they were. -/
theorem after {x : Operation α} {f : α → Operation β} (hx : x.Idles i) (hp : p [] [])
    (hf : ∀ a env', x.runIn env = (.ok a, env') → env'.store.tasks = env.store.tasks →
      (f a).Executes i p env') : (x >>= f).Executes i p env := by
  obtain ⟨opened, hfirst, hopened⟩ := hx env
  obtain rfl : opened = [] := List.eq_nil_iff_forall_not_mem.mpr hopened
  unfold Executes
  rw [leaves] at hfirst ⊢
  rw [runIn_bind]
  rcases hrun : x.runIn env with ⟨error | a, env'⟩
  · rw [hrun] at hfirst
    exact ⟨[], [], hfirst, hp⟩
  · rw [hrun] at hfirst
    obtain ⟨steps, opened, hsecond, hp⟩ := hf a env' hrun (by simpa using hfirst.tasks)
    exact ⟨steps, opened, hfirst.trans hsecond, hp⟩

/-- Behind a result that is lifted, what is executed is what the rest executes, and nothing if
there is no value. -/
theorem lift {x : Except EngineError α} {f : α → Operation β} (hp : p [] [])
    (hf : ∀ a, x = .ok a → (f a).Executes i p env) :
    (Operation.lift x >>= f).Executes i p env := by
  cases x with
  | ok a => exact hf a rfl
  | error e => exact .of_idles (.throw e) hp

/-- Behind the lines of a logged value that report no execution, what is executed is what the rest
executes. -/
theorem heed {x : Logged α} {f : α → Operation β} (hx : x.IsIdle i)
    (hf : ∀ env', env'.store = env.store → (f x.value).Executes i p env') :
    (Operation.heed x >>= f).Executes i p env := by
  obtain ⟨steps, opened, hrest, hp⟩ := hf { env with log := env.log ++ x.lines } rfl
  have hlines : env.Executed i { env with log := env.log ++ x.lines } [] [] :=
    ⟨⟨x.lines, rfl, by simpa [Logged.IsIdle] using hx⟩, by simp⟩
  exact ⟨steps, opened, hlines.trans hrest, hp⟩

/-- Behind the lines of a logged result that report no execution, what is executed is what the
rest executes, and nothing if the result is a failure. -/
theorem heedResult {x : Logged (Except EngineError α)} {f : α → Operation β}
    (hx : x.IsIdle i) (hp : p [] [])
    (hf : ∀ a env', x.value = .ok a → env'.store = env.store → (f a).Executes i p env') :
    (Operation.heedResult x >>= f).Executes i p env := by
  rw [Operation.heedResult, bind_assoc]
  exact .heed hx fun env' h' => .lift hp fun a ha => hf a env' ha h'

/-- Behind the report of its execution a step has been executed. -/
theorem report {s : Step} {f : Unit → Operation β}
    (hf : ∀ env', env'.store = env.store →
      (f ()).Executes i (fun steps opened => p (s :: steps) opened) env') :
    (Operation.say (s.executionLine i).level (s.executionLine i).text >>= f).Executes i p env := by
  let env' := { env with log := env.log ++ [s.executionLine i] }
  obtain ⟨steps, opened, hrest, hp⟩ := hf env' rfl
  have hline : env.Executed i env' [s] [] :=
    ⟨⟨[s.executionLine i], rfl, by simp [LogLine.isExecution_executionLine]⟩, by simp [env']⟩
  exact ⟨s :: steps, opened, hline.trans hrest, hp⟩

end Executes

end Operation

namespace Repository

variable {i id : Uuid} {env env' : Environment}

/-- Finding a workflow idles. -/
theorem workflow_idles (id : Uuid) : (workflow id).Idles i := by
  refine .bind (.query _ _) fun found => ?_
  cases found with
  | none => exact .throw _
  | some w => exact .pure w

/-- Finding an instance idles. -/
theorem instanceOf_idles (id : Uuid) : (instanceOf id).Idles i := by
  refine .bind (.query _ _) fun found => ?_
  cases found with
  | none => exact .throw _
  | some j => exact .pure j

/-- Updating an instance idles. -/
theorem updateInstance_idles (j : Instance) : (updateInstance j).Idles i := by
  apply Opens.change
  intro s s' h
  unfold Store.updateInstance at h
  split at h <;> cases h
  exact ⟨[], by simp⟩

/-- Saving a task opens that task. -/
theorem saveTask_opens {Q : Task → Prop} {t : Task} (ht : Q t) : (saveTask t).Opens i Q := by
  apply Opens.change
  intro s s' h
  unfold Store.saveTask at h
  split at h <;> cases h
  exact ⟨[t], rfl, by simpa using ht⟩

/-- Reading the tasks from a page on idles. The induction is on the pages that may be read. -/
theorem tasksFrom_idles (run : Uuid) (pages : Nat) (page : Page) :
    (tasksFrom run pages page).Idles i := by
  induction pages generalizing page with
  | zero => exact .pure _
  | succ pages ih =>
    refine .bind (.query _ _) fun batch => ?_
    split
    · exact .pure _
    · exact .bind (ih page.next) fun _ => .pure _

/-- Reading all tasks of an instance idles. -/
theorem allTasks_idles (run : Uuid) (pageSize : Nat) : (allTasks run pageSize).Idles i :=
  .bind .get fun _ => tasksFrom_idles run _ _

/-- Tasks that are read from a page on are all tasks from there on. -/
theorem of_tasksFrom {run : Uuid} {pages : Nat} {page : Page} {tasks : List Task}
    (hlimit : 0 < page.limit) (hpages : (env.store.tasksOf run).length - page.offset < pages)
    (h : (tasksFrom run pages page).runIn env = (.ok tasks, env')) :
    tasks = (env.store.tasksOf run).drop page.offset := by
  induction pages generalizing page env tasks with
  | zero => omega
  | succ pages ih =>
    rw [tasksFrom, runIn_bind] at h
    rcases hrun : (tasksPage run page).runIn env with ⟨error | batch, env₁⟩
    · rw [hrun] at h
      cases h
    rw [hrun] at h
    have hbatch : page.select (env.store.tasksOf run) = batch := look_of_query hrun
    have hsame : env₁.store = env.store := (Looks.query _ _).store_eq hrun
    subst hbatch
    by_cases hlast : (page.select (env.store.tasksOf run)).length < page.limit
    · change Operation.runIn (if _ < _ then _ else _) env₁ = _ at h
      rw [if_pos hlast] at h
      cases h
      exact select_of_short hlast
    · change Operation.runIn (if _ < _ then _ else _) env₁ = _ at h
      rw [if_neg hlast, runIn_bind] at h
      rcases hothers : (tasksFrom run pages page.next).runIn env₁ with ⟨error | others, env₂⟩
      · rw [hothers] at h
        cases h
      rw [hothers] at h
      cases h
      rw [Page.select, List.length_take, List.length_drop] at hlast
      have hnext : others = (env₁.store.tasksOf run).drop page.next.offset := by
        refine ih hlimit ?_ hothers
        simp only [hsame, Page.next]
        omega
      rw [hnext, hsame, select_append_drop page]

/-- All tasks that are read are those of the instance. -/
theorem of_allTasks {run : Uuid} {pageSize : Nat} {tasks : List Task}
    (h : (allTasks run pageSize).runIn env = (.ok tasks, env')) :
    tasks = env.store.tasksOf run := by
  have hcount : (env.store.tasksOf run).length ≤ env.store.tasks.length :=
    List.length_filter_le _ _
  have hlimit : 0 < (Page.first (max pageSize 1)).limit := by
    simp only [Page.first]
    omega
  refine of_tasksFrom hlimit ?_ h
  simp only [Page.first]
  omega

/-- An instance that has been looked up is there. -/
theorem of_instanceOf {j : Instance} (h : (instanceOf id).runIn env = (.ok j, env')) :
    env.store.instance? id = some j ∧ env'.store = env.store := by
  refine ⟨?_, (instanceOf_looks id).store_eq h⟩
  rw [instanceOf, runIn_bind] at h
  rcases hrun : (query .findInstance fun s => s.instance? id).runIn env with
    ⟨error | found, env₁⟩ <;> rw [hrun] at h
  · cases h
  · cases found with
    | none => cases h
    | some j =>
      cases h
      exact look_of_query hrun

/-- A workflow that has been looked up is there. -/
theorem of_workflow {w : Workflow} (h : (workflow id).runIn env = (.ok w, env')) :
    env.store.workflow? id = some w ∧ env'.store = env.store := by
  refine ⟨?_, (workflow_looks id).store_eq h⟩
  rw [workflow, runIn_bind] at h
  rcases hrun : (query .findWorkflow fun s => s.workflow? id).runIn env with
    ⟨error | found, env₁⟩ <;> rw [hrun] at h
  · cases h
  · cases found with
    | none => cases h
    | some w =>
      cases h
      exact look_of_query hrun

end Repository

/-! ## What walks execute -/

/-- A task from the origin may be opened when some steps have been executed: it is one of them,
or a branch of one of them that may be executed. -/
def TaskOrigin.IsReached (around : Surroundings) (steps : List Step) : TaskOrigin → Prop
  | .step s => s ∈ steps
  | .branch p b => p ∈ steps ∧ b ∈ p.branches ∧ b.IsAllowed around

/-- Behind some steps only steps of the definition are executed that their guards allow, and
tasks are opened only from what is executed. -/
structure Definition.Respects (d : Definition) (around : Surroundings) (before steps : List Step)
    (opened : List Task) : Prop where
  allowed : ∀ s ∈ steps, s ∈ d.steps ∧ s.IsAllowed around
  reached : ∀ u ∈ opened, ∃ origin : TaskOrigin,
    origin.IsReached around (before ++ steps) ∧ u.IsFrom origin

/-- Behind some steps only steps of the definition are executed that their guards allow, and
tasks of the instance are built only from what is executed, with the tasks that guards see as
their history. -/
structure Engine.Works (e : Engine) (d : Definition) (i : Instance) (around : Surroundings)
    (before steps : List Step) (opened : List Task) : Prop where
  allowed : ∀ s ∈ steps, s ∈ d.steps ∧ s.IsAllowed around
  built : ∀ u ∈ opened, ∃ origin : TaskOrigin, origin.IsReached around (before ++ steps) ∧
    ∃ now task, u = e.built i around.tasks now task (.ofOrigin origin)

namespace Engine

variable {e : Engine} {d : Definition} {around : Surroundings} {i : Instance}
  {env : Environment}

/-- To execute and to open nothing respects every definition. -/
theorem works_nothing (before : List Step) : e.Works d i around before [] [] :=
  ⟨by simp, by simp⟩

/-- Who builds tasks from what is executed opens them from it. -/
theorem Works.respects {before steps : List Step} {opened : List Task}
    (h : e.Works d i around before steps opened) : d.Respects around before steps opened := by
  refine ⟨h.allowed, fun u hu => ?_⟩
  obtain ⟨origin, horigin, now, task, rfl⟩ := h.built u hu
  exact ⟨origin, horigin, e.built_isFrom i around.tasks now task origin⟩

/-- Reading the tasks of an instance idles. -/
theorem tasksOf_idles (id run : Uuid) : (e.tasksOf run).Idles id :=
  Repository.allTasks_idles run _

/-- Completing an instance idles. -/
theorem completeInstance_idles (id : Uuid) (i : Instance) : (e.completeInstance i).Idles id := by
  refine .bind (tasksOf_idles id i.id) fun tasks => .bind .now fun now => ?_
  refine .bind (.lift _) fun j => ?_
  refine .bind (Repository.updateInstance_idles j) fun _ => .bind (.say ?_) fun _ => .announce _ _
  exact LogLine.not_isExecution_of_level (by simp)

/-- Opening a task builds it from its origin. -/
theorem openTask_opens (id : Uuid) (i : Instance) (history : List Task) (origin : TaskOrigin) :
    (e.openTask i origin.taskStep origin.key origin.parentId? history).Opens id
      fun u => ∃ now task, u = e.built i history now task (.ofOrigin origin) := by
  refine .bind (.freshId _) fun task => .bind .now fun now =>
    .heed_bind (Task.build_idle _ _ _ _ _ _ _ _) ?_
  refine .bind (Repository.saveTask_opens ⟨now, task, rfl⟩) fun _ => ?_
  refine .bind (.say ?_) fun _ => .bind (.announce _ _) fun _ => .pure _
  exact LogLine.not_isExecution_of_level (by simp)

/-- Opening the tasks of branches builds each from its branch. -/
theorem openBranches_opens (id : Uuid) (i : Instance) (p : Step) (history : List Task)
    (chosen : List Step) :
    (e.openBranches i p history chosen).Opens id fun u =>
      ∃ b ∈ chosen, ∃ now task, u = e.built i history now task (.ofOrigin (.branch p b)) := by
  induction chosen with
  | nil => exact .pure ()
  | cons b chosen ih =>
    refine .bind (.mono (openTask_opens id i history (.branch p b)) ?_) fun _ => .mono ih ?_
    · intro u hu
      exact ⟨b, List.mem_cons_self, hu⟩
    · rintro u ⟨c, hc, hu⟩
      exact ⟨c, List.mem_cons_of_mem b hc, hu⟩

/-- Behind the tasks of an instance, which have been read. -/
theorem tasksOf_executes {β : Type} {id : Uuid} {p : List Step → List Task → Prop}
    {f : List Task → Operation β} (hp : p [] [])
    (hf : ∀ env', env'.store = env.store →
      (f (env.store.tasksOf i.id)).Executes id p env') :
    (e.tasksOf i.id >>= f).Executes id p env := by
  refine .after (tasksOf_idles id i.id) hp fun tasks env' hrun _ => ?_
  rw [Repository.of_allTasks hrun]
  exact hf env' ((Repository.allTasks_looks i.id _).store_eq hrun)

/-- What is done behind some steps is done behind more of them. -/
theorem works_behind {s : Step} {steps : List Step} {opened : List Task}
    (h : e.Works d i around [] steps opened) : e.Works d i around [s] steps opened := by
  refine ⟨h.allowed, fun u hu => ?_⟩
  obtain ⟨origin, horigin, hbuilt⟩ := h.built u hu
  refine ⟨origin, ?_, hbuilt⟩
  cases origin with
  | step t => exact List.mem_append_right _ horigin
  | branch p b => exact ⟨List.mem_append_right _ horigin.1, horigin.2⟩

/-- Executing a step executes this one, and behind it only steps that are allowed, if what is
done when the step needs nobody does so. -/
theorem execute_executes (s : Step) {onward : Operation Unit}
    (haround : around = ⟨i.input, env.store.tasksOf i.id⟩)
    (honward : ∀ env', env'.store.tasks = env.store.tasks →
      onward.Executes i.id (e.Works d i around []) env') :
    (e.execute i s onward).Executes i.id (fun steps opened => ∃ others, steps = s :: others ∧
      e.Works d i around [s] others opened) env := by
  refine .report (s := s) fun env₁ h₁ => .mono (p := e.Works d i around [s]) ?_
    fun others opened h => ⟨others, rfl, h⟩
  have hhistory : env₁.store.tasksOf i.id = around.tasks := by rw [haround, h₁]
  have hbehind : ∀ env', env'.store.tasks = env.store.tasks →
      onward.Executes i.id (e.Works d i around [s]) env' := fun env' h' =>
    (honward env' h').mono fun steps opened => works_behind
  cases hkind : s.kind with
  | userTask params =>
    refine tasksOf_executes (works_nothing [s]) fun env₂ h₂ => ?_
    rw [hhistory]
    refine .of_opens (.bind (openTask_opens i.id i _ (.step s)) fun _ => .pure ()) ?_
    intro opened hopened
    refine ⟨by simp, fun u hu => ⟨.step s, ?_, hopened u hu⟩⟩
    exact List.mem_append_left _ (List.mem_singleton_self s)
  | process => exact hbehind env₁ (by rw [h₁])
  | parallel branches =>
    refine tasksOf_executes (works_nothing [s]) fun env₂ h₂ => ?_
    refine .heed (qualifying_idle branches) fun env₃ h₃ => ?_
    rw [h₁, ← haround]
    -- with no branch that qualifies the walk goes on as behind an automatic step
    split
    · refine .after (.say ?_) (works_nothing [s]) fun _ env₄ _ h₄ => hbehind env₄ ?_
      · exact LogLine.not_isExecution_of_level (by simp)
      · rw [h₄, h₃, h₂, h₁]
    · rw [← h₁, hhistory]
      refine .of_opens (openBranches_opens i.id i s _ _) ?_
      intro opened hopened
      refine ⟨by simp, fun u hu => ?_⟩
      obtain ⟨b, hb, hbuilt⟩ := hopened u hu
      obtain ⟨hmem, hallowed⟩ := mem_qualifying hb
      refine ⟨.branch s b, ⟨List.mem_append_left _ (List.mem_singleton_self s), ?_, hallowed⟩,
        hbuilt⟩
      rwa [Step.branches, hkind]
  | complete => exact .of_idles (completeInstance_idles i.id i) (works_nothing [s])
  | unknown typeName =>
    refine .after (.say ?_) (works_nothing [s]) fun _ env₂ _ h₂ => hbehind env₂ (by rw [h₂, h₁])
    exact LogLine.not_isExecution_of_level (by simp)

/-- A step that is allowed may stand in front of what is executed behind it. -/
theorem works_cons {s : Step} {steps : List Step} {opened : List Task}
    (hs : s ∈ d.steps ∧ s.IsAllowed around) (h : e.Works d i around [s] steps opened) :
    e.Works d i around [] (s :: steps) opened :=
  ⟨List.forall_mem_cons.mpr ⟨hs, h.allowed⟩, h.built⟩

/-- Going on from a step executes only steps that are allowed. The induction is on the number of
steps from which the walk may go on; every step on the way sees the same tasks. -/
theorem advance_executes (remaining : Nat) (s : Step)
    (haround : around = ⟨i.input, env.store.tasksOf i.id⟩) :
    (e.advance d i remaining s).Executes i.id (e.Works d i around []) env := by
  induction remaining generalizing s env with
  | zero => exact .of_idles (.throw _) (works_nothing [])
  | succ remaining ih =>
    rw [advance, nextStep, bind_assoc]
    refine tasksOf_executes (works_nothing []) fun env₁ h₁ => ?_
    refine .heed (Definition.successor_idle s) fun env₂ h₂ => ?_
    rw [← haround]
    cases hnext : (d.successor around s).value with
    | none =>
      refine .of_idles (.say ?_) (works_nothing [])
      exact LogLine.not_isExecution_of_level (by simp)
    | some next =>
      refine .mono (execute_executes next (by rw [haround, h₂, h₁]) fun env₃ h₃ => ih next ?_) ?_
      · rw [haround, Store.tasksOf, Store.tasksOf, h₃, h₂, h₁]
      · rintro steps opened ⟨others, rfl, h⟩
        exact works_cons
          ⟨Definition.successor_mem hnext, Definition.successor_allowed hnext⟩ h

/-- Tasks are built from an instance whatever its start and its joins are. -/
theorem Works.of_record {j : Instance} {before steps : List Step} {opened : List Task}
    (h : e.Works d j around before steps opened)
    (hsame : j.id = i.id ∧ j.workflowId = i.workflowId ∧ j.input = i.input) :
    e.Works d i around before steps opened := by
  refine ⟨h.allowed, fun u hu => ?_⟩
  obtain ⟨origin, horigin, now, task, rfl⟩ := h.built u hu
  refine ⟨origin, horigin, now, task, ?_⟩
  obtain ⟨hid, hworkflow, hinput⟩ := hsame
  rw [Engine.built, Engine.built, Task.build_value, Task.build_value, hid, hworkflow, hinput]

section Lookups

variable {β : Type} {p : List Step → List Task → Prop} {id other : Uuid}

/-- Behind an instance that has been looked up it is there, and the store is what it was. -/
theorem instanceOf_executes (hp : p [] []) {f : Instance → Operation β}
    (hf : ∀ j env', env.store.instance? id = some j → env'.store = env.store →
      (f j).Executes other p env') :
    (Repository.instanceOf id >>= f).Executes other p env := by
  refine .after (Repository.instanceOf_idles _) hp fun j env' hrun _ => ?_
  obtain ⟨hj, h'⟩ := Repository.of_instanceOf hrun
  exact hf j env' hj h'

/-- Behind the workflow of an instance, which holds the definition that the instance follows. -/
theorem workflow_executes (hp : p [] []) {f : Workflow → Operation β}
    (hf : ∀ w env', env.store.definitionOf i = w.parsedDefinition.value →
      env'.store = env.store → (f w).Executes other p env') :
    (Repository.workflow i.workflowId >>= f).Executes other p env := by
  refine .after (Repository.workflow_idles _) hp fun w env' hrun _ => ?_
  obtain ⟨hw, h'⟩ := Repository.of_workflow hrun
  exact hf w env' (by rw [Store.definitionOf, hw]) h'

end Lookups

/-- A start executes the first step of the definition, whatever its guard says, and behind it
only steps that are allowed; or it is refused. -/
theorem start_works (e : Engine) (env : Environment) (id : Uuid) :
    (e.start id).Executes id (fun steps opened => steps = [] ∧ opened = [] ∨
      ∃ i d first others, env.store.instance? id = some i ∧ env.store.definitionOf i = .ok d ∧
        d.steps.head? = some first ∧ steps = first :: others ∧
        e.Works d i ⟨i.input, env.store.tasksOf id⟩ [first] others opened) env := by
  have hrefused : ∀ (p : Prop), ([] : List Step) = [] ∧ ([] : List Task) = [] ∨ p := by simp
  refine instanceOf_executes (hrefused _) fun i env₁ hi h₁ => .lift (hrefused _) fun _ _ => ?_
  obtain rfl := Store.id_of_instance? hi
  refine workflow_executes (hrefused _) fun w env₂ hw h₂ => ?_
  refine .lift (hrefused _) fun _ _ => ?_
  refine .heedResult (Definition.parse_idle _) (hrefused _) fun d env₃ hd h₃ => ?_
  split
  · exact .of_idles (.throw _) (hrefused _)
  · next first others hsteps =>
    refine .after .now (hrefused _) fun now env₄ _ h₄ => ?_
    refine .after (Repository.updateInstance_idles _) (hrefused _) fun _ env₅ _ h₅ => ?_
    refine .after (.say ?_) (hrefused _) fun _ env₆ _ h₆ => ?_
    · exact LogLine.not_isExecution_of_level (by simp)
    -- the record of the instance has changed, but guards see only its input and its tasks
    let around : Surroundings := ⟨i.input, env.store.tasksOf i.id⟩
    have htasks : env₆.store.tasks = env.store.tasks := by rw [h₆, h₅, h₄, h₃, h₂, h₁]
    have haround : ∀ env' : Environment, env'.store.tasks = env.store.tasks →
        around = ⟨i.input, env'.store.tasksOf i.id⟩ := by
      intro env' h'
      rw [Store.tasksOf, h']
      rfl
    refine .mono (execute_executes (i := { i with startedAt := now }) first
      (haround env₆ htasks) fun env₇ h₇ => advance_executes _ first
        (haround env₇ (h₇.trans htasks))) ?_
    rintro steps opened ⟨behind, hbehind, h⟩
    rw [h₁, hd] at hw
    exact .inr ⟨i, d, first, behind, hi, hw, by rw [hsteps]; rfl, hbehind,
      h.of_record ⟨rfl, rfl, rfl⟩⟩

/-- Behind a join that has fired, or has not, the tasks are what they were. -/
theorem fireJoin_executes (parallel : Step) {p : List Step → List Task → Prop} (hp : p [] [])
    {f : Option Instance → Operation Unit} (hnone : (f none).Idles i.id)
    (hsome : ∀ joins env', env'.store.tasks = env.store.tasks →
      (f (some { i with joins := joins })).Executes i.id p env') :
    (e.fireJoin i parallel >>= f).Executes i.id p env := by
  rw [fireJoin, bind_assoc]
  refine .after (tasksOf_idles i.id i.id) hp fun tasks env₁ _ h₁ => ?_
  have hinfo : ∀ text, ¬ (⟨.info, text⟩ : LogLine).IsExecution i.id := fun text =>
    LogLine.not_isExecution_of_level (by simp)
  split
  · rw [bind_assoc]
    exact .of_idles (.bind (.say (hinfo _)) fun _ => hnone) hp
  · rw [bind_assoc]
    refine .after .now hp fun now env₂ _ h₂ => ?_
    split
    · rw [bind_assoc]
      refine .of_idles (.bind (.say ?_) fun _ => hnone) hp
      exact LogLine.not_isExecution_of_initial 'J' (Text.head?_append (Text.head?_append
        (Text.head?_append (by decide) _) _) _) (by decide)
    · next j hj =>
      obtain rfl := Instance.of_claimJoin? hj
      rw [bind_assoc]
      refine .after (Repository.updateInstance_idles _) hp fun _ env₃ _ h₃ => ?_
      rw [bind_assoc]
      refine .after (.say (hinfo _)) hp fun _ env₄ _ h₄ => hsome _ env₄ ?_
      rw [h₄, h₃, h₂, h₁]

/-- Behind the running instance and its definition the store is what it was. -/
theorem runningInstance_executes {β : Type} {id : Uuid} {p : List Step → List Task → Prop}
    (hp : p [] []) {f : Instance × Definition → Operation β}
    (hf : ∀ i d env', env.store.instance? id = some i → env.store.definitionOf i = .ok d →
      env'.store = env.store → (f (i, d)).Executes id p env') :
    (runningInstance id >>= f).Executes id p env := by
  rw [runningInstance, bind_assoc]
  refine instanceOf_executes hp fun i env₁ hi h₁ => ?_
  rw [bind_assoc]
  refine .lift hp fun _ _ => ?_
  rw [bind_assoc]
  refine workflow_executes hp fun w env₂ hw h₂ => ?_
  rw [bind_assoc]
  refine .heedResult (Definition.parse_idle _) hp fun d env₃ hd h₃ => ?_
  rw [h₁, hd] at hw
  exact hf i d env₃ hi hw (by rw [h₃, h₂, h₁])

/-- A continuation executes only steps that are allowed; or it is refused. -/
theorem continueAfter_works (e : Engine) (env : Environment) (t : Task) :
    (e.continueAfter t).Executes t.instanceId (fun steps opened => steps = [] ∧ opened = [] ∨
      ∃ i d, env.store.instance? t.instanceId = some i ∧ env.store.definitionOf i = .ok d ∧
        e.Works d i ⟨i.input, env.store.tasksOf t.instanceId⟩ [] steps opened) env := by
  have hrefused : ∀ (p : Prop), ([] : List Step) = [] ∧ ([] : List Task) = [] ∨ p := by simp
  refine runningInstance_executes (hrefused _) fun i d env₁ hi hd h₁ =>
    .lift (hrefused _) fun s _ => ?_
  have hid := Store.id_of_instance? hi
  rw [← hid] at hi ⊢
  have hworks : ∀ {j : Instance}, j.id = i.id ∧ j.workflowId = i.workflowId ∧ j.input = i.input →
      ∀ steps opened, e.Works d j ⟨i.input, env.store.tasksOf i.id⟩ [] steps opened →
        steps = [] ∧ opened = [] ∨ ∃ i' d', env.store.instance? i.id = some i' ∧
          env.store.definitionOf i' = .ok d' ∧
          e.Works d' i' ⟨i'.input, env.store.tasksOf i.id⟩ [] steps opened :=
    fun hj _ _ h => .inr ⟨i, d, hi, hd, h.of_record hj⟩
  split
  · refine fireJoin_executes s (hrefused _) (.pure ()) fun joins env₂ h₂ => ?_
    refine .mono (advance_executes (i := { i with joins := joins }) _ s ?_) (hworks ⟨rfl, rfl, rfl⟩)
    rw [Store.tasksOf, Store.tasksOf, h₂, h₁]
  · refine .mono (advance_executes _ s ?_) (hworks ⟨rfl, rfl, rfl⟩)
    rw [h₁]

/-- A start of an instance that follows a definition. -/
theorem start_executes (hi : env.store.instance? i.id = some i)
    (hd : env.store.definitionOf i = .ok d)
    (haround : around = ⟨i.input, env.store.tasksOf i.id⟩) :
    (e.start i.id).Executes i.id (fun steps opened => steps = [] ∧ opened = [] ∨
      ∃ first others, d.steps.head? = some first ∧ steps = first :: others ∧
        d.Respects around [first] others opened) env := by
  refine (start_works e env i.id).mono fun steps opened h => h.imp_right ?_
  rintro ⟨j, d', first, others, hj, hd', hfirst, hsteps, hworks⟩
  obtain rfl := Option.some.inj (hi.symm.trans hj)
  obtain rfl := Except.ok.inj (hd.symm.trans hd')
  exact ⟨first, others, hfirst, hsteps, haround ▸ hworks.respects⟩

/-- A continuation of an instance that follows a definition. -/
theorem continueAfter_executes {t : Task} (ht : t.instanceId = i.id)
    (hi : env.store.instance? i.id = some i) (hd : env.store.definitionOf i = .ok d)
    (haround : around = ⟨i.input, env.store.tasksOf i.id⟩) :
    (e.continueAfter t).Executes i.id (d.Respects around []) env := by
  rw [← ht] at hi haround ⊢
  refine (continueAfter_works e env t).mono fun steps opened h => ?_
  rcases h with ⟨rfl, rfl⟩ | ⟨j, d', hj, hd', hworks⟩
  · exact (works_nothing (e := e) (i := i) []).respects
  · obtain rfl := Option.some.inj (hi.symm.trans hj)
    obtain rfl := Except.ok.inj (hd.symm.trans hd')
    exact haround ▸ hworks.respects

end Engine

/-! ## Guards are respected behind the first step -/

/-- A start executes the first step of the definition and behind it only steps that are allowed,
or it is refused; a continuation executes only steps that are allowed. Either opens tasks only
for steps that it executes and for their branches that are allowed. -/
theorem guards_respected (e : Engine) (env : Environment) (i : Instance) (d : Definition)
    (hi : env.store.instance? i.id = some i) (hd : env.store.definitionOf i = .ok d) :
    let around : Surroundings := ⟨i.input, env.store.tasksOf i.id⟩
    (∃ steps opened, env.Executed i.id ((e.start i.id).leaves env) steps opened ∧
      (steps = [] ∧ opened = [] ∨
        ∃ first others, d.steps.head? = some first ∧ steps = first :: others ∧
          d.Respects around [first] others opened)) ∧
    ∀ t : Task, t.instanceId = i.id →
      ∃ steps opened, env.Executed i.id ((e.continueAfter t).leaves env) steps opened ∧
        d.Respects around [] steps opened :=
  ⟨Engine.start_executes hi hd rfl, fun _ ht => Engine.continueAfter_executes ht hi hd rfl⟩

/-- The instance of `fanOutRun` may be started once more. -/
theorem guards_respected_fanOut :
    let env := (Environment.fresh 0 ⟨0, 0⟩).serveAll .default fanOutRun
    ∃ d, env.store.definitionOf fanOutInstance = .ok d ∧
      ∀ t : Task, t.instanceId = fanOutInstance.id → ∃ steps opened,
        env.Executed fanOutInstance.id ((Engine.default.continueAfter t).leaves env) steps opened ∧
          d.Respects ⟨.null, env.store.tasksOf fanOutInstance.id⟩ [] steps opened := by
  intro env
  have hparsed : (env.store.definitionOf fanOutInstance).toBool = true := by decide +kernel
  cases hd : env.store.definitionOf fanOutInstance with
  | error error =>
    rw [hd] at hparsed
    cases hparsed
  | ok d =>
    have hi : env.store.instance? fanOutInstance.id = some fanOutInstance := by decide +kernel
    exact ⟨d, rfl, (guards_respected .default env fanOutInstance d hi hd).2⟩

/-- The first step of a definition is executed although its guard evaluates to false, and its task
is opened. -/
theorem first_step_unguarded :
    let workflow := IdSource.issue 0 .workflow 0
    let i : Instance := .new (IdSource.issue 0 .run 0) workflow .null ⟨0, 0⟩
    let served := (Environment.fresh 0 ⟨0, 0⟩).serveAll .default (Call.atOnce ⟨0, 0⟩
      [.createWorkflow "w" "" ("\x7b\"steps\":[\x7b\"id\":\"a\",\"type\":\"user_task\"," ++
          "\"condition\":\"false\"\x7d,[\"b\",\"user_task\"]]\x7d"),
        .applyAction .activate workflow])
    let env := { served with store := { served.store with instances := [i] } }
    ∃ d ∈ (env.store.definitionOf i).toOption, ∃ s ∈ d.steps.head?, ∃ guard ∈ s.guard?,
      Condition.evaluate ⟨i.input, env.store.tasksOf i.id⟩ guard = .ok false ∧
        s.executionLine i.id ∈ ((Engine.default.start i.id).leaves env).log ∧
        ((Engine.default.start i.id).leaves env).store.tasks.map Task.key = [s.id] := by
  decide +kernel

end ApprovalWorkflow
