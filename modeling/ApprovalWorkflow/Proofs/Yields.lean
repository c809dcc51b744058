import ApprovalWorkflow.Repository

/-!
# What operations yield

`x.Yields env r env'` says that the operation `x`, begun in `env`, has the outcome `r` and leaves
`env'`, whatever the log holds before and after: no operation reads the log, so nothing else
depends on it. Every theorem about what an operation does to the store, the identifiers and the
notices is a statement of this form, and the proofs follow the text of the operation, one rule
for each way of putting operations together (`Yields.bind`, `Yields.bind_error`,
`Yields.attempt`). `x.ActsAs y env` says that in `env` the operation `x` does what `y` does.

The second half gives the rules for the calls of the store while there is no outage. Reading all
tasks of an instance page by page yields exactly the tasks of the instance (`allTasks_yields`),
whatever the size of a page.
-/

set_option autoImplicit false

namespace ApprovalWorkflow.Operation

variable {α β : Type} {env env₁ env₂ : Environment}

/-- The environment after an operation, which may have failed. -/
def leaves (x : Operation α) (env : Environment) : Environment := (x.runIn env).2

/-- An operation followed by another one runs the second on what the first leaves, unless the
first fails. -/
theorem runIn_bind (x : Operation α) (f : α → Operation β) (env : Environment) :
    (x >>= f).runIn env =
      match x.runIn env with
      | (.ok a, env') => (f a).runIn env'
      | (.error e, env') => (.error e, env') := by
  show (ExceptT.bind x f).run.run env = _
  simp only [ExceptT.bind, ExceptT.mk, ExceptT.run, StateT.run, bind, StateT.bind, runIn]
  rcases x env with ⟨_ | _, _⟩ <;> rfl

/-- The operation has the outcome `r` and leaves `env'`, the log aside. -/
def Yields (x : Operation α) (env : Environment) (r : Except EngineError α)
    (env' : Environment) : Prop :=
  ∀ log, ∃ log', x.runIn { env with log := log } = (r, { env' with log := log' })

namespace Yields

/-- What an operation yields it yields in the environment itself. -/
theorem runIn_eq {x : Operation α} {r : Except EngineError α} (h : x.Yields env r env₁) :
    ∃ log, x.runIn env = (r, { env₁ with log := log }) := h env.log

/-- The outcome that an operation yields is its outcome. -/
theorem outcome {x : Operation α} {r : Except EngineError α} (h : x.Yields env r env₁) :
    (x.runIn env).1 = r := by
  obtain ⟨log, h⟩ := h.runIn_eq
  rw [h]

/-- What an operation leaves differs from what it yields at most in the log. -/
theorem leaves_eq {x : Operation α} {r : Except EngineError α} (h : x.Yields env r env₁) :
    ∃ log, x.leaves env = { env₁ with log := log } := by
  obtain ⟨log, h⟩ := h.runIn_eq
  exact ⟨log, by rw [leaves, h]⟩

/-- The store that an operation leaves. -/
theorem store_eq {x : Operation α} {r : Except EngineError α} (h : x.Yields env r env₁) :
    (x.leaves env).store = env₁.store := by
  obtain ⟨log, h⟩ := h.leaves_eq
  rw [h]

/-- Giving a value at once yields the value. -/
theorem pure (a : α) (env : Environment) : (Pure.pure a : Operation α).Yields env (.ok a) env :=
  fun log => ⟨log, rfl⟩

/-- Failing yields the failure. -/
theorem throw (e : EngineError) (env : Environment) :
    (MonadExcept.throw e : Operation α).Yields env (.error e) env := fun log => ⟨log, rfl⟩

/-- An operation goes on where the one before it has stopped. -/
theorem bind {x : Operation α} {f : α → Operation β} {a : α} {r : Except EngineError β}
    (hx : x.Yields env (.ok a) env₁) (hf : (f a).Yields env₁ r env₂) :
    (x >>= f).Yields env r env₂ := by
  intro log
  obtain ⟨log₁, hx⟩ := hx log
  obtain ⟨log₂, hf⟩ := hf log₁
  exact ⟨log₂, by rw [runIn_bind, hx]; exact hf⟩

/-- An error ends an operation. -/
theorem bind_error {x : Operation α} {f : α → Operation β} {e : EngineError}
    (hx : x.Yields env (.error e) env₁) : (x >>= f).Yields env (.error e) env₁ := by
  intro log
  obtain ⟨log₁, hx⟩ := hx log
  exact ⟨log₁, by rw [runIn_bind, hx]⟩

/-- An attempt succeeds with the outcome of what was attempted. -/
theorem attempt {x : Operation α} {r : Except EngineError α} (h : x.Yields env r env₁) :
    (Operation.attempt x).Yields env (.ok r) env₁ := by
  intro log
  obtain ⟨log₁, h⟩ := h log
  refine ⟨log₁, ?_⟩
  show (Except.ok (x.runIn { env with log := log }).1, (x.runIn { env with log := log }).2) = _
  rw [h]

/-- Looking at the environment yields what is yielded for it, whatever is in the log. -/
theorem get {f : Environment → Operation β} {r : Except EngineError β}
    (h : ∀ log, (f { env with log := log }).Yields env r env₁) :
    ((MonadState.get : Operation Environment) >>= f).Yields env r env₁ :=
  fun log => h log log

/-- Reading the clock yields the time that it shows. -/
theorem now (env : Environment) : Operation.now.Yields env (.ok env.now) env :=
  fun _ => ⟨_, rfl⟩

/-- Drawing an identifier yields the next one, and the source behind it. -/
theorem freshId (kind : RecordKind) (env : Environment) :
    (Operation.freshId kind).Yields env (.ok (env.ids.draw kind).1)
      { env with ids := (env.ids.draw kind).2 } := fun _ => ⟨_, rfl⟩

/-- Writing to the log changes nothing else. -/
theorem say (level : LogLevel) (text : String) (env : Environment) :
    (Operation.say level text).Yields env (.ok ()) env := fun _ => ⟨_, rfl⟩

/-- Lifting a result yields the result. -/
theorem lift (x : Except EngineError α) (env : Environment) :
    (Operation.lift x).Yields env x env := by
  cases x <;> exact fun _ => ⟨_, rfl⟩

/-- Taking over the lines of a logged value yields the value. -/
theorem heed (x : Logged α) (env : Environment) :
    (Operation.heed x).Yields env (.ok x.value) env := fun _ => ⟨_, rfl⟩

/-- Taking over the lines of a logged result yields the result. -/
theorem heedResult (x : Logged (Except EngineError α)) (env : Environment) :
    (Operation.heedResult x).Yields env x.value env := .bind (.heed x env) (.lift x.value env)

end Yields

/-- What the operation does in an environment another one does as well, the log aside. -/
def ActsAs (x y : Operation α) (env : Environment) : Prop :=
  ∀ log, ∃ log₁ log₂, x.runIn { env with log := log } =
    ((y.runIn { env with log := log₁ }).1,
      { (y.runIn { env with log := log₁ }).2 with log := log₂ })

namespace ActsAs

/-- An operation acts as itself. -/
theorem refl (x : Operation α) (env : Environment) : x.ActsAs x env := fun log => ⟨log, _, rfl⟩

/-- An operation yields what the one yields as which it acts. -/
theorem yields {x y : Operation α} {r : Except EngineError α} (h : x.ActsAs y env)
    (hy : y.Yields env r env₁) : x.Yields env r env₁ := by
  intro log
  obtain ⟨log₁, log₂, h⟩ := h log
  obtain ⟨log', hy⟩ := hy log₁
  exact ⟨log₂, by rw [h, hy]⟩

/-- Looking something up first makes no difference. -/
theorem after {x : Operation α} {f : α → Operation β} {y : Operation β} {a : α}
    (hx : x.Yields env (.ok a) env) (hf : (f a).ActsAs y env) : (x >>= f).ActsAs y env := by
  intro log
  obtain ⟨log', hx⟩ := hx log
  obtain ⟨log₁, log₂, hf⟩ := hf log'
  exact ⟨log₁, log₂, by rw [runIn_bind, hx]; exact hf⟩

/-- Writing to the log acts as doing nothing, since the log does not count. -/
theorem say (level : LogLevel) (text : String) (env : Environment) :
    (Operation.say level text).ActsAs (Pure.pure ()) env := fun log => ⟨log, _, rfl⟩

end ActsAs

end ApprovalWorkflow.Operation

namespace ApprovalWorkflow

/-- The notices that a notifier sends out of those it is given. -/
def Notifier.sent : Notifier → List Notice → List Notice
  | .silent, _ => []
  | .logging, notices => notices

/-- Notices are sent one after the other. -/
@[simp] theorem Notifier.sent_append (n : Notifier) (as bs : List Notice) :
    n.sent (as ++ bs) = n.sent as ++ n.sent bs := by cases n <;> rfl

/-- Where there is nothing to tell, nothing is sent. -/
@[simp] theorem Notifier.sent_nil (n : Notifier) : n.sent [] = [] := by cases n <;> rfl

/-- An announcement adds to the notices what the notifier sends of it. -/
theorem Operation.Yields.announce (n : Notifier) (notice : Notice) (env : Environment) :
    (Operation.announce n notice).Yields env (.ok ())
      { env with notices := env.notices ++ n.sent [notice] } := by
  cases n with
  | silent => exact fun log => ⟨log, by rw [Notifier.sent, List.append_nil]; rfl⟩
  | logging => exact fun _ => ⟨_, rfl⟩

end ApprovalWorkflow

namespace ApprovalWorkflow.Repository

open Operation

/-! ## Calls of the store without an outage -/

variable {env : Environment}

/-- A call that looks gives what it sees and changes nothing. -/
theorem query_yields {α : Type} (call : StoreCall) (look : Store → α) (h : env.outage = none) :
    (query call look).Yields env (.ok (look env.store)) env :=
  fun log => ⟨log, perform_of_no_outage call _ { env with log := log } h⟩

/-- A change that the store accepts. -/
theorem change_yields {call : StoreCall} {run : Store → Except EngineError Store} {s : Store}
    (h : env.outage = none) (hs : run env.store = .ok s) :
    (change call run).Yields env (.ok ()) { env with store := s } := by
  intro log
  refine ⟨log, ?_⟩
  rw [change, perform_of_no_outage call _ { env with log := log } h]
  simp only [hs]
  rfl

/-- A record that has to be there, or the error that stands for its absence. -/
def demanded {α : Type} (found : Option α) (missing : EngineError) : Except EngineError α :=
  match found with
  | some a => .ok a
  | none => .error missing

/-- Finding a workflow yields the one of the store, or the failure that it is missing. -/
theorem workflow_yields (id : Uuid) (h : env.outage = none) :
    (workflow id).Yields env (demanded (env.store.workflow? id) (.workflowNotFound id)) env := by
  unfold workflow
  refine .bind (query_yields .findWorkflow _ h) ?_
  cases env.store.workflow? id with
  | none => exact .throw _ _
  | some w => exact .pure _ _

/-- Finding an instance yields the one of the store, or the failure that it is missing. -/
theorem instanceOf_yields (id : Uuid) (h : env.outage = none) :
    (instanceOf id).Yields env (demanded (env.store.instance? id) (.instanceNotFound id)) env := by
  unfold instanceOf
  refine .bind (query_yields .findInstance _ h) ?_
  cases env.store.instance? id with
  | none => exact .throw _ _
  | some i => exact .pure _ _

/-- Finding a task yields the one of the store, or the failure that it is missing. -/
theorem task_yields (id : Uuid) (h : env.outage = none) :
    (task id).Yields env (demanded (env.store.task? id) (.taskNotFound id)) env := by
  unfold task
  refine .bind (query_yields .findTask _ h) ?_
  cases env.store.task? id with
  | none => exact .throw _ _
  | some t => exact .pure _ _

/-- What stands on a page and what stands behind it is what stands from the page on. -/
theorem select_append_drop {α : Type} (p : Page) (items : List α) :
    p.select items ++ items.drop p.next.offset = items.drop p.offset := by
  rw [Page.select, Page.next, ← List.drop_drop, List.take_append_drop]

/-- A page that is not full holds the whole rest. -/
theorem select_of_short {α : Type} {p : Page} {items : List α}
    (h : (p.select items).length < p.limit) : p.select items = items.drop p.offset := by
  rw [Page.select] at h ⊢
  apply List.take_of_length_le
  simp only [List.length_take, List.length_drop] at h ⊢
  omega

/-- Reading on from a page yields all tasks from that page on, if there are more pages left than
tasks. -/
theorem tasksFrom_yields (i : Uuid) (pages : Nat) (page : Page) (h : env.outage = none)
    (hlimit : 0 < page.limit) (hpages : (env.store.tasksOf i).length - page.offset < pages) :
    (tasksFrom i pages page).Yields env (.ok ((env.store.tasksOf i).drop page.offset)) env := by
  induction pages generalizing page env with
  | zero => omega
  | succ pages ih =>
    rw [tasksFrom]
    refine .bind (query_yields .findTasksByInstance _ h) ?_
    show Operation.Yields (if (page.select (env.store.tasksOf i)).length < page.limit
      then _ else _) _ _ _
    have hlength : (page.select (env.store.tasksOf i)).length =
        min page.limit ((env.store.tasksOf i).length - page.offset) := by
      simp [Page.select]
    by_cases hlast : (page.select (env.store.tasksOf i)).length < page.limit
    · rw [if_pos hlast, ← select_of_short hlast]
      exact .pure _ _
    · rw [if_neg hlast]
      have hnext : (env.store.tasksOf i).length - page.next.offset < pages := by
        simp only [Page.next]
        omega
      refine .bind (ih page.next h hlimit hnext) ?_
      rw [← select_append_drop page]
      exact .pure _ _

/-- Reading all tasks of an instance page by page yields them all, in their order. -/
theorem allTasks_yields (i : Uuid) (pageSize : Nat) (h : env.outage = none) :
    (allTasks i pageSize).Yields env (.ok (env.store.tasksOf i)) env := by
  unfold allTasks
  refine .get fun _ => ?_
  have hcount : (env.store.tasksOf i).length ≤ env.store.tasks.length :=
    List.length_filter_le _ _
  have hlimit : 0 < (Page.first (max pageSize 1)).limit := by
    simp only [Page.first]
    omega
  exact tasksFrom_yields i (env.store.tasks.length + 1) (Page.first (max pageSize 1)) h hlimit
    (by simp only [Page.first]; omega)

end ApprovalWorkflow.Repository
