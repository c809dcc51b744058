import ApprovalWorkflow.Proofs.Requests

/-!
# Reading page by page

The tasks of an instance are read in pages until a page is not full. `Store.Reads` says this of a
loop that knows no bound on the number of pages: which pages it reads, and what they hold. For every
page size the loop comes to an end. It reads one page more than the tasks fill (`Store.reads_all`),
no offset lies beyond the number of tasks, and what it has read are the tasks of the instance in the
order of their creation.

So nothing that the engine or the management does depends on the page size. `x.Mirrors y` says that
without an outage `x` does exactly what `y` does, the log included, and that it works without an
outage from then on. The proofs follow the text of the operations on both sides at once.
-/

set_option autoImplicit false

namespace ApprovalWorkflow

-- powers are those of the core library, whatever else is imported
attribute [local instance (2000)] instPowNat

/-! ## The pages that are read -/

namespace Page

/-- The page behind so many pages of a size. -/
def behind (limit pages : Nat) : Page := ⟨pages * limit, limit⟩

/-- The first page is the one behind no page. -/
theorem first_eq_behind (limit : Nat) : first limit = behind limit 0 := by
  rw [behind, Nat.zero_mul]
  rfl

/-- Next to the page behind some pages is the one behind one page more. -/
theorem next_behind (limit pages : Nat) : (behind limit pages).next = behind limit (pages + 1) := by
  rw [next, behind, behind, Nat.succ_mul]

end Page

/-- From a page on, the tasks of an instance are read in these pages: a page that is not full is the
last one, and behind a full one the next page is read. -/
inductive Store.Reads (s : Store) (i : Uuid) : Page → List Page → List Task → Prop where
  | last {page : Page} (hshort : (s.tasksPage i page).length < page.limit) :
      s.Reads i page [page] (s.tasksPage i page)
  | onward {page : Page} {pages : List Page} {tasks : List Task}
      (hfull : ¬ (s.tasksPage i page).length < page.limit) (hrest : s.Reads i page.next pages tasks) :
      s.Reads i page (page :: pages) (s.tasksPage i page ++ tasks)

namespace Store

variable {s : Store} {i : Uuid} {page : Page} {pages others : List Page} {tasks found : List Task}

/-- There is one way to read on from a page. -/
theorem Reads.unique (h : s.Reads i page pages tasks) (h' : s.Reads i page others found) :
    others = pages ∧ found = tasks := by
  induction h generalizing others found with
  | last hshort =>
    cases h' with
    | last => exact ⟨rfl, rfl⟩
    | onward hfull => exact absurd hshort hfull
  | onward hfull hrest ih =>
    cases h' with
    | last hshort => exact absurd hshort hfull
    | onward _ hrest' =>
      obtain ⟨rfl, rfl⟩ := ih hrest'
      exact ⟨rfl, rfl⟩

/-- A page is not full if the tasks do not fill it and those before it. -/
theorem isShort_iff {limit : Nat} (hlimit : 0 < limit) (before : Nat) :
    (s.tasksPage i (.behind limit before)).length < limit ↔
      (s.tasksOf i).length / limit ≤ before := by
  have hlength : (s.tasksPage i (.behind limit before)).length =
      min limit ((s.tasksOf i).length - before * limit) := by
    simp [tasksPage, Page.select, Page.behind]
  rw [hlength, ← Nat.lt_succ_iff, Nat.div_lt_iff_lt_mul hlimit, Nat.succ_mul]
  omega

/-- Behind some full pages the rest is read in the pages that are still full and one more. The
induction is on the number of these pages. -/
theorem reads_behind {limit : Nat} (hlimit : 0 < limit) {before full : Nat}
    (hfull : before + full = (s.tasksOf i).length / limit) :
    s.Reads i (.behind limit before) ((List.range' before (full + 1)).map (Page.behind limit))
      ((s.tasksOf i).drop (before * limit)) := by
  induction full generalizing before with
  | zero =>
    have hshort := (isShort_iff (s := s) (i := i) hlimit before).mpr (by omega)
    have hall : s.tasksPage i (.behind limit before) = (s.tasksOf i).drop (before * limit) :=
      Repository.select_of_short hshort
    rw [← hall]
    exact .last hshort
  | succ full ih =>
    -- A page that the tasks just fill is full, so that an empty one is read behind it.
    have hpage : ¬ (s.tasksPage i (.behind limit before)).length < limit := by
      rw [isShort_iff hlimit]
      omega
    have hleft : before + 1 + full = (s.tasksOf i).length / limit := by omega
    have hrest := ih hleft
    rw [← Page.next_behind] at hrest
    have hitems : s.tasksPage i (.behind limit before) ++
        (s.tasksOf i).drop ((before + 1) * limit) = (s.tasksOf i).drop (before * limit) := by
      rw [Nat.succ_mul]
      exact Repository.select_append_drop (.behind limit before) (s.tasksOf i)
    rw [← hitems]
    exact .onward hpage hrest

/-- The pages in which all tasks of an instance are read. -/
def pagesOf (s : Store) (i : Uuid) (limit : Nat) : List Page :=
  (List.range ((s.tasksOf i).length / limit + 1)).map (Page.behind limit)

/-- Reading from the first page on comes to an end, and gives all tasks of the instance. -/
theorem reads_all {limit : Nat} (hlimit : 0 < limit) :
    s.Reads i (.first limit) (s.pagesOf i limit) (s.tasksOf i) := by
  have hreads := reads_behind (s := s) (i := i) hlimit (Nat.zero_add _)
  rw [Nat.zero_mul, List.drop_zero, ← List.range_eq_range', ← Page.first_eq_behind] at hreads
  exact hreads

/-- No page begins behind the tasks of the instance. -/
theorem offset_le_of_mem_pagesOf {limit : Nat} {page : Page} (h : page ∈ s.pagesOf i limit) :
    page.offset ≤ (s.tasksOf i).length := by
  obtain ⟨before, hbefore, rfl⟩ := List.mem_map.mp h
  have hle : before ≤ (s.tasksOf i).length / limit := by
    rw [List.mem_range] at hbefore
    omega
  calc before * limit ≤ (s.tasksOf i).length / limit * limit := Nat.mul_le_mul_right limit hle
    _ ≤ (s.tasksOf i).length := Nat.div_mul_le_self _ _

end Store

/-! ## Operations that do the same -/

namespace Operation

variable {α β : Type}

/-- Without an outage the operation does exactly what the other one does, and leaves no outage. -/
def Mirrors (x y : Operation α) : Prop :=
  ∀ env : Environment, env.outage = none →
    x.runIn env = y.runIn env ∧ (y.leaves env).outage = none

namespace Mirrors

/-- An operation that does not touch the outage. -/
theorem of_outage_eq {x : Operation α} (h : ∀ env, (x.leaves env).outage = env.outage) :
    x.Mirrors x := by
  intro env houtage
  rw [h env]
  exact ⟨rfl, houtage⟩

/-- Giving a value at once reads no page. -/
theorem pure (a : α) : (Pure.pure a : Operation α).Mirrors (Pure.pure a) :=
  of_outage_eq fun _ => rfl

/-- Failing reads no page. -/
theorem throw (e : EngineError) :
    (MonadExcept.throw e : Operation α).Mirrors (MonadExcept.throw e) := of_outage_eq fun _ => rfl

/-- Two operations in a row mirror two others if the parts do, as no outage comes in between. -/
theorem bind {x y : Operation α} {f g : α → Operation β} (hx : x.Mirrors y)
    (hf : ∀ a, (f a).Mirrors (g a)) : (x >>= f).Mirrors (y >>= g) := by
  intro env houtage
  obtain ⟨hsame, hleft⟩ := hx env houtage
  rw [leaves] at hleft ⊢
  rw [runIn_bind, runIn_bind, hsame]
  rcases hrun : y.runIn env with ⟨error | a, env'⟩
  · rw [hrun] at hleft
    exact ⟨rfl, hleft⟩
  · rw [hrun] at hleft
    exact hf a env' hleft

/-- What would come after a failure does not matter. -/
theorem throw_bind (e : EngineError) (f g : α → Operation β) :
    ((MonadExcept.throw e : Operation α) >>= f).Mirrors (MonadExcept.throw e >>= g) :=
  fun _ houtage => ⟨rfl, houtage⟩

/-- To attempt an operation mirrors to attempt one that it mirrors. -/
theorem attempt {x y : Operation α} (h : x.Mirrors y) :
    (Operation.attempt x).Mirrors (Operation.attempt y) := by
  intro env houtage
  obtain ⟨hsame, hleft⟩ := h env houtage
  have hrun : (Operation.attempt x).runIn env = (.ok (x.runIn env).1, (x.runIn env).2) := rfl
  rw [hrun, hsame]
  exact ⟨rfl, hleft⟩

/-- Reading the clock mirrors itself. -/
theorem now : Operation.now.Mirrors Operation.now := of_outage_eq fun _ => rfl

/-- Drawing an id mirrors itself. -/
theorem freshId (kind : RecordKind) : (Operation.freshId kind).Mirrors (Operation.freshId kind) :=
  of_outage_eq fun _ => rfl

/-- Writing to the log mirrors itself. -/
theorem say (level : LogLevel) (text : String) :
    (Operation.say level text).Mirrors (Operation.say level text) := of_outage_eq fun _ => rfl

/-- Lifting a result mirrors itself. -/
theorem lift (x : Except EngineError α) : (Operation.lift x).Mirrors (Operation.lift x) := by
  cases x with
  | ok a => exact pure a
  | error e => exact throw e

/-- Taking over the lines of a logged value mirrors itself. -/
theorem heed (x : Logged α) : (Operation.heed x).Mirrors (Operation.heed x) :=
  of_outage_eq fun _ => rfl

/-- Taking over the lines of a logged result mirrors itself. -/
theorem heedResult (x : Logged (Except EngineError α)) :
    (Operation.heedResult x).Mirrors (Operation.heedResult x) := .bind (.heed x) fun r => .lift r

/-- Announcing a notice mirrors itself, whether or not the notifier reports it. -/
theorem announce (n : Notifier) (notice : Notice) :
    (Operation.announce n notice).Mirrors (Operation.announce n notice) := by
  cases n <;> exact of_outage_eq fun _ => rfl

/-- A call of the store mirrors itself, and without an outage it leaves none. -/
theorem perform (call : StoreCall) (run : Store → Except EngineError (α × Store)) :
    (Operation.perform call run).Mirrors (Operation.perform call run) := by
  intro env houtage
  refine ⟨rfl, ?_⟩
  rw [leaves, perform_of_no_outage call run env houtage]
  rcases run env.store with _ | ⟨a, s⟩ <;> exact houtage

/-- A look into the store mirrors itself. -/
theorem query (call : StoreCall) (look : Store → α) :
    (Operation.query call look).Mirrors (Operation.query call look) := perform call _

/-- A change of the store mirrors itself. -/
theorem change (call : StoreCall) (run : Store → Except EngineError Store) :
    (Operation.change call run).Mirrors (Operation.change call run) := perform call _

end Mirrors

end Operation

namespace Repository

open Operation

variable {env : Environment} {i : Uuid} {page : Page} {pages : List Page} {tasks : List Task}

/-- Without an outage a page is read from the store, and nothing changes. -/
theorem tasksPage_runIn (h : env.outage = none) (i : Uuid) (page : Page) :
    (tasksPage i page).runIn env = (.ok (env.store.tasksPage i page), env) :=
  perform_of_no_outage .findTasksByInstance (fun s => .ok (s.tasksPage i page, s)) env h

/-- Where reading on comes to an end, a bound that allows for its pages makes no difference. -/
theorem tasksFrom_runIn (hreads : env.store.Reads i page pages tasks) (h : env.outage = none)
    {bound : Nat} (hbound : pages.length ≤ bound) :
    (tasksFrom i bound page).runIn env = (.ok tasks, env) := by
  -- The bound counts the pages that may still be read, and the one that is read now is among them.
  induction hreads generalizing bound with
  | @last page hshort =>
    obtain ⟨bound, rfl⟩ := Nat.exists_eq_add_of_le' hbound
    rw [List.length_singleton, tasksFrom, runIn_bind, tasksPage_runIn h]
    dsimp only
    rw [if_pos hshort]
    rfl
  | @onward page pages tasks hfull hrest ih =>
    obtain ⟨bound, rfl⟩ := Nat.exists_eq_add_of_le' hbound
    rw [List.length_cons, ← Nat.add_assoc, tasksFrom, runIn_bind, tasksPage_runIn h]
    dsimp only
    rw [if_neg hfull, runIn_bind, ih (Nat.le_add_left _ _)]
    rfl

/-- Reading all tasks gives all of them, whatever the page size. -/
theorem allTasks_runIn (h : env.outage = none) (i : Uuid) (pageSize : Nat) :
    (allTasks i pageSize).runIn env = (.ok (env.store.tasksOf i), env) := by
  have hlimit : 0 < max pageSize 1 := by omega
  have hcount : (env.store.tasksOf i).length ≤ env.store.tasks.length := List.length_filter_le _ _
  have hpages : (env.store.pagesOf i (max pageSize 1)).length ≤ env.store.tasks.length + 1 := by
    have := Nat.div_le_self (env.store.tasksOf i).length (max pageSize 1)
    rw [Store.pagesOf, List.length_map, List.length_range]
    omega
  exact tasksFrom_runIn (Store.reads_all hlimit) h hpages

/-- Reading all tasks of an instance mirrors reading them with any other page size. Both give what
the store has, however many pages they take. -/
theorem allTasks_mirrors (i : Uuid) (pageSize other : Nat) :
    (allTasks i pageSize).Mirrors (allTasks i other) := by
  intro env h
  rw [leaves, allTasks_runIn h, allTasks_runIn h]
  exact ⟨rfl, h⟩

/-- Finding a workflow mirrors itself. -/
theorem workflow_mirrors (id : Uuid) : (workflow id).Mirrors (workflow id) := by
  refine .bind (.query _ _) fun found => ?_
  cases found with
  | none => exact .throw _
  | some w => exact .pure w

/-- Finding an instance mirrors itself. -/
theorem instanceOf_mirrors (id : Uuid) : (instanceOf id).Mirrors (instanceOf id) := by
  refine .bind (.query _ _) fun found => ?_
  cases found with
  | none => exact .throw _
  | some i => exact .pure i

/-- Finding a task mirrors itself. -/
theorem task_mirrors (id : Uuid) : (task id).Mirrors (task id) := by
  refine .bind (.query _ _) fun found => ?_
  cases found with
  | none => exact .throw _
  | some t => exact .pure t

end Repository

/-! ## The engine -/

/-- The engine with another page size. -/
def Engine.withPageSize (e : Engine) (pageSize : Nat) : Engine :=
  { e with settings := { e.settings with pageSize := pageSize } }

namespace Engine

open Operation Repository

variable {e : Engine} {n : Nat} {i : Instance} {d : Definition} {s : Step} {history : List Task}

/-- The engine reads the same tasks of an instance with every page size. -/
theorem tasksOf_mirrors (i : Uuid) : ((e.withPageSize n).tasksOf i).Mirrors (e.tasksOf i) :=
  allTasks_mirrors i _ _

/-- The engine finds the same next step with every page size. -/
theorem nextStep_mirrors (d : Definition) (s : Step) (i : Instance) :
    ((e.withPageSize n).nextStep d s i).Mirrors (e.nextStep d s i) :=
  .bind (tasksOf_mirrors i.id) fun _ => .heed _

/-- The engine opens the same task with every page size. -/
theorem openTask_mirrors (i : Instance) (s : Step) (key : String) (parent : Option String)
    (history : List Task) :
    ((e.withPageSize n).openTask i s key parent history).Mirrors
      (e.openTask i s key parent history) := by
  refine .bind (.freshId _) fun id => .bind .now fun now => .bind (.heed _) fun t => ?_
  refine .bind (.change _ _) fun _ => .bind (.say _ _) fun _ => ?_
  exact .bind (.announce _ _) fun _ => .pure t

/-- The engine completes an instance in the same way with every page size. -/
theorem completeInstance_mirrors (i : Instance) :
    ((e.withPageSize n).completeInstance i).Mirrors (e.completeInstance i) := by
  refine .bind (tasksOf_mirrors i.id) fun tasks => .bind .now fun now => ?_
  refine .bind (.lift _) fun i => .bind (.change _ _) fun _ => ?_
  exact .bind (.say _ _) fun _ => .announce _ _

/-- The engine opens the same branches with every page size. -/
theorem openBranches_mirrors (i : Instance) (parallel : Step) (history : List Task)
    (branches : List Step) :
    ((e.withPageSize n).openBranches i parallel history branches).Mirrors
      (e.openBranches i parallel history branches) := by
  induction branches with
  | nil => exact .pure ()
  | cons b branches ih => exact .bind (openTask_mirrors i _ _ _ _) fun _ => ih

/-- The engine executes a step in the same way with every page size, if what comes behind it is
the same. -/
theorem execute_mirrors (i : Instance) (s : Step) {onward onward' : Operation Unit}
    (honward : onward.Mirrors onward') :
    ((e.withPageSize n).execute i s onward).Mirrors (e.execute i s onward') := by
  unfold execute
  refine .bind (.say _ _) fun _ => ?_
  cases s.kind with
  | userTask params =>
    exact .bind (tasksOf_mirrors i.id) fun tasks =>
      .bind (openTask_mirrors i _ _ _ _) fun _ => .pure ()
  | process => exact honward
  | parallel branches =>
    refine .bind (tasksOf_mirrors i.id) fun tasks => .bind (.heed _) fun chosen => ?_
    split
    · exact .bind (.say _ _) fun _ => honward
    · exact openBranches_mirrors i _ _ _
  | complete => exact completeInstance_mirrors i
  | unknown typeName => exact .bind (.say _ _) fun _ => honward

/-- The engine advances in the same way with every page size. The induction is on the steps that
are left to it. -/
theorem advance_mirrors (d : Definition) (i : Instance) (remaining : Nat) (s : Step) :
    ((e.withPageSize n).advance d i remaining s).Mirrors (e.advance d i remaining s) := by
  induction remaining generalizing s with
  | zero => exact .throw _
  | succ remaining ih =>
    refine .bind (nextStep_mirrors d s i) fun next => ?_
    cases next with
    | none => exact .say _ _
    | some next => exact execute_mirrors i next (ih next)

/-- The engine starts an instance in the same way with every page size. -/
theorem start_mirrors (id : Uuid) : ((e.withPageSize n).start id).Mirrors (e.start id) := by
  refine .bind (instanceOf_mirrors id) fun i => .bind (.lift _) fun _ => ?_
  refine .bind (workflow_mirrors _) fun w => .bind (.lift _) fun _ => ?_
  refine .bind (.heedResult _) fun d => ?_
  cases d.steps with
  | nil => exact .throw _
  | cons first others =>
    refine .bind .now fun now => .bind (.change _ _) fun _ => .bind (.say _ _) fun _ => ?_
    exact execute_mirrors _ first (advance_mirrors d _ _ first)

/-- Finding the instance that is going on mirrors itself. -/
theorem runningInstance_mirrors (id : Uuid) :
    (runningInstance id).Mirrors (runningInstance id) := by
  refine .bind (instanceOf_mirrors id) fun i => .bind (.lift _) fun _ => ?_
  exact .bind (workflow_mirrors _) fun w => .bind (.heedResult _) fun d => .pure (i, d)

/-- The engine fires a join in the same way with every page size. -/
theorem fireJoin_mirrors (i : Instance) (parallel : Step) :
    ((e.withPageSize n).fireJoin i parallel).Mirrors (e.fireJoin i parallel) := by
  refine .bind (tasksOf_mirrors i.id) fun tasks => ?_
  cases parallel.resolvedSiblings? tasks with
  | none => exact .bind (.say _ _) fun _ => .pure none
  | some ids =>
    refine .bind .now fun now => ?_
    cases i.claimJoin? parallel.id ids now with
    | none => exact .bind (.say _ _) fun _ => .pure none
    | some i => exact .bind (.change _ _) fun _ => .bind (.say _ _) fun _ => .pure (some i)

/-- The engine goes on behind a task in the same way with every page size. -/
theorem continueAfter_mirrors (t : Task) :
    ((e.withPageSize n).continueAfter t).Mirrors (e.continueAfter t) := by
  refine .bind (runningInstance_mirrors _) fun p => ?_
  obtain ⟨i, d⟩ := p
  refine .bind (.lift _) fun current => ?_
  split
  · refine .bind (fireJoin_mirrors i current) fun fired => ?_
    cases fired with
    | none => exact .pure ()
    | some i => exact advance_mirrors d i _ current
  · exact advance_mirrors d i _ current

/-- The engine goes back from a rejected task in the same way with every page size. -/
theorem goBack_mirrors (t : Task) : ((e.withPageSize n).goBack t).Mirrors (e.goBack t) := by
  refine .bind (runningInstance_mirrors _) fun p => ?_
  obtain ⟨i, d⟩ := p
  refine .bind (tasksOf_mirrors i.id) fun tasks => .bind .now fun rejectedAt => ?_
  dsimp only
  cases previousTask? t (t.completedAt.getD rejectedAt) tasks with
  | none => exact .throw_bind _ _ _
  | some previous =>
    refine .bind (.pure previous) fun previous => ?_
    cases d.resolve? previous.key with
    | none => exact .throw_bind _ _ _
    | some origin =>
      refine .bind (.pure origin) fun origin => .bind (.freshId _) fun id => ?_
      refine .bind .now fun now => .bind (.heed _) fun built => .bind (.change _ _) fun _ => ?_
      refine .bind (.say _ _) fun _ => ?_
      split <;> exact .bind (.announce _ _) fun _ => .pure _

/-- The engine moves on from a completed task in the same way with every page size. -/
theorem move_mirrors (t : Task) : ((e.withPageSize n).move t).Mirrors (e.move t) := by
  unfold move
  split
  · exact .bind (goBack_mirrors t) fun _ => .pure ()
  · exact continueAfter_mirrors t

/-- A progression is the same with every page size, and so is the failure that it notes. -/
theorem progress_mirrors (id : Uuid) :
    ((e.withPageSize n).progress id).Mirrors (e.progress id) := by
  refine .bind (task_mirrors id) fun _ => .bind (task_mirrors id) fun t => ?_
  split
  · exact .bind (.say _ _) fun _ => .pure t
  split
  · exact .throw _
  · refine .bind (.attempt (move_mirrors t)) fun outcome => ?_
    cases outcome with
    | ok _ => exact .bind (.change _ _) fun _ => .pure _
    | error error => exact .bind (.change _ _) fun _ => .throw error

end Engine

/-! ## The management of tasks and workflows -/

namespace Tasks

open Operation Engine Repository

variable {e : Engine} {n : Nat}

/-- The open tasks of an instance are the same with every page size. -/
theorem openTasks_mirrors (run : Uuid) :
    (openTasks (e.withPageSize n) run).Mirrors (openTasks e run) :=
  .bind (tasksOf_mirrors run) fun _ => .pure _

/-- The stalled tasks of an instance are the same with every page size. -/
theorem stalled_mirrors (run : Uuid) :
    (stalled (e.withPageSize n) run).Mirrors (stalled e run) :=
  .bind (tasksOf_mirrors run) fun _ => .pure _

/-- Reading the history of a task mirrors itself. -/
theorem history_mirrors (id : Uuid) : (history id).Mirrors (history id) :=
  .bind (task_mirrors id) fun _ => .query _ _

/-- Storing a task with its entry mirrors itself. -/
theorem store_mirrors (t : Task) (entry : Uuid → Timestamp → HistoryEntry) :
    (store t entry).Mirrors (store t entry) := by
  refine .bind (.change _ _) fun _ => .bind (.freshId _) fun id => ?_
  exact .bind .now fun now => .change _ _

/-- A claim is the same with every page size. -/
theorem claim_mirrors (id : Uuid) (a : Actor) :
    (claim (e.withPageSize n) id a).Mirrors (claim e id a) := by
  refine .bind (task_mirrors id) fun t => ?_
  dsimp only
  split
  · exact .throw_bind _ _ _
  split
  · exact .throw_bind _ _ _
  refine .bind .now fun now => .bind (.lift _) fun u => .bind (store_mirrors u _) fun _ => ?_
  exact .bind (.say _ _) fun _ => .bind (.announce _ _) fun _ => .pure u

/-- Finishing a task is the same with every page size. -/
theorem finish_mirrors (id : Uuid) (a : Actor) (c : Completion) :
    (finish (e.withPageSize n) id a c).Mirrors (finish e id a c) := by
  refine .bind (task_mirrors id) fun t => ?_
  dsimp only
  split
  · exact .throw_bind _ _ _
  split
  · exact .throw_bind _ _ _
  refine .bind .now fun now => .bind (.lift _) fun u => .bind (store_mirrors _ _) fun _ => ?_
  exact .bind (.say _ _) fun _ => .bind (.announce _ _) fun _ => .pure _

/-- A completion is the same with every page size, and so is the progression behind it. -/
theorem complete_mirrors (id : Uuid) (a : Actor) (c : Completion) :
    (complete (e.withPageSize n) id a c).Mirrors (complete e id a c) := by
  refine .bind (finish_mirrors id a c) fun t => ?_
  refine .bind (.attempt (progress_mirrors t.id)) fun outcome => ?_
  cases outcome with
  | ok t => exact .pure t
  | error error => exact .bind (.say _ _) fun _ => task_mirrors t.id

/-- A delegation is the same with every page size. -/
theorem delegate_mirrors (id : Uuid) (a : Actor) (toUser : String) :
    (delegate (e.withPageSize n) id a toUser).Mirrors (delegate e id a toUser) := by
  refine .bind (task_mirrors id) fun t => ?_
  dsimp only
  split
  · exact .throw_bind _ _ _
  refine .bind (.lift _) fun u => .bind (store_mirrors u _) fun _ => .bind (.say _ _) fun _ => ?_
  exact .bind (.announce _ _) fun _ => .pure u

/-- A retry is the same with every page size. -/
theorem retry_mirrors (id : Uuid) : (retry (e.withPageSize n) id).Mirrors (retry e id) := by
  refine .bind (task_mirrors id) fun t => ?_
  dsimp only
  split
  · exact .throw_bind _ _ _
  · exact .bind (.say _ _) fun _ => progress_mirrors id

end Tasks

namespace Workflows

open Operation Engine Repository

variable {e : Engine} {n : Nat}

/-- Creating a workflow mirrors itself. -/
theorem create_mirrors (name description definition : String) :
    (create name description definition).Mirrors (create name description definition) := by
  refine .bind (.heedResult _) fun _ => .bind (.freshId _) fun id => .bind .now fun now => ?_
  exact .bind (.change _ _) fun _ => .bind (.say _ _) fun _ => .pure _

/-- Changing the status of a workflow mirrors itself. -/
theorem apply_mirrors (a : WorkflowAction) (id : Uuid) : (apply a id).Mirrors (apply a id) := by
  refine .bind (workflow_mirrors id) fun w => .bind .now fun now => .bind (.lift _) fun w => ?_
  exact .bind (.change _ _) fun _ => .bind (.say _ _) fun _ => .pure w

/-- Deleting a workflow mirrors itself. -/
theorem delete_mirrors (id : Uuid) : (delete id).Mirrors (delete id) := by
  refine .bind (workflow_mirrors id) fun w => ?_
  dsimp only
  split
  · exact .throw_bind _ _ _
  · exact .bind (.change _ _) fun _ => .say _ _

/-- Replacing the definition of a workflow mirrors itself. -/
theorem updateDefinition_mirrors (id : Uuid) (definition : String) :
    (updateDefinition id definition).Mirrors (updateDefinition id definition) := by
  refine .bind (workflow_mirrors id) fun w => .bind .now fun now => ?_
  refine .bind (.heedResult _) fun w => .bind (.change _ _) fun _ => ?_
  exact .bind (.say _ _) fun _ => .pure w

/-- Storing a new instance mirrors itself. -/
theorem newInstance_mirrors (workflow : Uuid) (input : Json) :
    (newInstance workflow input).Mirrors (newInstance workflow input) :=
  .bind (.freshId _) fun _ => .bind (.heed _) fun _ => .bind .now fun _ => .pure _

/-- Recording a failed start mirrors itself. -/
theorem recordFailure_mirrors (id : Uuid) (error : EngineError) :
    (recordFailure id error).Mirrors (recordFailure id error) := by
  refine .bind (.say _ _) fun _ => .bind (instanceOf_mirrors id) fun i => .bind .now fun now => ?_
  cases i.fail error.message now with
  | ok failed => exact .change _ _
  | error _ => exact .pure ()

/-- Starting an instance is the same with every page size, and so is the failure that it records.
-/
theorem startInstance_mirrors (id : Uuid) (input : Json) :
    (startInstance (e.withPageSize n) id input).Mirrors (startInstance e id input) := by
  refine .bind (workflow_mirrors id) fun w => .bind (.lift _) fun _ => ?_
  refine .bind (newInstance_mirrors _ _) fun i => .bind (.change _ _) fun _ => ?_
  refine .bind (.attempt (start_mirrors i.id)) fun outcome => ?_
  cases outcome with
  | ok _ => exact instanceOf_mirrors i.id
  | error error => exact .bind (recordFailure_mirrors _ _) fun _ => .throw error

/-- Cancelling an instance mirrors itself. -/
theorem cancelInstance_mirrors (id : Uuid) : (cancelInstance id).Mirrors (cancelInstance id) := by
  refine .bind (instanceOf_mirrors id) fun i => .bind .now fun now => .bind (.lift _) fun i => ?_
  exact .bind (.change _ _) fun _ => .bind (.say _ _) fun _ => .pure i

end Workflows

/-- What the engine and the management of workflows and tasks do for their callers, with the type of
what they give. -/
inductive Service : Type → Type where
  | createWorkflow (name description definition : String) : Service Workflow
  | workflow (id : Uuid) : Service Workflow
  | workflows : Service (List Workflow)
  | applyAction (action : WorkflowAction) (workflow : Uuid) : Service Workflow
  | deleteWorkflow (workflow : Uuid) : Service Unit
  | updateDefinition (workflow : Uuid) (definition : String) : Service Workflow
  | startInstance (workflow : Uuid) (input : Json) : Service Instance
  | instances (workflow : Uuid) : Service (List Instance)
  | run (id : Uuid) : Service Instance
  | cancelInstance (run : Uuid) : Service Instance
  | task (id : Uuid) : Service Task
  | openTasks (run : Uuid) : Service (List Task)
  | stalled (run : Uuid) : Service (List Task)
  | history (task : Uuid) : Service (List HistoryEntry)
  | claim (task : Uuid) (a : Actor) : Service Task
  | complete (task : Uuid) (a : Actor) (c : Completion) : Service Task
  | delegate (task : Uuid) (a : Actor) (toUser : String) : Service Task
  | retry (task : Uuid) : Service Task
  | start (run : Uuid) : Service Unit
  | progress (task : Uuid) : Service Task
  | continueAfter (t : Task) : Service Unit
  | goBack (t : Task) : Service Task
  | nextStep (d : Definition) (s : Step) (i : Instance) : Service (Option Step)

/-- The service as an operation. -/
def Service.perform (e : Engine) : {α : Type} → Service α → Operation α
  | _, .createWorkflow name text definition => Workflows.create name text definition
  | _, .workflow id => Workflows.get id
  | _, .workflows => Workflows.list
  | _, .applyAction action id => Workflows.apply action id
  | _, .deleteWorkflow id => Workflows.delete id
  | _, .updateDefinition id definition => Workflows.updateDefinition id definition
  | _, .startInstance id input => Workflows.startInstance e id input
  | _, .instances id => Workflows.instances id
  | _, .run id => Workflows.getInstance id
  | _, .cancelInstance id => Workflows.cancelInstance id
  | _, .task id => Tasks.get id
  | _, .openTasks id => Tasks.openTasks e id
  | _, .stalled id => Tasks.stalled e id
  | _, .history id => Tasks.history id
  | _, .claim id a => Tasks.claim e id a
  | _, .complete id a c => Tasks.complete e id a c
  | _, .delegate id a toUser => Tasks.delegate e id a toUser
  | _, .retry id => Tasks.retry e id
  | _, .start id => e.start id
  | _, .progress id => e.progress id
  | _, .continueAfter t => e.continueAfter t
  | _, .goBack t => e.goBack t
  | _, .nextStep d s i => e.nextStep d s i

/-- No service depends on the page size. -/
theorem Service.perform_mirrors (e : Engine) (n : Nat) {α : Type} (x : Service α) :
    (x.perform (e.withPageSize n)).Mirrors (x.perform e) := by
  cases x with
  | createWorkflow name description definition => exact Workflows.create_mirrors _ _ _
  | workflow id => exact Repository.workflow_mirrors id
  | workflows => exact .query _ _
  | applyAction action workflow => exact Workflows.apply_mirrors action workflow
  | deleteWorkflow workflow => exact Workflows.delete_mirrors workflow
  | updateDefinition workflow definition => exact Workflows.updateDefinition_mirrors _ _
  | startInstance workflow input => exact Workflows.startInstance_mirrors workflow input
  | instances workflow => exact .query .listInstances fun s => s.listInstances workflow
  | run id => exact Repository.instanceOf_mirrors id
  | cancelInstance run => exact Workflows.cancelInstance_mirrors run
  | task id => exact Repository.task_mirrors id
  | openTasks run => exact Tasks.openTasks_mirrors run
  | stalled run => exact Tasks.stalled_mirrors run
  | history task => exact Tasks.history_mirrors task
  | claim task a => exact Tasks.claim_mirrors task a
  | complete task a c => exact Tasks.complete_mirrors task a c
  | delegate task a toUser => exact Tasks.delegate_mirrors task a toUser
  | retry task => exact Tasks.retry_mirrors task
  | start run => exact Engine.start_mirrors run
  | progress task => exact Engine.progress_mirrors task
  | continueAfter t => exact Engine.continueAfter_mirrors t
  | goBack t => exact Engine.goBack_mirrors t
  | nextStep d s i => exact Engine.nextStep_mirrors d s i

/-! ## Runs -/

/-- An operation whose result does not count does what it does. -/
theorem Operation.Mirrors.discard {α : Type} {x y : Operation α} (h : x.Mirrors y) :
    (do let _ ← x : Operation Unit).Mirrors (do let _ ← y) := h.bind fun _ => .pure ()

/-- An inquiry is answered in the same way with every page size. -/
theorem Inquiry.perform_mirrors {e : Engine} {n : Nat} (q : Inquiry) :
    (q.perform (e.withPageSize n)).Mirrors (q.perform e) := by
  cases q with
  | workflow id => exact ((Service.workflow id).perform_mirrors e n).discard
  | workflows => exact (Service.workflows.perform_mirrors e n).discard
  | instances id => exact ((Service.instances id).perform_mirrors e n).discard
  | run id => exact ((Service.run id).perform_mirrors e n).discard
  | task id => exact ((Service.task id).perform_mirrors e n).discard
  | openTasks id => exact ((Service.openTasks id).perform_mirrors e n).discard
  | stalled id => exact ((Service.stalled id).perform_mirrors e n).discard
  | history id => exact ((Service.history id).perform_mirrors e n).discard

/-- A request is served in the same way with every page size. -/
theorem Request.perform_mirrors {e : Engine} {n : Nat} (r : Request) :
    (r.perform (e.withPageSize n)).Mirrors (r.perform e) := by
  cases r with
  | createWorkflow name description definition =>
    exact ((Service.createWorkflow name description definition).perform_mirrors e n).discard
  | applyAction action workflow =>
    exact ((Service.applyAction action workflow).perform_mirrors e n).discard
  | deleteWorkflow workflow => exact (Service.deleteWorkflow workflow).perform_mirrors e n
  | updateDefinition workflow definition =>
    exact ((Service.updateDefinition workflow definition).perform_mirrors e n).discard
  | startInstance workflow input =>
    exact ((Service.startInstance workflow input).perform_mirrors e n).discard
  | cancelInstance run => exact ((Service.cancelInstance run).perform_mirrors e n).discard
  | claim task a => exact ((Service.claim task a).perform_mirrors e n).discard
  | complete task a c => exact ((Service.complete task a c).perform_mirrors e n).discard
  | delegate task a toUser => exact ((Service.delegate task a toUser).perform_mirrors e n).discard
  | retry task => exact ((Service.retry task).perform_mirrors e n).discard
  | inquire q => exact q.perform_mirrors
  | finish task a c => exact (Tasks.finish_mirrors task a c).discard
  | progress task => exact ((Service.progress task).perform_mirrors e n).discard

/-- Requests lead to the same environment, whatever the page size. -/
theorem Environment.serveAll_withPageSize {env : Environment} (h : env.outage = none) (e : Engine)
    (n : Nat) (calls : List Call) : env.serveAll (e.withPageSize n) calls = env.serveAll e calls := by
  induction calls generalizing env with
  | nil => rfl
  | cons c calls ih =>
    obtain ⟨hsame, hleft⟩ :=
      c.request.perform_mirrors (e := e) (n := n) { env with now := c.time } h
    have hserve : env.serve (e.withPageSize n) c = env.serve e c := by
      rw [serve, serve, Operation.leaves, Operation.leaves, hsame]
    rw [serveAll, serveAll, hserve]
    exact ih hleft

/-- For every page size, reading the tasks of an instance page by page comes to an end and gives
exactly the tasks of the instance, in the order of their creation. The pages that are read begin
one page size after the other; the bound on their number plays no role, and no offset overflows.
So every service gives the same and leaves the same environment with any two page sizes, and so
does every run of requests. -/
theorem page_size_immaterial (e : Engine) (pageSize : Nat) {env : Environment}
    (h : env.outage = none) :
    (∀ i,
      let tasks := env.store.tasks.filter fun t => t.instanceId == i
      let limit := max pageSize 1
      let pages := (List.range (tasks.length / limit + 1)).map fun k => (⟨k * limit, limit⟩ : Page)
      (Repository.allTasks i pageSize).runIn env = (.ok tasks, env) ∧
        (∀ read found, env.store.Reads i (.first limit) read found ↔
          read = pages ∧ found = tasks) ∧
        (∀ bound, pages.length ≤ bound →
          (Repository.tasksFrom i bound (.first limit)).runIn env = (.ok tasks, env)) ∧
        (∀ page ∈ pages, page.offset ≤ tasks.length) ∧
        (env.store.tasks.length < 2 ^ (64 : Nat) → ∀ page ∈ pages, page.offset < 2 ^ (64 : Nat))) ∧
    (∀ {α : Type} (x : Service α),
      (x.perform (e.withPageSize pageSize)).runIn env = (x.perform e).runIn env) ∧
    ∀ calls, env.serveAll (e.withPageSize pageSize) calls = env.serveAll e calls := by
  refine ⟨fun i => ?_, fun x => (x.perform_mirrors e pageSize env h).1,
    Environment.serveAll_withPageSize h e pageSize⟩
  intro tasks limit pages
  have hlimit : 0 < limit := by omega
  have hreads : env.store.Reads i (.first limit) pages tasks := Store.reads_all hlimit
  have hoffsets : ∀ page ∈ pages, page.offset ≤ tasks.length :=
    fun page hpage => Store.offset_le_of_mem_pagesOf hpage
  refine ⟨Repository.allTasks_runIn h i pageSize, fun read found => ⟨hreads.unique, ?_⟩,
    fun bound => Repository.tasksFrom_runIn hreads h, hoffsets, fun hcount page hpage => ?_⟩
  · rintro ⟨rfl, rfl⟩
    exact hreads
  · calc page.offset ≤ tasks.length := hoffsets page hpage
      _ ≤ env.store.tasks.length := List.length_filter_le _ _
      _ < 2 ^ (64 : Nat) := hcount

/-- Two branches are open. -/
def branchingRun : List Call :=
  let workflow := IdSource.issue 0 .workflow 0
  Call.atOnce ⟨0, 0⟩
    [.createWorkflow "w" "" ("\x7b\"steps\":[\x7b\"id\":\"p\",\"type\":\"parallel\"," ++
        "\"parallelTasks\":[[\"b\",\"user_task\"],[\"c\",\"user_task\"]]\x7d]\x7d"),
      .applyAction .activate workflow, .startInstance workflow .null]

/-- Two tasks fill a page of two, so that another one is read. -/
theorem page_size_immaterial_filled :
    let env := (Environment.fresh 0 ⟨0, 0⟩).serveAll .default branchingRun
    let run := IdSource.issue 0 .run 0
    let request := Service.complete (IdSource.issue 0 .task 1) ⟨"u", []⟩ ⟨.approved, .null, none⟩
    (∃ tasks, tasks.length = 2 ∧ (Repository.allTasks run 2).runIn env = (.ok tasks, env) ∧
      env.store.Reads run (.first 2) [⟨0, 2⟩, ⟨2, 2⟩] tasks) ∧
    (request.perform (Engine.default.withPageSize 2)).runIn env =
      (request.perform .default).runIn env := by
  intro env run request
  have houtage : env.outage = none := by decide +kernel
  have hcount : (env.store.tasks.filter fun t => t.instanceId == run).length = 2 := by
    decide +kernel
  obtain ⟨hpages, hservices, -⟩ := page_size_immaterial .default 2 houtage
  obtain ⟨hall, hreads, -⟩ := hpages run
  rw [hcount] at hreads
  exact ⟨⟨_, hcount, hall, (hreads _ _).mpr ⟨rfl, rfl⟩⟩, hservices request⟩

end ApprovalWorkflow
