import ApprovalWorkflow.Proofs.Storable

/-!
# What runs keep of the records

A `RecordInvariant` says of each kind of record what holds of it, and that everything the
management and the engine make of records keeps it, one rule for each way of making a record.
`x.Keeps I Q` says that the operation `x`, begun while the clock shows a regular time and the
records are as `I` says, leaves it like that, whatever its outcome, and that what it gives has the
property `Q`. The proofs follow the text of the operations, one rule for each way of putting them
together (`Keeps.bind`, `Keeps.query`, `Keeps.change`); nothing is said about the order of the
calls or about where ids come from.

Every run of orders keeps such an invariant, with or without outages, as long as the values that it
is given are as the invariant says (`Environment.followAll_meets`). That records can be stored is
one (`RecordInvariant.storable`), and there the values have to be sorted, which is what objects in
memory are.
-/

set_option autoImplicit false

namespace ApprovalWorkflow

/-- What holds of the records of each kind, and of the values that come with requests, together
with the proof that all records that are made of these are so, too. -/
structure RecordInvariant where
  workflow : Workflow → Prop
  run : Instance → Prop
  task : Task → Prop
  entry : HistoryEntry → Prop
  input : Json → Prop
  output : Json → Prop
  draft : ∀ {now : Timestamp}, now.IsRegular → ∀ id name description definition,
    workflow (.draft id name description definition now)
  apply : ∀ {now v w a}, workflow v → now.IsRegular → v.apply a now = .ok w → workflow w
  replaceDefinition : ∀ {now v w definition}, workflow v → now.IsRegular →
    (v.replaceDefinition definition now).value = .ok w → workflow w
  begin : ∀ {now v}, input v → now.IsRegular → ∀ id workflow,
    run (.new id workflow (normalizeInput v).value now)
  restart : ∀ {now i}, run i → now.IsRegular → run { i with startedAt := now }
  finish : ∀ {now i j target action}, run i → now.IsRegular → i.finish target action now = .ok j →
    run j
  fail : ∀ {now i j reason}, run i → now.IsRegular → i.fail reason now = .ok j → run j
  complete : ∀ {now i j tasks}, run i → (∀ t ∈ tasks, task t) → now.IsRegular →
    i.complete (Engine.completedOutputs tasks) now = .ok j → run j
  claimJoin : ∀ {now i j step ids}, run i → now.IsRegular → i.claimJoin? step ids now = some j →
    run j
  build : ∀ {now i s history}, run i → s.HasReadForm → (∀ t ∈ history, task t) → now.IsRegular →
    ∀ id key parent labels, task (Task.build id i s key parent history labels now).value
  assign : ∀ {t}, task t → ∀ assignee, task { t with assignee := assignee }
  markRejected : ∀ {t}, task t → ∀ rejected rejectedAt, task (t.markRejected rejected rejectedAt)
  mark : ∀ {t}, task t → ∀ progression, task { t with progression := progression }
  claim : ∀ {now t u user}, task t → now.IsRegular → t.claim user now = .ok u → task u
  finishTask : ∀ {now t u v comment result}, task t → now.IsRegular → output v →
    t.complete v comment result now = .ok u → task u
  delegate : ∀ {t u user}, task t → t.delegate user = .ok u → task u
  claimed : ∀ {now t}, task t → now.IsRegular → ∀ id actor, entry (.claimed id t actor now)
  completed : ∀ {now t}, task t → now.IsRegular → ∀ id actor, entry (.completed id t actor now)
  delegated : ∀ {now t}, task t → now.IsRegular → ∀ id actor toUser,
    entry (.delegated id t actor toUser now)

variable {I : RecordInvariant}

/-! ## Stores -/

/-- All records of the store are as the invariant says, and no two workflows or instances have the
same identifier. -/
structure Store.Meets (I : RecordInvariant) (s : Store) : Prop where
  workflows : ∀ w ∈ s.workflows, I.workflow w
  instances : ∀ i ∈ s.instances, I.run i
  tasks : ∀ t ∈ s.tasks, I.task t
  history : ∀ h ∈ s.history, I.entry h
  workflow_ids : (s.workflows.map Workflow.id).Nodup
  instance_ids : (s.instances.map Instance.id).Nodup

namespace Store.Meets

variable {s s' : Store}

/-- An empty store has no records of which anything could hold. -/
theorem empty : Store.empty.Meets I where
  workflows := fun _ hw => (by cases hw)
  instances := fun _ hi => (by cases hi)
  tasks := fun _ ht => (by cases ht)
  history := fun _ hh => (by cases hh)
  workflow_ids := List.nodup_nil
  instance_ids := List.nodup_nil

/-- A saved workflow joins the others, so it must be as the invariant says. -/
theorem saveWorkflow (h : s.Meets I) {w : Workflow} (hw : I.workflow w)
    (hs : s.saveWorkflow w = .ok s') : s'.Meets I := by
  unfold Store.saveWorkflow at hs
  split at hs
  · cases hs
  · next hnone =>
    cases hs
    exact { h with
      workflows := forall_mem_concat h.workflows hw
      workflow_ids := nodup_concat Workflow.id h.workflow_ids hnone }

/-- An updated workflow stands in the place of its old record. -/
theorem updateWorkflow (h : s.Meets I) {w : Workflow} (hw : I.workflow w)
    (hs : s.updateWorkflow w = .ok s') : s'.Meets I := by
  unfold Store.updateWorkflow at hs
  split at hs
  · cases hs
    exact { h with
      workflows := forall_mem_replaceFirst h.workflows hw
      workflow_ids := nodup_replaceFirst Workflow.id h.workflow_ids }
  · cases hs

/-- Deleting a workflow adds no record. -/
theorem deleteWorkflow (h : s.Meets I) {id : Uuid} (hs : s.deleteWorkflow id = .ok s') :
    s'.Meets I := by
  unfold Store.deleteWorkflow at hs
  split at hs
  · cases hs
    exact { h with
      workflows := fun w hw => h.workflows w (List.mem_filter.mp hw).1
      workflow_ids := h.workflow_ids.sublist (List.filter_sublist.map Workflow.id) }
  · cases hs

/-- A saved instance joins the others, so it must be as the invariant says. -/
theorem saveInstance (h : s.Meets I) {i : Instance} (hi : I.run i)
    (hs : s.saveInstance i = .ok s') : s'.Meets I := by
  unfold Store.saveInstance at hs
  split at hs
  · cases hs
  · next hnone =>
    cases hs
    exact { h with
      instances := forall_mem_concat h.instances hi
      instance_ids := nodup_concat Instance.id h.instance_ids hnone }

/-- An updated instance stands in the place of its old record. -/
theorem updateInstance (h : s.Meets I) {i : Instance} (hi : I.run i)
    (hs : s.updateInstance i = .ok s') : s'.Meets I := by
  unfold Store.updateInstance at hs
  split at hs
  · cases hs
    exact { h with
      instances := forall_mem_replaceFirst h.instances hi
      instance_ids := nodup_replaceFirst Instance.id h.instance_ids }
  · cases hs

/-- A saved task joins the others, so it must be as the invariant says. -/
theorem saveTask (h : s.Meets I) {t : Task} (ht : I.task t)
    (hs : s.saveTask t = .ok s') : s'.Meets I := by
  unfold Store.saveTask at hs
  split at hs
  · cases hs
  · cases hs
    exact { h with tasks := forall_mem_concat h.tasks ht }

/-- An updated task stands in the place of its old record. -/
theorem updateTask (h : s.Meets I) {t : Task} (ht : I.task t)
    (hs : s.updateTask t = .ok s') : s'.Meets I := by
  unfold Store.updateTask at hs
  split at hs
  · cases hs
    exact { h with tasks := forall_mem_replaceFirst h.tasks ht }
  · cases hs

/-- An appended entry joins the history, so it must be as the invariant says. -/
theorem appendHistory (h : s.Meets I) {entry : HistoryEntry} (hentry : I.entry entry) :
    (s.appendHistory entry).Meets I :=
  { h with history := forall_mem_concat h.history hentry }

end Store.Meets

/-- The clock shows a regular time, and the records are as the invariant says. -/
structure Environment.Meets (I : RecordInvariant) (env : Environment) : Prop where
  now : env.now.IsRegular
  store : env.store.Meets I

/-! ## Operations -/

namespace Operation

variable {α β : Type} {Q : α → Prop} {R : β → Prop}

/-- The operation keeps the records as the invariant says, and what it gives has the property. -/
def Keeps (I : RecordInvariant) (x : Operation α) (Q : α → Prop) : Prop :=
  ∀ env, env.Meets I → (x.leaves env).Meets I ∧ ∀ a env', x.runIn env = (.ok a, env') → Q a

/-- The operation keeps the records as the invariant says, whatever it gives. -/
abbrev Preserves (I : RecordInvariant) (x : Operation α) : Prop := x.Keeps I fun _ => True

namespace Keeps

/-- What an operation gives may be described more loosely. -/
theorem mono {P : α → Prop} {x : Operation α} (hx : x.Keeps I P) (h : ∀ a, P a → Q a) :
    x.Keeps I Q := fun env henv =>
  ⟨(hx env henv).1, fun a env' hrun => h a ((hx env henv).2 a env' hrun)⟩

/-- An operation that keeps the records and says something of its result keeps the records. -/
theorem preserves {x : Operation α} (hx : x.Keeps I Q) : x.Preserves I :=
  hx.mono fun _ _ => trivial

/-- Giving a value at once touches no record. -/
theorem pure {a : α} (h : Q a) : (Pure.pure a : Operation α).Keeps I Q :=
  fun _ henv => ⟨henv, by rintro b env' ⟨⟩; exact h⟩

/-- Failing touches no record, and there is no result of which anything would have to hold. -/
theorem throw (e : EngineError) : (MonadExcept.throw e : Operation α).Keeps I Q :=
  fun _ henv => ⟨henv, by rintro b env' ⟨⟩⟩

/-- Two operations in a row keep the records if the second does for each result that the first
allows. -/
theorem bind {x : Operation α} {f : α → Operation β} (hx : x.Keeps I Q)
    (hf : ∀ a, Q a → (f a).Keeps I R) : (x >>= f).Keeps I R := by
  intro env henv
  obtain ⟨hleft, hgives⟩ := hx env henv
  rw [leaves] at hleft ⊢
  rw [runIn_bind]
  rcases hrun : x.runIn env with ⟨error | a, env'⟩
  · rw [hrun] at hleft
    exact ⟨hleft, by rintro b env'' ⟨⟩⟩
  · rw [hrun] at hleft
    exact hf a (hgives a env' hrun) env' hleft

/-- Behind an operation of which the result does not count. -/
theorem after {x : Operation α} {f : α → Operation β} (hx : x.Preserves I)
    (hf : ∀ a, (f a).Keeps I R) : (x >>= f).Keeps I R := hx.bind fun a _ => hf a

/-- What would come after a failure is not run. -/
theorem throw_bind (e : EngineError) (f : α → Operation β) :
    ((MonadExcept.throw e : Operation α) >>= f).Keeps I R :=
  bind (throw e) fun _ (h : False) => h.elim

/-- The time that is read is regular, since the clock shows a regular time. -/
theorem now : Operation.now.Keeps I Timestamp.IsRegular :=
  fun _ henv => ⟨henv, by rintro b env' ⟨⟩; exact henv.now⟩

/-- Looking at the environment touches no record. -/
theorem get : (MonadState.get : Operation Environment).Preserves I :=
  fun _ henv => ⟨henv, fun _ _ _ => trivial⟩

/-- Drawing an id touches no record. -/
theorem freshId (kind : RecordKind) : (Operation.freshId kind).Preserves I :=
  fun _ henv => ⟨⟨henv.now, henv.store⟩, fun _ _ _ => trivial⟩

/-- Writing to the log touches no record. -/
theorem say (level : LogLevel) (text : String) : (Operation.say level text).Preserves I :=
  fun _ henv => ⟨⟨henv.now, henv.store⟩, fun _ _ _ => trivial⟩

/-- Lifting a result touches no record, and the value is the one that was lifted. -/
theorem lift (x : Except EngineError α) : (Operation.lift x).Keeps I fun a => x = .ok a := by
  cases x with
  | ok a => exact pure rfl
  | error e => exact throw e

/-- Taking over the lines of a logged value touches no record, and the value is its value. -/
theorem heed (x : Logged α) : (Operation.heed x).Keeps I fun a => a = x.value :=
  fun _ henv => ⟨⟨henv.now, henv.store⟩, by rintro b env' ⟨⟩; rfl⟩

/-- Taking over the lines of a logged result touches no record, and the value is what the result
gave. -/
theorem heedResult (x : Logged (Except EngineError α)) :
    (Operation.heedResult x).Keeps I fun a => x.value = .ok a :=
  (heed x).bind fun r hr => hr ▸ lift r

/-- Announcing a notice touches no record, whether or not the notifier reports it. -/
theorem announce (n : Notifier) (notice : Notice) : (Operation.announce n notice).Preserves I := by
  cases n
  · exact pure trivial
  · exact fun _ henv => ⟨⟨henv.now, henv.store⟩, fun _ _ _ => trivial⟩

/-- What an attempt gives has the property if it is a result. -/
theorem attempt {x : Operation α} (hx : x.Keeps I Q) :
    (Operation.attempt x).Keeps I fun r => ∀ a, r = .ok a → Q a := by
  intro env henv
  obtain ⟨hleft, hgives⟩ := hx env henv
  refine ⟨hleft, ?_⟩
  rintro r env' ⟨⟩ a ha
  exact hgives a (x.runIn env).2 (Prod.ext ha rfl)

/-- A call of the store keeps the records if what the store makes of it does. -/
theorem perform {call : StoreCall} {run : Store → Except EngineError (α × Store)}
    (h : ∀ s a s', s.Meets I → run s = .ok (a, s') → s'.Meets I ∧ Q a) :
    (Operation.perform call run).Keeps I Q := by
  intro env henv
  refine ⟨?_, fun a env' hrun => ?_⟩
  · show (Operation.perform call run env).2.Meets I
    unfold Operation.perform
    rcases Outage.meet env.outage call with ⟨_ | _ | _, outage⟩ <;>
      rcases hrun : run env.store with _ | ⟨a, s⟩ <;>
        first
          | exact ⟨henv.now, henv.store⟩
          | exact ⟨henv.now, (h env.store a s henv.store hrun).1⟩
  · exact (h env.store a env'.store henv.store (run_of_perform hrun)).2

/-- A look into the store touches no record, and what it sees is what stores as the invariant says
show. -/
theorem query {call : StoreCall} {look : Store → α} (h : ∀ s, s.Meets I → Q (look s)) :
    (Operation.query call look).Keeps I Q :=
  perform fun s a s' hs heq => by cases heq; exact ⟨hs, h s hs⟩

/-- A record that is looked for and has to be there. -/
theorem found {call : StoreCall} {look : Store → Option α} {error : EngineError}
    {f : Option α → Operation α} (hsome : ∀ a, f (some a) = Pure.pure a)
    (hnone : f none = MonadExcept.throw error) (h : ∀ s, s.Meets I → ∀ a ∈ look s, Q a) :
    (Operation.query call look >>= f).Keeps I Q := by
  have hquery : (Operation.query call look).Keeps I fun a? => ∀ a ∈ a?, Q a := query h
  refine hquery.bind fun a? ha => ?_
  cases a? with
  | none => exact hnone ▸ throw error
  | some a => exact hsome a ▸ pure (ha a rfl)

/-- A change of the store keeps the records if the store's own operation does. -/
theorem change {call : StoreCall} {run : Store → Except EngineError Store}
    (h : ∀ s s', s.Meets I → run s = .ok s' → s'.Meets I) :
    (Operation.change call run).Preserves I := by
  refine perform fun s a s' hs heq => ⟨?_, trivial⟩
  cases hrun : run s with
  | error error => rw [hrun] at heq; cases heq
  | ok s'' => rw [hrun] at heq; cases heq; exact h s s' hs hrun

end Keeps

end Operation

/-! ## The repository -/

namespace Repository

open Operation

/-- A workflow that is found is as the invariant says. -/
theorem workflow_keeps (id : Uuid) : (workflow id).Keeps I I.workflow :=
  .found (fun _ => rfl) rfl fun _ hs w hw => hs.workflows w (List.mem_of_find?_eq_some hw)

/-- An instance that is found is as the invariant says. -/
theorem instanceOf_keeps (id : Uuid) : (instanceOf id).Keeps I I.run :=
  .found (fun _ => rfl) rfl fun _ hs i hi => hs.instances i (List.mem_of_find?_eq_some hi)

/-- A task that is found is as the invariant says. -/
theorem task_keeps (id : Uuid) : (task id).Keeps I I.task :=
  .found (fun _ => rfl) rfl fun _ hs t ht => hs.tasks t (List.mem_of_find?_eq_some ht)

/-- Updating a workflow keeps the records if the new record is as the invariant says. -/
theorem updateWorkflow_keeps {w : Workflow} (hw : I.workflow w) : (updateWorkflow w).Preserves I :=
  .change fun _ _ hs hrun => hs.updateWorkflow hw hrun

/-- Updating an instance keeps the records if the new record is as the invariant says. -/
theorem updateInstance_keeps {i : Instance} (hi : I.run i) : (updateInstance i).Preserves I :=
  .change fun _ _ hs hrun => hs.updateInstance hi hrun

/-- Saving a task keeps the records if the task is as the invariant says. -/
theorem saveTask_keeps {t : Task} (ht : I.task t) : (saveTask t).Preserves I :=
  .change fun _ _ hs hrun => hs.saveTask ht hrun

/-- Updating a task keeps the records if the new record is as the invariant says. -/
theorem updateTask_keeps {t : Task} (ht : I.task t) : (updateTask t).Preserves I :=
  .change fun _ _ hs hrun => hs.updateTask ht hrun

/-- The tasks of a page are tasks of the store. -/
theorem tasksPage_keeps (i : Uuid) (page : Page) :
    (tasksPage i page).Keeps I fun ts => ∀ t ∈ ts, I.task t :=
  .query fun s hs t ht => by
    have hmem := List.mem_of_mem_drop (List.mem_of_mem_take ht)
    exact hs.tasks t (Store.mem_tasksOf.mp hmem).1

/-- The tasks that a walk through the pages collects are tasks of the store. -/
theorem allTasks_keeps (i : Uuid) (pageSize : Nat) :
    (allTasks i pageSize).Keeps I fun ts => ∀ t ∈ ts, I.task t := by
  have hfrom : ∀ pages page, (tasksFrom i pages page).Keeps I fun ts => ∀ t ∈ ts, I.task t := by
    intro pages
    induction pages with
    | zero => exact fun _ => .pure (by simp)
    | succ pages ih =>
      refine fun page => (tasksPage_keeps i page).bind fun batch hbatch => ?_
      split
      · exact .pure hbatch
      · exact (ih page.next).bind fun others hothers =>
          .pure (List.forall_mem_append.mpr ⟨hbatch, hothers⟩)
  exact .after .get fun _ => hfrom _ _

end Repository

/-! ## The engine -/

namespace Engine

open Operation Repository

variable {e : Engine} {i : Instance} {d : Definition} {s : Step} {history : List Task}

/-- The tasks that the engine reads for an instance are tasks of the store. -/
theorem tasksOf_keeps (e : Engine) (id : Uuid) :
    (e.tasksOf id).Keeps I fun ts => ∀ t ∈ ts, I.task t := allTasks_keeps id _

/-- Looking for the next step touches no record, and it gives a step of the definition. -/
theorem nextStep_keeps (e : Engine) (d : Definition) (s : Step) (i : Instance) :
    (e.nextStep d s i).Keeps I fun next => ∀ u ∈ next, u ∈ d.steps :=
  (tasksOf_keeps e i.id).bind fun _ _ => (Keeps.heed _).mono fun _ hnext _ hu =>
    Definition.successor_mem (hnext.symm.trans hu)

/-- Opening a task keeps the records, as the task is built of a step, an instance and a history
that are kept. -/
theorem openTask_keeps (hi : I.run i) (hs : s.HasReadForm)
    (hhistory : ∀ t ∈ history, I.task t) (key : String) (parent : Option String) :
    (e.openTask i s key parent history).Preserves I := by
  refine .after (.freshId .task) fun id => Keeps.now.bind fun now hnow => ?_
  refine (Keeps.heed _).bind fun t ht => ?_
  have htask : I.task t :=
    ht ▸ I.build hi hs hhistory hnow id key parent e.settings.resultLabels
  refine .after (saveTask_keeps htask) fun _ => .after (.say _ _) fun _ => ?_
  exact .after (.announce _ _) fun _ => .pure trivial

/-- Opening the branches keeps the records, one task after the other. -/
theorem openBranches_keeps (hi : I.run i) (hhistory : ∀ t ∈ history, I.task t)
    (parallel : Step) {branches : List Step} (hbranches : ∀ b ∈ branches, b.HasReadForm) :
    (e.openBranches i parallel history branches).Preserves I := by
  induction branches with
  | nil => exact .pure trivial
  | cons b branches ih =>
    obtain ⟨hb, hbranches⟩ := List.forall_mem_cons.mp hbranches
    exact .after (openTask_keeps hi hb hhistory _ _) fun _ => ih hbranches

/-- Completing an instance keeps the records, as its output is made of the tasks that are kept. -/
theorem completeInstance_keeps (hi : I.run i) : (e.completeInstance i).Preserves I := by
  refine (tasksOf_keeps e i.id).bind fun tasks htasks => Keeps.now.bind fun now hnow => ?_
  refine (Keeps.lift _).bind fun j hj => ?_
  refine .after (updateInstance_keeps (I.complete hi htasks hnow hj)) fun _ => ?_
  exact .after (.say _ _) fun _ => .announce _ _

/-- Executing a step of a definition with forms that have been read. -/
theorem execute_keeps (hi : I.run i) (hd : d.HasReadForms) (hs : s ∈ d.steps)
    {onward : Operation Unit} (honward : onward.Preserves I) :
    (e.execute i s onward).Preserves I := by
  refine .after (.say _ _) fun _ => ?_
  split
  · refine (tasksOf_keeps e i.id).bind fun tasks htasks => ?_
    exact .after (openTask_keeps hi (hd (.step s) hs) htasks _ _) fun _ => .pure trivial
  · exact honward
  · next branches hkind =>
    refine (tasksOf_keeps e i.id).bind fun tasks htasks => ?_
    refine (Keeps.heed _).bind fun chosen hchosen => ?_
    split
    · exact .after (.say _ _) fun _ => honward
    · refine openBranches_keeps hi htasks s fun b hb => hd (.branch s b) ⟨hs, ?_⟩
      rw [Step.branches, hkind]
      exact (Definition.qualifying_sublist _ branches).subset (hchosen ▸ hb)
  · exact completeInstance_keeps hi
  · exact .after (.say _ _) fun _ => honward

/-- Walking through a definition with forms that have been read. -/
theorem advance_keeps (hd : d.HasReadForms) (hi : I.run i) (remaining : Nat) (s : Step) :
    (e.advance d i remaining s).Preserves I := by
  induction remaining generalizing s with
  | zero => exact .throw _
  | succ remaining ih =>
    refine (nextStep_keeps e d s i).bind fun next hnext => ?_
    cases next with
    | none => exact .say _ _
    | some next => exact execute_keeps hi hd (hnext next rfl) (ih next)

/-- Starting the walk of an instance keeps the records. -/
theorem start_keeps (id : Uuid) : (e.start id).Preserves I := by
  refine (instanceOf_keeps id).bind fun i hi => .after (Keeps.lift _).preserves fun _ => ?_
  refine (workflow_keeps _).bind fun w _ => .after (Keeps.lift _).preserves fun _ => ?_
  refine (Keeps.heedResult _).bind fun d hd => ?_
  have hforms := Definition.hasReadForms_of_parse hd
  split
  · exact .throw _
  · next first _ hsteps =>
    refine Keeps.now.bind fun now hnow => ?_
    have hj : I.run { i with startedAt := now } := I.restart hi hnow
    refine .after (updateInstance_keeps hj) fun _ => .after (.say _ _) fun _ => ?_
    have hfirst : first ∈ d.steps := by
      rw [hsteps]
      exact List.mem_cons_self
    exact execute_keeps hj hforms hfirst (advance_keeps hforms hj _ _)

/-- The instance that is going on is as the invariant says, and its definition was read from a
text. -/
theorem runningInstance_keeps (id : Uuid) :
    (runningInstance id).Keeps I fun p => I.run p.1 ∧ p.2.HasReadForms := by
  refine (instanceOf_keeps id).bind fun i hi => .after (Keeps.lift _).preserves fun _ => ?_
  refine (workflow_keeps _).bind fun w _ => (Keeps.heedResult _).bind fun d hd => ?_
  exact .pure ⟨hi, Definition.hasReadForms_of_parse hd⟩

/-- Firing a join keeps the records, and the instance that it gives is as the invariant says. -/
theorem fireJoin_keeps (hi : I.run i) (parallel : Step) :
    (e.fireJoin i parallel).Keeps I fun j? => ∀ j ∈ j?, I.run j := by
  refine (tasksOf_keeps e i.id).bind fun tasks _ => ?_
  split
  · exact .after (.say _ _) fun _ => .pure (by simp)
  · refine Keeps.now.bind fun now hnow => ?_
    split
    · exact .after (.say _ _) fun _ => .pure (by simp)
    · next j hj =>
      have hj := I.claimJoin hi hnow hj
      exact .after (updateInstance_keeps hj) fun _ => .after (.say _ _) fun _ =>
        .pure (by simpa using hj)

/-- Going on behind a task keeps the records. -/
theorem continueAfter_keeps (t : Task) : (e.continueAfter t).Preserves I := by
  refine (runningInstance_keeps _).bind fun p hp => ?_
  obtain ⟨i, d⟩ := p
  obtain ⟨hi, hd⟩ := hp
  refine .after (Keeps.lift _).preserves fun current => ?_
  split
  · refine (fireJoin_keeps hi current).bind fun j? hj => ?_
    cases j? with
    | none => exact .pure trivial
    | some j => exact advance_keeps hd (hj j rfl) _ _
  · exact advance_keeps hd hi _ _

/-- Going back from a rejected task keeps the records. -/
theorem goBack_keeps (rejected : Task) : (e.goBack rejected).Preserves I := by
  refine (runningInstance_keeps _).bind fun p hp => ?_
  obtain ⟨i, d⟩ := p
  obtain ⟨hi, hd⟩ := hp
  refine (tasksOf_keeps e i.id).bind fun tasks htasks => Keeps.now.bind fun rejectedAt _ => ?_
  dsimp only
  split
  · next previous _ =>
    refine .after (.pure trivial) fun previous => ?_
    split
    · next origin horigin =>
      refine (Keeps.pure (Q := (· = origin)) rfl).bind fun origin' horigin' => ?_
      subst horigin'
      -- The key leads to a step of the definition, whose form has been read with it.
      have hform := hd origin' (Definition.of_resolve?_eq_some horigin).1
      refine .after (.freshId _) fun id => Keeps.now.bind fun now hnow => ?_
      refine (Keeps.heed _).bind fun built hbuilt => ?_
      have htask : I.task built := hbuilt ▸ I.build hi hform htasks hnow id _ _ _
      have hassigned := I.assign htask (previous.assignee.or built.assignee)
      refine .after (saveTask_keeps (I.markRejected hassigned _ _)) fun _ => ?_
      refine .after (.say _ _) fun _ => ?_
      split
      · exact .after (.announce _ _) fun _ => .pure trivial
      · exact .after (.announce _ _) fun _ => .pure trivial
    · exact .throw_bind _ _
  · exact .throw_bind _ _

/-- Moving on from a completed task keeps the records, in whichever direction it goes. -/
theorem move_keeps (t : Task) : (e.move t).Preserves I := by
  unfold move
  split
  · exact .after (goBack_keeps t) fun _ => .pure trivial
  · exact continueAfter_keeps t

/-- A progression keeps the records, also where it stalls and only marks the task. -/
theorem progress_keeps (id : Uuid) : (e.progress id).Preserves I := by
  rw [progress_eq]
  refine .after (task_keeps id).preserves fun _ => ?_
  refine (task_keeps id).bind fun t ht => ?_
  split
  · exact .after (.say _ _) fun _ => .pure trivial
  split
  · exact .throw _
  · refine .after (Keeps.attempt (move_keeps t)).preserves fun outcome => ?_
    cases outcome with
    | ok _ => exact .after (updateTask_keeps (I.mark ht _)) fun _ => .pure trivial
    | error error => exact .after (updateTask_keeps (I.mark ht _)) fun _ => .throw error

end Engine

/-! ## The management of tasks and workflows -/

namespace Tasks

open Operation Engine Repository

variable {e : Engine} {id : Uuid} {t : Task}

/-- Storing a task together with an entry about it. -/
theorem store_keeps (ht : I.task t) {entry : Uuid → Timestamp → HistoryEntry}
    (hentry : ∀ id now, now.IsRegular → I.entry (entry id now)) : (store t entry).Preserves I := by
  refine .after (updateTask_keeps ht) fun _ => .after (.freshId _) fun id => ?_
  refine Keeps.now.bind fun now hnow => .change fun s s' hs heq => ?_
  cases heq
  exact hs.appendHistory (hentry id now hnow)

/-- A claim keeps the records. -/
theorem claim_keeps (a : Actor) : (claim e id a).Preserves I := by
  refine (task_keeps id).bind fun t ht => ?_
  dsimp only
  split
  · exact .throw_bind _ _
  split
  · exact .throw_bind _ _
  refine Keeps.now.bind fun now hnow => (Keeps.lift _).bind fun u hu => ?_
  have hclaimed := I.claim ht hnow hu
  refine .after (store_keeps hclaimed fun _ _ hnow => I.claimed hclaimed hnow _ _) fun _ => ?_
  exact .after (.say _ _) fun _ => .after (.announce _ _) fun _ => .pure trivial

/-- Finishing a task with an output that the invariant allows. -/
theorem finish_keeps (a : Actor) {c : Completion} (hc : I.output c.output) :
    (finish e id a c).Preserves I := by
  refine (task_keeps id).bind fun t ht => ?_
  dsimp only
  split
  · exact .throw_bind _ _
  split
  · exact .throw_bind _ _
  refine Keeps.now.bind fun now hnow => (Keeps.lift _).bind fun u hu => ?_
  have hclosed : I.task { u with assignee := u.assignee.or (some a.user),
                                 progression := .pending } :=
    I.mark (I.assign (I.finishTask ht hnow hc hu) (u.assignee.or (some a.user))) .pending
  refine .after (store_keeps hclosed fun _ _ hnow => I.completed hclosed hnow _ _) fun _ => ?_
  exact .after (.say _ _) fun _ => .after (.announce _ _) fun _ => .pure trivial

/-- A delegation keeps the records. -/
theorem delegate_keeps (a : Actor) (toUser : String) : (delegate e id a toUser).Preserves I := by
  refine (task_keeps id).bind fun t ht => ?_
  dsimp only
  split
  · exact .throw_bind _ _
  refine (Keeps.lift _).bind fun u hu => ?_
  have hdelegated := I.delegate ht hu
  refine .after (store_keeps hdelegated fun _ _ hnow => I.delegated hdelegated hnow _ _ _)
    fun _ => ?_
  exact .after (.say _ _) fun _ => .after (.announce _ _) fun _ => .pure trivial

/-- A completion keeps the records, if the output that it brings is as the invariant says. -/
theorem complete_keeps (a : Actor) {c : Completion} (hc : I.output c.output) :
    (complete e id a c).Preserves I := by
  refine .after (finish_keeps a hc) fun t => ?_
  refine .after (Keeps.attempt (progress_keeps t.id)).preserves fun outcome => ?_
  cases outcome with
  | ok t => exact .pure trivial
  | error error => exact .after (.say _ _) fun _ => (task_keeps t.id).preserves

/-- A retry keeps the records. -/
theorem retry_keeps : (retry e id).Preserves I := by
  refine .after (task_keeps id).preserves fun t => ?_
  dsimp only
  split
  · exact .throw_bind _ _
  · exact .after (.say _ _) fun _ => progress_keeps id

end Tasks

namespace Workflows

open Operation Engine Repository

variable {e : Engine} {id : Uuid}

/-- Creating a workflow keeps the records. -/
theorem create_keeps (name description definition : String) :
    (create name description definition).Preserves I := by
  refine .after (Keeps.heedResult _).preserves fun _ => .after (.freshId _) fun id => ?_
  refine Keeps.now.bind fun now hnow => ?_
  have hw : I.workflow (.draft id name description definition now) := I.draft hnow _ _ _ _
  refine .after (.change fun _ _ hs hrun => hs.saveWorkflow hw hrun) fun _ => ?_
  exact .after (.say _ _) fun _ => .pure trivial

/-- A change of a workflow's status keeps the records. -/
theorem apply_keeps (a : WorkflowAction) : (apply a id).Preserves I :=
  (workflow_keeps id).bind fun _ hv => Keeps.now.bind fun _ hnow => (Keeps.lift _).bind fun _ hw =>
    .after (updateWorkflow_keeps (I.apply hv hnow hw)) fun _ => .after (.say _ _) fun _ =>
      .pure trivial

/-- Replacing the definition of a workflow keeps the records. -/
theorem updateDefinition_keeps (definition : String) :
    (updateDefinition id definition).Preserves I :=
  (workflow_keeps id).bind fun _ hv => Keeps.now.bind fun _ hnow =>
    (Keeps.heedResult _).bind fun _ hw =>
      .after (updateWorkflow_keeps (I.replaceDefinition hv hnow hw)) fun _ =>
        .after (.say _ _) fun _ => .pure trivial

/-- Deleting a workflow keeps the records. -/
theorem delete_keeps : (delete id).Preserves I := by
  refine (workflow_keeps id).bind fun w _ => ?_
  dsimp only
  split
  · exact .throw_bind _ _
  · exact .after (.change fun _ _ hs hrun => hs.deleteWorkflow hrun) fun _ => .say _ _

/-- A new instance keeps the records if its input is as the invariant says, and so is the
instance. -/
theorem newInstance_keeps {input : Json} (hinput : I.input input) :
    (newInstance id input).Keeps I I.run :=
  .after (.freshId _) fun _ => (Keeps.heed _).bind fun _ hnormal =>
    Keeps.now.bind fun _ hnow => .pure (hnormal ▸ I.begin hinput hnow _ _)

/-- Recording a failed start keeps the records. -/
theorem recordFailure_keeps (error : EngineError) : (recordFailure id error).Preserves I := by
  refine .after (.say _ _) fun _ => (instanceOf_keeps id).bind fun i hi => ?_
  refine Keeps.now.bind fun now hnow => ?_
  split
  · next failed hfailed => exact updateInstance_keeps (I.fail hi hnow hfailed)
  · exact .pure trivial

/-- Starting an instance on an input that the invariant allows. -/
theorem startInstance_keeps {input : Json} (hinput : I.input input) :
    (startInstance e id input).Preserves I := by
  refine (workflow_keeps id).bind fun w _ => .after (Keeps.lift _).preserves fun _ => ?_
  refine (newInstance_keeps hinput).bind fun i hi => ?_
  refine .after (.change fun _ _ hs hrun => hs.saveInstance hi hrun) fun _ => ?_
  refine .after (Keeps.attempt (start_keeps i.id)).preserves fun outcome => ?_
  cases outcome with
  | ok _ => exact (instanceOf_keeps i.id).preserves
  | error error => exact .after (recordFailure_keeps error) fun _ => .throw error

/-- Cancelling an instance keeps the records. -/
theorem cancelInstance_keeps : (cancelInstance id).Preserves I :=
  (instanceOf_keeps id).bind fun _ hi => Keeps.now.bind fun _ hnow =>
    (Keeps.lift _).bind fun _ hj =>
      .after (updateInstance_keeps (I.finish hi hnow hj)) fun _ => .after (.say _ _) fun _ =>
        .pure trivial

end Workflows

/-! ## Runs of orders -/

open Operation Engine Repository

/-- An inquiry keeps the records. -/
theorem Inquiry.perform_keeps (e : Engine) (q : Inquiry) : (q.perform e).Preserves I := by
  cases q with
  | workflow id => exact .after (workflow_keeps id).preserves fun _ => .pure trivial
  | workflows => exact .after (.query fun _ _ => trivial) fun _ => .pure trivial
  | instances id => exact .after (.query fun _ _ => trivial) fun _ => .pure trivial
  | run id => exact .after (instanceOf_keeps id).preserves fun _ => .pure trivial
  | task id => exact .after (task_keeps id).preserves fun _ => .pure trivial
  | openTasks id =>
    exact .after (.after (tasksOf_keeps e id).preserves fun _ => .pure trivial) fun _ =>
      .pure trivial
  | stalled id =>
    exact .after (.after (tasksOf_keeps e id).preserves fun _ => .pure trivial) fun _ =>
      .pure trivial
  | history id =>
    exact .after (.after (task_keeps id).preserves fun _ => .query fun _ _ => trivial) fun _ =>
      .pure trivial

/-- The values that come with the request are as the invariant says. -/
def Request.Brings (I : RecordInvariant) : Request → Prop
  | .startInstance _ input => I.input input
  | .complete _ _ c => I.output c.output
  | .finish _ _ c => I.output c.output
  | _ => True

/-- The values that come with the directive are as the invariant says. -/
def Directive.Brings (I : RecordInvariant) : Directive → Prop
  | .serve r => r.Brings I
  | _ => True

/-- An invariant that allows all values allows those of every directive. -/
theorem Directive.brings (hinput : ∀ v, I.input v) (houtput : ∀ v, I.output v) (d : Directive) :
    d.Brings I := by
  cases d with
  | serve r =>
    cases r with
    | startInstance _ input => exact hinput input
    | complete _ _ c => exact houtput c.output
    | finish _ _ c => exact houtput c.output
    | _ => trivial
  | _ => trivial

/-- A request to the service keeps the records, if the values that it brings are as the invariant
says. -/
theorem Request.perform_keeps (e : Engine) {r : Request} (h : r.Brings I) :
    (r.perform e).Preserves I := by
  have hdone {α : Type} {x : Operation α} (hx : x.Preserves I) :
      (do let _ ← x : Operation Unit).Preserves I := .after hx fun _ => .pure trivial
  cases r with
  | createWorkflow name description definition =>
    exact hdone (Workflows.create_keeps name description definition)
  | applyAction action workflow => exact hdone (Workflows.apply_keeps action)
  | deleteWorkflow workflow => exact Workflows.delete_keeps
  | updateDefinition workflow definition =>
    exact hdone (Workflows.updateDefinition_keeps definition)
  | startInstance workflow input => exact hdone (Workflows.startInstance_keeps h)
  | cancelInstance run => exact hdone Workflows.cancelInstance_keeps
  | claim task a => exact hdone (Tasks.claim_keeps a)
  | complete task a c => exact hdone (Tasks.complete_keeps a h)
  | delegate task a toUser => exact hdone (Tasks.delegate_keeps a toUser)
  | retry task => exact hdone Tasks.retry_keeps
  | inquire q => exact q.perform_keeps e
  | finish task a c => exact hdone (Tasks.finish_keeps a h)
  | progress task => exact hdone (progress_keeps task)

/-- A directive keeps the records, if the values that it brings are as the invariant says. -/
theorem Directive.perform_keeps (e : Engine) {d : Directive} (h : d.Brings I) :
    (d.perform e).Preserves I := by
  cases d with
  | serve r => exact r.perform_keeps e h
  | start run => exact start_keeps run
  | continueAfter t => exact continueAfter_keeps t
  | goBack t => exact .after (goBack_keeps t) fun _ => .pure trivial
  | nextStep d s i => exact .after (nextStep_keeps e d s i).preserves fun _ => .pure trivial

/-- A run of orders at regular times keeps the records as an invariant says. -/
theorem Environment.followAll_meets {env : Environment} (h : env.store.Meets I) (e : Engine)
    (orders : List Order)
    (horders : ∀ o ∈ orders, o.time.IsRegular ∧ o.directive.Brings I) :
    (env.followAll e orders).store.Meets I := by
  induction orders generalizing env with
  | nil => exact h
  | cons o orders ih =>
    obtain ⟨⟨htime, hbrings⟩, horders⟩ := List.forall_mem_cons.mp horders
    refine ih ?_ horders
    exact (o.directive.perform_keeps e hbrings { env with now := o.time, outage := o.outage }
      ⟨htime, h⟩).1.store

/-! ## Runs keep the store storable -/

/-- Records that can be stored are made into records that can be stored, as long as the values that
come with requests are sorted. -/
def RecordInvariant.storable : RecordInvariant where
  workflow := Workflow.IsStorable
  run := Instance.IsStorable
  task := Task.IsStorable
  entry := HistoryEntry.IsStorable
  input := Json.IsSorted
  output := Json.IsSorted
  draft hnow id name description definition := .draft id name description definition hnow
  apply h hnow hw := h.apply hnow hw
  replaceDefinition h hnow hw := h.replaceDefinition hnow hw
  begin h hnow id workflow := by
    rcases normalizeInput_cases _ with heq | hread
    · exact .new id workflow (heq.symm ▸ h) hnow
    · exact .new id workflow hread.sorted hnow
  restart h hnow := { h with startedAt := hnow }
  finish h hnow hj := h.finish hnow hj
  fail h hnow hj := h.fail hnow hj
  complete h htasks hnow hj :=
    h.complete hnow ⟨by simp [Engine.completedOutputs],
      Json.isGraded_sorted.completedOutputs (n := 0) fun t ht => (htasks t ht).output⟩ hj
  claimJoin h hnow hj := h.claimJoin? hnow hj
  build h hs hhistory hnow id key parent labels :=
    .build h.input hs hhistory hnow id key parent labels
  assign h _ := { h with }
  markRejected h rejected rejectedAt := h.markRejected rejected rejectedAt
  mark h _ := { h with }
  claim h hnow hu := h.claim hnow hu
  finishTask h hnow houtput hu := h.complete hnow houtput hu
  delegate h hu := h.delegate hu
  claimed _ hnow _ _ := ⟨trivial, hnow⟩
  completed h hnow _ _ := ⟨h.output, hnow⟩
  delegated _ hnow _ _ _ := ⟨trivial, hnow⟩

/-- A store meets the invariant of storable records exactly if it is storable. -/
theorem Store.meets_storable {s : Store} : s.Meets .storable ↔ s.IsStorable := by
  refine ⟨fun h => ?_, fun h => ?_⟩
  · exact ⟨h.workflows, h.instances, h.tasks, h.history, h.workflow_ids, h.instance_ids⟩
  · exact ⟨h.workflows, h.instances, h.tasks, h.history, h.workflow_ids, h.instance_ids⟩

/-- The values that come with the request are sorted. -/
def Request.HasSortedValues : Request → Prop
  | .startInstance _ input => input.IsSorted
  | .complete _ _ c => c.output.IsSorted
  | .finish _ _ c => c.output.IsSorted
  | _ => True

/-- The values that come with the directive are sorted. -/
def Directive.HasSortedValues : Directive → Prop
  | .serve r => r.HasSortedValues
  | _ => True

/-- A directive whose values are sorted brings only values that can be stored. -/
theorem Directive.HasSortedValues.brings {d : Directive} (h : d.HasSortedValues) :
    d.Brings .storable := by
  cases d with
  | serve r => cases r <;> exact h
  | _ => trivial

/-- The order is followed at a time that a clock can show, and its values are sorted. -/
structure Order.IsRegular (o : Order) : Prop where
  time : o.time.IsRegular
  values : o.directive.HasSortedValues

namespace Environment

variable {env : Environment}

/-- A run keeps the store storable. -/
theorem followAll_storable (h : env.store.IsStorable) (e : Engine) (orders : List Order)
    (horders : ∀ o ∈ orders, o.IsRegular) : (env.followAll e orders).store.IsStorable :=
  Store.meets_storable.mp (followAll_meets (Store.meets_storable.mpr h) e orders fun o ho =>
    ⟨(horders o ho).time, (horders o ho).values.brings⟩)

/-- An empty store is storable. -/
theorem fresh_storable (seed : Nat) (start : Timestamp) :
    (fresh seed start).store.IsStorable := Store.meets_storable.mp .empty

end Environment

end ApprovalWorkflow
