import ApprovalWorkflow.Proofs.Leads
import ApprovalWorkflow.Proofs.Requests

/-!
# Ended instances stay what they are

An instance that has left the status running keeps its record, and no task is opened for it any
more. This holds of everything that can be asked of the management and of the engine, in any
environment and also during an outage, so it needs neither an orderly store nor fresh identifiers.

`Store.Evolves` is what every step does to the store: ended instances are frozen, and tasks stay
with their instances. The second part supports the first one, since a task is updated under its
identifier and must not turn up at another instance. The calls that store an instance or a task
do this if the instance in question is still running (`updateInstance_proceeds`,
`saveTask_proceeds`), and each operation of the engine has made sure of that before.
-/

set_option autoImplicit false

namespace ApprovalWorkflow

/-! ## Stores that evolve -/

/-- What every request and every operation of the engine does to a store. -/
structure Store.Evolves (s s' : Store) : Prop where
  /-- An instance that has ended keeps its record and its tasks, and gets no more. -/
  frozen : ∀ id i, s.instance? id = some i → i.isRunning = false →
    s'.instance? id = some i ∧ (s'.tasksOf id).map Task.id = (s.tasksOf id).map Task.id
  /-- A task stays with its instance. -/
  owned : ∀ id t, s.task? id = some t →
    ∃ u, s'.task? id = some u ∧ u.instanceId = t.instanceId

/-- What work on instances and tasks does to a store. -/
structure Store.Proceeds (s s' : Store) : Prop extends Evolves s s' where
  workflows : s'.workflows = s.workflows

/-- There is an instance with the identifier, and it is running. -/
def Store.IsLive (s : Store) (id : Uuid) : Prop :=
  ∃ i, s.instance? id = some i ∧ i.isRunning = true

section Tables

variable {α κ : Type} [DecidableEq κ] (key : α → κ)

/-- After a replacement the record that replaces another one is found under its key. -/
theorem find?_replaceFirst (new : α) (items : List α) (k : κ) :
    (replaceFirst (fun a => key a == key new) new items).find? (fun a => key a == k) =
      if k = key new then (items.find? fun a => key a == k).map fun _ => new
      else items.find? fun a => key a == k := by
  induction items with
  | nil => simp [replaceFirst]
  | cons a items ih =>
    by_cases ha : key a = key new
    · by_cases hk : k = key new
      · simp [replaceFirst, ha, hk]
      · simp [replaceFirst, ha, hk, Ne.symm hk]
    · by_cases hk : key a = k
      · have hne : k ≠ key new := fun h => ha (hk.trans h)
        simp [replaceFirst, hk, hne]
      · simp only [replaceFirst, beq_iff_eq, ha, if_false, List.find?_cons]
        have hka : (key a == k) = false := by simpa using hk
        simp only [hka, ih]

/-- Replacing an item by one with the same image keeps the images. -/
theorem map_replaceFirst {β : Type} {f : α → β} {test : α → Bool} {old new : α} {items : List α}
    (hold : items.find? test = some old) (hf : f new = f old) :
    (replaceFirst test new items).map f = items.map f := by
  induction items with
  | nil => rfl
  | cons a items ih =>
    rw [List.find?_cons] at hold
    rw [replaceFirst]
    cases htest : test a with
    | true =>
      rw [htest] at hold
      obtain rfl : a = old := Option.some.inj hold
      rw [if_pos rfl, List.map_cons, List.map_cons, hf]
    | false =>
      rw [htest] at hold
      rw [if_neg Bool.false_ne_true, List.map_cons, List.map_cons, ih hold]

/-- A part of a table keeps its keys if the record that replaces another one belongs to the same
part. -/
theorem map_filter_replaceFirst {test : α → Bool} {old new : α} {items : List α}
    (hold : items.find? (fun a => key a == key new) = some old) (htest : test old = test new) :
    ((replaceFirst (fun a => key a == key new) new items).filter test).map key =
      (items.filter test).map key := by
  induction items with
  | nil => cases hold
  | cons a items ih =>
    by_cases ha : key a = key new
    · obtain rfl : a = old := by simpa [ha] using hold
      cases hnew : test new <;> simp [replaceFirst, ha, htest, hnew]
    · have hrest : items.find? (fun a => key a == key new) = some old := by simpa [ha] using hold
      cases hkeep : test a <;> simp [replaceFirst, ha, hkeep, ih hrest]

end Tables

namespace Store

variable {s s' s'' : Store} {i j : Instance} {t u : Task} {id : Uuid}

/-- A store to which nothing is done evolves. -/
theorem Evolves.refl (s : Store) : s.Evolves s :=
  ⟨fun _ _ hi _ => ⟨hi, rfl⟩, fun _ t ht => ⟨t, ht, rfl⟩⟩

/-- A store that evolves twice evolves. -/
theorem Evolves.trans (h : s.Evolves s') (h' : s'.Evolves s'') : s.Evolves s'' where
  frozen id i hi hended := by
    obtain ⟨hmid, htasks⟩ := h.frozen id i hi hended
    obtain ⟨hlast, htasks'⟩ := h'.frozen id i hmid hended
    exact ⟨hlast, htasks'.trans htasks⟩
  owned id t ht := by
    obtain ⟨u, hu, howner⟩ := h.owned id t ht
    obtain ⟨v, hv, howner'⟩ := h'.owned id u hu
    exact ⟨v, hv, howner'.trans howner⟩

/-- A store to which nothing is done proceeds. -/
theorem Proceeds.refl (s : Store) : s.Proceeds s := ⟨.refl s, rfl⟩

/-- A store that proceeds twice proceeds. -/
theorem Proceeds.trans (h : s.Proceeds s') (h' : s'.Proceeds s'') : s.Proceeds s'' :=
  ⟨h.toEvolves.trans h'.toEvolves, h'.workflows.trans h.workflows⟩

/-- Neither workflows nor the audit trail count. -/
theorem evolves_of_eq (hinstances : s'.instances = s.instances) (htasks : s'.tasks = s.tasks) :
    s.Evolves s' where
  frozen id i hi _ := by simp only [instance?, tasksOf, hinstances, htasks]; exact ⟨hi, trivial⟩
  owned id t ht := ⟨t, by simp only [task?, htasks]; exact ht, rfl⟩

/-- A new instance does not touch the others. -/
theorem saveInstance_proceeds (h : s.saveInstance i = .ok s') : s.Proceeds s' := by
  unfold saveInstance at h
  split at h
  · cases h
  · cases h
    refine ⟨⟨fun id j hj _ => ⟨?_, rfl⟩, fun id t ht => ⟨t, ht, rfl⟩⟩, rfl⟩
    rw [instance?, List.find?_append]
    rw [instance?] at hj
    rw [hj]
    rfl

/-- What is found after the update of an instance. -/
theorem instance?_updateInstance (h : s.updateInstance i = .ok s') (id : Uuid) :
    s'.instance? id = if id = i.id then some i else s.instance? id := by
  unfold updateInstance at h
  split at h
  · next hthere =>
    cases h
    rw [instance?, find?_replaceFirst Instance.id]
    split
    · next hid =>
      subst hid
      obtain ⟨j, hj⟩ := Option.isSome_iff_exists.mp hthere
      rw [instance?] at hj
      rw [hj]
      rfl
    · rfl
  · cases h

/-- A running instance may be stored again. -/
theorem updateInstance_proceeds (hlive : s.IsLive i.id) (h : s.updateInstance i = .ok s') :
    s.Proceeds s' := by
  have hfound := instance?_updateInstance h
  obtain ⟨j, hj, hrunning⟩ := hlive
  have hrest : s'.tasks = s.tasks ∧ s'.workflows = s.workflows := by
    unfold updateInstance at h
    split at h <;> cases h
    exact ⟨rfl, rfl⟩
  refine ⟨⟨fun id k hk hended => ⟨?_, by simp only [tasksOf, hrest.1]⟩, fun id t ht =>
    ⟨t, by simp only [task?, hrest.1]; exact ht, rfl⟩⟩, hrest.2⟩
  have hother : id ≠ i.id := by
    rintro rfl
    rw [hk] at hj
    cases hj
    rw [hended] at hrunning
    cases hrunning
  rw [hfound, if_neg hother, hk]

/-- A task may be stored for a running instance. -/
theorem saveTask_proceeds (hlive : s.IsLive t.instanceId) (h : s.saveTask t = .ok s') :
    s.Proceeds s' := by
  unfold saveTask at h
  split at h
  · cases h
  · cases h
    obtain ⟨j, hj, hrunning⟩ := hlive
    refine ⟨⟨fun id i hi hended => ⟨hi, ?_⟩, fun id u hu => ⟨u, ?_, rfl⟩⟩, rfl⟩
    · have hother : t.instanceId ≠ id := by
        rintro rfl
        rw [hi] at hj
        cases hj
        rw [hended] at hrunning
        cases hrunning
      simp [tasksOf, List.filter_append, hother]
    · rw [task?, List.find?_append]
      rw [task?] at hu
      rw [hu]
      rfl

/-- A task may be stored again for its instance. -/
theorem updateTask_proceeds (ht : s.task? u.id = some t) (howner : t.instanceId = u.instanceId)
    (h : s.updateTask u = .ok s') : s.Proceeds s' := by
  unfold updateTask at h
  split at h
  · cases h
    refine ⟨⟨fun id i hi _ => ⟨hi, ?_⟩, fun id v hv => ?_⟩, rfl⟩
    · exact map_filter_replaceFirst Task.id ht (by simp only [howner])
    · rw [task?, find?_replaceFirst Task.id]
      by_cases hid : id = u.id
      · subst hid
        have hsame : v = t := Option.some.inj (hv.symm.trans ht)
        rw [if_pos rfl]
        rw [task?] at hv
        rw [hv]
        exact ⟨u, rfl, by rw [hsame, howner]⟩
      · rw [if_neg hid]
        exact ⟨v, hv, rfl⟩
  · cases h

end Store

instance : IsPreorder Store Store.Evolves where
  refl := .refl
  trans _ _ _ := .trans

instance : IsPreorder Store Store.Proceeds where
  refl := .refl
  trans _ _ _ := .trans

/-! ## The engine -/

/-- An instance of which the engine has made sure is running. -/
theorem Instance.isRunning_of_ensureRunning {i : Instance} (h : i.ensureRunning = .ok ()) :
    i.isRunning := by
  unfold ensureRunning at h
  split at h
  · assumption
  · cases h

/-- What opening tasks does to a store. -/
structure Store.Opens (s s' : Store) : Prop extends Proceeds s s' where
  instances : s'.instances = s.instances

instance : IsPreorder Store Store.Opens where
  refl s := ⟨.refl s, rfl⟩
  trans _ _ _ h h' := ⟨h.toProceeds.trans h'.toProceeds, h'.instances.trans h.instances⟩

/-- Opening tasks leaves a running instance running. -/
theorem Store.IsLive.opens {s s' : Store} {id : Uuid} (h : s.IsLive id) (hs : s.Opens s') :
    s'.IsLive id := by
  obtain ⟨i, hi, hrunning⟩ := h
  exact ⟨i, by rw [instance?, hs.instances]; exact hi, hrunning⟩

/-- Saving a task of a running instance opens it. -/
theorem Store.saveTask_opens {s s' : Store} {t : Task} (hlive : s.IsLive t.instanceId)
    (h : s.saveTask t = .ok s') : s.Opens s' := by
  refine ⟨saveTask_proceeds hlive h, ?_⟩
  unfold saveTask at h
  split at h <;> cases h
  rfl

namespace Engine

open Operation

variable {e : Engine} {env : Environment} {i : Instance}

/-- Reading the tasks of an instance only looks. -/
theorem tasksOf_looks (e : Engine) (id : Uuid) : (e.tasksOf id).Looks :=
  Repository.allTasks_looks id _

/-- Looking for the next step only looks. -/
theorem nextStep_looks (e : Engine) (d : Definition) (s : Step) (i : Instance) :
    (e.nextStep d s i).Looks := .bind (tasksOf_looks e i.id) fun _ => .heed _

/-- Opening a task of a running instance. -/
theorem openTask_leads (hlive : env.store.IsLive i.id) (s : Step) (key : String)
    (parent : Option String) (history : List Task) :
    (e.openTask i s key parent history).Leads Store.Opens env := by
  refine .after (.freshId .task) fun id env₁ h₁ => .after .now fun now env₂ h₂ => ?_
  refine .heed fun env₃ h₃ => .bind (.change fun s' hs => Store.saveTask_opens ?_ hs)
    fun _ env₄ _ =>
      ((Looks.say _ _).bind fun _ => (Looks.announce _ _).bind fun _ => .pure _).leads env₄
  have howner : (e.built i history now id ⟨s, key, parent⟩).instanceId = i.id :=
    built_instanceId (e := e) i history now id _
  rw [h₃, h₂, h₁]
  exact howner.symm ▸ hlive

/-- Opening the branches of a running instance opens tasks only. The induction is on the branches.
-/
theorem openBranches_leads (hlive : env.store.IsLive i.id) (parallel : Step) (history : List Task)
    (branches : List Step) :
    (e.openBranches i parallel history branches).Leads Store.Opens env := by
  induction branches generalizing env with
  | nil => exact (Looks.pure ()).leads env
  | cons b branches ih =>
    have hfirst := openTask_leads (e := e) hlive b (parallel.branchKey b) (some parallel.id) history
    refine .bind hfirst fun _ env' hrun => ih (hlive.opens ?_)
    rw [Operation.Leads, leaves, hrun] at hfirst
    exact hfirst

/-- Completing a running instance. -/
theorem completeInstance_leads (hlive : env.store.IsLive i.id) :
    (e.completeInstance i).Leads Store.Proceeds env := by
  refine .after (tasksOf_looks e i.id) fun tasks env₁ h₁ => .after .now fun now env₂ h₂ => ?_
  refine .lift fun j hj => .bind (.change fun s hs => Store.updateInstance_proceeds ?_ hs)
    fun _ env₃ _ => ((Looks.say _ _).bind fun _ => .announce _ _).leads env₃
  have hid : j.id = i.id := by
    rw [(Instance.of_complete hj).2]
  rw [hid, h₂, h₁]
  exact hlive

/-- Executing a step of a running instance. What is done when the step needs nobody is done in
the store of before. -/
theorem execute_leads (hlive : env.store.IsLive i.id) (s : Step) {onward : Operation Unit}
    (honward : ∀ env', env'.store = env.store → onward.Leads Store.Proceeds env') :
    (e.execute i s onward).Leads Store.Proceeds env := by
  refine .after (.say _ _) fun _ env₁ h₁ => ?_
  have hlive₁ : env₁.store.IsLive i.id := h₁.symm ▸ hlive
  split
  · refine .after (tasksOf_looks e i.id) fun tasks env₂ h₂ => ?_
    refine .bind (.mono (openTask_leads (h₂.symm ▸ hlive₁) _ _ _ _) fun _ _ h => h.toProceeds) ?_
    exact fun _ env₃ _ => (Looks.pure ()).leads env₃
  · exact honward env₁ h₁
  · refine .after (tasksOf_looks e i.id) fun tasks env₂ h₂ => .heed fun env₃ h₃ => ?_
    split
    · refine .after (.say _ _) fun _ env₄ h₄ => honward env₄ ?_
      rw [h₄, h₃, h₂, h₁]
    · refine .mono (openBranches_leads ?_ _ _ _) fun _ _ h => h.toProceeds
      rw [h₃, h₂]
      exact hlive₁
  · exact completeInstance_leads hlive₁
  · exact .after (.say _ _) fun _ env₂ h₂ => honward env₂ (h₂.trans h₁)

/-- Walking on with a running instance. -/
theorem advance_leads (d : Definition) (hlive : env.store.IsLive i.id) (remaining : Nat)
    (s : Step) : (e.advance d i remaining s).Leads Store.Proceeds env := by
  induction remaining generalizing s env with
  | zero => exact (Looks.throw _).leads env
  | succ remaining ih =>
    refine .after (nextStep_looks e d s i) fun next env₁ h₁ => ?_
    have hlive₁ : env₁.store.IsLive i.id := h₁.symm ▸ hlive
    cases next with
    | none => exact (Looks.say _ _).leads env₁
    | some next =>
      exact execute_leads hlive₁ next fun env₂ h₂ => ih (h₂.symm ▸ hlive₁) next

/-- Starting an instance. -/
theorem start_leads (id : Uuid) : (e.start id).Leads Store.Proceeds env := by
  refine Repository.instanceOf_leads fun i env₁ h₁ hi => .lift fun _ hrunning => ?_
  have hi₁ : env₁.store.instance? id = some i := h₁.symm ▸ hi
  have hrunning := Instance.isRunning_of_ensureRunning hrunning
  refine .after (Repository.workflow_looks _) fun w env₂ h₂ => .lift fun _ _ => ?_
  refine .after (.heedResult _) fun d env₃ h₃ => ?_
  split
  · exact (Looks.throw _).leads env₃
  · refine .after .now fun now env₄ h₄ => ?_
    have hi₄ : env₄.store.instance? i.id = some i := by
      rw [h₄, h₃, h₂, Store.id_of_instance? hi]
      exact hi₁
    let j : Instance := { i with startedAt := now }
    refine .change_bind (fun s hs => Store.updateInstance_proceeds (i := j) ⟨i, hi₄, hrunning⟩ hs)
      fun env₅ hs => .after (.say _ _) fun _ env₆ h₆ => ?_
    have hlive : env₆.store.IsLive j.id := by
      refine ⟨j, ?_, hrunning⟩
      rw [h₆, Store.instance?_updateInstance hs, if_pos rfl]
    exact execute_leads hlive _ fun env₇ h₇ => advance_leads d (h₇.symm ▸ hlive) _ _

/-- Behind a running instance and its definition the instance is there and running. -/
theorem runningInstance_leads {β : Type} {R : Store → Store → Prop} [IsPreorder Store R]
    {id : Uuid} {f : Instance × Definition → Operation β}
    (hf : ∀ i d env', env'.store = env.store → env.store.instance? id = some i → i.isRunning →
      (f (i, d)).Leads R env') : (runningInstance id >>= f).Leads R env := by
  rw [runningInstance, bind_assoc]
  refine Repository.instanceOf_leads fun i env₁ h₁ hi => ?_
  rw [bind_assoc]
  refine .lift fun _ hrunning => ?_
  rw [bind_assoc]
  refine .after (Repository.workflow_looks _) fun w env₂ h₂ => ?_
  rw [bind_assoc]
  exact .after (.heedResult _) fun d env₃ h₃ => hf i d env₃ (by rw [h₃, h₂, h₁]) hi
    (Instance.isRunning_of_ensureRunning hrunning)

/-- Behind a join of a running instance the instance is still running. -/
theorem fireJoin_leads (hi : env.store.instance? i.id = some i) (hrunning : i.isRunning)
    (parallel : Step) {f : Option Instance → Operation Unit}
    (hnone : ∀ env', (f none).Leads Store.Proceeds env')
    (hsome : ∀ j env', env'.store.IsLive j.id → (f (some j)).Leads Store.Proceeds env') :
    (e.fireJoin i parallel >>= f).Leads Store.Proceeds env := by
  rw [fireJoin, bind_assoc]
  refine .after (tasksOf_looks e i.id) fun tasks env₁ h₁ => ?_
  split
  · rw [bind_assoc]
    exact .after (.say _ _) fun _ env₂ _ => hnone env₂
  · rw [bind_assoc]
    refine .after .now fun now env₂ h₂ => ?_
    split
    · rw [bind_assoc]
      exact .after (.say _ _) fun _ env₃ _ => hnone env₃
    · next j hj =>
      have heq := Instance.of_claimJoin? hj
      have hlive : env₂.store.IsLive j.id := ⟨i, by rw [heq, h₂, h₁]; exact hi, hrunning⟩
      have hclaimed : j.isRunning := by
        rw [heq]
        exact hrunning
      rw [bind_assoc]
      refine .change_bind (fun s hs => Store.updateInstance_proceeds (i := j) hlive hs)
        fun env₃ hs => ?_
      rw [bind_assoc]
      refine .after (.say _ _) fun _ env₄ h₄ => hsome j env₄ ⟨j, ?_, hclaimed⟩
      rw [h₄, Store.instance?_updateInstance hs, if_pos rfl]

/-- Continuing an instance behind a task. -/
theorem continueAfter_leads (t : Task) : (e.continueAfter t).Leads Store.Proceeds env := by
  refine runningInstance_leads fun i d env₁ h₁ hi hrunning => .lift fun current _ => ?_
  have hi₁ : env₁.store.instance? i.id = some i := by
    rw [h₁, Store.id_of_instance? hi]
    exact hi
  split
  · exact fireJoin_leads hi₁ hrunning current (fun env₂ => (Looks.pure ()).leads env₂)
      fun j env₂ hlive => advance_leads d hlive _ _
  · exact advance_leads d ⟨i, hi₁, hrunning⟩ _ _

/-- Going back behind a rejected task opens a task of the same instance, which is running. -/
theorem goBack_leads (t : Task) : (e.goBack t).Leads Store.Proceeds env := by
  refine runningInstance_leads fun i d env₁ h₁ hi hrunning => ?_
  have hlive : env₁.store.IsLive i.id := by
    rw [h₁, Store.id_of_instance? hi]
    exact ⟨i, hi, hrunning⟩
  refine .after (tasksOf_looks e i.id) fun tasks env₂ h₂ => .after .now fun now env₃ h₃ => ?_
  dsimp only
  split
  · next previous hprevious =>
    refine .after (.pure _) fun previous env₄ h₄ => ?_
    split
    · refine .after (.pure _) fun origin env₅ h₅ => .after (.freshId _) fun id env₆ h₆ => ?_
      refine .after .now fun now env₇ h₇ => .heed fun env₈ h₈ => ?_
      refine .bind (.change fun s hs => Store.saveTask_proceeds ?_ hs) fun _ env₉ _ => ?_
      · have howner : (e.built i tasks now id
            ⟨origin.taskStep, previous.key, origin.parentId?⟩).instanceId = i.id :=
          built_instanceId (e := e) i tasks now id _
        rw [h₈, h₇, h₆, h₅, h₄, h₃, h₂]
        exact howner.symm ▸ hlive
      · refine .after (.say _ _) fun _ env₁₀ _ => ?_
        split
        · exact ((Looks.announce _ _).bind fun _ => .pure _).leads env₁₀
        · exact ((Looks.announce _ _).bind fun _ => .pure _).leads env₁₀
    · exact (Looks.throw_bind _ _).leads env₄
  · exact (Looks.throw_bind _ _).leads env₃

/-- Moving the instance of a task. -/
theorem move_leads (t : Task) : (e.move t).Leads Store.Proceeds env := by
  unfold move
  split
  · exact .bind (goBack_leads t) fun _ env' _ => (Looks.pure ()).leads env'
  · exact continueAfter_leads t

/-- Storing a task again for its instance. -/
theorem updateTask_leads {t u : Task} (ht : env.store.task? u.id = some t)
    (howner : t.instanceId = u.instanceId) :
    (Repository.updateTask u).Leads Store.Proceeds env :=
  .change fun _ hs => Store.updateTask_proceeds ht howner hs

/-- Carrying a task through. -/
theorem progress_leads (id : Uuid) : (e.progress id).Leads Store.Proceeds env := by
  rw [progress_eq]
  refine .after (Repository.task_looks id) fun _ env₁ h₁ => ?_
  refine Repository.task_leads fun t env₂ h₂ ht => ?_
  split
  · exact ((Looks.say _ _).bind fun _ => .pure t).leads env₂
  · split
    · exact (Looks.throw _).leads env₂
    · have hmove : (attempt (e.move t)).Leads Store.Proceeds env₂ := .attempt (move_leads t)
      refine .bind hmove fun outcome env₃ hrun => ?_
      -- the task is still at its instance when the outcome is written down
      have ht₂ : env₂.store.task? t.id = some t := by
        rw [h₂, Store.id_of_task? ht, ht]
      rw [Operation.Leads, leaves, hrun] at hmove
      obtain ⟨u, hu, howner⟩ := hmove.owned t.id t ht₂
      cases outcome with
      | ok _ =>
        exact .bind (updateTask_leads hu howner) fun _ env₄ _ => (Looks.pure _).leads env₄
      | error error =>
        exact .bind (updateTask_leads hu howner) fun _ env₄ _ => (Looks.throw _).leads env₄

end Engine

/-! ## The management of tasks and workflows -/

/-- The relation holds where a task has been stored again for its instance, and where an entry has
been added to the audit trail. -/
structure Store.AllowsWork (R : Store → Store → Prop) : Prop where
  update : ∀ s s' t u, s.task? u.id = some t → t.instanceId = u.instanceId →
    s.updateTask u = .ok s' → R s s'
  enter : ∀ s entry, R s (s.appendHistory entry)

/-- Proceeding allows for work on tasks. -/
theorem Store.proceeds_allowsWork : Store.AllowsWork Store.Proceeds where
  update _ _ _ _ := updateTask_proceeds
  enter _ _ := ⟨evolves_of_eq rfl rfl, rfl⟩

namespace Tasks

open Operation Engine

variable {e : Engine} {env : Environment} {id : Uuid} {t u : Task}

section Work

variable {R : Store → Store → Prop} [IsPreorder Store R]

/-- Storing a task together with an entry about it. -/
theorem store_leads (hR : Store.AllowsWork R) (ht : env.store.task? u.id = some t)
    (howner : t.instanceId = u.instanceId) (entry : Uuid → Timestamp → HistoryEntry) :
    (store u entry).Leads R env := by
  refine .bind (.change fun s hs => hR.update _ s t u ht howner hs) fun _ env₁ _ => ?_
  refine .after (.freshId _) fun _ env₂ _ => .after .now fun _ env₃ _ => .change fun s hs => ?_
  cases hs
  exact hR.enter _ _

/-- A task that has been worked on is stored, and then nothing else. -/
theorem stored_leads (hR : Store.AllowsWork R) {f : Operation Task}
    (ht : env.store.task? t.id = some t) (hplace : u.id = t.id ∧ u.instanceId = t.instanceId)
    (entry : Uuid → Timestamp → HistoryEntry) (hf : f.Looks) :
    (store u entry >>= fun _ => f).Leads R env :=
  .then_looks (store_leads hR (by rw [hplace.1, ht]) hplace.2.symm entry) fun _ => hf

/-- A claim leads to a store with the task stored again and an entry about it. -/
theorem claim_leads (hR : Store.AllowsWork R) (a : Actor) : (claim e id a).Leads R env := by
  refine Repository.task_leads fun t env₁ h₁ ht => ?_
  dsimp only
  split
  · exact (Looks.throw_bind _ _).leads env₁
  · split
    · exact (Looks.throw_bind _ _).leads env₁
    · refine .after .now fun now env₂ h₂ => .lift fun u hu => stored_leads (t := t) hR ?_ ?_ _ ?_
      · rw [h₂, h₁, Store.id_of_task? ht, ht]
      · obtain ⟨-, rfl⟩ := Task.of_claim hu
        exact ⟨rfl, rfl⟩
      · exact (Looks.say _ _).bind fun _ => (Looks.announce _ _).bind fun _ => .pure _

/-- Finishing a task leads to a store with the task stored again and an entry about it. -/
theorem finish_leads (hR : Store.AllowsWork R) (a : Actor) (c : Completion) :
    (finish e id a c).Leads R env := by
  refine Repository.task_leads fun t env₁ h₁ ht => ?_
  dsimp only
  split
  · exact (Looks.throw_bind _ _).leads env₁
  · split
    · exact (Looks.throw_bind _ _).leads env₁
    · refine .after .now fun now env₂ h₂ => .lift fun u hu => stored_leads (t := t) hR ?_ ?_ _ ?_
      · rw [h₂, h₁, Store.id_of_task? ht, ht]
      · obtain ⟨-, rfl⟩ := Task.of_complete hu
        exact ⟨rfl, rfl⟩
      · exact (Looks.say _ _).bind fun _ => (Looks.announce _ _).bind fun _ => .pure _

/-- A delegation leads to a store with the task stored again and an entry about it. -/
theorem delegate_leads (hR : Store.AllowsWork R) (a : Actor) (toUser : String) :
    (delegate e id a toUser).Leads R env := by
  refine Repository.task_leads fun t env₁ h₁ ht => ?_
  dsimp only
  split
  · exact (Looks.throw_bind _ _).leads env₁
  · refine .lift fun u hu => stored_leads (t := t) hR ?_ ?_ _ ?_
    · rw [h₁, Store.id_of_task? ht, ht]
    · obtain ⟨-, rfl⟩ := Task.of_delegate hu
      exact ⟨rfl, rfl⟩
    · exact (Looks.say _ _).bind fun _ => (Looks.announce _ _).bind fun _ => .pure _

end Work

/-- A completion lets the store proceed, and so does the progression behind it. -/
theorem complete_leads (a : Actor) (c : Completion) :
    (complete e id a c).Leads Store.Proceeds env := by
  refine .bind (finish_leads Store.proceeds_allowsWork a c) fun t env₁ _ => ?_
  refine .then_looks (.attempt (progress_leads t.id)) fun outcome => ?_
  cases outcome with
  | ok t => exact .pure t
  | error error => exact .bind (.say _ _) fun _ => Repository.task_looks t.id

/-- A retry lets the store proceed. -/
theorem retry_leads : (retry e id).Leads Store.Proceeds env := by
  refine .after (Repository.task_looks id) fun t env₁ _ => ?_
  dsimp only
  split
  · exact (Looks.throw_bind _ _).leads env₁
  · exact .after (.say _ _) fun _ env₂ _ => progress_leads id

end Tasks

namespace Workflows

open Operation Engine

variable {e : Engine} {env : Environment} {id : Uuid}

/-- Writing down that an instance could not be started. An instance that has ended meanwhile
stays what it is. -/
theorem recordFailure_leads (error : EngineError) :
    (recordFailure id error).Leads Store.Proceeds env := by
  refine .after (.say _ _) fun _ env₁ _ => Repository.instanceOf_leads fun i env₂ h₂ hi => ?_
  refine .after .now fun now env₃ h₃ => ?_
  split
  · next failed hfailed =>
    have hlive : env₃.store.IsLive failed.id := by
      obtain ⟨hrunning, rfl⟩ := Instance.of_fail hfailed
      refine ⟨i, ?_, hrunning⟩
      rw [h₃, h₂, Store.id_of_instance? hi]
      exact hi
    exact .change fun s hs => Store.updateInstance_proceeds hlive hs
  · exact (Looks.pure ()).leads env₃

/-- Making a new instance only looks, as it is not stored yet. -/
theorem newInstance_looks (workflow : Uuid) (input : Json) : (newInstance workflow input).Looks :=
  .bind (.freshId _) fun _ => .bind (.heed _) fun _ => .bind .now fun _ => .pure _

/-- A start lets the store proceed, also if the new instance is then left as a failed one. -/
theorem startInstance_leads (input : Json) :
    (startInstance e id input).Leads Store.Proceeds env := by
  refine .after (Repository.workflow_looks id) fun w env₁ _ => .lift fun _ _ => ?_
  refine .after (newInstance_looks w.id input) fun i env₂ _ => ?_
  refine .bind (.change fun s hs => Store.saveInstance_proceeds hs) fun _ env₃ _ => ?_
  refine .bind (.attempt (start_leads i.id)) fun outcome env₄ _ => ?_
  cases outcome with
  | ok _ => exact (Repository.instanceOf_looks i.id).leads env₄
  | error error =>
    exact .bind (recordFailure_leads error) fun _ env₅ _ => (Looks.throw error).leads env₅

/-- Cancelling an instance lets the store proceed, as only a running one is cancelled. -/
theorem cancelInstance_leads : (cancelInstance id).Leads Store.Proceeds env := by
  refine Repository.instanceOf_leads fun i env₁ h₁ hi => .after .now fun now env₂ h₂ => ?_
  refine .lift fun j hj => ?_
  have hlive : env₂.store.IsLive j.id := by
    obtain ⟨hrunning, rfl⟩ := Instance.of_cancel hj
    refine ⟨i, ?_, hrunning⟩
    rw [h₂, h₁, Store.id_of_instance? hi]
    exact hi
  refine .bind (.change fun s hs => Store.updateInstance_proceeds hlive hs) fun _ env₃ _ => ?_
  exact ((Looks.say _ _).bind fun _ => .pure _).leads env₃

section Ruling

variable {R : Store → Store → Prop} [Std.Refl R]

/-- A change of workflows leaves instances and tasks alone. -/
theorem change_leads
    (hR : ∀ s s' : Store, s'.instances = s.instances → s'.tasks = s.tasks → R s s')
    {call : StoreCall} {run : Store → Except EngineError Store}
    (h : ∀ s s', run s = .ok s' → s'.instances = s.instances ∧ s'.tasks = s.tasks) :
    (change call run).Leads R env :=
  .change fun s hs => hR _ s (h _ s hs).1 (h _ s hs).2

/-- Updating a workflow leads wherever neither the instances nor the tasks count. -/
theorem updateWorkflow_leads
    (hR : ∀ s s' : Store, s'.instances = s.instances → s'.tasks = s.tasks → R s s')
    (w : Workflow) : (Repository.updateWorkflow w).Leads R env := by
  refine change_leads hR fun s s' hs => ?_
  unfold Store.updateWorkflow at hs
  split at hs <;> cases hs
  exact ⟨rfl, rfl⟩

end Ruling

end Workflows

/-- An inquiry only looks. -/
theorem Inquiry.perform_looks (e : Engine) (q : Inquiry) : (q.perform e).Looks := by
  cases q with
  | workflow id => exact .bind (Repository.workflow_looks id) fun _ => .pure _
  | workflows => exact .bind (.query _ _) fun _ => .pure _
  | instances id => exact .bind (.query _ _) fun _ => .pure _
  | run id => exact .bind (Repository.instanceOf_looks id) fun _ => .pure _
  | task id => exact .bind (Repository.task_looks id) fun _ => .pure _
  | openTasks id =>
    exact .bind (.bind (Engine.tasksOf_looks e id) fun _ => .pure _) fun _ => .pure _
  | stalled id => exact .bind (.bind (Engine.tasksOf_looks e id) fun _ => .pure _) fun _ => .pure _
  | history id =>
    exact .bind (.bind (Repository.task_looks id) fun _ => .query _ _) fun _ => .pure _

namespace Request

open Operation

variable {e : Engine} {env : Environment}

/-- The request is not about workflows themselves. -/
def LeavesWorkflows : Request → Prop
  | .createWorkflow _ _ _ => False
  | .applyAction _ _ => False
  | .deleteWorkflow _ => False
  | .updateDefinition _ _ => False
  | _ => True

/-- A request about workflows leaves instances and tasks alone. -/
theorem perform_leads {R : Store → Store → Prop} [Std.Refl R]
    (hR : ∀ s s' : Store, s'.instances = s.instances → s'.tasks = s.tasks → R s s') {r : Request}
    (h : ¬ r.LeavesWorkflows) : (r.perform e).Leads R env := by
  have hdone : ∀ {α : Type} {x : Operation α}, x.Leads R env →
      (do let _ ← x : Operation Unit).Leads R env := fun hx => .then_looks hx fun _ => .pure ()
  cases r with
  | createWorkflow name description definition =>
    refine hdone (.after (.heedResult _) fun _ env₁ _ => .after (.freshId _) fun _ env₂ _ => ?_)
    refine .after .now fun _ env₃ _ => .then_looks (Workflows.change_leads hR fun s s' hs => ?_)
      fun _ => .bind (.say _ _) fun _ => .pure _
    unfold Store.saveWorkflow at hs
    split at hs <;> cases hs
    exact ⟨rfl, rfl⟩
  | applyAction action workflow =>
    exact hdone (.after (Repository.workflow_looks workflow) fun _ _ _ => .after .now fun _ _ _ =>
      .lift fun w _ => .then_looks (Workflows.updateWorkflow_leads hR w) fun _ =>
        .bind (.say _ _) fun _ => .pure _)
  | updateDefinition workflow definition =>
    exact hdone (.after (Repository.workflow_looks workflow) fun _ _ _ => .after .now fun _ _ _ =>
      .after (.heedResult _) fun w _ _ => .then_looks (Workflows.updateWorkflow_leads hR w)
        fun _ => .bind (.say _ _) fun _ => .pure _)
  | deleteWorkflow workflow =>
    refine .after (Repository.workflow_looks workflow) fun w env₁ _ => ?_
    dsimp only
    split
    · exact (Looks.throw_bind _ _).leads env₁
    · refine .then_looks (Workflows.change_leads hR fun s s' hs => ?_) fun _ => .say _ _
      unfold Store.deleteWorkflow at hs
      split at hs <;> cases hs
      exact ⟨rfl, rfl⟩
  | _ => exact absurd trivial h

/-- A request that is not about workflows leaves them alone. -/
theorem perform_proceeds {r : Request} (h : r.LeavesWorkflows) :
    (r.perform e).Leads Store.Proceeds env := by
  have hdone : ∀ {α : Type} {x : Operation α}, x.Leads Store.Proceeds env →
      (do let _ ← x : Operation Unit).Leads Store.Proceeds env :=
    fun hx => .then_looks hx fun _ => .pure ()
  cases r with
  | createWorkflow | applyAction | deleteWorkflow | updateDefinition => exact h.elim
  | startInstance workflow input => exact hdone (Workflows.startInstance_leads input)
  | cancelInstance run => exact hdone Workflows.cancelInstance_leads
  | claim task a => exact hdone (Tasks.claim_leads Store.proceeds_allowsWork a)
  | complete task a c => exact hdone (Tasks.complete_leads a c)
  | delegate task a toUser => exact hdone (Tasks.delegate_leads Store.proceeds_allowsWork a toUser)
  | retry task => exact hdone Tasks.retry_leads
  | inquire q => exact (q.perform_looks e).leads env
  | finish task a c => exact hdone (Tasks.finish_leads Store.proceeds_allowsWork a c)
  | progress task => exact hdone (Engine.progress_leads task)

/-- Every request lets the store evolve. -/
theorem perform_evolves (r : Request) : (r.perform e).Leads Store.Evolves env := by
  by_cases hr : r.LeavesWorkflows
  · exact (perform_proceeds hr).mono fun _ _ h => h.toEvolves
  · exact perform_leads (fun _ _ => Store.evolves_of_eq) hr

end Request

/-! ## Runs of requests and of operations of the engine -/

/-- What can be asked of the management and of the engine. The engine is given tasks, steps and
instances as values, which need not be those of the store. -/
inductive Directive where
  | serve (r : Request)
  | start (run : Uuid)
  | continueAfter (t : Task)
  | goBack (t : Task)
  | nextStep (d : Definition) (s : Step) (i : Instance)

/-- Does what is asked for. -/
def Directive.perform (e : Engine) : Directive → Operation Unit
  | .serve r => r.perform e
  | .start run => e.start run
  | .continueAfter t => e.continueAfter t
  | .goBack t => do let _ ← e.goBack t
  | .nextStep d s i => do let _ ← e.nextStep d s i

open Operation in
/-- Whatever is asked for lets the store evolve. -/
theorem Directive.perform_evolves (e : Engine) (d : Directive) (env : Environment) :
    (d.perform e).Leads Store.Evolves env := by
  cases d with
  | serve r => exact r.perform_evolves
  | start run => exact (Engine.start_leads run).mono fun _ _ h => h.toEvolves
  | continueAfter t => exact (Engine.continueAfter_leads t).mono fun _ _ h => h.toEvolves
  | goBack t =>
    exact .bind ((Engine.goBack_leads t).mono fun _ _ h => h.toEvolves) fun _ env' _ =>
      (Looks.pure ()).leads env'
  | nextStep d s i =>
    exact ((Engine.nextStep_looks e d s i).bind fun _ => .pure ()).leads env

/-- A directive, the time at which it is followed, and the outage that it meets, if any. -/
structure Order where
  time : Timestamp
  outage : Option Outage
  directive : Directive

namespace Environment

/-- The environment after an order. -/
def follow (env : Environment) (e : Engine) (o : Order) : Environment :=
  (o.directive.perform e).leaves { env with now := o.time, outage := o.outage }

/-- The environment after several orders. -/
def followAll (env : Environment) (e : Engine) : List Order → Environment
  | [] => env
  | o :: orders => (env.follow e o).followAll e orders

/-- An order lets the store evolve, also during an outage. -/
theorem follow_evolves (env : Environment) (e : Engine) (o : Order) :
    env.store.Evolves (env.follow e o).store :=
  o.directive.perform_evolves e { env with now := o.time, outage := o.outage }

/-- Throughout a run the store evolves. -/
theorem followAll_evolves (env : Environment) (e : Engine) (orders : List Order) :
    env.store.Evolves (env.followAll e orders).store := by
  induction orders generalizing env with
  | nil => exact .refl env.store
  | cons o orders ih => exact (env.follow_evolves e o).trans (ih (env.follow e o))

end Environment

/-- An instance that has ended is frozen: whatever the management and the engine are asked for
after that, in whatever environment, with or without outages, its record stays what it is, and
its tasks stay the ones that it has. -/
theorem ended_instance_frozen (e : Engine) (env : Environment) (orders : List Order) {id : Uuid}
    {i : Instance} (hi : env.store.instance? id = some i) (hended : i.isRunning = false) :
    (env.followAll e orders).store.instance? id = some i ∧
      ((env.followAll e orders).store.tasksOf id).map Task.id =
        (env.store.tasksOf id).map Task.id :=
  (env.followAll_evolves e orders).frozen id i hi hended

/-- A workflow is created and started, and the instance is given up while a task is open. -/
def cancellation : List Order :=
  let workflow := IdSource.issue 0 .workflow 0
  [.createWorkflow "w" "" "\x7b\"steps\":[[\"a\",\"user_task\"],[\"b\",\"user_task\"]]\x7d",
    .applyAction .activate workflow, .startInstance workflow .null,
    .cancelInstance (IdSource.issue 0 .run 0)].map fun r => ⟨⟨0, 0⟩, none, .serve r⟩

/-- The environment after `cancellation`. -/
def cancelledEnvironment : Environment :=
  (Environment.fresh 0 ⟨0, 0⟩).followAll .default cancellation

/-- What is tried after `cancellation`: the task is completed and tried again, the instance is
started and given up once more, the definition is replaced, and the task is rejected. -/
def afterCancellation : List Order :=
  let run := IdSource.issue 0 .run 0
  let task := IdSource.issue 0 .task 0
  [.serve (.complete task ⟨"u", []⟩ ⟨.completed, .null, none⟩), .serve (.retry task), .start run,
    .serve (.cancelInstance run),
    .serve (.updateDefinition (IdSource.issue 0 .workflow 0)
      "\x7b\"steps\":[[\"a\",\"user_task\"]]\x7d"),
    .goBack (Task.new task run (IdSource.issue 0 .workflow 0) "b" "b" ⟨0, 0⟩),
    .serve (.startInstance (IdSource.issue 0 .workflow 0) .null)].map fun d => ⟨⟨1, 0⟩, none, d⟩

/-- The cancelled instance and its one task outlast all that. -/
theorem ended_instance_frozen_cancelled :
    ∃ i, cancelledEnvironment.store.instance? (IdSource.issue 0 .run 0) = some i ∧
      i.status = .cancelled ∧
      let env := cancelledEnvironment.followAll .default afterCancellation
      env.store.instance? (IdSource.issue 0 .run 0) = some i ∧
        (env.store.tasksOf (IdSource.issue 0 .run 0)).map Task.id = [IdSource.issue 0 .task 0] := by
  have hcancelled : (cancelledEnvironment.store.instance? (IdSource.issue 0 .run 0)).map
      Instance.status = some .cancelled := by decide +kernel
  have htasks : (cancelledEnvironment.store.tasksOf (IdSource.issue 0 .run 0)).map Task.id =
      [IdSource.issue 0 .task 0] := by decide +kernel
  obtain ⟨i, hi, hstatus⟩ := Option.map_eq_some_iff.mp hcancelled
  obtain ⟨hsame, hids⟩ := ended_instance_frozen .default cancelledEnvironment afterCancellation hi
    (by rw [Instance.isRunning, hstatus]; rfl)
  exact ⟨i, hi, hstatus, hsame, hids.trans htasks⟩

end ApprovalWorkflow
