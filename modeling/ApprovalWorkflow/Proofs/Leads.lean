import ApprovalWorkflow.Proofs.Yields
import Mathlib.Order.Defs.Unbundled

/-!
# Where operations lead the store

`x.Leads R env` says that the store that the operation `x` leaves is related by `R` to the one in
which it began, whatever its outcome, and also during an outage. For a preorder `R` this follows
the text of the operation: every part has to lead to a related store, and behind a part it is
known what that part has given (`Leads.bind`, `Leads.lift`, `Leads.change_bind`). A part that only
looks leaves the store as it is and is related to itself by every such relation (`Looks.leads`), so
that it may stand before or behind another one for any reflexive relation (`Leads.behind`,
`Leads.then_looks`).

Unlike `Yields`, this asks nothing of the environment and says nothing about outcomes. What is known
of the values that an operation gives whenever it works is said by `x.Gives P`.
-/

set_option autoImplicit false

namespace ApprovalWorkflow

namespace Operation

variable {α β : Type} {R : Store → Store → Prop} {env : Environment}

/-- From the environment the operation leads to a store that is so related to the one before,
whatever its outcome. -/
def Leads (R : Store → Store → Prop) (x : Operation α) (env : Environment) : Prop :=
  R env.store (x.leaves env).store

/-- A call of the store that works gives what the store makes of it. -/
theorem run_of_perform {call : StoreCall} {run : Store → Except EngineError (α × Store)} {a : α}
    {env' : Environment} (h : (perform call run).runIn env = (.ok a, env')) :
    run env.store = .ok (a, env'.store) := by
  change perform call run env = _ at h
  unfold perform at h
  generalize Outage.meet env.outage call = met at h
  generalize run env.store = made at h ⊢
  obtain ⟨_ | _ | _, outage⟩ := met <;> obtain _ | ⟨b, s⟩ := made <;> cases h
  rfl

/-- The operation leaves the store as it is. -/
def Looks (x : Operation α) : Prop := ∀ env, x.Leads Eq env

namespace Leads

/-- Where an operation leads may be described more loosely. -/
theorem mono {R' : Store → Store → Prop} {x : Operation α} (h : x.Leads R env)
    (himp : ∀ s s', R s s' → R' s s') : x.Leads R' env := himp _ _ h

/-- To attempt an operation leads where the operation leads, whatever its outcome. -/
theorem attempt {x : Operation α} (h : x.Leads R env) : (Operation.attempt x).Leads R env := h

/-- A call of the store leads to what the store makes of it, or leaves the store as it is. -/
theorem perform [Std.Refl R] {call : StoreCall}
    {run : Store → Except EngineError (α × Store)}
    (h : ∀ a s, run env.store = .ok (a, s) → R env.store s) :
    (Operation.perform call run).Leads R env := by
  show R env.store (Operation.perform call run env).2.store
  unfold Operation.perform
  rcases Outage.meet env.outage call with ⟨_ | _ | _, outage⟩ <;>
    rcases hrun : run env.store with _ | ⟨a, s⟩ <;>
      first
        | exact refl_of R env.store
        | exact h a s hrun

/-- A change of the store leads to what the store makes of it, or leaves the store as it is. -/
theorem change [Std.Refl R] {call : StoreCall} {run : Store → Except EngineError Store}
    (h : ∀ s, run env.store = .ok s → R env.store s) : (Operation.change call run).Leads R env := by
  refine perform fun a s hs => h s ?_
  cases hrun : run env.store with
  | error error => rw [hrun] at hs; cases hs
  | ok s' => rw [hrun] at hs; cases hs; rfl

/-- Where a first part leads to a store that is related to the one before, a second part has to
lead from there to one that is. -/
theorem onward {P : Store → Store → Prop} {x : Operation α} {f : α → Operation β}
    (hx : x.Leads P env) (hP : ∀ s, P env.store s → R env.store s)
    (hf : ∀ a env', x.runIn env = (.ok a, env') → P env.store env'.store →
      R env.store ((f a).leaves env').store) : (x >>= f).Leads R env := by
  rw [Leads, leaves] at hx ⊢
  rw [runIn_bind]
  rcases hrun : x.runIn env with ⟨error | a, env'⟩
  · rw [hrun] at hx
    exact hP _ hx
  · rw [hrun] at hx
    exact hf a env' hrun hx

/-- Behind a part that leads to a related store a second part may follow that does so, too. -/
theorem bind [IsPreorder Store R] {x : Operation α} {f : α → Operation β} (hx : x.Leads R env)
    (hf : ∀ a env', x.runIn env = (.ok a, env') → (f a).Leads R env') : (x >>= f).Leads R env :=
  .onward hx (fun _ h => h) fun a env' hrun h => trans_of R h (hf a env' hrun)

end Leads

namespace Looks

/-- What an operation that looks leads to does not count. -/
theorem leads [Std.Refl R] {x : Operation α} (hx : x.Looks) (env : Environment) :
    x.Leads R env := by
  rw [Operation.Leads, ← hx env]
  exact refl_of R env.store

/-- What is run of an operation that looks leaves the store as it was. -/
theorem store_eq {x : Operation α} (hx : x.Looks) {r : Except EngineError α} {env' : Environment}
    (h : x.runIn env = (r, env')) : env'.store = env.store := by
  have hleft := hx env
  rw [Operation.Leads, leaves, h] at hleft
  exact hleft.symm

/-- Giving a value at once only looks. -/
theorem pure (a : α) : (Pure.pure a : Operation α).Looks := fun _ => rfl

/-- Failing only looks. -/
theorem throw (e : EngineError) : (MonadExcept.throw e : Operation α).Looks := fun _ => rfl

/-- What would come after a failure does not matter. -/
theorem throw_bind (e : EngineError) (f : α → Operation β) :
    ((MonadExcept.throw e : Operation α) >>= f).Looks := fun _ => rfl

/-- Two operations in a row only look if both do. -/
theorem bind {x : Operation α} {f : α → Operation β} (hx : x.Looks) (hf : ∀ a, (f a).Looks) :
    (x >>= f).Looks := fun env => .bind (hx env) fun a env' _ => hf a env'

/-- Reading the clock leaves the store as it is. -/
theorem now : Operation.now.Looks := fun _ => rfl

/-- Looking at the environment leaves the store as it is. -/
theorem get : (MonadState.get : Operation Environment).Looks := fun _ => rfl

/-- Drawing an id leaves the store as it is. -/
theorem freshId (kind : RecordKind) : (Operation.freshId kind).Looks := fun _ => rfl

/-- Writing to the log leaves the store as it is. -/
theorem say (level : LogLevel) (text : String) : (Operation.say level text).Looks := fun _ => rfl

/-- Lifting a result leaves the store as it is. -/
theorem lift (x : Except EngineError α) : (Operation.lift x).Looks := by
  cases x <;> exact fun _ => rfl

/-- Taking over the lines of a logged value leaves the store as it is. -/
theorem heed (x : Logged α) : (Operation.heed x).Looks := fun _ => rfl

/-- Taking over the lines of a logged result leaves the store as it is. -/
theorem heedResult (x : Logged (Except EngineError α)) : (Operation.heedResult x).Looks :=
  .bind (.heed x) fun r => .lift r

/-- Announcing a notice leaves the store as it is, whether or not the notifier reports it. -/
theorem announce (n : Notifier) (notice : Notice) : (Operation.announce n notice).Looks := by
  cases n <;> exact fun _ => rfl

/-- A look into the store leaves it as it is. -/
theorem query (call : StoreCall) (look : Store → α) : (Operation.query call look).Looks :=
  fun _ => .perform fun _ _ h => (Prod.mk.inj (Except.ok.inj h)).2

end Looks

namespace Leads

/-- Behind an operation that looks the store is what it was. -/
theorem behind [Std.Refl R] {x : Operation α} {f : α → Operation β} (hx : x.Looks)
    (hf : ∀ a env', x.runIn env = (.ok a, env') → env'.store = env.store → (f a).Leads R env') :
    (x >>= f).Leads R env := by
  refine .onward (hx env) (fun s hs => hs ▸ refl_of R env.store) fun a env' hrun hstore => ?_
  rw [hstore]
  exact hf a env' hrun hstore.symm

/-- Behind an operation that looks a second one begins with the same store. -/
theorem after [Std.Refl R] {x : Operation α} {f : α → Operation β} (hx : x.Looks)
    (hf : ∀ a env', env'.store = env.store → (f a).Leads R env') : (x >>= f).Leads R env :=
  .behind hx fun a env' _ => hf a env'

/-- An operation may be followed by one that looks. -/
theorem then_looks {x : Operation α} {f : α → Operation β} (hx : x.Leads R env)
    (hf : ∀ a, (f a).Looks) : (x >>= f).Leads R env := by
  refine .onward hx (fun _ h => h) fun a env' _ h => ?_
  rwa [← show env'.store = ((f a).leaves env').store from hf a env']

/-- Behind a result that may be an error there is a result. -/
theorem lift [Std.Refl R] {x : Except EngineError α} {f : α → Operation β}
    (hf : ∀ a, x = .ok a → (f a).Leads R env) : (Operation.lift x >>= f).Leads R env := by
  cases x with
  | ok a => exact hf a rfl
  | error error => exact refl_of R env.store

/-- Behind a result with its lines for the log there is the result. -/
theorem heed [IsPreorder Store R] {x : Logged α} {f : α → Operation β}
    (hf : ∀ env', env'.store = env.store → (f x.value).Leads R env') :
    (Operation.heed x >>= f).Leads R env := hf { env with log := env.log ++ x.lines } rfl

/-- Behind a call of the store that works the store is what has become of it. -/
theorem change_onward [Std.Refl R] {call : StoreCall} {run : Store → Except EngineError Store}
    {f : Unit → Operation β} (h : ∀ s, run env.store = .ok s → R env.store s)
    (hf : ∀ env', run env.store = .ok env'.store → R env.store ((f ()).leaves env').store) :
    (Operation.change call run >>= f).Leads R env := by
  refine .onward (.change h) (fun _ h => h) fun _ env' hrun _ => hf env' ?_
  have hrun := run_of_perform hrun
  cases hr : run env.store with
  | error error => rw [hr] at hrun; cases hrun
  | ok s => rw [hr] at hrun; cases hrun; rfl

/-- Behind a change of the store a second operation begins with what the store has made of it. -/
theorem change_bind [IsPreorder Store R] {call : StoreCall}
    {run : Store → Except EngineError Store} {f : Unit → Operation β}
    (h : ∀ s, run env.store = .ok s → R env.store s)
    (hf : ∀ env', run env.store = .ok env'.store → (f ()).Leads R env') :
    (Operation.change call run >>= f).Leads R env :=
  .change_onward h fun env' hrun => trans_of R (h _ hrun) (hf env' hrun)

end Leads

end Operation

namespace Repository

open Operation

variable {β : Type} {R : Store → Store → Prop} [Std.Refl R] {env : Environment} {id : Uuid}

/-- What is looked for and found is there. -/
theorem look_of_query {α : Type} {call : StoreCall} {look : Store → α} {a : α}
    {env' : Environment} (h : (query call look).runIn env = (.ok a, env')) : look env.store = a :=
  (Prod.mk.inj (Except.ok.inj (run_of_perform h))).1

/-- Behind an instance that has to be there it is. -/
theorem instanceOf_leads {f : Instance → Operation β}
    (hf : ∀ i env', env'.store = env.store → env.store.instance? id = some i →
      (f i).Leads R env') : (instanceOf id >>= f).Leads R env := by
  rw [instanceOf, bind_assoc]
  refine .behind (.query _ _) fun found env' hrun hstore => ?_
  cases found with
  | none => exact refl_of R _
  | some i => exact hf i env' hstore (look_of_query hrun)

/-- Behind a task that has to be there it is. -/
theorem task_leads {f : Task → Operation β}
    (hf : ∀ t env', env'.store = env.store → env.store.task? id = some t →
      (f t).Leads R env') : (task id >>= f).Leads R env := by
  rw [task, bind_assoc]
  refine .behind (.query _ _) fun found env' hrun hstore => ?_
  cases found with
  | none => exact refl_of R _
  | some t => exact hf t env' hstore (look_of_query hrun)

/-- Finding a workflow only looks. -/
theorem workflow_looks (id : Uuid) : (workflow id).Looks := by
  refine .bind (.query _ _) fun found => ?_
  cases found with
  | none => exact .throw _
  | some w => exact .pure w

/-- Finding an instance only looks. -/
theorem instanceOf_looks (id : Uuid) : (instanceOf id).Looks := by
  refine .bind (.query _ _) fun found => ?_
  cases found with
  | none => exact .throw _
  | some i => exact .pure i

/-- Finding a task only looks. -/
theorem task_looks (id : Uuid) : (task id).Looks := by
  refine .bind (.query _ _) fun found => ?_
  cases found with
  | none => exact .throw _
  | some t => exact .pure t

/-- Reading all tasks of an instance only looks, however many pages it takes. -/
theorem allTasks_looks (i : Uuid) (pageSize : Nat) : (allTasks i pageSize).Looks := by
  have htasks : ∀ pages page, (tasksFrom i pages page).Looks := by
    intro pages
    induction pages with
    | zero => exact fun _ => .pure _
    | succ pages ih =>
      refine fun page => .bind (.query _ _) fun batch => ?_
      split
      · exact .pure _
      · exact .bind (ih page.next) fun others => .pure _
  exact .bind .get fun _ => htasks _ _

end Repository

/-! ## What operations give -/

namespace Operation

variable {α β : Type}

/-- Whenever the operation works, what it gives has the property. -/
def Gives (x : Operation α) (P : α → Prop) : Prop :=
  ∀ env a env', x.runIn env = (.ok a, env') → P a

namespace Gives

variable {p : α → Prop} {q : β → Prop} {x : Operation α} {f : α → Operation β}

/-- An operation that gives a value at once gives this value. -/
theorem pure {a : α} (h : p a) : (Pure.pure a : Operation α).Gives p := by
  intro env b env' hrun
  cases hrun
  exact h

/-- Failing gives nothing, so all that it gives has any property. -/
theorem throw (error : EngineError) : (MonadExcept.throw error : Operation α).Gives p := by
  intro env b env' hrun
  cases hrun

/-- What would come after a failure gives nothing, too. -/
theorem throw_bind (error : EngineError) (f : α → Operation β) :
    ((MonadExcept.throw error : Operation α) >>= f).Gives q := by
  intro env b env' hrun
  cases hrun

/-- Taking over the lines of a logged value gives the value. -/
theorem heed (r : Logged α) : (Operation.heed r).Gives fun a => a = r.value := by
  intro env a env' hrun
  cases hrun
  rfl

/-- Lifting a result gives the value only where there is one. -/
theorem lift (r : Except EngineError α) : (Operation.lift r).Gives fun a => r = .ok a := by
  intro env a env' hrun
  cases r <;> cases hrun
  rfl

/-- What two operations in a row give has a property if the second gives such values for all that
the first one gives. -/
theorem bind (hx : x.Gives p) (hf : ∀ a, p a → (f a).Gives q) : (x >>= f).Gives q := by
  intro env b env' hrun
  rw [runIn_bind] at hrun
  rcases hfirst : x.runIn env with ⟨error | a, env₁⟩
  · rw [hfirst] at hrun
    cases hrun
  · rw [hfirst] at hrun
    exact hf a (hx env a env₁ hfirst) env₁ b env' hrun

/-- What the first part gives need not count. -/
theorem after (hf : ∀ a, (f a).Gives q) : (x >>= f).Gives q :=
  .bind (p := fun _ => True) (fun _ _ _ _ => trivial) fun a _ => hf a

end Gives

end Operation

end ApprovalWorkflow
