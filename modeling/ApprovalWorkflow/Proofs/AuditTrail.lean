import ApprovalWorkflow.Proofs.Lifecycle

/-!
# What the audit trail tells

A claim, a delegation or a completion that succeeds leaves one entry at the end of the audit trail,
and nothing else leaves any (`Environment.serve_history`). The tasks are kept in another table, but
the trail tells how they stand: the entries about a task, replayed in their order, lead from how it
stood when it was opened to how it stands now (`Task.Lived.replay_eq`). A completion is the last
thing that is entered about a task, and says with which result, comment and output the task has
ended (`Task.Lived.recorded`).
-/

set_option autoImplicit false

namespace ApprovalWorkflow

open Engine

/-! ## Standings -/

/-- How far a task has come, and who is asked to do it. -/
structure Standing where
  status : TaskStatus
  assignee : Option String
deriving DecidableEq, Repr

def Task.standing (t : Task) : Standing := ⟨t.status, t.assignee⟩

namespace HistoryEntry

/-- The user to whom a task has been handed, as the comment of the entry names the user. -/
def toUser? (entry : HistoryEntry) : Option String :=
  (entry.comment.bind fun text => Text.after? "delegated to ".toList text.toList).map String.ofList

/-- How a task stands after what the entry tells. -/
def standing (entry : HistoryEntry) : Standing :=
  match entry.action with
  | .claimed => ⟨.claimed, some entry.actor⟩
  | .delegated => ⟨.pending, entry.toUser?⟩
  | .completed => ⟨(entry.result.getD .completed).status, some entry.actor⟩

/-- The entry of a delegation tells to whom the task was handed. -/
theorem toUser?_delegated (id : Uuid) (t : Task) (actor toUser : String) (now : Timestamp) :
    (delegated id t actor toUser now).toUser? = some toUser := by
  have hafter : Text.after? "delegated to ".toList ("delegated to " ++ toUser).toList =
      some toUser.toList :=
    List.isPrefixOf?_eq_some_iff_append_eq.mpr String.toList_append.symm
  simp only [toUser?, delegated, Option.bind_some, hafter, Option.map_some, String.ofList_toList]

end HistoryEntry

/-- How a task stands that stood so before the entries. -/
def Standing.replay (s : Standing) (entries : List HistoryEntry) : Standing :=
  entries.foldl (fun _ entry => entry.standing) s

/-- To replay entries and then more of them is to replay all of them. -/
theorem Standing.replay_append (s : Standing) (entries more : List HistoryEntry) :
    s.replay (entries ++ more) = (s.replay entries).replay more := List.foldl_append

namespace Task

variable {now : Timestamp} {t u : Task} {r : Request} {entries more : List HistoryEntry}

/-- An outcome that is written down on a task does not change how it stands, nor what has been said
at its end. -/
theorem marked_standing (t : Task) (outcome : Except EngineError Unit) :
    (t.marked outcome).standing = t.standing ∧ (t.marked outcome).result = t.result ∧
      (t.marked outcome).comment = t.comment ∧ (t.marked outcome).output = t.output := by
  cases outcome <;> exact ⟨rfl, rfl, rfl, rfl⟩

/-- The entries that work on a task leaves tell how it stands then. -/
theorem Work.replay_eq (h : t.Work now r entries u) :
    t.standing.replay entries = u.standing := by
  cases h with
  | claimed entry hclaimed =>
    obtain ⟨-, rfl⟩ := eq_of_claimedBy hclaimed
    rfl
  | @delegated a toUser u entry hdelegated =>
    -- of the entries this is the only one that names the assignee in its text
    have htoUser := HistoryEntry.toUser?_delegated entry u a.user toUser now
    obtain ⟨-, rfl⟩ := eq_of_delegatedBy hdelegated
    exact congrArg (Standing.mk .pending) htoUser
  | finished entry hfinished =>
    obtain ⟨-, rfl⟩ := eq_of_finishedBy hfinished
    rfl
  | completed entry outcome hfinished =>
    rw [(marked_standing _ outcome).1]
    obtain ⟨-, rfl⟩ := eq_of_finishedBy hfinished
    rfl
  | carried outcome hr hended hpending => exact (marked_standing t outcome).1.symm

/-- The entries about a task lead from how it stood to how it stands. -/
theorem Lived.replay_eq (h : t.Lived entries u) : t.standing.replay entries = u.standing := by
  induction h with
  | refl => rfl
  | work _ hwork ih => rw [Standing.replay_append, ih, hwork.replay_eq]

/-! ## Completions -/

/-- The entries tell of one completion if the task has ended, as the last thing and as the task
does, and of none if it is open. -/
structure IsRecordedIn (t : Task) (entries : List HistoryEntry) : Prop where
  unfinished : t.status.isOpen → ∀ entry ∈ entries, entry.action ≠ .completed
  finished : t.status.isTerminal → ∃ earlier last, entries = earlier ++ [last] ∧
    (∀ entry ∈ earlier, entry.action ≠ .completed) ∧ last.action = .completed ∧
    last.result = t.result ∧ last.comment = t.comment ∧ last.output = t.output

/-- An open task stays recorded by entries that tell of no completion while it stays open. -/
theorem IsRecordedIn.of_open (h : t.IsRecordedIn entries) (hopen : t.status.isOpen)
    (hu : u.status.isOpen) (hmore : ∀ entry ∈ more, entry.action ≠ .completed) :
    u.IsRecordedIn (entries ++ more) where
  unfinished := fun _ entry hentry =>
    (List.mem_append.mp hentry).elim (h.unfinished hopen entry) (hmore entry)
  finished := fun hterminal => by simp [TaskStatus.isOpen_eq_false.mpr hterminal] at hu

/-- An open task that has been finished is recorded by the entry about that. -/
theorem IsRecordedIn.of_finishedBy (h : t.IsRecordedIn entries) {a : Actor} {c : Completion}
    (hfinished : t.finishedBy a c now = .ok u) (entry : Uuid) :
    u.IsRecordedIn (entries ++ [.completed entry u a.user now]) where
  unfinished := fun hopen => by simp [(Task.of_finishedBy hfinished).2.isOpen_eq] at hopen
  finished := fun _ => ⟨entries, _, rfl, h.unfinished (Task.of_finishedBy hfinished).1, rfl, rfl,
    rfl, rfl⟩

/-- A task that is marked stays recorded in the same entries. -/
theorem IsRecordedIn.marked (h : t.IsRecordedIn entries) (outcome : Except EngineError Unit) :
    (t.marked outcome).IsRecordedIn entries := by
  cases outcome <;> exact ⟨h.unfinished, h.finished⟩

/-- Work on a task keeps it recorded, with the entries that the work leaves. -/
theorem IsRecordedIn.of_work (h : t.IsRecordedIn entries) (hwork : t.Work now r more u) :
    u.IsRecordedIn (entries ++ more) := by
  cases hwork with
  | claimed entry hclaimed =>
    obtain ⟨hpending, rfl⟩ := eq_of_claimedBy hclaimed
    refine h.of_open (by rw [hpending]; rfl) rfl ?_
    simp [HistoryEntry.claimed, HistoryEntry.record]
  | delegated entry hdelegated =>
    obtain ⟨hopen, rfl⟩ := eq_of_delegatedBy hdelegated
    refine h.of_open hopen rfl ?_
    simp [HistoryEntry.delegated, HistoryEntry.record]
  | finished entry hfinished => exact h.of_finishedBy hfinished entry
  | completed entry outcome hfinished => exact (h.of_finishedBy hfinished entry).marked outcome
  | carried outcome hr hended hpending =>
    rw [List.append_nil]
    exact h.marked outcome

/-- Nothing is recorded of a new task. -/
theorem IsBlank.recorded (h : t.IsBlank now) : t.IsRecordedIn [] where
  unfinished := fun _ entry hentry => by cases hentry
  finished := fun hterminal => by simp [h.status, TaskStatus.isTerminal] at hterminal

/-- A task that lives on from its beginning is recorded in the entries of its life. -/
theorem Lived.recorded (h : t.Lived entries u) (ht : t.IsRecordedIn []) :
    u.IsRecordedIn entries := by
  induction h with
  | refl => exact ht
  | work _ hwork ih => exact ih.of_work hwork

end Task

/-! ## What is entered -/

/-- The task, the actor and the action of an entry. -/
def HistoryEntry.subject (entry : HistoryEntry) : Uuid × String × HistoryAction :=
  (entry.taskId, entry.actor, entry.action)

/-- The subjects of the entries that a request leaves when it has ended so. -/
def Request.enters (r : Request) : Except EngineError Unit → List (Uuid × String × HistoryAction)
  | .ok _ => r.entered?.toList
  | .error _ => []

/-- A request that is not about the work on a task, or that fails, enters nothing. -/
theorem Request.enters_eq_nil {r : Request} {result : Except EngineError Unit}
    (h : r.entered? = none ∨ ∃ error, result = .error error) : r.enters result = [] := by
  rcases h with hnone | ⟨error, rfl⟩
  · cases result with
    | ok _ => rw [enters, hnone]; rfl
    | error error => rfl
  · rfl

/-- Work on a task leaves the entry of the request, or the request has none. -/
theorem Task.Work.entered {now : Timestamp} {t u : Task} {r : Request}
    {entries : List HistoryEntry} (h : t.Work now r entries u) :
    entries.map HistoryEntry.subject = r.entered?.toList := by
  -- an entry is made from the task that the work has left, but the request names the task before
  have habout := h.about
  cases h with
  | claimed entry hclaimed =>
    exact congrArg (fun id => [(id, _, HistoryAction.claimed)]) (habout _ List.mem_cons_self)
  | delegated entry hdelegated =>
    exact congrArg (fun id => [(id, _, HistoryAction.delegated)]) (habout _ List.mem_cons_self)
  | finished entry hfinished =>
    exact congrArg (fun id => [(id, _, HistoryAction.completed)]) (habout _ List.mem_cons_self)
  | completed entry outcome hfinished =>
    exact congrArg (fun id => [(id, _, HistoryAction.completed)]) (habout _ List.mem_cons_self)
  | carried outcome hr hended hpending => rcases hr with rfl | rfl <;> rfl

namespace Environment

variable {e : Engine} {env : Environment}

/-- A request adds what it enters to the end of the audit trail. -/
theorem serve_history (henv : env.Orderly) (c : Call) (hrange : (env.serve e c).ids.InRange) :
    ∃ entries, (env.serve e c).store.history = env.store.history ++ entries ∧
      entries.map HistoryEntry.subject = c.request.enters (env.answer e c) := by
  cases serve_records henv c hrange with
  | opened fresh hfresh htasks hhistory hresult =>
    refine ⟨[], by rw [hhistory, List.append_nil], ?_⟩
    rw [Request.enters_eq_nil hresult]
    rfl
  | @worked t u entries fresh hfresh ht hwork htasks hhistory hresult =>
    refine ⟨entries, hhistory, ?_⟩
    by_cases hnone : entries = []
    · have hentered := hwork.entered
      rw [hnone, List.map_nil] at hentered ⊢
      refine (Request.enters_eq_nil (.inl ?_)).symm
      simpa using hentered.symm
    · rw [hresult hnone, hwork.entered]
      rfl

end Environment

/-- The audit trail of every run. Every call adds to its end what the request enters: one entry if
it is a claim, a delegation or a completion and succeeds, and none otherwise. The entries about a
task, replayed from how it stood when it was opened, give how it stands; they tell of its completion
as the last thing if it has ended, and of none if it is open. -/
theorem audit_trail_replays (seed : Nat) (start : Timestamp) (e : Engine) (calls : List Call)
    (hrange : ((Environment.fresh seed start).serveAll e calls).ids.InRange) :
    let env := (Environment.fresh seed start).serveAll e
    (∀ before c after, calls = before ++ c :: after →
      ∃ entries, ((env before).serve e c).store.history = (env before).store.history ++ entries ∧
        entries.map HistoryEntry.subject = c.request.enters ((env before).answer e c)) ∧
      ∀ t ∈ (env calls).store.tasks,
        (∃ before c after, ∃ t₀ : Task, calls = before ++ c :: after ∧ t₀.id = t.id ∧
          t₀.OpenedBy (env before) e c ∧
          t₀.standing.replay ((env calls).store.historyOf t.id) = t.standing) ∧
        t.IsRecordedIn ((env calls).store.historyOf t.id) := by
  intro env
  have hstart := Environment.fresh_orderly seed start
  refine ⟨fun before c after hcalls => ?_, fun t ht => ?_⟩
  · -- a shorter run stays in range, too
    have hall : env calls = ((env before).serve e c).serveAll e after := by
      rw [hcalls]
      exact Environment.serveAll_append _ e before (c :: after)
    have hgrows : ((env before).serve e c).ids.Grows (env calls).ids := by
      rw [hall]
      exact Environment.serveAll_grows _ e after
    have hserved := hrange.of_grows hgrows
    have hbefore := hserved.of_grows ((env before).serve_grows e c)
    exact Environment.serve_history (Environment.serveAll_orderly hstart before hbefore) c hserved
  · obtain ⟨before, c, after, t₀, hcalls, hopened, hlives⟩ :=
      Environment.serveAll_born seed start calls hrange ht
    have hid := hlives.became.id_eq
    obtain ⟨-, entries, hlived, hhistory⟩ := hlives
    rw [hopened.unentered, List.nil_append, ← hid] at hhistory
    refine ⟨⟨before, c, after, t₀, hcalls, hid.symm, hopened, ?_⟩, ?_⟩
    · rw [hhistory]
      exact hlived.replay_eq
    · rw [hhistory]
      exact hlived.recorded hopened.blank.recorded

/-- After `handedRun`, the last entry about the task that has ended tells of its completion. -/
theorem audit_trail_replays_handed :
    let store := ((Environment.fresh 0 ⟨0, 0⟩).serveAll .default handedRun).store
    ∃ t ∈ store.tasks, ∃ earlier last, store.historyOf t.id = earlier ++ [last] ∧
      last.action = .completed ∧ last.result = t.result ∧ last.comment = t.comment ∧
      last.output = t.output := by
  obtain ⟨hrange, t, ht, hterminal⟩ := handedRun_ends
  obtain ⟨-, htasks⟩ := audit_trail_replays 0 ⟨0, 0⟩ .default handedRun
    (hrange.of_grows (Environment.serveAll_grows _ _ _))
  obtain ⟨-, hrecorded⟩ := htasks t ht
  obtain ⟨earlier, last, hhistory, -, hlast⟩ := hrecorded.finished hterminal
  exact ⟨t, ht, earlier, last, hhistory, hlast⟩

end ApprovalWorkflow
