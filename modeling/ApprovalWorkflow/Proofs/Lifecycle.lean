import ApprovalWorkflow.Proofs.Lives

/-!
# The lifecycle of tasks

Many fields of a task say how far it has come: its status, the times at which it was claimed and
finished, its assignee, its result, output and comment, and its progression. They are written by
different operations, and they always belong together (`Task.IsCoherent`): new tasks are coherent,
and so is what work makes of a coherent task.

What a task is about is settled when it is opened, and from its end on nothing about it changes
but its progression (`task_lifecycle`).
-/

set_option autoImplicit false

namespace ApprovalWorkflow

open Engine

namespace Task

/-- The fields that say how far a task has come belong together. -/
structure IsCoherent (t : Task) : Prop where
  completedAt : t.status.isTerminal ↔ t.completedAt.isSome
  result : t.completedAt.isSome ↔ t.result.isSome
  progression : t.result.isSome ↔ t.progression ≠ .idle
  rejected : t.status = .rejected ↔ t.result = some .rejected
  pending : t.status = .pending → t.claimedAt = none
  claimed : t.status = .claimed → t.claimedAt.isSome ∧ t.assignee.isSome
  assigned : t.status.isTerminal → t.assignee.isSome
  unsaid : t.status.isOpen → t.output = .null ∧ t.comment = none

variable {now : Timestamp} {t u : Task} {r : Request} {entries : List HistoryEntry}

/-- A task that has just been opened is coherent. -/
theorem IsBlank.isCoherent (h : t.IsBlank now) : t.IsCoherent := by
  constructor
  case unsaid =>
    intro _
    exact ⟨h.output, h.comment⟩
  all_goals simp [h.status, h.progression, h.result, h.claimedAt, h.completedAt,
    TaskStatus.isTerminal]

/-- Nothing has been said at the end of an open task. -/
theorem IsCoherent.of_open (h : t.IsCoherent) (hopen : t.status.isOpen) :
    t.completedAt = none ∧ t.result = none ∧ t.progression = .idle := by
  have hterminal : ¬ t.status.isTerminal = true := by simpa [TaskStatus.isOpen] using hopen
  have hcompleted := h.completedAt.not.mp hterminal
  have hresult := h.result.not.mp hcompleted
  have hprogression := h.progression.not.mp hresult
  exact ⟨by simpa using hcompleted, by simpa using hresult, by simpa using hprogression⟩

/-- An open task that has been claimed or handed on. -/
theorem IsCoherent.reassigned (h : t.IsCoherent) (hopen : t.status.isOpen) (assignee : String)
    {status : TaskStatus} {claimedAt : Option Timestamp}
    (hstatus : status = .claimed ∧ claimedAt.isSome ∨ status = .pending ∧ claimedAt = none) :
    IsCoherent { t with assignee := some assignee, status := status, claimedAt := claimedAt } := by
  obtain ⟨hcompleted, hresult, hprogression⟩ := h.of_open hopen
  have hunsaid := h.unsaid hopen
  constructor
  case unsaid => exact fun _ => hunsaid
  -- the task stays open, so that only a claim can have been set
  all_goals
    rcases hstatus with ⟨rfl, hclaimed⟩ | ⟨rfl, hclaimed⟩ <;>
      simp [hcompleted, hresult, hprogression, hclaimed, TaskStatus.isTerminal]

/-- A task that has just been finished is coherent. -/
theorem isCoherent_of_finishedBy {a : Actor} {c : Completion} (h : t.finishedBy a c now = .ok u) :
    u.IsCoherent := by
  obtain ⟨-, rfl⟩ := eq_of_finishedBy h
  have hterminal : c.result.status.isTerminal = true := by cases c.result <;> rfl
  constructor
  case rejected => cases c.result <;> simp [TaskResult.status]
  case pending => cases c.result <;> simp [TaskResult.status]
  case claimed => cases c.result <;> simp [TaskResult.status]
  all_goals simp [hterminal, TaskStatus.isOpen]

/-- A task that has ended stays coherent when the outcome of carrying it through is marked. -/
theorem IsCoherent.marked (h : t.IsCoherent) (hended : t.status.isOpen = false)
    (outcome : Except EngineError Unit) : (t.marked outcome).IsCoherent := by
  have hterminal := TaskStatus.isOpen_eq_false.mp hended
  have hresult : t.result.isSome := h.result.mp (h.completedAt.mp hterminal)
  cases outcome with
  | ok _ => exact { h with progression := by simp [Task.marked, hresult] }
  | error error => exact { h with progression := by simp [Task.marked, hresult] }

/-- Work keeps a task coherent. -/
theorem IsCoherent.of_work (h : t.IsCoherent) (hwork : t.Work now r entries u) :
    u.IsCoherent := by
  cases hwork with
  | claimed entry hclaimed =>
    obtain ⟨hpending, rfl⟩ := eq_of_claimedBy hclaimed
    exact h.reassigned (by rw [hpending]; rfl) _ (.inl ⟨rfl, rfl⟩)
  | delegated entry hdelegated =>
    obtain ⟨hopen, rfl⟩ := eq_of_delegatedBy hdelegated
    exact h.reassigned hopen _ (.inr ⟨rfl, rfl⟩)
  | finished entry hfinished => exact isCoherent_of_finishedBy hfinished
  | completed entry outcome hfinished =>
    have hended := (of_finishedBy hfinished).2.isOpen_eq
    exact (isCoherent_of_finishedBy hfinished).marked hended outcome
  | carried outcome hr hended hpending => exact h.marked hended outcome

/-- Only the first half of a completion leaves a task whose end is still to be carried through. -/
theorem Work.progression_ne (h : t.Work now r entries u) (hwhole : r.IsWhole)
    (ht : t.progression ≠ .pending) : u.progression ≠ .pending := by
  have hmarked : ∀ (v : Task) (outcome : Except EngineError Unit),
      (v.marked outcome).progression ≠ .pending := by
    intro v outcome
    cases outcome <;> exact nofun
  cases h with
  | claimed entry hclaimed =>
    obtain ⟨-, rfl⟩ := eq_of_claimedBy hclaimed
    exact ht
  | delegated entry hdelegated =>
    obtain ⟨-, rfl⟩ := eq_of_delegatedBy hdelegated
    exact ht
  | finished entry hfinished => cases hwhole
  | completed entry outcome hfinished => exact hmarked _ outcome
  | carried outcome hr hended hpending => exact hmarked t outcome

end Task

namespace Environment

variable {e : Engine}

/-- All tasks of all runs are coherent. -/
theorem serveAll_coherent (seed : Nat) (start : Timestamp) (calls : List Call)
    (hrange : ((fresh seed start).serveAll e calls).ids.InRange) :
    ∀ t ∈ ((fresh seed start).serveAll e calls).store.tasks, t.IsCoherent :=
  serveAll_forall_tasks (fun _ => True) (fun _ _ h => h.isCoherent)
    (fun _ _ _ _ _ _ h hwork => h.of_work hwork) (fresh_orderly seed start) calls
    (fun _ _ => trivial) hrange fun t ht => (by cases ht)

/-- Between whole requests no progression of a task is pending. -/
theorem serveAll_progression_ne (seed : Nat) (start : Timestamp) (calls : List Call)
    (hwhole : ∀ c ∈ calls, c.request.IsWhole)
    (hrange : ((fresh seed start).serveAll e calls).ids.InRange) :
    ∀ t ∈ ((fresh seed start).serveAll e calls).store.tasks, t.progression ≠ .pending :=
  serveAll_forall_tasks Request.IsWhole (fun _ _ h => by rw [h.progression]; exact nofun)
    (fun _ _ _ _ _ hr h hwork => hwork.progression_ne hr h) (fresh_orderly seed start) calls
    hwhole hrange fun t ht => (by cases ht)

end Environment

/-- The lifecycle of a task in every run: the fields that say how far it has come belong together,
and between whole requests its progression is not pending. What comes later leaves it what it is
about; from its end on nothing changes but its progression, which may only become failed or
advanced, and stays advanced. -/
theorem task_lifecycle (seed : Nat) (start : Timestamp) (e : Engine) (calls later : List Call)
    (t : Task) :
    let env := (Environment.fresh seed start).serveAll e calls
    let last := env.serveAll e later
    last.ids.InRange → t ∈ env.store.tasks →
    t.IsCoherent ∧
      ((∀ c ∈ calls, c.request.IsWhole) → t.progression ≠ .pending) ∧
      ∃ u, last.store.task? t.id = some u ∧ t.Became u ∧
        (t.status.isTerminal →
          u = { t with progression := u.progression } ∧
          (t.progression = .advanced → u.progression = .advanced) ∧
          (u.progression = t.progression ∨ u.progression = .advanced ∨
            ∃ text, u.progression = .failed text)) := by
  intro env last hrange ht
  have hstart := Environment.fresh_orderly seed start
  have hbefore : env.ids.InRange := hrange.of_grows (env.serveAll_grows e later)
  have henv : env.Orderly := Environment.serveAll_orderly hstart calls hbefore
  have hlast : last.Orderly := Environment.serveAll_orderly henv later hrange
  obtain ⟨u, hlives⟩ := Environment.serveAll_livesOn henv later hrange ht
  have hbecame := hlives.became
  obtain ⟨hu, entries, hlived, -⟩ := hlives
  refine ⟨Environment.serveAll_coherent seed start calls hbefore t ht, fun hwhole =>
    Environment.serveAll_progression_ne seed start calls hwhole hbefore t ht, u,
    hlast.store.task?_eq_some_iff.mpr ⟨hu, hbecame.id_eq⟩, hbecame, fun hterminal => ?_⟩
  have hended := TaskStatus.isOpen_eq_false.mpr hterminal
  obtain ⟨-, rfl | ⟨hpending, outcome, rfl⟩⟩ := hlived.of_ended hended
  · exact ⟨rfl, id, .inl rfl⟩
  · obtain ⟨p, hmarked⟩ := marked_eq t outcome
    refine ⟨by rw [hmarked], fun hadvanced => absurd hadvanced hpending, .inr ?_⟩
    cases outcome with
    | ok _ => exact .inl rfl
    | error error => exact .inr ⟨_, rfl⟩

/-- After `fanOutRun`, the task of one branch is claimed, handed to another person, and
completed. -/
def handedRun : List Call :=
  let task := IdSource.issue 0 .task 0
  fanOutRun ++ Call.atOnce ⟨0, 0⟩
    [.claim task ⟨"u", []⟩, .delegate task ⟨"u", []⟩ "v",
      .complete task ⟨"v", []⟩ ⟨.approved, .null, some "fine"⟩]

/-- After `handedRun`, the task of the other branch is rejected. -/
def handedRest : List Call :=
  Call.atOnce ⟨1, 0⟩ [.complete (IdSource.issue 0 .task 1) ⟨"u", []⟩ ⟨.rejected, .null, none⟩]

/-- One task has ended after `handedRun`. -/
theorem handedRun_ends :
    (((Environment.fresh 0 ⟨0, 0⟩).serveAll .default handedRun).serveAll .default
        handedRest).ids.InRange ∧
      ∃ t ∈ ((Environment.fresh 0 ⟨0, 0⟩).serveAll .default handedRun).store.tasks,
        t.status.isTerminal := by decide +kernel

/-- The task that has ended is left alone when the other one is rejected. -/
theorem task_lifecycle_handed :
    let env := (Environment.fresh 0 ⟨0, 0⟩).serveAll .default handedRun
    ∃ t ∈ env.store.tasks, t.status.isTerminal ∧ t.IsCoherent ∧ t.progression ≠ .pending ∧
      ∃ u, (env.serveAll .default handedRest).store.task? t.id = some u ∧
        u = { t with progression := u.progression } := by
  obtain ⟨hrange, t, ht, hterminal⟩ := handedRun_ends
  obtain ⟨hcoherent, hprogression, u, hu, -, hended⟩ :=
    task_lifecycle 0 ⟨0, 0⟩ .default handedRun handedRest t hrange ht
  exact ⟨t, ht, hterminal, hcoherent,
    hprogression (by simp [handedRun, fanOutRun, Call.atOnce, Request.IsWhole]), u, hu,
    (hended hterminal).1⟩

end ApprovalWorkflow
