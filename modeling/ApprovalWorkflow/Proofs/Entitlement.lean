import ApprovalWorkflow.Proofs.AuditTrail

/-!
# Who may work on a task

A task that is assigned belongs to its assignee, and any other one to its candidates, or to
everybody if it has none (`Task.Entitles`). The tests that claiming, completing and handing on make
are spread over several functions and overlap; on the tasks that runs leave they come down to this
and the status of the task. One fact about runs is needed for that: a task that has been claimed
has an assignee.

So a task changes hands only by being handed on. From the claim of a task to its completion, the
handovers lead from the one user to the other (`only_entitled_act`).
-/

set_option autoImplicit false

namespace ApprovalWorkflow

open Operation Engine

/-! ## Entitlement -/

namespace Task

/-- The actor is the assignee; or nobody is assigned, and the actor is one of the candidates or
there are none. -/
def Entitles (t : Task) (a : Actor) : Prop :=
  match t.assignee with
  | some assignee => assignee = a.user
  | none =>
    a.user ∈ t.candidateUsers ∨ (∃ group ∈ a.groups, group ∈ t.candidateGroups) ∨
      (t.candidateUsers = [] ∧ t.candidateGroups = [])

variable {t u : Task} {a : Actor} {c : Completion} {now : Timestamp} {r : Request}
  {entries : List HistoryEntry} {user : String}

/-- A task that is open has not come to its end. -/
theorem not_isTerminal_of_isOpen (h : t.status.isOpen) : ¬ t.status.isTerminal := by
  simpa [TaskStatus.isOpen] using h

/-- A task that is assigned entitles its assignee and nobody else. -/
theorem entitles_of_assigned (h : t.assignee = some user) : t.Entitles a ↔ user = a.user := by
  rw [Entitles, h]

/-- A pending task may be taken by whom it entitles. -/
theorem mayTake_iff (hpending : t.status = .pending) : t.mayTake a ↔ t.Entitles a := by
  unfold mayTake canBeClaimed isUnrestricted Entitles
  cases t.assignee with
  | some assignee => simp [hpending]
  | none =>
    simp only [hpending, beq_self_eq_true, Bool.true_and, Option.isNone_none, Bool.or_eq_true,
      Bool.and_eq_true, List.contains_eq_mem, decide_eq_true_eq, List.any_eq_true,
      List.isEmpty_iff, or_assoc]
    exact or_congr_right (or_congr_right (and_iff_left rfl))

/-- A claim succeeds exactly if the task is pending and entitles the actor. -/
theorem isOk_claimedBy_iff :
    (∃ u, t.claimedBy a now = .ok u) ↔ t.status = .pending ∧ t.Entitles a := by
  constructor
  · rintro ⟨u, hu⟩
    obtain ⟨hpending, -⟩ := eq_of_claimedBy hu
    refine ⟨hpending, (mayTake_iff hpending).mp ?_⟩
    by_contra hmay
    rw [claimedBy, if_neg (not_not_intro hpending), if_pos hmay] at hu
    cases hu
  · rintro ⟨hpending, hentitled⟩
    have hmay := (mayTake_iff hpending).mpr hentitled
    rw [claimedBy, if_neg (not_not_intro hpending), if_neg (not_not_intro hmay), claim,
      if_pos hpending]
    exact ⟨_, rfl⟩

/-- An open task may be completed by whom it entitles. That nobody is assigned means that it is
still pending, since a task that has been claimed has an assignee. -/
theorem mayComplete_iff (h : t.IsCoherent) (hopen : t.status.isOpen) :
    t.mayComplete a ↔ t.Entitles a := by
  cases hassignee : t.assignee with
  | some assignee =>
    rw [entitles_of_assigned hassignee, mayComplete, hassignee]
    exact beq_iff_eq
  | none =>
    have hpending : t.status = .pending := by
      cases hstatus : t.status with
      | pending => rfl
      | claimed =>
        have hassigned := (h.claimed hstatus).2
        rw [hassignee] at hassigned
        cases hassigned
      | completed => simp [hstatus, TaskStatus.isOpen, TaskStatus.isTerminal] at hopen
      | rejected => simp [hstatus, TaskStatus.isOpen, TaskStatus.isTerminal] at hopen
    rw [mayComplete, hassignee]
    exact mayTake_iff hpending

/-- Who has finished a task was allowed to complete it. -/
theorem mayComplete_of_finishedBy (h : t.finishedBy a c now = .ok u) : t.mayComplete a := by
  by_contra hmay
  have hterminal := not_isTerminal_of_isOpen (of_finishedBy h).1
  rw [finishedBy, if_neg hterminal, if_pos hmay] at h
  cases h

/-- A task can be finished exactly if it is open and entitles the actor. -/
theorem isOk_finishedBy_iff (h : t.IsCoherent) :
    (∃ u, t.finishedBy a c now = .ok u) ↔ t.status.isOpen ∧ t.Entitles a := by
  constructor
  · rintro ⟨u, hu⟩
    have hopen := (of_finishedBy hu).1
    exact ⟨hopen, (mayComplete_iff h hopen).mp (mayComplete_of_finishedBy hu)⟩
  · rintro ⟨hopen, hentitled⟩
    have hterminal := not_isTerminal_of_isOpen hopen
    have hmay := (mayComplete_iff h hopen).mpr hentitled
    rw [finishedBy, if_neg hterminal, if_neg (not_not_intro hmay), complete, if_neg hterminal]
    exact ⟨_, rfl⟩

/-- Whoever finishes an assigned task is its assignee. -/
theorem eq_of_finishedBy_assigned (h : t.finishedBy a c now = .ok u)
    (huser : t.assignee = some user) : user = a.user := by
  have hmay := mayComplete_of_finishedBy h
  rw [mayComplete, huser] at hmay
  exact beq_iff_eq.mp hmay

/-- A task can be delegated exactly if it is open and the actor is its assignee. -/
theorem isOk_delegatedBy_iff {toUser : String} :
    (∃ u, t.delegatedBy a toUser = .ok u) ↔ t.status.isOpen ∧ t.assignee = some a.user := by
  constructor
  · rintro ⟨u, hu⟩
    refine ⟨(of_delegatedBy hu).1, ?_⟩
    by_contra hother
    rw [delegatedBy, if_pos hother] at hu
    cases hu
  · rintro ⟨hopen, hassignee⟩
    have hterminal := not_isTerminal_of_isOpen hopen
    rw [delegatedBy, if_neg (not_not_intro hassignee), delegate, if_neg hterminal]
    exact ⟨_, rfl⟩

end Task

/-! ## Handovers -/

/-- By whom and to whom the request hands on the task. -/
def Request.handover? (id : Uuid) : Request → Option (String × String)
  | .delegate task a toUser => if task = id then some (a.user, toUser) else none
  | _ => none

/-- The handovers of a task by a request that has ended so: one, or none if it has failed or is no
handover. -/
def Request.hands (r : Request) (id : Uuid) : Except EngineError Unit → List (String × String)
  | .ok _ => (r.handover? id).toList
  | .error _ => []

/-- A request that hands nothing over has no handover, however it has ended. -/
theorem Request.hands_eq_nil {r : Request} {id : Uuid} (h : r.handover? id = none)
    (result : Except EngineError Unit) : r.hands id result = [] := by
  cases result with
  | ok _ => rw [hands, h]; rfl
  | error error => rfl

/-- Only requests that are entered hand something on. -/
theorem Request.handover?_eq_none {r : Request} (h : r.entered? = none) (id : Uuid) :
    r.handover? id = none := by
  cases r with
  | delegate task a toUser => cases h
  | _ => rfl

/-- The handovers of a task in a run, the first one first. -/
def Environment.handovers (env : Environment) (e : Engine) (id : Uuid) :
    List Call → List (String × String)
  | [] => []
  | c :: calls =>
    c.request.hands id (env.answer e c) ++ (env.serve e c).handovers e id calls

/-- The handovers lead from one user to another: the first one is made by the one user, each
further one by the user to whom the last one was made, and the last one is made to the other
user. -/
def LeadTo (user : String) : List (String × String) → String → Prop
  | [], last => user = last
  | (giver, taker) :: handovers, last => user = giver ∧ LeadTo taker handovers last

/-- Handovers that lead from one user to another lead on with those that begin there. The
induction is on the first ones. -/
theorem LeadTo.append {first next last : String} {handovers more : List (String × String)}
    (h : LeadTo first handovers next) (hmore : LeadTo next more last) :
    LeadTo first (handovers ++ more) last := by
  induction handovers generalizing first with
  | nil =>
    obtain rfl : first = next := h
    exact hmore
  | cons handover handovers ih => exact ⟨h.1, ih h.2⟩

/-- Handovers lead to another user only if there are any. -/
theorem LeadTo.ne_nil {first last : String} {handovers : List (String × String)}
    (h : LeadTo first handovers last) (hother : last ≠ first) : handovers ≠ [] := by
  rintro rfl
  exact hother (Eq.symm h)

section Runs

variable {e : Engine} {env : Environment} {t : Task}

/-- What work on an assigned task makes of it is assigned to the same user, or to the one to whom
the task has been handed. -/
theorem Task.Work.leadTo {now : Timestamp} {r : Request} {entries : List HistoryEntry} {u : Task}
    (h : t.Work now r entries u) {user : String} (huser : t.assignee = some user) :
    ∃ last, u.assignee = some last ∧ LeadTo user (r.handover? t.id).toList last := by
  cases h with
  | @claimed a u entry hclaimed =>
    obtain ⟨-, hentitled⟩ := Task.isOk_claimedBy_iff.mp ⟨u, hclaimed⟩
    obtain ⟨-, rfl⟩ := Task.eq_of_claimedBy hclaimed
    exact ⟨a.user, rfl, (Task.entitles_of_assigned huser).mp hentitled⟩
  | @delegated a toUser u entry hdelegated =>
    obtain ⟨-, hassignee⟩ := Task.isOk_delegatedBy_iff.mp ⟨u, hdelegated⟩
    obtain ⟨-, rfl⟩ := Task.eq_of_delegatedBy hdelegated
    rw [huser, Option.some.injEq] at hassignee
    refine ⟨toUser, rfl, ?_⟩
    rw [Request.handover?, if_pos rfl]
    exact ⟨hassignee, rfl⟩
  | @finished a c u entry hfinished =>
    have hsame := Task.eq_of_finishedBy_assigned hfinished huser
    obtain ⟨-, rfl⟩ := Task.eq_of_finishedBy hfinished
    exact ⟨a.user, rfl, hsame⟩
  | @completed a c u entry outcome hfinished =>
    have hsame := Task.eq_of_finishedBy_assigned hfinished huser
    obtain ⟨-, rfl⟩ := Task.eq_of_finishedBy hfinished
    exact ⟨a.user, congrArg Standing.assignee (marked_standing _ outcome).1, hsame⟩
  | carried outcome hr hended hpending =>
    refine ⟨user, ?_, by rcases hr with rfl | rfl <;> rfl⟩
    rw [← huser]
    exact congrArg Standing.assignee (marked_standing t outcome).1

/-- Work on one task hands on no other one. -/
theorem Task.Work.handover?_of_ne {now : Timestamp} {r : Request} {entries : List HistoryEntry}
    {u : Task} (h : t.Work now r entries u) {id : Uuid} (hid : t.id ≠ id) :
    r.handover? id = none := by
  cases h with
  | delegated entry hdelegated => exact if_neg hid
  | carried outcome hr hended hpending => rcases hr with rfl | rfl <;> rfl
  | _ => rfl

namespace Environment

/-- A call leaves an assigned task assigned to the same user, or to the one to whom the task has
been handed. -/
theorem serve_leadTo (henv : env.Orderly) (c : Call) (hrange : (env.serve e c).ids.InRange)
    (ht : t ∈ env.store.tasks) {user : String} (huser : t.assignee = some user) :
    ∃ u ∈ (env.serve e c).store.tasks, u.id = t.id ∧
      ∃ last, u.assignee = some last ∧
        LeadTo user (c.request.hands t.id (env.answer e c)) last := by
  cases serve_records henv c hrange with
  | opened fresh hfresh htasks hhistory hresult =>
    refine ⟨t, by rw [htasks]; exact List.mem_append_left _ ht, rfl, user, huser, ?_⟩
    rcases hresult with hnone | ⟨error, herror⟩
    · rw [Request.hands_eq_nil (Request.handover?_eq_none hnone t.id)]
      exact rfl
    · rw [herror]
      exact rfl
  | @worked t' u entries fresh hfresh ht' hwork htasks hhistory hresult =>
    by_cases hid : t'.id = t.id
    · obtain rfl := List.inj_on_of_nodup_map henv.store.task_ids ht' ht hid
      have hsame := hwork.became.id_eq
      obtain ⟨last, hlast, hlead⟩ := hwork.leadTo huser
      refine ⟨u, ?_, hsame, last, hlast, ?_⟩
      · rw [htasks]
        exact mem_put_self Task.id (List.mem_append_left _ ht) hsame
      · -- a request that hands the task on leaves an entry, and has succeeded then
        by_cases hentries : entries = []
        · have hentered := hwork.entered
          rw [hentries, List.map_nil] at hentered
          have hnone := Request.handover?_eq_none (r := c.request)
            (by simpa using hentered.symm) t'.id
          rw [hnone] at hlead
          rw [Request.hands_eq_nil hnone]
          exact hlead
        · rw [hresult hentries]
          exact hlead
    · refine ⟨t, ?_, rfl, user, huser, ?_⟩
      · have hother : t.id ≠ u.id := by
          rw [hwork.became.id_eq]
          exact Ne.symm hid
        rw [htasks]
        exact (mem_put Task.id).mpr (.inr ⟨List.mem_append_left _ ht, hother⟩)
      · rw [Request.hands_eq_nil (hwork.handover?_of_ne hid)]
        exact rfl

/-- A run leaves an assigned task assigned to the user to whom the handovers lead. -/
theorem serveAll_leadTo (henv : env.Orderly) (calls : List Call)
    (hrange : (env.serveAll e calls).ids.InRange) (ht : t ∈ env.store.tasks) {user : String}
    (huser : t.assignee = some user) :
    ∃ u ∈ (env.serveAll e calls).store.tasks, u.id = t.id ∧
      ∃ last, u.assignee = some last ∧ LeadTo user (env.handovers e t.id calls) last := by
  induction calls generalizing env t user with
  | nil => exact ⟨t, ht, rfl, user, huser, rfl⟩
  | cons c calls ih =>
    have hfirst := hrange.of_grows ((env.serve e c).serveAll_grows e calls)
    obtain ⟨u, hu, hid, next, hnext, hlead⟩ := serve_leadTo henv c hfirst ht huser
    obtain ⟨v, hv, hsame, last, hlast, hrest⟩ :=
      ih (serve_spec henv c hfirst).1 hrange hu hnext
    rw [hid] at hsame hrest
    exact ⟨v, hv, hsame, last, hlast, hlead.append hrest⟩

/-! ## Answers -/

/-- A request to work on a task that changes nothing if it is refused succeeds if the work does. -/
theorem answer_iff_of_yields {r : Request} {x : Operation Task} {time : Timestamp}
    {how : Task → Except EngineError Task} {env' : Environment}
    (henv : env.Orderly) (ht : t ∈ env.store.tasks) (hr : r.perform e = do let _ ← x)
    (hx : x.Yields { env with now := time } (env.store.tryTask t.id how) env') :
    env.answer e ⟨time, r⟩ = .ok () ↔ ∃ u, how t = .ok u := by
  have hanswer : env.answer e ⟨time, r⟩ = (env.store.tryTask t.id how).map fun _ => () := by
    rw [answer, hr]
    exact hx.discard.outcome
  have hfound := henv.store.task?_eq_some_iff.mpr ⟨ht, rfl⟩
  rw [hanswer, Store.tryTask, hfound]
  dsimp only
  cases how t with
  | ok u => exact ⟨fun _ => ⟨u, rfl⟩, fun _ => rfl⟩
  | error error => exact ⟨nofun, fun ⟨_, h⟩ => nomatch h⟩

/-- The service grants a claim exactly if the task is pending and entitles the actor. -/
theorem answer_claim_iff (henv : env.Orderly) (ht : t ∈ env.store.tasks) (time : Timestamp)
    (a : Actor) :
    env.answer e ⟨time, .claim t.id a⟩ = .ok () ↔ t.status = .pending ∧ t.Entitles a :=
  (answer_iff_of_yields henv ht rfl (Tasks.claim_yields (henv.at_time time) a)).trans
    Task.isOk_claimedBy_iff

/-- The service grants a delegation exactly if the task is open and the actor is its assignee. -/
theorem answer_delegate_iff (henv : env.Orderly) (ht : t ∈ env.store.tasks) (time : Timestamp)
    (a : Actor) (toUser : String) :
    env.answer e ⟨time, .delegate t.id a toUser⟩ = .ok () ↔
      t.status.isOpen ∧ t.assignee = some a.user :=
  (answer_iff_of_yields henv ht rfl (Tasks.delegate_yields (henv.at_time time) a toUser)).trans
    Task.isOk_delegatedBy_iff

/-- The service grants a completion exactly if the task is open and entitles the actor, whatever
comes of the progression. -/
theorem answer_complete_iff (henv : env.Orderly) (ht : t ∈ env.store.tasks) (h : t.IsCoherent)
    (time : Timestamp) (a : Actor) (c : Completion)
    (hrange : (env.serve e ⟨time, .complete t.id a c⟩).ids.InRange) :
    env.answer e ⟨time, .complete t.id a c⟩ = .ok () ↔ t.status.isOpen ∧ t.Entitles a := by
  have hnow := henv.at_time time
  have hisOk : (∃ u, t.finishedBy a c time = .ok u) ↔ _ := Task.isOk_finishedBy_iff h
  rw [← hisOk]
  cases hfinished : t.finishedBy a c time with
  | error error =>
    have htry : (env.store.tryTask t.id fun t => t.finishedBy a c time) = .error error := by
      rw [Store.tryTask, henv.store.task?_eq_some_iff.mpr ⟨ht, rfl⟩]
      exact hfinished
    have hrefused : (Tasks.complete e t.id a c).Yields _ _ _ := Tasks.complete_refused hnow htry
    have hanswer : env.answer e ⟨time, .complete t.id a c⟩ = .error error :=
      hrefused.discard.outcome
    rw [hanswer]
    exact ⟨nofun, fun ⟨_, h⟩ => nomatch h⟩
  | ok u =>
    obtain ⟨σ, hσ, -⟩ := situation_of_task hnow.store ht
    obtain ⟨-, hcompleted, -⟩ := Tasks.complete_carried hnow ht hfinished hσ
      ((StaysInRange.of_leaves hrange).first fun _ => .pure ())
    have hanswer : env.answer e ⟨time, .complete t.id a c⟩ = .ok () := hcompleted.discard.outcome
    rw [hanswer]
    exact ⟨fun _ => ⟨u, rfl⟩, fun _ => rfl⟩

/-- A claim that succeeds assigns the task to the user. -/
theorem assigned_of_claim (henv : env.Orderly) (ht : t ∈ env.store.tasks) {time : Timestamp}
    {a : Actor} (h : env.answer e ⟨time, .claim t.id a⟩ = .ok ()) :
    ∃ u ∈ (env.serve e ⟨time, .claim t.id a⟩).store.tasks, u.id = t.id ∧
      u.assignee = some a.user := by
  have hnow := henv.at_time time
  obtain ⟨u, hu⟩ : ∃ u, t.claimedBy a time = .ok u :=
    Task.isOk_claimedBy_iff.mpr ((answer_claim_iff henv ht time a).mp h)
  have hclaim : (Tasks.claim e t.id a).Yields { env with now := time } _ _ :=
    Tasks.claim_yields hnow a
  have htry : (env.store.tryTask t.id fun t => t.claimedBy a time) = .ok u :=
    Store.tryTask_eq_ok.mpr ⟨t, henv.store.task?_eq_some_iff.mpr ⟨ht, rfl⟩, hu⟩
  dsimp only at hclaim
  rw [htry] at hclaim
  obtain ⟨log, hserve⟩ := serve_eq (c := ⟨time, .claim t.id a⟩) hclaim.discard
  rw [hserve]
  have hid := (Task.of_claimedBy hu).2.id_eq
  obtain ⟨-, rfl⟩ := Task.eq_of_claimedBy hu
  exact ⟨_, mem_put_self Task.id ht hid, hid, rfl⟩

end Environment

end Runs

/-- Tasks after any run. A claim succeeds exactly if the task is pending and the actor is entitled
to it, a completion exactly if it is open and the actor is entitled, and a delegation exactly if it
is open and the actor is its assignee. From a claim of the task to its completion, whatever happens
between them, handovers lead from the one user to the other; if these are two, the task has been
handed on. -/
theorem only_entitled_act (seed : Nat) (start : Timestamp) (e : Engine) (calls : List Call)
    (t : Task) :
    let env := (Environment.fresh seed start).serveAll e calls
    env.ids.InRange → t ∈ env.store.tasks →
    (∀ time a, env.answer e ⟨time, .claim t.id a⟩ = .ok () ↔
      t.status = .pending ∧ t.Entitles a) ∧
    (∀ time a c, (env.serve e ⟨time, .complete t.id a c⟩).ids.InRange →
      (env.answer e ⟨time, .complete t.id a c⟩ = .ok () ↔ t.status.isOpen ∧ t.Entitles a)) ∧
    (∀ time a toUser, env.answer e ⟨time, .delegate t.id a toUser⟩ = .ok () ↔
      t.status.isOpen ∧ t.assignee = some a.user) ∧
    ∀ (time later : Timestamp) (a b : Actor) (between : List Call) (c : Completion),
      let claimed := env.serve e ⟨time, .claim t.id a⟩
      let last := claimed.serveAll e between
      (last.serve e ⟨later, .complete t.id b c⟩).ids.InRange →
      env.answer e ⟨time, .claim t.id a⟩ = .ok () →
      last.answer e ⟨later, .complete t.id b c⟩ = .ok () →
      LeadTo a.user (claimed.handovers e t.id between) b.user ∧
        (b.user ≠ a.user → claimed.handovers e t.id between ≠ []) := by
  intro env hrange ht
  have hstart := Environment.fresh_orderly seed start
  have henv : env.Orderly := Environment.serveAll_orderly hstart calls hrange
  have hcoherent := Environment.serveAll_coherent seed start calls hrange t ht
  refine ⟨Environment.answer_claim_iff henv ht,
    Environment.answer_complete_iff henv ht hcoherent, Environment.answer_delegate_iff henv ht, ?_⟩
  intro time later a b between c claimed last hcompleted hclaim hcompletion
  have hlast : last.ids.InRange := hcompleted.of_grows (last.serve_grows e _)
  have hfirst : claimed.ids.InRange := hlast.of_grows (claimed.serveAll_grows e between)
  obtain ⟨u, hu, hid, hassignee⟩ := Environment.assigned_of_claim henv ht hclaim
  have hclaimed : claimed.Orderly := (Environment.serve_spec henv _ hfirst).1
  obtain ⟨v, hv, hsame, user, huser, hlead⟩ :=
    Environment.serveAll_leadTo hclaimed between hlast hu hassignee
  -- whoever completes the task is its assignee then
  have hreached : last = (Environment.fresh seed start).serveAll e
      (calls ++ ⟨time, .claim t.id a⟩ :: between) := by
    rw [Environment.serveAll_append]
    rfl
  have hvcoherent : v.IsCoherent :=
    Environment.serveAll_coherent seed start _ (hreached ▸ hlast) v (hreached ▸ hv)
  rw [hid] at hsame hlead
  rw [← hsame] at hcompletion hcompleted
  have horderly := Environment.serveAll_orderly hclaimed between hlast
  obtain ⟨-, hentitled⟩ :=
    (Environment.answer_complete_iff horderly hv hvcoherent later b c hcompleted).mp hcompletion
  rw [(Task.entitles_of_assigned huser).mp hentitled] at hlead
  exact ⟨hlead, hlead.ne_nil⟩

/-- After `fanOutRun`, the task of one branch is pending. It can be claimed, handed on, and then
completed by the user to whom it has been handed. -/
theorem fanOutRun_handover :
    let task := IdSource.issue 0 .task 0
    let env := (Environment.fresh 0 ⟨0, 0⟩).serveAll .default fanOutRun
    let claimed := env.serve .default ⟨⟨0, 0⟩, .claim task ⟨"u", []⟩⟩
    let last := claimed.serveAll .default [⟨⟨1, 0⟩, .delegate task ⟨"u", []⟩ "v"⟩]
    let completion : Call := ⟨⟨2, 0⟩, .complete task ⟨"v", []⟩ ⟨.approved, .null, none⟩⟩
    (∃ t ∈ env.store.tasks, t.id = task ∧ t.status = .pending) ∧
      (last.serve .default completion).ids.InRange ∧
      env.answer .default ⟨⟨0, 0⟩, .claim task ⟨"u", []⟩⟩ = .ok () ∧
      last.answer .default completion = .ok () := by
  decide +kernel

/-- Whoever claims the task is entitled to it, and from the claim to the completion it is handed
on. -/
theorem only_entitled_act_fanOut :
    let env := (Environment.fresh 0 ⟨0, 0⟩).serveAll .default fanOutRun
    ∃ t ∈ env.store.tasks, t.Entitles ⟨"u", []⟩ ∧
      (∃ c : Call, c.request = .claim t.id ⟨"u", []⟩ ∧
        (env.serve .default c).handovers .default t.id
          [⟨⟨1, 0⟩, .delegate t.id ⟨"u", []⟩ "v"⟩] ≠ []) := by
  obtain ⟨⟨t, ht, hid, -⟩, hrange, hclaim, hcompletion⟩ := fanOutRun_handover
  rw [← hid] at hrange hclaim hcompletion
  have hbefore := ((hrange.of_grows (Environment.serve_grows _ _ _)).of_grows
    (Environment.serveAll_grows _ _ _)).of_grows (Environment.serve_grows _ _ _)
  obtain ⟨hclaims, -, -, hhands⟩ :=
    only_entitled_act 0 ⟨0, 0⟩ .default fanOutRun t hbefore ht
  obtain ⟨-, hother⟩ := hhands _ _ ⟨"u", []⟩ ⟨"v", []⟩ _ _ hrange hclaim hcompletion
  exact ⟨t, ht, ((hclaims _ _).mp hclaim).2, _, rfl, hother (by decide)⟩

end ApprovalWorkflow
