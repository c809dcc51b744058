import ApprovalWorkflow.Proofs.Joins
import ApprovalWorkflow.Proofs.Snapshots

/-!
# Join claims

Before an instance moves on behind a parallel step, the join is claimed with the ids of the branch
tasks. A claim is granted once. The ids are sorted before they are compared with the recorded ones,
and there is one order in which ids ascend (`Uuid.Ascend.eq_of_perm`), so their order in a claim or
in the table of tasks does not count, as long as the records are sorted themselves. Claims keep them
so (`Instance.HasDistinctJoins.claim`), and nothing else writes a join record.
-/

set_option autoImplicit false

namespace ApprovalWorkflow

/-! ## Identifiers in order -/

/-- The identifiers stand in order. -/
def Uuid.Ascend (ids : List Uuid) : Prop := ids.Pairwise fun a b => a.le b

/-- There is one order in which identifiers ascend. -/
theorem Uuid.Ascend.eq_of_perm {ids others : List Uuid} (h : Ascend ids) (hothers : Ascend others)
    (hperm : others.Perm ids) : others = ids := by
  refine hperm.eq_of_pairwise (fun a b _ _ hab hba => ?_) hothers h
  rw [Uuid.le, decide_eq_true_eq] at hab hba
  exact Uuid.toNat_injective (Nat.le_antisymm hab hba)

namespace Instance

variable {ids others : List Uuid}

/-- Sorting changes nothing but the order of the ids. -/
theorem sortedIds_perm (ids : List Uuid) : (sortedIds ids).Perm ids := List.mergeSort_perm _ _

/-- Sorted ids ascend. -/
theorem ascend_sortedIds (ids : List Uuid) : Uuid.Ascend (sortedIds ids) := by
  refine List.pairwise_mergeSort (fun a b c hab hbc => ?_) (fun a b => ?_) ids
  · rw [Uuid.le, decide_eq_true_eq] at *
    exact Nat.le_trans hab hbc
  · rw [Bool.or_eq_true, Uuid.le, Uuid.le, decide_eq_true_eq, decide_eq_true_eq]
    exact Nat.le_total _ _

/-- Identifiers in order are those of a list if they come from sorting it. -/
theorem eq_sortedIds_iff (h : Uuid.Ascend others) : others = sortedIds ids ↔ others.Perm ids := by
  constructor
  · rintro rfl
    exact sortedIds_perm ids
  · intro hperm
    exact (ascend_sortedIds ids).eq_of_perm h (hperm.trans (sortedIds_perm ids).symm)

/-- The same ids in another order are sorted to the same list. -/
theorem sortedIds_eq_of_perm (h : others.Perm ids) : sortedIds others = sortedIds ids :=
  (eq_sortedIds_iff (ascend_sortedIds others)).mpr ((sortedIds_perm others).trans h)

end Instance

/-- Whether branches have ended, and which, does not depend on the order of the tasks. -/
theorem Step.resolvedSiblings?_eq_of_perm (parallel : Step) {tasks others : List Task}
    (h : others.Perm tasks) :
    parallel.resolvedSiblings? others = parallel.resolvedSiblings? tasks := by
  have hsiblings : (parallel.siblings others).Perm (parallel.siblings tasks) := h.filter _
  have hids := Instance.sortedIds_eq_of_perm (hsiblings.map Task.id)
  have hnone : (parallel.siblings others).isEmpty = (parallel.siblings tasks).isEmpty :=
    hsiblings.isEmpty_eq
  have hopen : (parallel.siblings others).any (fun t => t.status.isOpen) =
      (parallel.siblings tasks).any fun t => t.status.isOpen := hsiblings.any_eq
  simp only [resolvedSiblings?, hids, hnone, hopen]

/-! ## Claims -/

/-- A claim to move an instance on behind a step, since these tasks have ended. -/
structure JoinClaim where
  stepId : String
  taskIds : List Uuid
  time : Timestamp

namespace Instance

variable {i : Instance} {c : JoinClaim}

/-- Whether the claim is granted, and the instance after it. -/
def claim (i : Instance) (c : JoinClaim) : Bool × Instance :=
  match i.claimJoin? c.stepId c.taskIds c.time with
  | some j => (true, j)
  | none => (false, i)

/-- The instance after several claims. -/
def claimAll (i : Instance) : List JoinClaim → Instance
  | [] => i
  | c :: claims => (i.claim c).2.claimAll claims

/-- A join of the step over the same tasks is recorded. -/
def HasJoined (i : Instance) (c : JoinClaim) : Prop :=
  ∃ j ∈ i.joins, j.stepId = c.stepId ∧ j.taskIds.Perm c.taskIds

/-- The ids in every join record stand in order. -/
def HasSortedJoins (i : Instance) : Prop := ∀ j ∈ i.joins, Uuid.Ascend j.taskIds

/-- The ids in every join record stand in order, and the records differ in the step or in the
ids. -/
structure HasDistinctJoins (i : Instance) : Prop where
  sorted : i.HasSortedJoins
  distinct : (i.joins.map fun j => (j.stepId, j.taskIds)).Nodup

/-- What a claim does. -/
theorem claim_cases (h : i.HasSortedJoins) (c : JoinClaim) :
    (i.HasJoined c ∧ i.claim c = (false, i)) ∨
    (¬ i.HasJoined c ∧ i.claim c =
      (true, { i with joins := i.joins ++ [⟨c.stepId, sortedIds c.taskIds, c.time⟩] })) := by
  have hjoined : (i.joins.any fun j => j.stepId == c.stepId && j.taskIds == sortedIds c.taskIds) ↔
      i.HasJoined c := by
    rw [List.any_eq_true]
    refine exists_congr fun j => and_congr_right fun hj => ?_
    rw [Bool.and_eq_true, beq_iff_eq, beq_iff_eq, eq_sortedIds_iff (h j hj)]
  rw [claim, claimJoin?]
  by_cases hc : i.HasJoined c
  · rw [if_pos (hjoined.mpr hc)]
    exact .inl ⟨hc, rfl⟩
  · rw [if_neg (mt hjoined.mp hc)]
    exact .inr ⟨hc, rfl⟩

/-- A claim is granted exactly if no join of the step over the same tasks is recorded yet. -/
theorem claim_fst_eq_true_iff (h : i.HasSortedJoins) (c : JoinClaim) :
    (i.claim c).1 = true ↔ ¬ i.HasJoined c := by
  obtain ⟨hjoined, hclaim⟩ | ⟨hjoined, hclaim⟩ := claim_cases h c
  · simp [hclaim, hjoined]
  · simp [hclaim, hjoined]

/-- The order of the ids in a claim does not count. -/
theorem claim_eq_of_perm (i : Instance) {ids : List Uuid} (h : ids.Perm c.taskIds) :
    i.claim { c with taskIds := ids } = i.claim c := by
  simp only [claim, claimJoin?, sortedIds_eq_of_perm h]

/-- A new instance has no join records that could repeat each other. -/
theorem new_hasDistinctJoins (id workflow : Uuid) (input : Json) (now : Timestamp) :
    (new id workflow input now).HasDistinctJoins where
  sorted := List.forall_mem_nil _
  distinct := List.nodup_nil

namespace HasDistinctJoins

/-- Claims keep the join records different. -/
theorem claim (h : i.HasDistinctJoins) (c : JoinClaim) : (i.claim c).2.HasDistinctJoins := by
  obtain ⟨-, hclaim⟩ | ⟨hnew, hclaim⟩ := claim_cases h.sorted c
  · rw [hclaim]
    exact h
  · rw [hclaim]
    refine ⟨forall_mem_concat h.sorted (ascend_sortedIds c.taskIds), ?_⟩
    dsimp only
    rw [List.map_append, List.map_singleton, List.nodup_append]
    refine ⟨h.distinct, List.nodup_singleton _, ?_⟩
    -- An older record with the same ids would have stood against the claim.
    rintro _ hold _ hadded rfl
    obtain ⟨j, hj, heq⟩ := List.mem_map.mp hold
    rw [List.mem_singleton] at hadded
    obtain ⟨hstep, hids⟩ := Prod.ext_iff.mp (heq.trans hadded)
    exact hnew ⟨j, hj, hstep, (eq_sortedIds_iff (h.sorted j hj)).mp hids⟩

/-- Claims one after the other leave no join record twice. The induction is on the claims. -/
theorem claimAll (h : i.HasDistinctJoins) (claims : List JoinClaim) :
    (i.claimAll claims).HasDistinctJoins := by
  induction claims generalizing i with
  | nil => exact h
  | cons c claims ih => exact ih (h.claim c)

/-- There is one record of a join. -/
theorem unique (h : i.HasDistinctJoins) {j k : JoinRecord} (hj : j ∈ i.joins) (hk : k ∈ i.joins)
    (hstep : j.stepId = k.stepId) (hids : j.taskIds.Perm k.taskIds) : j = k := by
  have hsame : j.taskIds = k.taskIds := (h.sorted k hk).eq_of_perm (h.sorted j hj) hids
  exact List.inj_on_of_nodup_map h.distinct hj hk (Prod.ext hstep hsame)

end HasDistinctJoins

/-- After a claim its join is recorded, and so is what was recorded before. -/
theorem HasSortedJoins.hasJoined_claim (h : i.HasSortedJoins) {c d : JoinClaim}
    (hd : d = c ∨ i.HasJoined d) : (i.claim c).2.HasJoined d := by
  obtain ⟨hjoined, hclaim⟩ | ⟨-, hclaim⟩ := claim_cases h c
  · rw [hclaim]
    exact hd.elim (fun hdc => hdc ▸ hjoined) fun hold => hold
  · rw [hclaim]
    rcases hd with rfl | ⟨j, hj, hsame⟩
    · exact ⟨_, List.mem_append_right _ List.mem_cons_self, rfl, sortedIds_perm _⟩
    · exact ⟨j, List.mem_append_left _ hj, hsame⟩

/-- What has been claimed, or was recorded before, is recorded after all claims. -/
theorem HasDistinctJoins.hasJoined_claimAll (h : i.HasDistinctJoins) {claims : List JoinClaim}
    (hc : c ∈ claims ∨ i.HasJoined c) : (i.claimAll claims).HasJoined c := by
  induction claims generalizing i with
  | nil => exact hc.resolve_left List.not_mem_nil
  | cons d claims ih =>
    refine ih (h.claim d) ?_
    rw [List.mem_cons, or_assoc, or_left_comm] at hc
    exact hc.imp_right h.sorted.hasJoined_claim

end Instance

/-! ## Runs -/

/-- The join records of every instance are different. -/
def RecordInvariant.distinctJoins : RecordInvariant where
  workflow _ := True
  run := Instance.HasDistinctJoins
  task _ := True
  entry _ := True
  input _ := True
  output _ := True
  draft _ _ _ _ _ := trivial
  apply _ _ _ := trivial
  replaceDefinition _ _ _ := trivial
  begin _ _ id workflow := Instance.new_hasDistinctJoins id workflow _ _
  restart h _ := ⟨h.sorted, h.distinct⟩
  finish h _ hj := by
    obtain ⟨-, rfl⟩ := Instance.of_finish hj
    exact ⟨h.sorted, h.distinct⟩
  fail h _ hj := by
    obtain ⟨-, rfl⟩ := Instance.of_fail hj
    exact ⟨h.sorted, h.distinct⟩
  complete h _ _ hj := by
    obtain ⟨-, rfl⟩ := Instance.of_complete hj
    exact ⟨h.sorted, h.distinct⟩
  claimJoin {now i j step ids} h _ hj := by
    have hclaimed := h.claim ⟨step, ids, now⟩
    rw [Instance.claim, hj] at hclaimed
    exact hclaimed
  build _ _ _ _ _ _ _ _ := trivial
  assign _ _ := trivial
  markRejected _ _ _ := trivial
  mark _ _ := trivial
  claim _ _ _ := trivial
  finishTask _ _ _ _ := trivial
  delegate _ _ := trivial
  claimed _ _ _ _ := trivial
  completed _ _ _ _ := trivial
  delegated _ _ _ _ _ := trivial

namespace Environment

/-- The environment after runs of orders, each of which begins with the store that is made from a
snapshot of the one before. -/
def followSessions (env : Environment) (e : Engine) : List (List Order) → Environment
  | [] => env
  | orders :: sessions =>
    let restored := { env with store := (Snapshot.ofStore env.store).toStore }
    (restored.followAll e orders).followSessions e sessions

/-- Whatever is asked for, with or without outages and through snapshots, all join records are
different. -/
theorem followSessions_distinctJoins {env : Environment} (h : env.store.Meets .distinctJoins)
    (e : Engine) (sessions : List (List Order))
    (horders : ∀ orders ∈ sessions, ∀ o ∈ orders, o.time.IsRegular) :
    (env.followSessions e sessions).store.Meets .distinctJoins := by
  induction sessions generalizing env with
  | nil => exact h
  | cons orders sessions ih =>
    obtain ⟨hfirst, hrest⟩ := List.forall_mem_cons.mp horders
    have hbrings (d : Directive) : d.Brings .distinctJoins :=
      d.brings (fun _ => trivial) fun _ => trivial
    exact ih (followAll_meets h.restored e orders fun o ho => ⟨hfirst o ho, hbrings o.directive⟩)
      hrest

end Environment

/-- Whether branches have ended does not depend on the order of the tasks, and their ids are given
in order. A claim does not depend on the order of its ids, as long as the recorded ones are in
order; it is granted exactly if no join of the step over the same tasks is recorded, and then it
adds one record, and otherwise it changes nothing. So after any claims, and in any run, the join
records of an instance differ from one another, and the ids in them are in order. -/
theorem join_claims_distinct :
    (∀ (parallel : Step) (tasks : List Task),
      (∀ others, others.Perm tasks →
        parallel.resolvedSiblings? others = parallel.resolvedSiblings? tasks) ∧
      ∀ ids, parallel.resolvedSiblings? tasks = some ids → Uuid.Ascend ids) ∧
    (∀ i : Instance, i.HasSortedJoins → ∀ c : JoinClaim,
      (∀ ids, ids.Perm c.taskIds → i.claim { c with taskIds := ids } = i.claim c) ∧
      ((i.claim c).1 = true ↔
        ¬ ∃ j ∈ i.joins, j.stepId = c.stepId ∧ j.taskIds.Perm c.taskIds) ∧
      ((i.claim c).1 = true → ∃ ids, ids.Perm c.taskIds ∧ Uuid.Ascend ids ∧
        (i.claim c).2 = { i with joins := i.joins ++ [⟨c.stepId, ids, c.time⟩] }) ∧
      ((i.claim c).1 = false → (i.claim c).2 = i)) ∧
    (∀ id workflow input now, (Instance.new id workflow input now).HasDistinctJoins) ∧
    (∀ i : Instance, i.HasDistinctJoins → ∀ claims, (i.claimAll claims).HasDistinctJoins ∧
      ∀ c ∈ claims, ∃! j, j ∈ (i.claimAll claims).joins ∧ j.stepId = c.stepId ∧
        j.taskIds.Perm c.taskIds) ∧
    ∀ seed start e sessions, (∀ orders ∈ sessions, ∀ o ∈ orders, o.time.IsRegular) →
      ∀ i ∈ ((Environment.fresh seed start).followSessions e sessions).store.instances,
        i.HasDistinctJoins := by
  refine ⟨fun parallel tasks => ⟨fun others => parallel.resolvedSiblings?_eq_of_perm, ?_⟩,
    fun i h c => ⟨fun ids => i.claim_eq_of_perm, Instance.claim_fst_eq_true_iff h c, ?_⟩,
    Instance.new_hasDistinctJoins, fun i h claims => ⟨h.claimAll claims, fun c hc => ?_⟩,
    fun seed start e sessions horders =>
      (Environment.followSessions_distinctJoins .empty e sessions horders).instances⟩
  · intro ids hids
    obtain ⟨-, -, rfl⟩ := Situation.of_resolvedSiblings? hids
    exact Instance.ascend_sortedIds _
  · obtain ⟨-, hclaim⟩ | ⟨-, hclaim⟩ := Instance.claim_cases h c
    · rw [hclaim]
      exact ⟨fun hgranted => absurd hgranted Bool.false_ne_true, fun _ => rfl⟩
    · rw [hclaim]
      exact ⟨fun _ => ⟨_, Instance.sortedIds_perm _, Instance.ascend_sortedIds _, rfl⟩,
        fun hrefused => absurd hrefused.symm Bool.false_ne_true⟩
  · obtain ⟨j, hj, hstep, hids⟩ := h.hasJoined_claimAll (.inl hc)
    refine ⟨j, ⟨hj, hstep, hids⟩, ?_⟩
    rintro k ⟨hk, hkstep, hkids⟩
    exact (h.claimAll claims).unique hk hj (hkstep.trans hstep.symm) (hkids.trans hids.symm)

/-- The branches that have ended after `joinedRun` are claimed in the one order and then in the
other one, and the record that the run has left outlasts a snapshot. -/
theorem join_claims_distinct_joined :
    let parallel : Step := .parallel "p" [.userTask "b", .userTask "c"]
    let branch := IdSource.issue 0 .task
    let s := ((Environment.fresh 0 ⟨0, 0⟩).followSessions .default [joinedRun, []]).store
    let i := Instance.new (IdSource.issue 0 .run 0) (IdSource.issue 0 .workflow 0) .null ⟨9, 0⟩
    let c : JoinClaim := ⟨"p", [branch 1, branch 0], ⟨9, 0⟩⟩
    let claimed := (i.claim c).2
    (∃ ids, parallel.resolvedSiblings? s.tasks.reverse = some ids ∧ Uuid.Ascend ids) ∧
      (i.claim c).1 = true ∧
      claimed.claim { c with taskIds := [branch 0, branch 1] } = (false, claimed) ∧
      (s.instances.flatMap Instance.joins).length = 1 ∧ ∀ i ∈ s.instances, i.HasDistinctJoins := by
  intro parallel branch s i c claimed
  obtain ⟨hsiblings, hclaim, hnew, hclaims, hruns⟩ := join_claims_distinct
  have hdistinct : i.HasDistinctJoins := hnew _ _ _ _
  obtain ⟨ids, hids⟩ : ∃ ids, parallel.resolvedSiblings? s.tasks = some ids :=
    Option.isSome_iff_exists.mp (by decide +kernel)
  obtain ⟨hother, hascend⟩ := hsiblings parallel s.tasks
  have hgranted : (i.claim c).1 = true := by
    refine (hclaim i hdistinct.sorted c).2.1.mpr ?_
    rintro ⟨j, hj, -⟩
    cases hj
  obtain ⟨hkept, hrecorded⟩ := hclaims i hdistinct [c]
  obtain ⟨horder, hnone, -, hunchanged⟩ := hclaim claimed hkept.sorted c
  have hrefused : (claimed.claim c).1 = false := by
    refine Bool.eq_false_iff.mpr fun hagain => hnone.mp hagain ?_
    obtain ⟨j, ⟨hj, hsame⟩, -⟩ := hrecorded c List.mem_cons_self
    exact ⟨j, hj, hsame⟩
  have hregular : ∀ orders ∈ [joinedRun, []], ∀ o ∈ orders, o.time.IsRegular := by
    simp only [joinedRun, List.forall_mem_cons]
    exact ⟨⟨by decide, by decide, by decide, by decide, by decide, by decide,
      List.forall_mem_nil _⟩, List.forall_mem_nil _, List.forall_mem_nil _⟩
  refine ⟨⟨ids, (hother _ (List.reverse_perm _)).trans hids, hascend ids hids⟩, hgranted, ?_,
    by decide +kernel, hruns 0 ⟨0, 0⟩ .default _ hregular⟩
  rw [horder _ (List.Perm.swap _ _ _)]
  exact Prod.ext hrefused (hunchanged hrefused)

end ApprovalWorkflow
