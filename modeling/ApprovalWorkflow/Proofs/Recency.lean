import ApprovalWorkflow.Condition.Evaluation
import Mathlib

/-!
# The latest of several tasks

How late a task is depends first on when it was finished, where a task that is not finished comes
before all others, and then on when it was opened (`Task.recency`). The comparison by which tasks
are sorted is the order of these pairs (`Task.finishedBefore_iff`). So there is a latest one among
any tasks, with the last in the list chosen out of several that are equally late
(`Task.IsLatest`), and it is the same one however the tasks are listed if no two are equally late
(`Task.IsLatest.perm_iff`).

There are two ways to find it: to go through the list and keep the later one
(`Surroundings.latest?_eq_some_iff`), or to sort the list and take its last item
(`Task.isLatest_iff_getLast?`). A stable sort does not change which one is the latest, whatever
part of the list is looked at (`Task.isLatest_filter_mergeSort`).
-/

set_option autoImplicit false

namespace ApprovalWorkflow

/-! ## Times as pairs -/

namespace Timestamp

variable {a b : Timestamp}

/-- A time as its second and its nanosecond. -/
def instant (t : Timestamp) : ℤ ×ₗ ℕ := toLex (t.seconds, t.nanos)

/-- Two times are the same exactly if their instants are. -/
theorem instant_inj : a.instant = b.instant ↔ a = b := by
  constructor
  · intro h
    rw [instant, instant, toLex_inj] at h
    cases a
    cases b
    simpa using h
  · rintro rfl
    rfl

/-- A time is not later than another one exactly if its instant is not greater. -/
theorem le_iff_instant_le : a.le b ↔ a.instant ≤ b.instant := by
  simp [le, instant, Prod.Lex.toLex_le_toLex]

end Timestamp

namespace Task

/-- How late a task is: when it was finished, if it is finished, and when it was opened. -/
def recency (t : Task) : WithBot (ℤ ×ₗ ℕ) ×ₗ (ℤ ×ₗ ℕ) :=
  toLex (t.completedAt.elim ⊥ fun c => (c.instant : WithBot (ℤ ×ₗ ℕ)), t.createdAt.instant)

section

variable {s t u : Task}

/-- Tasks are equally late if they have been opened and finished at the same times. -/
theorem recency_eq_iff :
    t.recency = u.recency ↔ (t.completedAt, t.createdAt) = (u.completedAt, u.createdAt) := by
  rw [recency, recency, toLex_inj, Prod.mk.injEq, Prod.mk.injEq, Timestamp.instant_inj]
  cases t.completedAt <;> cases u.completedAt <;> simp [Timestamp.instant_inj]

/-- A task was finished before another one exactly if its recency is not greater. -/
theorem finishedBefore_iff : t.finishedBefore u ↔ t.recency ≤ u.recency := by
  rw [finishedBefore, recency, recency, Prod.Lex.toLex_le_toLex]
  cases t.completedAt with
  | none =>
    cases u.completedAt with
    | none => simp [Timestamp.le_iff_instant_le]
    | some c => simp [Timestamp.leOptional]
  | some b =>
    cases u.completedAt with
    | none => simp [Timestamp.leOptional]
    | some c =>
      by_cases h : b = c
      · simp [h, Timestamp.le_iff_instant_le]
      · have hne : b.instant ≠ c.instant := fun heq => h (Timestamp.instant_inj.mp heq)
        simp [h, hne, Timestamp.leOptional, Timestamp.le_iff_instant_le, lt_iff_le_and_ne]

/-- The order in which tasks were finished is transitive. -/
theorem finishedBefore_trans (s t u : Task) (hst : s.finishedBefore t)
    (htu : t.finishedBefore u) : s.finishedBefore u :=
  finishedBefore_iff.mpr ((finishedBefore_iff.mp hst).trans (finishedBefore_iff.mp htu))

/-- Of two tasks one was finished before the other. -/
theorem finishedBefore_total (s t : Task) : s.finishedBefore t || t.finishedBefore s := by
  rw [Bool.or_eq_true, finishedBefore_iff, finishedBefore_iff]
  exact le_total s.recency t.recency

end

/-! ## The latest task of a list -/

/-- The task is the latest one in the list; of several that are equally late it is the last. -/
def IsLatest (t : Task) (tasks : List Task) : Prop :=
  ∃ before after, tasks = before ++ t :: after ∧ (∀ u ∈ before, u.recency ≤ t.recency) ∧
    ∀ u ∈ after, u.recency < t.recency

section

variable {t u v : Task} {tasks front rest : List Task} {p : Task → Bool}

/-- The latest of some tasks is one of them. -/
theorem IsLatest.mem (h : t.IsLatest tasks) : t ∈ tasks := by
  obtain ⟨before, after, rfl, -⟩ := h
  simp

/-- None of the tasks is more recent than the latest one. -/
theorem IsLatest.le (h : t.IsLatest tasks) (hu : u ∈ tasks) : u.recency ≤ t.recency := by
  obtain ⟨before, after, rfl, hbefore, hafter⟩ := h
  rcases List.mem_append.mp hu with hu | hu
  · exact hbefore u hu
  · rcases List.mem_cons.mp hu with rfl | hu
    · exact le_rfl
    · exact (hafter u hu).le

/-- Among no tasks there is no latest one. -/
@[simp]
theorem not_isLatest_nil : ¬ t.IsLatest [] := fun h => absurd h.mem List.not_mem_nil

/-- A task in front is the latest one only if all others are earlier. -/
theorem isLatest_cons : t.IsLatest (u :: tasks) ↔
    t.IsLatest tasks ∧ u.recency ≤ t.recency ∨ t = u ∧ ∀ v ∈ tasks, v.recency < u.recency := by
  constructor
  · rintro ⟨before, after, hsplit, hbefore, hafter⟩
    cases before with
    | nil =>
      cases hsplit
      exact .inr ⟨rfl, hafter⟩
    | cons v before =>
      cases hsplit
      exact .inl ⟨⟨before, after, rfl, fun w hw => hbefore w (List.mem_cons_of_mem u hw), hafter⟩,
        hbefore u List.mem_cons_self⟩
  · rintro (⟨⟨before, after, rfl, hbefore, hafter⟩, hle⟩ | ⟨rfl, hall⟩)
    · exact ⟨u :: before, after, rfl, List.forall_mem_cons.mpr ⟨hle, hbefore⟩, hafter⟩
    · exact ⟨[], tasks, rfl, List.forall_mem_nil _, hall⟩

/-- There is only one latest task. -/
theorem IsLatest.eq (ht : t.IsLatest tasks) (hu : u.IsLatest tasks) : t = u := by
  induction tasks with
  | nil => exact absurd ht not_isLatest_nil
  | cons v tasks ih =>
    rcases isLatest_cons.mp ht with ⟨ht, hvt⟩ | ⟨htv, hall⟩
    · rcases isLatest_cons.mp hu with ⟨hu, -⟩ | ⟨-, hall⟩
      · exact ih ht hu
      · exact absurd (hall t ht.mem) hvt.not_gt
    · rcases isLatest_cons.mp hu with ⟨hu, hvu⟩ | ⟨huv, -⟩
      · exact absurd (hall u hu.mem) hvu.not_gt
      · rw [htv, huv]

/-- There is a latest task among any tasks. -/
theorem exists_isLatest (h : tasks ≠ []) : ∃ t, Task.IsLatest t tasks := by
  induction tasks with
  | nil => exact absurd rfl h
  | cons u tasks ih =>
    by_cases hlater : ∀ v ∈ tasks, Task.recency v < u.recency
    · exact ⟨u, isLatest_cons.mpr (.inr ⟨rfl, hlater⟩)⟩
    · obtain ⟨v, hv, hle⟩ : ∃ v ∈ tasks, u.recency ≤ v.recency := by simpa using hlater
      obtain ⟨t, ht⟩ := ih (List.ne_nil_of_mem hv)
      exact ⟨t, isLatest_cons.mpr (.inl ⟨ht, hle.trans (ht.le hv)⟩)⟩

/-- If no two tasks are equally late the latest one does not depend on the order of the list. -/
theorem IsLatest.perm_iff {others : List Task} (h : tasks.Perm others)
    (hdistinct : tasks.Pairwise fun t u => t.recency ≠ u.recency) :
    t.IsLatest tasks ↔ t.IsLatest others := by
  have hstrict : ∀ {l : List Task}, (l.Pairwise fun t u => t.recency ≠ u.recency) →
      (t.IsLatest l ↔ t ∈ l ∧ ∀ u ∈ l, u.recency ≤ t.recency) := by
    intro l hl
    refine ⟨fun h => ⟨h.mem, fun u => h.le⟩, fun ⟨hmem, hle⟩ => ?_⟩
    obtain ⟨before, after, rfl⟩ := List.append_of_mem hmem
    refine ⟨before, after, rfl, fun u hu => hle u (List.mem_append_left _ hu), fun u hu => ?_⟩
    have hne : t.recency ≠ u.recency :=
      (List.pairwise_cons.mp (List.pairwise_append.mp hl).2.1).1 u hu
    exact lt_of_le_of_ne (hle u (by simp [hu])) hne.symm
  rw [hstrict hdistinct, hstrict (h.pairwise hdistinct fun hne => hne.symm), h.mem_iff]
  simp only [h.mem_iff]

/-! ## Finding it -/

/-- A task may be moved to the front past earlier ones. -/
theorem isLatest_append_cons (h : ∀ v ∈ front, v.recency < u.recency) :
    t.IsLatest (front ++ u :: rest) ↔ t.IsLatest (u :: (front ++ rest)) := by
  induction front with
  | nil => rfl
  | cons v front ih =>
    obtain ⟨hv, hfront⟩ := List.forall_mem_cons.mp h
    rw [List.cons_append, isLatest_cons, ih hfront, List.cons_append, isLatest_cons, isLatest_cons,
      isLatest_cons]
    constructor
    · rintro (⟨⟨ht, hu⟩ | ⟨rfl, hall⟩, hle⟩ | ⟨rfl, hall⟩)
      · exact .inl ⟨.inl ⟨ht, hle⟩, hu⟩
      · exact .inr ⟨rfl, List.forall_mem_cons.mpr ⟨hv, hall⟩⟩
      · exact absurd (hall u (by simp)) hv.not_gt
    · rintro (⟨⟨ht, hle⟩ | ⟨rfl, hall⟩, hu⟩ | ⟨rfl, hall⟩)
      · exact .inl ⟨.inl ⟨ht, hu⟩, hle⟩
      · exact absurd hv hu.not_gt
      · obtain ⟨hlt, hall⟩ := List.forall_mem_cons.mp hall
        exact .inl ⟨.inr ⟨rfl, hall⟩, hlt.le⟩

/-- Sorting does not change which task is the latest, nor which one of those with a property. -/
theorem isLatest_filter_mergeSort :
    t.IsLatest ((tasks.mergeSort finishedBefore).filter p) ↔ t.IsLatest (tasks.filter p) := by
  induction tasks with
  | nil => simp
  | cons u tasks ih =>
    obtain ⟨front, rest, hcons, hsort, hfront⟩ :=
      List.mergeSort_cons finishedBefore_trans finishedBefore_total u tasks
    have hearlier : ∀ v ∈ front.filter p, v.recency < u.recency := by
      intro v hv
      rw [← not_le, ← finishedBefore_iff]
      simpa using hfront v (List.mem_filter.mp hv).1
    rw [hsort, List.filter_append] at ih
    rw [hcons, List.filter_append]
    -- `u` has been put behind `front`, which is all earlier, so it may go back to the front.
    by_cases hp : p u
    · rw [List.filter_cons_of_pos hp, List.filter_cons_of_pos hp, isLatest_append_cons hearlier,
        isLatest_cons, isLatest_cons, ih]
      have hall : (∀ v ∈ front.filter p ++ rest.filter p, v.recency < u.recency) ↔
          ∀ v ∈ tasks.filter p, v.recency < u.recency := by
        rw [← List.filter_append, ← hsort]
        simp only [List.mem_filter, List.mem_mergeSort]
      rw [hall]
    · rwa [List.filter_cons_of_neg hp, List.filter_cons_of_neg hp]

/-- The latest of tasks in order is the last one. -/
theorem isLatest_iff_getLast? (h : tasks.Pairwise fun t u => t.recency ≤ u.recency) :
    t.IsLatest tasks ↔ tasks.getLast? = some t := by
  have hlast : ∀ {u : Task}, tasks.getLast? = some u → u.IsLatest tasks := by
    intro u hu
    obtain ⟨front, rfl⟩ := List.getLast?_eq_some_iff.mp hu
    exact ⟨front, [], rfl,
      fun v hv => (List.pairwise_append.mp h).2.2 v hv u List.mem_cons_self,
      List.forall_mem_nil _⟩
  refine ⟨fun ht => ?_, hlast⟩
  cases hu : tasks.getLast? with
  | none =>
    rw [List.getLast?_eq_none_iff.mp hu] at ht
    exact absurd ht not_isLatest_nil
  | some u => rw [ht.eq (hlast hu)]

end

end Task

/-- The task of a key that is found by going through a list is the latest one. -/
theorem Surroundings.latest?_eq_some_iff {t : Task} {key : String} {tasks : List Task} :
    latest? key tasks = some t ↔ t.IsLatest (tasks.filter fun u => u.key = key) := by
  induction tasks generalizing t with
  | nil => simp [latest?]
  | cons u tasks ih =>
    rw [latest?]
    -- What is found in the rest is kept unless `u` is later than that.
    by_cases hkey : u.key = key
    · rw [List.filter_cons_of_pos (by simpa using hkey), Task.isLatest_cons]
      cases hlatest : latest? key tasks with
      | none =>
        have hnone : tasks.filter (fun u => u.key = key) = [] := by
          by_contra hne
          obtain ⟨t, ht⟩ := Task.exists_isLatest hne
          rw [← ih, hlatest] at ht
          cases ht
        simp only [hnone, Task.not_isLatest_nil, hkey, if_true, Option.some.injEq, false_and,
          false_or]
        exact ⟨fun hut => ⟨hut.symm, List.forall_mem_nil _⟩, fun htu => htu.1.symm⟩
      | some v =>
        have hv := ih.mp hlatest
        simp only [hkey, true_and, Task.finishedBefore_iff]
        split
        · next hlater =>
          have hlt : v.recency < u.recency := not_le.mp hlater
          rw [Option.some.injEq]
          constructor
          · rintro rfl
            exact .inr ⟨rfl, fun w hw => (hv.le hw).trans_lt hlt⟩
          · rintro (⟨ht, hle⟩ | ⟨rfl, -⟩)
            · rw [ht.eq hv] at hle
              exact absurd hle hlater
            · rfl
        · next hlater =>
          have hle : u.recency ≤ v.recency := not_not.mp hlater
          rw [Option.some.injEq]
          constructor
          · rintro rfl
            exact .inl ⟨hv, hle⟩
          · rintro (⟨ht, -⟩ | ⟨rfl, hall⟩)
            · exact hv.eq ht
            · exact absurd hle (hall v hv.mem).not_ge
    · rw [List.filter_cons_of_neg (by simpa using hkey), ← ih]
      cases latest? key tasks with
      | none => simp [hkey]
      | some v => simp [hkey]

end ApprovalWorkflow
