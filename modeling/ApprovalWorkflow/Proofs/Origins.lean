import ApprovalWorkflow.Definition.Source
import ApprovalWorkflow.Proofs.Records
import ApprovalWorkflow.Proofs.Walk

/-!
# Where tasks come from

Every task that a walk opens is the task of a step, or of a branch of a parallel step: its
origin. From the origin come the key of the task, the step that it is built from, and the
parallel step that it waits with. This module says which origins a sound definition has, that a
walk opens tasks of no other origins (`Definition.walk_contained`), and which of them a key leads
back to.

A key of a step always leads back to the step (`resolve?_step_key`). A key of a branch need not
lead back to the branch, because ids may contain underscores: a step may have the same id as the
key, and a branch of another parallel step may have the same key. The search prefers the former
to all branches and branches of earlier steps to those of later ones, and apart from these two
cases every key leads back (`resolve?_branch_key`).
-/

set_option autoImplicit false

namespace ApprovalWorkflow

/-! ## Ids of sound definitions -/

namespace Definition

/-- The ids of some steps are all different, and none of them is an earlier one. -/
def AreNew (seen : List String) (steps : List Step) : Prop :=
  (∀ s ∈ steps, s.id ∉ seen) ∧ (steps.map Step.id).Nodup

/-- One more step in front of those whose ids are new after it. -/
theorem AreNew.cons {seen : List String} {s : Step} {steps : List Step} (hs : s.id ∉ seen)
    (h : AreNew (s.id :: seen) steps) : AreNew seen (s :: steps) := by
  obtain ⟨hothers, hnodup⟩ := h
  refine ⟨fun u hu => ?_, ?_⟩
  · rcases List.mem_cons.mp hu with rfl | hu
    · exact hs
    · exact fun hmem => hothers u hu (List.mem_cons_of_mem _ hmem)
  · rw [List.map_cons, List.nodup_cons]
    refine ⟨fun hmem => ?_, hnodup⟩
    obtain ⟨u, hu, hid⟩ := List.mem_map.mp hmem
    exact hothers u hu (by rw [hid]; exact List.mem_cons_self)

/-- Ids that are not empty and not repeated are new. -/
theorem areNew_of_repeatedIds {seen : List String} {steps : List Step}
    (h : repeatedIds seen steps = []) (hids : ∀ s ∈ steps, s.id ≠ "") : AreNew seen steps := by
  induction steps generalizing seen with
  | nil => exact ⟨fun s hs => (by cases hs), List.nodup_nil⟩
  | cons s steps ih =>
    rw [repeatedIds, if_neg (hids s List.mem_cons_self)] at h
    split at h
    · cases h
    · next hseen =>
      exact .cons (by simpa using hseen) (ih h fun u hu => hids u (List.mem_cons_of_mem s hu))

/-- The ids of branches without problems are new. -/
theorem areNew_of_branchProblems {stepId : String} {seen : List String} {branches : List Step}
    (h : branchProblems stepId seen branches = []) : AreNew seen branches := by
  induction branches generalizing seen with
  | nil => exact ⟨fun b hb => (by cases hb), List.nodup_nil⟩
  | cons b branches ih =>
    rw [branchProblems] at h
    split at h
    · cases h
    · split at h
      · cases h
      · next hseen => exact .cons (by simpa using hseen) (ih h)

/-- Different steps have different ids, and so have different branches of one step. -/
structure HasDistinctIds (d : Definition) : Prop where
  steps : (d.steps.map Step.id).Nodup
  branches : ∀ s ∈ d.steps, (s.branches.map Step.id).Nodup

/-- The ids of a sound definition are distinct. -/
theorem hasDistinctIds_of_isSound {d : Definition} (h : d.isSound) : d.HasDistinctIds := by
  have hproblems : d.problems = [] := List.isEmpty_iff.mp h
  rw [problems] at hproblems
  split at hproblems
  · cases hproblems
  obtain ⟨hrepeated, hsteps⟩ := List.append_eq_nil_iff.mp hproblems
  have hstep : ∀ s ∈ d.steps, stepProblems s = [] := fun s hs =>
    (List.append_eq_nil_iff.mp (List.flatMap_eq_nil_iff.mp hsteps s hs)).1
  have hids : ∀ s ∈ d.steps, s.id ≠ "" := by
    intro s hs hid
    have hblank : Text.isBlankText s.id = true := by rw [hid]; rfl
    have hnone := hstep s hs
    rw [stepProblems, if_pos hblank] at hnone
    cases hnone
  refine ⟨(areNew_of_repeatedIds hrepeated hids).2, fun s hs => ?_⟩
  have hnone := hstep s hs
  rw [stepProblems] at hnone
  split at hnone
  · cases hnone
  unfold Step.branches
  cases hkind : s.kind with
  | parallel branches =>
    rw [hkind] at hnone
    exact (areNew_of_branchProblems (List.append_eq_nil_iff.mp hnone).2).2
  | _ => exact List.nodup_nil

/-- Only sound definitions are accepted. -/
theorem isSound_of_parse {text : String} {d : Definition}
    (h : (parse text).value = .ok d) : d.isSound := by
  unfold parse at h
  split at h
  · cases h
  · next d' _ =>
    have haccept : (d'.accept).value = .ok d := h
    rw [accept, Logged.value_bind, check] at haccept
    by_cases hsound : d'.isSound
    · rw [if_pos hsound] at haccept
      cases haccept
      exact hsound
    · rw [if_neg hsound] at haccept
      cases haccept

variable {d : Definition} {s : Step}

/-- A step is found under its id. -/
theorem HasDistinctIds.find?_eq (h : d.HasDistinctIds) (hs : s ∈ d.steps) :
    d.find? s.id = some s := (find?_eq_some_iff Step.id h.steps).mpr ⟨hs, rfl⟩

/-- What is found is a step with the id. -/
theorem of_find?_eq_some {id : String} (h : d.find? id = some s) : s ∈ d.steps ∧ s.id = id :=
  ⟨List.mem_of_find?_eq_some h, by simpa using List.find?_some h⟩

end Definition

/-! ## Keys -/

namespace Step

variable {p : Step}

/-- Branches of one step have the same key only if they have the same id. -/
theorem branchKey_inj {b c : Step} : p.branchKey b = p.branchKey c ↔ b.id = c.id := by
  simp only [branchKey, ← String.toList_inj, String.toList_append, List.append_cancel_left_eq]

/-- The key of a branch begins as all keys of the step do. -/
theorem branchKey_toList (b : Step) :
    (p.branchKey b).toList = p.branchStart.toList ++ b.id.toList := by
  rw [branchKey, branchStart, String.toList_append]

end Step

namespace TaskOrigin

/-- The key of the task. -/
def key : TaskOrigin → String
  | .step s => s.id
  | .branch p b => p.branchKey b

end TaskOrigin

/-- The opening of a task from its origin. -/
def Opening.ofOrigin (o : TaskOrigin) : Opening := ⟨o.taskStep, o.key, o.parentId?⟩

namespace Definition

/-- The origins in a definition. -/
def Has (d : Definition) : TaskOrigin → Prop
  | .step s => s ∈ d.steps
  | .branch p b => p ∈ d.steps ∧ b ∈ p.branches

/-- An origin is the only one with its key and its parallel step. -/
theorem HasDistinctIds.origin_eq {d : Definition} (hd : d.HasDistinctIds) {o o' : TaskOrigin}
    (h : d.Has o) (h' : d.Has o') (hkey : o.key = o'.key) (hparent : o.parentId? = o'.parentId?) :
    o = o' := by
  cases o with
  | step s =>
    cases o' with
    | step s' => rw [List.inj_on_of_nodup_map hd.steps h h' hkey]
    | branch p' b' => cases hparent
  | branch p b =>
    cases o' with
    | step s' => cases hparent
    | branch p' b' =>
      obtain rfl : p = p' :=
        List.inj_on_of_nodup_map hd.steps h.1 h'.1 (Option.some.inj hparent)
      rw [List.inj_on_of_nodup_map (hd.branches p h.1) h.2 h'.2 (Step.branchKey_inj.mp hkey)]

/-- A step with a branch is a parallel one. -/
theorem isParallel_of_mem_branches {p b : Step} (hb : b ∈ p.branches) : p.isParallel := by
  cases hkind : p.kind with
  | parallel branches => rw [Step.isParallel, hkind]
  | _ =>
    rw [Step.branches, hkind] at hb
    cases hb

variable {d : Definition} {origin : TaskOrigin} {key : String}

/-- A branch that a key stands for is one of the step's, and has the key. -/
theorem of_branchOf?_eq_some {p : Step} (h : branchOf? key p = some origin) :
    ∃ b ∈ p.branches, origin = .branch p b ∧ key = p.branchKey b := by
  obtain ⟨rest, hrest, hbranch⟩ := Option.bind_eq_some_iff.mp h
  obtain ⟨b, hb, rfl⟩ := Option.map_eq_some_iff.mp hbranch
  have hid : b.id.toList = rest := by simpa using List.find?_some hb
  have hkey : p.branchStart.toList ++ rest = key.toList :=
    List.isPrefixOf?_eq_some_iff_append_eq.mp hrest
  refine ⟨b, List.mem_of_find?_eq_some hb, rfl, ?_⟩
  rw [← String.toList_inj, p.branchKey_toList, hid, hkey]

/-- A key leads back to an origin in the definition, and to one with this key. -/
theorem of_resolve?_eq_some (h : d.resolve? key = some origin) :
    d.Has origin ∧ origin.key = key := by
  rw [resolve?] at h
  cases hs : d.find? key with
  | some s =>
    rw [hs] at h
    cases h
    exact of_find?_eq_some hs
  | none =>
    rw [hs] at h
    obtain ⟨p, hp, hbranch⟩ := List.exists_of_findSome?_eq_some h
    obtain ⟨b, hb, rfl, hkey⟩ := of_branchOf?_eq_some hbranch
    exact ⟨⟨hp, hb⟩, hkey.symm⟩

/-- The key of a step leads back to the step. -/
theorem resolve?_step_key (hd : d.HasDistinctIds) {s : Step} (hs : s ∈ d.steps) :
    d.resolve? (TaskOrigin.step s).key = some (.step s) := by
  have hkey : (TaskOrigin.step s).key = s.id := rfl
  rw [hkey, resolve?, hd.find?_eq hs]

/-- The key of a branch stands for this branch, among those of its step. -/
theorem branchOf?_branchKey (hd : d.HasDistinctIds) {p b : Step} (hp : p ∈ d.steps)
    (hb : b ∈ p.branches) : branchOf? (p.branchKey b) p = some (.branch p b) := by
  have hrest : Text.after? p.branchStart.toList (p.branchKey b).toList = some b.id.toList :=
    List.isPrefixOf?_eq_some_iff_append_eq.mpr (p.branchKey_toList b).symm
  have hsame : (fun c : Step => c.id.toList == b.id.toList) = fun c => c.id == b.id := by
    funext c
    rw [Bool.eq_iff_iff, beq_iff_eq, beq_iff_eq, String.toList_inj]
  have hfound : p.branches.find? (fun c => c.id == b.id) = some b :=
    (find?_eq_some_iff Step.id (hd.branches p hp)).mpr ⟨hb, rfl⟩
  rw [branchOf?, hrest, Option.bind_some, hsame, hfound]
  rfl

/-- A step has no branch with a key that stands for none of its branches. -/
theorem branchOf?_eq_none_iff (hd : d.HasDistinctIds) {p : Step} (hp : p ∈ d.steps) :
    branchOf? key p = none ↔ ∀ b ∈ p.branches, p.branchKey b ≠ key := by
  constructor
  · rintro hnone b hb rfl
    rw [branchOf?_branchKey hd hp hb] at hnone
    cases hnone
  · intro hother
    cases hbranch : branchOf? key p with
    | none => rfl
    | some origin =>
      obtain ⟨b, hb, -, hkey⟩ := of_branchOf?_eq_some hbranch
      exact absurd hkey.symm (hother b hb)

/-- The key of a branch leads back to the branch, unless a step has it as its id, or a branch of
an earlier step has the same key. -/
theorem resolve?_branch_key (hd : d.HasDistinctIds) {before after : List Step} {p b : Step}
    (hsteps : d.steps = before ++ p :: after) (hb : b ∈ p.branches) :
    d.resolve? (TaskOrigin.branch p b).key = some (.branch p b) ↔
      (∀ s ∈ d.steps, s.id ≠ p.branchKey b) ∧
        ∀ q ∈ before, ∀ c ∈ q.branches, q.branchKey c ≠ p.branchKey b := by
  have hp : p ∈ d.steps := by simp [hsteps]
  have hearlier : ∀ q ∈ before, q ∈ d.steps := fun q hq => by simp [hsteps, hq]
  have hkey : (TaskOrigin.branch p b).key = p.branchKey b := rfl
  rw [hkey, resolve?]
  cases hs : d.find? (p.branchKey b) with
  | some s =>
    obtain ⟨hmem, hid⟩ := of_find?_eq_some hs
    exact ⟨fun h => (by cases h), fun h => absurd hid (h.1 s hmem)⟩
  | none =>
    have hids : ∀ s ∈ d.steps, s.id ≠ p.branchKey b := (find?_eq_none_iff Step.id).mp hs
    have hfirst : (before.findSome? (branchOf? (p.branchKey b))) = none ↔
        ∀ q ∈ before, ∀ c ∈ q.branches, q.branchKey c ≠ p.branchKey b := by
      rw [List.findSome?_eq_none_iff]
      exact forall₂_congr fun q hq => branchOf?_eq_none_iff hd (hearlier q hq)
    dsimp only
    rw [← hfirst, hsteps, List.findSome?_append, List.findSome?_cons,
      branchOf?_branchKey hd hp hb]
    cases hbefore : before.findSome? (branchOf? (p.branchKey b)) with
    | none => exact ⟨fun _ => ⟨hsteps ▸ hids, rfl⟩, fun _ => rfl⟩
    | some origin =>
      obtain ⟨q, hq, hbranch⟩ := List.exists_of_findSome?_eq_some hbefore
      obtain ⟨c, -, rfl, -⟩ := of_branchOf?_eq_some hbranch
      -- the step of the branch that is found stands before `p`, so that it is another one
      have hne : q ≠ p := by
        rintro rfl
        have hnodup := hd.steps
        rw [hsteps, List.map_append, List.map_cons, List.nodup_append] at hnodup
        exact hnodup.2.2 q.id (List.mem_map_of_mem hq) q.id List.mem_cons_self rfl
      refine ⟨fun h => ?_, fun h => (by cases h.2)⟩
      cases h
      exact absurd rfl hne

end Definition

/-! ## The end of a walk -/

namespace WalkEnd

/-- The origins of the tasks that are opened at the end. -/
def origins : WalkEnd → List TaskOrigin
  | .task s => [.step s]
  | .branches parallel chosen => chosen.map (.branch parallel)
  | _ => []

/-- Every task is opened from its origin. -/
theorem openings_eq (ending : WalkEnd) : ending.openings = ending.origins.map .ofOrigin := by
  cases ending with
  | branches parallel chosen => simp [openings, origins, Opening.ofOrigin, TaskOrigin.taskStep,
      TaskOrigin.key, TaskOrigin.parentId?, Function.comp_def]
  | _ => rfl

end WalkEnd

namespace Definition

/-- The ends of walks in a definition. -/
def Contains (d : Definition) : WalkEnd → Prop
  | .task s => s ∈ d.steps
  | .branches parallel chosen =>
    parallel ∈ d.steps ∧ parallel.isParallel ∧ chosen.Sublist parallel.branches
  | _ => True

variable {d : Definition}

/-- Qualifying branches are branches. -/
theorem qualifying_sublist (around : Surroundings) (branches : List Step) :
    (Engine.qualifying around branches).value.Sublist branches := by
  induction branches with
  | nil => exact .refl _
  | cons b branches ih =>
    rw [Engine.qualifying, Logged.value_bind, Logged.value_bind]
    show (if _ then _ else _ : List Step).Sublist _
    split
    · exact ih.cons_cons b
    · exact ih.cons b

/-- The declared successors of a step are steps of the definition. -/
theorem firstDeclared_mem {around : Surroundings} {origin : String} {ids : List String} {s : Step}
    (h : (d.firstDeclared around origin ids).value = some s) : s ∈ d.steps := by
  induction ids with
  | nil => cases h
  | cons id ids ih =>
    rw [firstDeclared] at h
    cases hfound : d.find? id with
    | none =>
      rw [hfound] at h
      exact ih h
    | some u =>
      rw [hfound] at h
      rw [Logged.value_bind] at h
      split at h
      · cases h
        exact (of_find?_eq_some hfound).1
      · exact ih h

/-- The first of some steps in a row is one of them, or a declared successor. -/
theorem firstInRow_mem {around : Surroundings} {steps : List Step} {s : Step}
    (h : (d.firstInRow around steps).value = some s) (hsteps : ∀ u ∈ steps, u ∈ d.steps) :
    s ∈ d.steps := by
  induction steps with
  | nil => cases h
  | cons u steps ih =>
    rw [firstInRow, Logged.value_bind] at h
    split at h
    · cases h
      exact hsteps _ List.mem_cons_self
    · rw [Logged.value_bind] at h
      split at h
      · exact ih h fun v hv => hsteps v (List.mem_cons_of_mem u hv)
      · exact firstDeclared_mem h

/-- What follows a step is a step of the definition. -/
theorem successor_mem {around : Surroundings} {s next : Step}
    (h : (d.successor around s).value = some next) : next ∈ d.steps := by
  rw [successor] at h
  split at h
  · refine firstInRow_mem h fun u hu => ?_
    unfold stepsAfter at hu
    split at hu
    · cases hu
    · exact List.mem_of_mem_drop hu
  · exact firstDeclared_mem h

/-- A walk that arrives at a step of the definition ends in it, if it does so from there. -/
theorem arrival_contained {around : Surroundings} {s : Step} {onward : WalkEnd} (hs : s ∈ d.steps)
    (h : d.Contains onward) : d.Contains (arrival around s onward) := by
  unfold arrival
  cases hkind : s.kind with
  | userTask params => exact hs
  | process => exact h
  | parallel branches =>
    dsimp only
    split
    · exact h
    · refine ⟨hs, by rw [Step.isParallel, hkind], ?_⟩
      rw [Step.branches, hkind]
      exact qualifying_sublist around branches
  | complete => trivial
  | unknown typeName => exact h

/-- Walks end in the definition. -/
theorem walk_contained (d : Definition) (around : Surroundings) (remaining : Nat) (s : Step) :
    d.Contains (d.walk around remaining s) := by
  induction remaining generalizing s with
  | zero => trivial
  | succ remaining ih =>
    rw [walk]
    cases hnext : (d.successor around s).value with
    | none => trivial
    | some next => exact arrival_contained (successor_mem hnext) (ih next)

/-- The tasks that are opened at the end of a walk come from origins in the definition. -/
theorem Contains.has {ending : WalkEnd} (h : d.Contains ending) :
    ∀ origin ∈ ending.origins, d.Has origin := by
  cases ending with
  | task s =>
    intro origin horigin
    obtain rfl := List.mem_singleton.mp horigin
    exact h
  | branches parallel chosen =>
    obtain ⟨hparallel, -, hsublist⟩ := h
    intro origin horigin
    obtain ⟨b, hb, rfl⟩ := List.mem_map.mp horigin
    exact ⟨hparallel, hsublist.subset hb⟩
  | _ => exact fun origin horigin => (by cases horigin)

end Definition

end ApprovalWorkflow
