import ApprovalWorkflow.Proofs.ActiveStep
import ApprovalWorkflow.Proofs.Guards

/-!
# The order of time

A guard asks what the latest task of a key has given out, and which task is the latest depends on
the times at which tasks were finished. But a task is opened only when nobody else is waited for.
So if the clock does not run backwards, a task had ended when the next one with its key was opened
(`Task.Precedes`), and when all tasks have ended, the latest task of a key is the last one in the
list. When people finish their tasks, and in which order, does not matter to guards
(`Surroundings.agrees_of_inOrder`).
-/

set_option autoImplicit false

namespace ApprovalWorkflow

open Engine

namespace Timestamp

variable {a b c : Timestamp}

/-- A time is not after another one if it is in an earlier second, or earlier in the same one. -/
theorem le_iff : a.le b ↔ a.seconds < b.seconds ∨ a.seconds = b.seconds ∧ a.nanos ≤ b.nanos := by
  simp [le]

/-- A time is not later than itself. -/
theorem le_refl (a : Timestamp) : a.le a := le_iff.mpr (.inr ⟨rfl, Nat.le_refl _⟩)

/-- Times follow each other transitively. -/
theorem le_trans (hab : a.le b) (hbc : b.le c) : a.le c := by
  rw [le_iff] at *
  omega

/-- Of two times one is not later than the other. -/
theorem le_total (a b : Timestamp) : a.le b ∨ b.le a := by
  rw [le_iff, le_iff]
  omega

variable {x y z : Option Timestamp}

/-- Times that may be absent follow each other transitively. -/
theorem leOptional_trans (hxy : leOptional x y) (hyz : leOptional y z) : leOptional x z := by
  cases x with
  | none => rfl
  | some a =>
    cases y with
    | none => cases hxy
    | some b =>
      cases z with
      | none => cases hyz
      | some c => exact le_trans (a := a) (b := b) hxy hyz

/-- Of two times that may be absent one is not later than the other. -/
theorem leOptional_total (x y : Option Timestamp) : leOptional x y ∨ leOptional y x := by
  cases x with
  | none => exact .inl rfl
  | some a =>
    cases y with
    | none => exact .inr rfl
    | some b => exact le_total a b

end Timestamp

/-! ## Tasks in time -/

namespace Task

/-- The task is not from the future, and has an end if it has ended. -/
structure IsTimely (now : Timestamp) (t : Task) : Prop where
  opened : t.createdAt.le now
  ended : t.status.isOpen = false → ∃ c, t.completedAt = some c ∧ t.createdAt.le c ∧ c.le now

/-- The task had ended when the other one was opened, if they have the same key. -/
def Precedes (t u : Task) : Prop :=
  t.key = u.key → t.status.isOpen = false ∧ ∃ c, t.completedAt = some c ∧ c.le u.createdAt

variable {now now' : Timestamp} {t u : Task}

/-- What is timely stays so as time goes on. -/
theorem IsTimely.later (h : t.IsTimely now) (hnow : now.le now') : t.IsTimely now' := by
  refine ⟨Timestamp.le_trans h.opened hnow, fun hended => ?_⟩
  obtain ⟨c, hc, hopened, hbefore⟩ := h.ended hended
  exact ⟨c, hc, hopened, Timestamp.le_trans hbefore hnow⟩

/-- A task that has just been opened is timely. -/
theorem IsFresh.isTimely (h : t.IsFresh now) : t.IsTimely now := by
  refine ⟨by rw [h.createdAt]; exact Timestamp.le_refl now, fun hended => ?_⟩
  rw [h.isOpen] at hended
  cases hended

/-- A task that is claimed or handed on stays timely. -/
theorem Touched.isTimely (h : t.Touched u) (ht : t.IsTimely now) : u.IsTimely now := by
  obtain ⟨_, status, _, hopen, rfl⟩ := h
  refine ⟨ht.opened, fun hended => ?_⟩
  rw [show status.isOpen = true from hopen] at hended
  cases hended

/-- A task that is finished has its end. -/
theorem Finished.isTimely {c : Completion} (h : t.Finished c now u) (ht : t.IsTimely now) :
    u.IsTimely now := by
  obtain ⟨_, rfl⟩ := h
  exact ⟨ht.opened, fun _ => ⟨now, rfl, ht.opened, Timestamp.le_refl now⟩⟩

/-- Of two timely tasks that have ended the one that precedes the other was finished before. -/
theorem finishedBefore_of_precedes (h : t.Precedes u) (ht : t.IsTimely now) (hu : u.IsTimely now)
    (hkey : t.key = u.key) (hended : u.status.isOpen = false) : t.finishedBefore u := by
  obtain ⟨htended, c, hc, hbefore⟩ := h hkey
  obtain ⟨c', hc', hopened', -⟩ := hu.ended hended
  obtain ⟨_, hsame, hopened, -⟩ := ht.ended htended
  cases hc.symm.trans hsame
  rw [finishedBefore]
  split
  · exact Timestamp.le_trans hopened hbefore
  · rw [hc, hc']
    exact Timestamp.le_trans hbefore hopened'

end Task

/-! ## Instances in time -/

namespace Situation

variable {e : Engine} {σ σ' : Situation} {now now' : Timestamp} {ids : IdSource} {t u : Task}

/-- The tasks of the instance are timely, and stand in the order of time. -/
structure IsTimely (now : Timestamp) (σ : Situation) : Prop where
  tasks : ∀ t ∈ σ.tasks, t.IsTimely now
  ordered : σ.tasks.Pairwise Task.Precedes

/-- A situation that is timely stays so as time goes on. -/
theorem IsTimely.later (h : σ.IsTimely now) (hnow : now.le now') : σ.IsTimely now' :=
  ⟨fun t ht => (h.tasks t ht).later hnow, h.ordered⟩

/-- A task takes the place of one that was open, or that has ended at the same time. -/
theorem IsTimely.withTask (h : σ.IsTimely now) (hids : (σ.tasks.map Task.id).Nodup)
    (ht : t ∈ σ.tasks) (hbecame : t.Became u) (hu : u.IsTimely now)
    (hended : t.status.isOpen = false →
      u.status.isOpen = false ∧ u.completedAt = t.completedAt) :
    (σ.withTask u).IsTimely now := by
  refine ⟨fun v hv => ?_, ?_⟩
  · rcases (mem_put Task.id).mp hv with ⟨rfl, -⟩ | ⟨hv, -⟩
    · exact hu
    · exact h.tasks v hv
  · refine pairwise_put Task.id h.ordered hids ht hbecame.id_eq (fun v hv hsame => ?_)
      (fun v hv hsame => ?_)
    · obtain ⟨htended, c, hc, hbefore⟩ := hv (hbecame.key_eq.symm.trans hsame)
      obtain ⟨huended, hcompleted⟩ := hended htended
      exact ⟨huended, c, hcompleted.trans hc, hbefore⟩
    · rw [hbecame.createdAt_eq]
      exact hv (hsame.trans hbecame.key_eq)

/-- Finishing a task. -/
theorem IsTimely.finished (h : σ.IsTimely now) (hids : (σ.tasks.map Task.id).Nodup)
    {a : Actor} {c : Completion} (ht : t ∈ σ.tasks) (hu : t.finishedBy a c now = .ok u) :
    (σ.withTask u).IsTimely now := by
  obtain ⟨hopen, hfinished⟩ := Task.of_finishedBy hu
  refine h.withTask hids ht hfinished.became (hfinished.isTimely (h.tasks t ht)) fun hended => ?_
  rw [hopen] at hended
  cases hended

/-- Opening tasks when nobody is waited for. -/
theorem IsTimely.after (h : σ.IsTimely now) {c : Effect} (hfresh : ∀ u ∈ c.opened, u.IsFresh now)
    (hbeside : c.opened.Pairwise Task.Beside)
    (hrest : c.opened = [] ∨ ∀ v ∈ σ.tasks, v.status.isOpen = false) :
    (σ.after c).IsTimely now := by
  refine ⟨fun v hv => ?_, List.pairwise_append.mpr ⟨h.ordered, ?_, fun v hv u hu _ => ?_⟩⟩
  · rcases List.mem_append.mp hv with hv | hv
    · exact h.tasks v hv
    · exact (hfresh v hv).isTimely
  · exact hbeside.imp fun hb hkey => absurd hkey hb.key
  · rcases hrest with hnone | hrest
    · rw [hnone] at hu
      cases hu
    · obtain ⟨c, hc, -, hbefore⟩ := (h.tasks v hv).ended (hrest v hv)
      refine ⟨hrest v hv, c, hc, ?_⟩
      rw [(hfresh u hu).createdAt]
      exact hbefore

/-- Carrying on behind a task that was open before, or had to be tried again. -/
theorem IsTimely.carried {σ₀ : Situation} {t₀ : Task} (h : σ.IsTimely now)
    (hids : (σ.tasks.map Task.id).Nodup)
    (hids' : ((σ.carried e now ids t).tasks.map Task.id).Nodup) (ht : t ∈ σ.tasks)
    (hfocused : σ₀.IsFocused) (hroot : σ₀.IsRooted) (hdiffers : σ₀.Differs σ t₀ t)
    (hid : t.id = t₀.id) (hended : t.status.isOpen = false)
    (hbefore : t₀.status.isOpen ∨ t₀.progression.isStalled) :
    (σ.carried e now ids t).IsTimely now := by
  -- a task is opened only when all others have ended, which puts it behind them
  have hrest : (e.effect σ now ids t (σ.course e now t)).opened = [] ∨
      ∀ v ∈ σ.tasks, v.status.isOpen = false := by
    rcases hfocused.course_cases hroot hdiffers hid hbefore e now with
      ⟨error, -, hcourse⟩ | hcourse | hrest
    · exact .inl (by rw [hcourse]; rfl)
    · exact .inl (by rw [hcourse]; rfl)
    · refine .inr fun v hv => ?_
      by_cases hvid : v.id = t.id
      · rw [List.inj_on_of_nodup_map hids hv ht hvid]
        exact hended
      · exact (hrest v hv hvid).1
  have hdistinct : ∀ d, σ.followed = .ok d → d.HasDistinctIds := fun d hd => by
    rw [hdiffers.followed_eq] at hd
    exact Definition.hasDistinctIds_of_isSound (hroot.sound d (followed_eq_ok.mp hd).2)
  have hafter := h.after (fun u hu => effect_fresh hu) (effect_beside e now ids t hdistinct) hrest
  have hmem : t ∈ (σ.after (e.effect σ now ids t (σ.course e now t))).tasks :=
    List.mem_append_left _ ht
  obtain ⟨p, hmarked⟩ := marked_eq t ((σ.course e now t).outcome e)
  refine hafter.withTask ?_ hmem (t.became_marked _) ?_ fun _ => ?_
  · rwa [Situation.carried, ids_withTask] at hids'
  · rw [hmarked]
    exact ⟨(h.tasks t ht).opened, (h.tasks t ht).ended⟩
  · rw [hmarked]
    exact ⟨hended, rfl⟩

/-- The turns that whole requests make keep an instance timely, if the clock does not run
backwards. -/
theorem IsTimely.turn {r : Request} (h : σ.IsTimely now) (hnow : now.le now')
    (hids : (σ.tasks.map Task.id).Nodup) (hids' : (σ'.tasks.map Task.id).Nodup)
    (hfocused : σ.IsFocused) (hroot : σ.IsRooted) (hturn : Turn e now' r σ σ')
    (hwhole : r.IsWhole) : σ'.IsTimely now' := by
  have hlater := h.later hnow
  cases hturn with
  | stays => exact hlater
  | orphaned => exact ⟨hlater.tasks, hlater.ordered⟩
  | redefined => exact ⟨hlater.tasks, hlater.ordered⟩
  | cancelled => exact ⟨hlater.tasks, hlater.ordered⟩
  | touched hr ht hopen htouched =>
    refine hlater.withTask hids ht htouched.became (htouched.isTimely (hlater.tasks _ ht)) ?_
    intro hended
    rw [hopen] at hended
    cases hended
  | finished ht hfinished => cases hwhole
  | completed ids ht hu =>
    obtain ⟨hopen, hfinished⟩ := Task.of_finishedBy hu
    have hid := hfinished.place.1
    exact (hlater.finished hids ht hu).carried (by rwa [ids_withTask]) hids'
      (mem_put_self Task.id ht hid) hfocused hroot
      (differs_of_finished ht hfinished) hid hfinished.isOpen_eq (.inl hopen)
  | carried ids hr ht hpending hended =>
    rcases hr with ⟨-, hstalled⟩ | rfl
    · exact hlater.carried hids hids' ht hfocused hroot
        ⟨rfl, rfl, ht, .refl _, fun _ _ => .rfl⟩ rfl hended (.inr hstalled)
    · cases hwhole

/-- A new instance is timely. -/
theorem IsTimely.of_birth (h : σ.IsBirth now) :
    (σ.after (Workflows.launched e σ now ids)).IsTimely now := by
  obtain ⟨hnone, -, text, htext⟩ := h
  have hempty : σ.IsTimely now :=
    ⟨fun t ht => (by rw [hnone] at ht; cases ht), by rw [hnone]; exact .nil⟩
  rcases launched_cases e σ now ids with hopened | ⟨d, ending, hd, hcontained, hwalked⟩
  · exact hempty.after (by simp [hopened]) (by rw [hopened]; exact .nil) (.inl hopened)
  · have hsound := Definition.isSound_of_parse (htext.symm.trans (followed_eq_ok.mp hd).2)
    rw [hwalked]
    exact hempty.after (fun u hu => walked_fresh hu)
      (walked_beside e _ _ now ids (Definition.hasDistinctIds_of_isSound hsound) hcontained)
      (.inr (by simp [hnone]))

/-- When all tasks of a timely instance have ended, they stand in the order in which they were
finished, key by key. -/
theorem IsTimely.inOrder (h : σ.IsTimely now) (hended : ∀ t ∈ σ.tasks, t.status.isOpen = false) :
    σ.tasks.Pairwise fun t u => t.key = u.key → t.finishedBefore u :=
  h.ordered.imp_of_mem fun ht hu hprecedes hkey =>
    Task.finishedBefore_of_precedes hprecedes (h.tasks _ ht) (h.tasks _ hu) hkey (hended _ hu)

end Situation

/-! ## The latest task -/

namespace Surroundings

variable {t u : Task} {tasks : List Task}

/-- The latest task of a key is one of the tasks, and it has the key. -/
theorem of_latest? {key : String} (h : latest? key tasks = some u) : u ∈ tasks ∧ u.key = key := by
  induction tasks with
  | nil => cases h
  | cons t tasks ih =>
    rw [latest?] at h
    split at h
    · next v hv =>
      split at h <;> cases h
      · next hkey => exact ⟨List.mem_cons_self, hkey.1⟩
      · exact ⟨List.mem_cons_of_mem t (ih hv).1, (ih hv).2⟩
    · split at h <;> cases h
      next hkey => exact ⟨List.mem_cons_self, hkey⟩

/-- Among tasks in order the latest one of a key is the last one in the list. -/
theorem latest?_cons (h : (t :: tasks).Pairwise fun t u => t.key = u.key → t.finishedBefore u)
    (key : String) :
    latest? key (t :: tasks) =
      (latest? key tasks).or (if t.key = key then some t else none) := by
  rw [latest?]
  cases hlatest : latest? key tasks with
  | none => rfl
  | some u =>
    obtain ⟨hu, hkey⟩ := of_latest? hlatest
    refine if_neg fun hlater => hlater.2 ?_
    exact (List.pairwise_cons.mp h).1 u hu (hlater.1.trans hkey.symm)

/-- The latest task of a key has given out the same in two lists of tasks in order that have the
same keys and outputs. -/
theorem latest?_output_congr {f g : Task → Task}
    (hf : (tasks.map f).Pairwise fun t u => t.key = u.key → t.finishedBefore u)
    (hg : (tasks.map g).Pairwise fun t u => t.key = u.key → t.finishedBefore u)
    (hsame : ∀ t ∈ tasks, (f t).key = (g t).key ∧ (f t).output = (g t).output) (key : String) :
    (latest? key (tasks.map f)).map Task.output = (latest? key (tasks.map g)).map Task.output := by
  induction tasks with
  | nil => rfl
  | cons t tasks ih =>
    obtain ⟨hkey, houtput⟩ := hsame t List.mem_cons_self
    have hrest := ih hf.of_cons hg.of_cons fun u hu => hsame u (List.mem_cons_of_mem t hu)
    rw [List.map_cons, List.map_cons] at *
    -- the first task counts only if no other one has the key, in both lists alike
    rw [latest?_cons hf, latest?_cons hg, hkey]
    cases hlatest : latest? key (tasks.map f) with
    | some u =>
      rw [hlatest] at hrest
      cases hother : latest? key (tasks.map g) with
      | some v => rwa [hother] at hrest
      | none =>
        rw [hother] at hrest
        cases hrest
    | none =>
      rw [hlatest] at hrest
      cases hother : latest? key (tasks.map g) with
      | some v =>
        rw [hother] at hrest
        cases hrest
      | none =>
        rw [Option.none_or, Option.none_or]
        split
        · exact congrArg some houtput
        · rfl

/-- What a guard sees of a step is the output of the latest task of the step. -/
theorem output?_congr {s u : Surroundings} {key : String}
    (h : (latest? key s.tasks).map Task.output = (latest? key u.tasks).map Task.output) :
    s.output? key = u.output? key := by
  unfold output?
  cases hs : latest? key s.tasks with
  | none =>
    rw [hs, Option.map_none] at h
    rw [Option.map_eq_none_iff.mp h.symm]
  | some t =>
    rw [hs, Option.map_some] at h
    obtain ⟨v, hv, hout⟩ := Option.map_eq_some_iff.mp h.symm
    rw [hv]
    simp only [hout]

/-- Guards see the same in two lists of tasks in order that have the same keys and outputs. -/
theorem agrees_of_inOrder {f g : Task → Task}
    (hf : (tasks.map f).Pairwise fun t u => t.key = u.key → t.finishedBefore u)
    (hg : (tasks.map g).Pairwise fun t u => t.key = u.key → t.finishedBefore u)
    (hsame : ∀ t ∈ tasks, (f t).key = (g t).key ∧ (f t).output = (g t).output) (input : Json) :
    Agrees ⟨input, tasks.map f⟩ ⟨input, tasks.map g⟩ :=
  ⟨rfl, fun key => output?_congr (latest?_output_congr hf hg hsame key)⟩

end Surroundings

end ApprovalWorkflow
