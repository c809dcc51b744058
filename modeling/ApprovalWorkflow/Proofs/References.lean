import ApprovalWorkflow.Proofs.Quotes
import ApprovalWorkflow.Proofs.Recency

/-!
# References to what a step has given out

In a guard a name with a point in it refers to a field of what a step has given out. The task that
counts is the latest one with the key in front of the point. What it has given out is taken as a
JSON value, where a text stands for the value that is written in it (`Json.StandsFor`), and the
reference is to a field of that value or to nothing. Only if there is no such task, or its text is
no JSON, the name as a whole is looked up in the input (`Surroundings.RefersTo`).

The key is cut off at the first point of the name, so it must not have one itself, while a field
may (`Text.cut?_point`).
-/

set_option autoImplicit false

namespace ApprovalWorkflow

open Condition Text

/-! ## Names with a point -/

namespace Text

variable {cs key : List Char}

/-- A point behind a text without one is where the text is cut. -/
theorem cut?_point (h : '.' ∉ key) (field : List Char) :
    cut? ['.'] (key ++ '.' :: field) = some (key, field) := by
  induction key with
  | nil => rfl
  | cons c key ih =>
    obtain ⟨hc, hkey⟩ := not_or.mp (List.mem_cons.not.mp h)
    have hnone : after? ['.'] (c :: (key ++ '.' :: field)) = none := by
      simp [after?, List.isPrefixOf?, hc]
    rw [List.cons_append, cut?, hnone, ih hkey]
    rfl

/-- A trimmed text has no blanks to drop on either side. -/
theorem dropWhile_eq_self_of_trimChars (h : trimChars cs = cs) :
    cs.dropWhile isBlank = cs ∧ cs.reverse.dropWhile isBlank = cs.reverse := by
  have hstart : trimStart cs = cs := by
    refine (List.dropWhile_suffix isBlank).eq_of_length_le ?_
    calc cs.length = (trimChars cs).length := by rw [h]
      _ ≤ (trimStart cs).length := (List.rdropWhile_prefix isBlank (trimStart cs)).length_le
  have hend : trimEnd cs = cs := by
    rw [trimChars, hstart] at h
    exact h
  exact ⟨hstart, List.reverse_injective (by rwa [List.reverse_reverse])⟩

/-- Nothing is dropped in front of a character that stops the dropping. -/
theorem dropWhile_append_cons {front : List Char} {d : Char} (h : front.dropWhile isBlank = front)
    (hd : isBlank d = false) (rest : List Char) :
    (front ++ d :: rest).dropWhile isBlank = front ++ d :: rest := by
  rw [List.dropWhile_append, h]
  cases front with
  | nil => simp [hd]
  | cons c front => rfl

/-- Two trimmed texts with a point between them have no blanks around them. -/
theorem trimChars_point {field : List Char} (hkey : trimChars key = key)
    (hfield : trimChars field = field) :
    trimChars (key ++ '.' :: field) = key ++ '.' :: field := by
  have hpoint : isBlank '.' = false := by decide
  have hfront := dropWhile_append_cons (dropWhile_eq_self_of_trimChars hkey).1 hpoint field
  have hback := dropWhile_append_cons (dropWhile_eq_self_of_trimChars hfield).2 hpoint key.reverse
  rw [trimChars, trimStart, hfront, trimEnd, List.reverse_append, List.reverse_cons,
    List.append_assoc, List.singleton_append, hback]
  simp

end Text

/-! ## What a step has given out -/

/-- The JSON value that something given out stands for. A text stands for the value that is written
in it, and for nothing if it is no JSON; every other value stands for itself. -/
inductive Json.StandsFor : Json → Json → Prop
  | text {text : String} {v : Json} (h : Json.ofText? text = some v) : StandsFor (.str text) v
  | itself {v : Json} (h : v.str? = none) : StandsFor v v

/-- An output stands for a value, or it is a text that cannot be read as one. -/
theorem Json.standsFor_or_unreadable (out : Json) :
    (∃ v, out.StandsFor v) ∨ ∃ text, out = .str text ∧ Json.ofText? text = none := by
  cases out with
  | str text =>
    cases htext : Json.ofText? text with
    | none => exact .inr ⟨text, rfl, htext⟩
    | some v => exact .inl ⟨v, .text htext⟩
  | _ => exact .inl ⟨_, .itself rfl⟩

namespace Surroundings

/-- The tasks of a key. -/
def tasksFor (s : Surroundings) (key : String) : List Task := s.tasks.filter fun t => t.key = key

/-- What a reference to a field of a step stands for. -/
inductive RefersTo (s : Surroundings) (key field : String) : Json → Prop
  /-- The latest task of the key has given out a value. -/
  | output {t : Task} {v : Json} (ht : t.IsLatest (s.tasksFor key)) (hv : t.output.StandsFor v) :
    RefersTo s key field ((v.get? field).getD .null)
  /-- There is no task of the key. -/
  | absent (h : ∀ t ∈ s.tasks, t.key ≠ key) :
    RefersTo s key field ((s.input.get? (key ++ "." ++ field)).getD .null)
  /-- The latest task of the key has given out a text that is no JSON. -/
  | unreadable {t : Task} {text : String} (ht : t.IsLatest (s.tasksFor key))
    (htext : t.output = .str text) (hnone : Json.ofText? text = none) :
    RefersTo s key field ((s.input.get? (key ++ "." ++ field)).getD .null)

section

variable {s : Surroundings} {key field : String} {t : Task} {v : Json}

/-- There are no tasks for a key exactly if no task has it. -/
theorem tasksFor_eq_nil_iff : s.tasksFor key = [] ↔ ∀ t ∈ s.tasks, t.key ≠ key := by
  simp [tasksFor]

/-- There is no latest task of a key exactly if no task has it. -/
theorem latest?_eq_none_iff : latest? key s.tasks = none ↔ ∀ t ∈ s.tasks, t.key ≠ key := by
  rw [← tasksFor_eq_nil_iff]
  constructor
  · intro hnone
    by_contra hne
    obtain ⟨t, ht⟩ := Task.exists_isLatest hne
    rw [tasksFor, ← latest?_eq_some_iff, hnone] at ht
    cases ht
  · intro hnil
    cases hlatest : latest? key s.tasks with
    | none => rfl
    | some t =>
      have ht := latest?_eq_some_iff.mp hlatest
      rw [← tasksFor, hnil] at ht
      exact absurd ht Task.not_isLatest_nil

/-- What a step has given out is the value that its latest task has given out. -/
theorem output?_of_standsFor (ht : t.IsLatest (s.tasksFor key)) (hv : t.output.StandsFor v) :
    s.output? key = some v := by
  simp only [output?, latest?_eq_some_iff.mpr ht]
  generalize t.output = out at hv
  cases hv with
  | text h => exact h
  | itself h => cases v <;> first | rfl | cases h

/-- A latest output that is a text which cannot be read is taken for none. -/
theorem output?_of_unreadable {text : String} (ht : t.IsLatest (s.tasksFor key))
    (htext : t.output = .str text) (hnone : Json.ofText? text = none) : s.output? key = none := by
  simp only [output?, latest?_eq_some_iff.mpr ht, htext, hnone]

/-- There is no output under a key that no task has. -/
theorem output?_of_absent (h : ∀ t ∈ s.tasks, t.key ≠ key) : s.output? key = none := by
  rw [output?, latest?_eq_none_iff.mpr h]

/-- A name with a point in it is looked up in what the step has given out, and in the input if that
is nothing. -/
theorem lookup_point (hpoint : '.' ∉ key.toList) :
    s.lookup (key ++ "." ++ field) =
      ((s.output? key).map fun v => (v.get? field).getD .null).getD
        ((s.input.get? (key ++ "." ++ field)).getD .null) := by
  have hname : (key ++ "." ++ field).toList = key.toList ++ '.' :: field.toList := by simp
  simp only [lookup, hname, cut?_point hpoint, String.ofList_toList]
  cases s.output? key <;> rfl

/-- The name between the braces of a reference is looked up as it stands. -/
theorem value_reference (hkey : trim key = key) (hfield : trim field = field) :
    s.value (.ofChars (referenceText (key ++ "." ++ field)).toList) =
      s.lookup (key ++ "." ++ field) := by
  have htrimmed : trimChars (key ++ "." ++ field).toList = (key ++ "." ++ field).toList := by
    rw [show (key ++ "." ++ field).toList = key.toList ++ '.' :: field.toList by simp]
    exact trimChars_point (String.ofList_injective (by rwa [String.ofList_toList]))
      (String.ofList_injective (by rwa [String.ofList_toList]))
  rw [toList_referenceText, Term.ofChars_reference htrimmed, String.ofList_toList, value]

/-- What a reference stands for is found by looking the name up. -/
theorem RefersTo.eq_lookup (h : s.RefersTo key field v) (hpoint : '.' ∉ key.toList) :
    v = s.lookup (key ++ "." ++ field) := by
  rw [lookup_point hpoint]
  cases h with
  | output ht hv =>
    rw [output?_of_standsFor ht hv]
    rfl
  | absent h =>
    rw [output?_of_absent h]
    rfl
  | unreadable ht htext hnone =>
    rw [output?_of_unreadable ht htext hnone]
    rfl

/-- A reference stands for a value. -/
theorem exists_refersTo (s : Surroundings) (key field : String) : ∃ v, s.RefersTo key field v := by
  cases hlatest : latest? key s.tasks with
  | none => exact ⟨_, .absent (latest?_eq_none_iff.mp hlatest)⟩
  | some t =>
    have ht := latest?_eq_some_iff.mp hlatest
    rcases t.output.standsFor_or_unreadable with ⟨v, hv⟩ | ⟨text, htext, hnone⟩
    · exact ⟨_, .output ht hv⟩
    · exact ⟨_, .unreadable ht htext hnone⟩

/-- What a reference stands for does not depend on the order of the tasks, if no two tasks of the
key are equally late. -/
theorem RefersTo.perm {tasks : List Task} (hperm : s.tasks.Perm tasks)
    (hdistinct : (s.tasksFor key).Pairwise fun t u =>
      (t.completedAt, t.createdAt) ≠ (u.completedAt, u.createdAt))
    (h : s.RefersTo key field v) : RefersTo { s with tasks } key field v := by
  have hlatest : ∀ t : Task, t.IsLatest (s.tasksFor key) →
      t.IsLatest (tasksFor { s with tasks } key) := by
    intro t
    refine (Task.IsLatest.perm_iff (hperm.filter _) (hdistinct.imp fun hne heq => ?_)).mp
    exact hne (Task.recency_eq_iff.mp heq)
  cases h with
  | output ht hv => exact .output (hlatest _ ht) hv
  | absent h => exact .absent fun t ht => h t (hperm.mem_iff.mpr ht)
  | unreadable ht htext hnone => exact .unreadable (hlatest _ ht) htext hnone

/-- A term that refers to a field of a step has one value, which is what the latest task of the
step has to say about the field, or else an entry of the input; and the order of the tasks makes no
difference to it unless two tasks of the step are equally late. -/
theorem value_reference_iff (hpoint : '.' ∉ key.toList) (hkey : trim key = key)
    (hfield : trim field = field) (s : Surroundings) :
    (∀ v, s.value (.ofChars (referenceText (key ++ "." ++ field)).toList) = v ↔
      s.RefersTo key field v) ∧
    ∀ tasks : List Task, s.tasks.Perm tasks →
      (s.tasksFor key).Pairwise (fun t u =>
        (t.completedAt, t.createdAt) ≠ (u.completedAt, u.createdAt)) →
      value { s with tasks } (.ofChars (referenceText (key ++ "." ++ field)).toList) =
        s.value (.ofChars (referenceText (key ++ "." ++ field)).toList) := by
  have hvalue : ∀ s v, value s (.ofChars (referenceText (key ++ "." ++ field)).toList) = v ↔
      s.RefersTo key field v := by
    intro s v
    rw [value_reference hkey hfield]
    -- A reference refers to something, and the look-up finds whatever it refers to.
    obtain ⟨w, hw⟩ := exists_refersTo s key field
    constructor
    · rintro rfl
      rwa [← hw.eq_lookup hpoint]
    · intro hv
      exact (hv.eq_lookup hpoint).symm
  refine ⟨hvalue s, fun tasks hperm hdistinct => ?_⟩
  exact (hvalue _ _).mpr (RefersTo.perm hperm hdistinct ((hvalue s _).mp rfl))

end

/-- A review of which the latest grade is in a text, whether the reviews are listed from the first
to the last or the other way round; a review that is still open does not count. -/
theorem value_reference_graded :
    let review (opened : Int) (ended : Option Timestamp) (output : Json) : Task :=
      { Task.new .nil .nil .nil "review" "Review" ⟨opened, 0⟩ with completedAt := ended, output }
    let tasks := [review 0 (some ⟨10, 0⟩) (.obj [("grade", .str "poor")]),
      review 20 (some ⟨30, 0⟩) (.str "\x7b\"grade\": \"good\"\x7d"), review 40 none .null]
    let operand := Term.ofChars (referenceText ("review" ++ "." ++ "grade")).toList
    value ⟨.null, tasks⟩ operand = .str "good" ∧
      value ⟨.null, tasks.reverse⟩ operand = .str "good" := by
  intro review tasks operand
  have hpoint : '.' ∉ "review".toList := by decide
  have hfield : trim "grade" = "grade" := by decide
  obtain ⟨hvalue, hperm⟩ := value_reference_iff hpoint (by decide) hfield ⟨.null, tasks⟩
  have hlatest : (review 20 (some ⟨30, 0⟩) (.str "\x7b\"grade\": \"good\"\x7d")).IsLatest
      (tasksFor ⟨.null, tasks⟩ "review") :=
    ⟨tasks.take 1, tasks.drop 2, rfl, by decide +kernel, by decide +kernel⟩
  have hgood : value ⟨.null, tasks⟩ operand = .str "good" := by
    refine (hvalue _).mpr ?_
    have htext : Json.ofText? "\x7b\"grade\": \"good\"\x7d" =
        some (.obj [("grade", .str "good")]) := by decide +kernel
    exact RefersTo.output hlatest (.text htext)
  refine ⟨hgood, ?_⟩
  rw [← hgood]
  exact hperm tasks.reverse (List.reverse_perm tasks).symm (by decide +kernel)

end Surroundings

end ApprovalWorkflow
