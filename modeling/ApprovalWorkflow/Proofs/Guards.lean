import ApprovalWorkflow.Proofs.Walk

/-!
# What guards depend on

A guard sees of the tasks of an instance only what the latest task of each key has given out.
Surroundings that agree in this and in the input make every guard say the same, so that every
search for a successor finds the same step and every walk ends in the same place
(`Definition.walk_congr`).
-/

set_option autoImplicit false

namespace ApprovalWorkflow

namespace Surroundings

/-- Two surroundings show guards the same. -/
structure Agrees (s s' : Surroundings) : Prop where
  input : s.input = s'.input
  output : ∀ key, s.output? key = s'.output? key

variable {s s' : Surroundings}

/-- Surroundings that agree give a name the same value. -/
theorem lookup_congr (h : s.Agrees s') (name : String) : s.lookup name = s'.lookup name := by
  simp only [lookup, h.input, h.output]

/-- Surroundings that agree give a term the same value. -/
theorem value_congr (h : s.Agrees s') (t : Term) : s.value t = s'.value t := by
  cases t with
  | reference name => exact lookup_congr h name
  | _ => rfl

end Surroundings

namespace Condition

variable {s s' : Surroundings}

/-- Surroundings that agree give an atom the same answer. -/
theorem evaluateAtom_congr (h : s.Agrees s') (a : Atom) :
    evaluateAtom s a = evaluateAtom s' a := by
  cases a with
  | blank => rfl
  | comparison op left right =>
    rw [evaluateAtom, evaluateAtom, s.value_congr h, s.value_congr h]
  | truth t => rw [evaluateAtom, evaluateAtom, s.value_congr h]

/-- Surroundings that agree give a conjunction the same answer. The induction is on its parts. -/
theorem evaluateAll_congr (h : s.Agrees s') (cs : List Conjunct) :
    evaluateAll s cs = evaluateAll s' cs := by
  induction cs with
  | nil => rfl
  | cons c cs ih =>
    rw [evaluateAll, evaluateAll, evaluateConjunct, evaluateConjunct, evaluateAtom_congr h, ih]

/-- Surroundings that agree give a disjunction the same answer. The induction is on its parts. -/
theorem evaluateAny_congr (h : s.Agrees s') (rest : List (List Conjunct)) :
    evaluateAny s rest = evaluateAny s' rest := by
  induction rest with
  | nil => rfl
  | cons cs rest ih => rw [evaluateAny, evaluateAny, evaluateAll_congr h, ih]

/-- A guard holds in both of two surroundings that agree, or in neither. -/
theorem holds_congr (h : s.Agrees s') (text : String) : holds s text = holds s' text := by
  rw [holds, holds, evaluate, evaluate, evaluateAny_congr h]

end Condition

/-- A step may be executed in both of two surroundings that agree, or in neither. -/
theorem Step.passes_congr {s s' : Surroundings} (h : s.Agrees s') (step : Step) :
    step.passes s = step.passes s' := by
  unfold passes
  cases step.guard? with
  | none => rfl
  | some guard => exact Condition.holds_congr h guard

/-- The same branches qualify in surroundings that agree. -/
theorem Engine.qualifying_congr {s s' : Surroundings} (h : s.Agrees s') (branches : List Step) :
    qualifying s branches = qualifying s' branches := by
  induction branches with
  | nil => rfl
  | cons b branches ih => rw [qualifying, qualifying, b.passes_congr h, ih]

namespace Definition

variable {s s' : Surroundings}

/-- In surroundings that agree the same step is found among the declared successors, with the same
lines. -/
theorem firstDeclared_congr (h : s.Agrees s') (d : Definition) (origin : String)
    (ids : List String) : d.firstDeclared s origin ids = d.firstDeclared s' origin ids := by
  induction ids with
  | nil => rfl
  | cons id ids ih =>
    rw [firstDeclared, firstDeclared]
    cases d.find? id with
    | none => rw [ih]
    | some step => dsimp only; rw [step.passes_congr h, ih]

/-- In surroundings that agree the same step is found in the row of steps, with the same lines. -/
theorem firstInRow_congr (h : s.Agrees s') (d : Definition) (steps : List Step) :
    d.firstInRow s steps = d.firstInRow s' steps := by
  induction steps with
  | nil => rfl
  | cons step steps ih =>
    rw [firstInRow, firstInRow, step.passes_congr h, ih, d.firstDeclared_congr h]

/-- The same step follows in surroundings that agree. -/
theorem successor_congr (h : s.Agrees s') (d : Definition) (step : Step) :
    d.successor s step = d.successor s' step := by
  rw [successor, successor, d.firstInRow_congr h, d.firstDeclared_congr h]

/-- A walk that arrives at a step ends in the same place in surroundings that agree. -/
theorem arrival_congr (h : s.Agrees s') (step : Step) (onward : WalkEnd) :
    arrival s step onward = arrival s' step onward := by
  unfold arrival
  cases step.kind with
  | parallel branches => dsimp only; rw [Engine.qualifying_congr h]
  | _ => rfl

/-- A walk ends in the same place in surroundings that agree. -/
theorem walk_congr (h : s.Agrees s') (d : Definition) (remaining : Nat) (step : Step) :
    d.walk s remaining step = d.walk s' remaining step := by
  induction remaining generalizing step with
  | zero => rfl
  | succ remaining ih =>
    rw [walk, walk, d.successor_congr h]
    cases (d.successor s' step).value with
    | none => rfl
    | some next => dsimp only; rw [arrival_congr h, ih]

end Definition

end ApprovalWorkflow
