import ApprovalWorkflow.Condition.Evaluation

/-!
# What follows a step

A step with declared successors is followed by the first of them whose guard holds, or by
nothing. A step without is followed by the next step of the definition; if the guard of that
one does not hold, it is passed over, and what follows it is taken instead.
-/

set_option autoImplicit false

namespace ApprovalWorkflow

/-- Whether a step may be executed: it has no guard, or its guard holds. -/
def Step.passes (s : Step) (around : Surroundings) : Logged Bool :=
  match s.guard? with
  | none => pure true
  | some guard => Condition.holds around guard

namespace Definition

/-- What is remarked about a step whose guard does not hold. -/
def skipped (s : Step) : LogLine := ⟨.debug, "Skipping '" ++ s.id ++ "': condition not met"⟩

/-- The first of the declared successors of a step whose guard holds. -/
def firstDeclared (d : Definition) (around : Surroundings) (origin : String) :
    List String → Logged (Option Step)
  | [] => pure none
  | id :: ids =>
    match d.find? id with
    | none => do
      Logged.line .warn ("Step '" ++ origin ++ "' names unknown successor '" ++ id ++ "'")
      firstDeclared d around origin ids
    | some s => do
      if ← s.passes around then pure (some s)
      else
        Logged.write [skipped s]
        firstDeclared d around origin ids

/-- The first of some steps in a row whose guard holds. A step that is passed over and declares
successors leads to these. -/
def firstInRow (d : Definition) (around : Surroundings) : List Step → Logged (Option Step)
  | [] => pure none
  | s :: steps => do
    if ← s.passes around then pure (some s)
    else
      Logged.write [skipped s]
      if s.nextSteps.isEmpty then firstInRow d around steps
      else firstDeclared d around s.id s.nextSteps

/-- The steps behind the one with an id. -/
def stepsAfter (d : Definition) (id : String) : List Step :=
  match d.position? id with
  | none => []
  | some position => d.steps.drop (position + 1)

/-- What follows a step. -/
def successor (d : Definition) (around : Surroundings) (s : Step) : Logged (Option Step) :=
  if s.nextSteps.isEmpty then d.firstInRow around (d.stepsAfter s.id)
  else d.firstDeclared around s.id s.nextSteps

end Definition

end ApprovalWorkflow
