import ApprovalWorkflow.Instance
import ApprovalWorkflow.Task

/-!
# Waiting for branches

A parallel step goes on when all tasks of its branches have ended. Its branch tasks are told by
their keys, which begin with the id of the step and an underscore.
-/

set_option autoImplicit false

namespace ApprovalWorkflow.Step

/-- The tasks whose keys begin like those of the step's branches. -/
def siblings (parallel : Step) (tasks : List Task) : List Task :=
  tasks.filter fun t => parallel.branchStart.toList.isPrefixOf t.key.toList

/-- The ids of the branch tasks in order, if there are any and all of them have ended. -/
def resolvedSiblings? (parallel : Step) (tasks : List Task) : Option (List Uuid) :=
  let siblings := parallel.siblings tasks
  if siblings.isEmpty || siblings.any fun t => t.status.isOpen then none
  else some (Instance.sortedIds (siblings.map Task.id))

end ApprovalWorkflow.Step
