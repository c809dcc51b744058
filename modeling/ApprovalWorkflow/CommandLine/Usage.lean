import ApprovalWorkflow.CommandLine.Arguments

/-!
# Help texts

The usage and the version of the program, line by line.
-/

set_option autoImplicit false

namespace ApprovalWorkflow.CommandLine

/-- The lines of the usage. -/
def usage : List String :=
  ["Usage: flowrunner [OPTIONS] <COMMAND> [ARGS]",
   "",
   "Commands:",
   "  deploy <DEFINITION_FILE>        Create and activate a workflow (JSON or YAML)",
   "  start <WORKFLOW_ID>             Start an instance (--input JSON)",
   "  tasks [INSTANCE_ID]             List open tasks",
   "  claim <TASK_ID>                 Claim a task (--user, --group)",
   "  complete <TASK_ID>              Complete a task (--user, --result, --comment, --output)",
   "  retry <TASK_ID>                 Retry a stalled task's progression",
   "  show <INSTANCE_ID>              Show an instance and its tasks",
   "",
   "Options:",
   "  --state PATH        State file (default: " ++ defaultState ++ ")",
   "  --config PATH       Engine config file (JSON or YAML)",
   "  --input JSON        Instance input for 'start'",
   "  --user NAME         Acting user",
   "  --group NAME        Group of the acting user (repeatable)",
   "  --result RESULT     approved | rejected | completed (default: " ++ defaultResult.name
     ++ ")",
   "  --comment TEXT      Completion comment",
   "  --output JSON       Completion output",
   "  --verbose           Enable debug logging",
   "  --help              Show this help message",
   "  --version           Show version information"]

/-- The name of the program and its version. -/
def programVersion : String := "FlowRunner 0.1.0"

end ApprovalWorkflow.CommandLine
