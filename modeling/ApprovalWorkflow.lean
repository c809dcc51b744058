import ApprovalWorkflow.CommandLine.Terminal
import ApprovalWorkflow.Main
import ApprovalWorkflow.Names
import ApprovalWorkflow.Proofs.Attempts
import ApprovalWorkflow.Proofs.Joins
import ApprovalWorkflow.Proofs.Siblings
import ApprovalWorkflow.Proofs.Lifecycle
import ApprovalWorkflow.Proofs.AuditTrail
import ApprovalWorkflow.Proofs.Moves
import ApprovalWorkflow.Proofs.Frozen
import ApprovalWorkflow.Proofs.Workflows
import ApprovalWorkflow.Proofs.Obstacles
import ApprovalWorkflow.Proofs.DefinitionText
import ApprovalWorkflow.Proofs.Snapshots
import ApprovalWorkflow.Proofs.Expressions
import ApprovalWorkflow.Proofs.Refusals
import ApprovalWorkflow.Proofs.Entitlement
import ApprovalWorkflow.Proofs.Nesting
import ApprovalWorkflow.Proofs.SavedStates
import ApprovalWorkflow.Proofs.Dealings
import ApprovalWorkflow.Proofs.Isolation
import ApprovalWorkflow.Proofs.Notices
import ApprovalWorkflow.Proofs.StepLimit
import ApprovalWorkflow.Proofs.GuardedSteps
import ApprovalWorkflow.Proofs.StoredWorkflows
import ApprovalWorkflow.Proofs.Orphans
import ApprovalWorkflow.Proofs.BuiltDefinitions
import ApprovalWorkflow.Proofs.Rollback
import ApprovalWorkflow.Proofs.Disjunctions
import ApprovalWorkflow.Proofs.Quotes
import ApprovalWorkflow.Proofs.WalkOutcomes
import ApprovalWorkflow.Proofs.References
import ApprovalWorkflow.Proofs.CompletionOutputs
import ApprovalWorkflow.Proofs.Briefings
import ApprovalWorkflow.Proofs.Templates
import ApprovalWorkflow.Proofs.OptionPlacement
import ApprovalWorkflow.Proofs.DefinitionProblems
import ApprovalWorkflow.Proofs.DueDates
import ApprovalWorkflow.Proofs.FailedStarts
import ApprovalWorkflow.Proofs.Paging
import ApprovalWorkflow.Proofs.JoinClaims
