import Workflow.Main
import Workflow.Proofs.Search
import Workflow.Store
import Workflow.Proofs.Notifications
import Workflow.Proofs.Dependence
import Workflow.Proofs.Cancellation
import Workflow.Proofs.Height
import Workflow.Proofs.Substitution
import Workflow.Proofs.Printing
import Workflow.Proofs.Depth
import Workflow.Proofs.Mentions
import Workflow.Proofs.Identifiers
import Workflow.Proofs.Sessions
import Workflow.Proofs.Conversion
import Workflow.Proofs.Stores
import Workflow.Proofs.Contexts
import Workflow.Proofs.Documents
import Workflow.Proofs.Positions
import Workflow.Proofs.Traversals
import Workflow.Proofs.LogEntries
import Workflow.Proofs.Scanning
import Workflow.Proofs.LexicalFaults
import Workflow.Proofs.PlainValues
import Workflow.Proofs.Traces
import Workflow.Proofs.Outcomes
import Workflow.Proofs.Explanations
import Workflow.Proofs.Screening
import Workflow.Proofs.Comparisons
import Workflow.Proofs.Progress
import Workflow.Proofs.Parentheses
import Workflow.Proofs.Descent
