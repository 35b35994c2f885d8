import StateFlow.Definition.Encode
import StateFlow.Event.Bus
import StateFlow.Event.Encode
import StateFlow.Main
import StateFlow.Proofs.Choice.Branches
import StateFlow.Proofs.Choice.Order
import StateFlow.Proofs.Choice.Reads
import StateFlow.Proofs.Definition.RoundTrip
import StateFlow.Proofs.Engine.Registry
import StateFlow.Proofs.Event.Delivery
import StateFlow.Proofs.Execution.Calls
import StateFlow.Proofs.Execution.Cancellation
import StateFlow.Proofs.Execution.Deadline
import StateFlow.Proofs.Execution.Interruption
import StateFlow.Proofs.Execution.Limits
import StateFlow.Proofs.Execution.Protocol
import StateFlow.Proofs.Execution.Round
import StateFlow.Proofs.Execution.Size
import StateFlow.Proofs.Execution.StepLimit
import StateFlow.Proofs.Execution.Walk
import StateFlow.Proofs.Glob
import StateFlow.Proofs.Invocation.Function
import StateFlow.Proofs.Invocation.Topic
import StateFlow.Proofs.Machine.Rules
import StateFlow.Proofs.Machine.Search
import StateFlow.Proofs.Path.Canonical
import StateFlow.Proofs.Path.Write
import StateFlow.Proofs.Registry.Backoff
import StateFlow.Proofs.Registry.Horizon
import StateFlow.Proofs.Registry.Registration
import StateFlow.Proofs.Registry.Retries
import StateFlow.Proofs.Registry.Route
import StateFlow.Proofs.Template.Reads
