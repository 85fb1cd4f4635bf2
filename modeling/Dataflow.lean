import Dataflow.Arguments
import Dataflow.Cell.Room
import Dataflow.Cell.Session
import Dataflow.Main
import Dataflow.Proofs.ExactlyOnce
import Dataflow.Proofs.NoLostWakeup
import Dataflow.Proofs.SingleAssignment
import Dataflow.Stealing
import Dataflow.Task.Descriptor
import Dataflow.Work.Client
import Dataflow.Work.Graph
import Dataflow.Proofs.Determinacy
import Dataflow.Proofs.Accounts
import Dataflow.Proofs.Balance
import Dataflow.Proofs.Counters
import Dataflow.Proofs.Waiters
import Dataflow.Proofs.Shutdown
import Dataflow.Proofs.Floats
import Dataflow.Proofs.Packing
import Dataflow.Proofs.Marshalling
import Dataflow.Proofs.Charges
import Dataflow.Proofs.Admission
import Dataflow.Proofs.Idling
import Dataflow.Proofs.Waking
import Dataflow.Proofs.Blocking
import Dataflow.Proofs.Alterations
import Dataflow.Proofs.Desertion
import Dataflow.Proofs.Leavings
import Dataflow.Proofs.Chains
import Dataflow.Proofs.Fanouts
import Dataflow.Proofs.Cascades
import Dataflow.Proofs.Searches
import Dataflow.Proofs.Faults
import Dataflow.Proofs.Conservation
import Dataflow.Proofs.Cancelling
import Dataflow.Proofs.Independence
import Dataflow.Proofs.Sums
import Dataflow.Proofs.Overriding
import Dataflow.Proofs.StateGraph
import Dataflow.Proofs.TwoQueues
import Dataflow.Proofs.ServiceOrder
import Dataflow.Proofs.Spelling
