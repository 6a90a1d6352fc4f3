import StateMachines.Declaration.Json
import StateMachines.Proofs.Comparison
import StateMachines.Proofs.Durability
import StateMachines.Proofs.Extension
import StateMachines.Resolution
import StateMachines.Session
import StateMachines.Snapshot.Binary
import StateMachines.Value.Text
import StateMachines.Visit
import StateMachines.Workspace
import StateMachines.Proofs.Diagnosis
import StateMachines.Proofs.Refusal
import StateMachines.Proofs.Locality
import StateMachines.Proofs.Flattening
import StateMachines.Proofs.SnapshotBinary
import StateMachines.Proofs.SnapshotText
import StateMachines.Proofs.WriteThrough
import StateMachines.Proofs.Locking
import StateMachines.Proofs.Exclusion
import StateMachines.Proofs.Changing
import StateMachines.Proofs.Execution
import StateMachines.Proofs.Environment
import StateMachines.Proofs.CompactText
import StateMachines.Proofs.Abridging
import StateMachines.Proofs.Conveying
import StateMachines.Proofs.DeclarationText
import StateMachines.Proofs.Loosening
import StateMachines.Proofs.History
import StateMachines.Proofs.Typing
import StateMachines.Proofs.Validation
import StateMachines.Proofs.Exactness
import StateMachines.Proofs.Inquiry
import StateMachines.Proofs.Ascent
import StateMachines.Proofs.LateBinding
import StateMachines.Proofs.Collaboration
import StateMachines.Proofs.Raising
import StateMachines.Proofs.Initialization
import StateMachines.Proofs.Precedence
import StateMachines.Proofs.CanonicalBytes
import StateMachines.Proofs.Graph
import StateMachines.Proofs.Traversal
import StateMachines.Proofs.Reaction
