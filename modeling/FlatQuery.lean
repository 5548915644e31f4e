import FlatQuery.Database
import FlatQuery.Proofs.Denotation
import FlatQuery.Proofs.Streaming
import FlatQuery.Proofs.Recovery
import FlatQuery.Proofs.Aliases
import FlatQuery.Proofs.Contexts
import FlatQuery.Proofs.JoinTree
import FlatQuery.Proofs.Pushdown
import FlatQuery.Proofs.Arity
import FlatQuery.Proofs.Replay
import FlatQuery.Proofs.Ordering
import FlatQuery.Proofs.Acceptance
import FlatQuery.Proofs.Clauses
import FlatQuery.Proofs.Phases
import FlatQuery.Proofs.Storage
import FlatQuery.Proofs.ShortCircuit
import FlatQuery.Proofs.Reordering
import FlatQuery.Proofs.Replanning
import FlatQuery.Proofs.Shape
import FlatQuery.Proofs.Rereading
import FlatQuery.Proofs.Signs
import FlatQuery.Proofs.Offsets
import FlatQuery.Proofs.Walk
import FlatQuery.Proofs.Mismatch
import FlatQuery.Proofs.Sorting
import FlatQuery.Proofs.Exact
import FlatQuery.Proofs.Splitting
import FlatQuery.Proofs.TermValues
import FlatQuery.Proofs.Loading
import FlatQuery.Proofs.Termination
import FlatQuery.Proofs.Exhaustion
import FlatQuery.Proofs.Dumping
import FlatQuery.Proofs.Binding
import FlatQuery.Proofs.Registry
