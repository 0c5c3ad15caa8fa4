import RayAdjacency.Bench.Transcript
import RayAdjacency.Main
import RayAdjacency.Proofs.BitOrder.Sampled
import RayAdjacency.Proofs.Leaf.Interference
import RayAdjacency.Proofs.Leaf.Sifting
import RayAdjacency.Proofs.Pattern.Made
import RayAdjacency.Proofs.Pattern.Queries
import RayAdjacency.Proofs.Root.Abandoned
import RayAdjacency.Proofs.Root.Widths
import RayAdjacency.Proofs.Search.Accounting
import RayAdjacency.Proofs.Search.Faults
import RayAdjacency.Proofs.Search.Ranked
import RayAdjacency.Proofs.Search.Transparent
import RayAdjacency.Proofs.Search.Undisturbed
import RayAdjacency.Proofs.Sharing.Assembly
import RayAdjacency.Proofs.Traversal.Conservation
import RayAdjacency.Proofs.Traversal.Quiescence
import RayAdjacency.Proofs.Tree.Splits
import RayAdjacency.Root.Visit
import RayAdjacency.Sharing.Contention
import RayAdjacency.Sharing.Guard
import RayAdjacency.Proofs.Store.Calls
import RayAdjacency.Proofs.Sharing.Clientele
import RayAdjacency.Proofs.Sharing.Crew
import RayAdjacency.Proofs.Sharing.Nursery
import RayAdjacency.Proofs.Traversal.Crews
import RayAdjacency.Proofs.Traversal.Nurseries
import RayAdjacency.Proofs.Pattern.Members
import RayAdjacency.Proofs.Store.Access
import RayAdjacency.Proofs.Bench.Latency
import RayAdjacency.Proofs.Traversal.Refusals
