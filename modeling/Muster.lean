import Muster.Catalog
import Muster.Coalition.Table
import Muster.Double.Pattern
import Muster.Organization
import Muster.Robot
import Muster.Proofs.DisjointSet
import Muster.Proofs.DisjointSet.Groups
import Muster.Proofs.DisjointSet.Rollback
import Muster.Proofs.Wiring.Partial
import Muster.Proofs.Wiring.Completion
import Muster.Proofs.Wiring.Branching
import Muster.Proofs.Wiring.Levels
import Muster.Proofs.Wiring.Search
import Muster.Proofs.Wiring.Graph
import Muster.Proofs.Wiring.Draft
import Muster.Proofs.Wiring.Calls
import Muster.Proofs.Wiring.Ranks
import Muster.Proofs.Wiring.Pool
import Muster.Proofs.Wiring.Handmade
import Muster.Proofs.Wiring.Trail
import Muster.Proofs.Wiring.Run
import Muster.Proofs.Wiring.Termination
import Muster.Proofs.Wiring.Interruption
import Muster.Proofs.Double.Amounts
import Muster.Proofs.Double.Order
import Muster.Proofs.Double.Whole
import Muster.Proofs.Property.Scaling
import Muster.Proofs.Pool.Counts
import Muster.Proofs.Pool.Enumeration
import Muster.Proofs.Pool.Settings
import Muster.Proofs.Pool.Listing
import Muster.Proofs.Pool.Agents
import Muster.Proofs.Taxonomy
import Muster.Proofs.Support.Pool
import Muster.Proofs.Support.Minimal
import Muster.Proofs.Support.Saturation
import Muster.Proofs.Functionality.Search
import Muster.Proofs.Functionality.Minimal
import Muster.Proofs.Functionality.Agreement
import Muster.Proofs.Functionality.Surplus
import Muster.Proofs.Partition.Enumeration
import Muster.Proofs.Partition.Blocks
import Muster.Proofs.Partition.Cursor
import Muster.Proofs.Coalition.Splits
import Muster.Proofs.Coalition.Search
import Muster.Proofs.Coalition.Outcome
import Muster.Proofs.Organization
import Muster.Proofs.Organization.Scaled
import Muster.Proofs.Coalition.Supporting
import Muster.Proofs.Catalog
import Muster.Proofs.Coalition.Threshold
import Muster.Proofs.Organization.Bounded
import Muster.Proofs.Support.Joint
import Muster.Proofs.Support.Order
import Muster.Proofs.Wiring.Pruning
import Muster.Proofs.Double.Multiple
import Muster.Proofs.Property.Factor
import Muster.Proofs.Counter
import Muster.Proofs.Wiring.Moves
import Muster.Proofs.Wiring.Found
import Muster.Proofs.Wiring.Counters
import Muster.Proofs.Wiring.Reuse
import Muster.Proofs.Partition.Bell
import Muster.Proofs.Coalition.Books
import Muster.Proofs.Pool.Limits
import Muster.Proofs.Functionality.Counters
import Muster.Proofs.Support.Tightening
import Muster.Proofs.Pool.Delta
import Muster.Proofs.Pool.Order
import Muster.Proofs.Catalog.Inheritance
import Muster.Proofs.Organization.Composition
import Muster.Proofs.Organization.Maxima
import Muster.Proofs.Property.Comparison
import Muster.Proofs.Pool.Atoms
import Muster.Proofs.Pool.Multiples
import Muster.Proofs.Cardinality
import Muster.Proofs.Property.Merging
import Muster.Proofs.Property.Clusters
import Muster.Proofs.Partition.Count
import Muster.Proofs.Wiring.ChoiceLists
import Muster.Proofs.Catalog.Children
import Muster.Proofs.DisjointSet.Depth
import Muster.Proofs.Wiring.Representatives
import Muster.Proofs.Text
