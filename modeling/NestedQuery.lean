import NestedQuery.Catalog.Unchecked
import NestedQuery.Config.Layer
import NestedQuery.Engine
import NestedQuery.Proofs.Catalog
import NestedQuery.Proofs.Declaration
import NestedQuery.Proofs.Memo
import NestedQuery.Retry.Run
import NestedQuery.Sql.Selector
import NestedQuery.Wire.Exchange
import NestedQuery.Proofs.Arena
import NestedQuery.Proofs.Rebind
import NestedQuery.Proofs.CacheRace
import NestedQuery.Proofs.Grouping
import NestedQuery.Proofs.Partition
import NestedQuery.Proofs.Plan
import NestedQuery.Proofs.Fold
import NestedQuery.Proofs.Rendering
import NestedQuery.Proofs.Execution
import NestedQuery.Proofs.Batching
import NestedQuery.Proofs.RequestEquality
import NestedQuery.Proofs.CacheHistory
import NestedQuery.Proofs.Clauses
import NestedQuery.Proofs.Placeholders
import NestedQuery.Proofs.Scope
import NestedQuery.Proofs.Recording
import NestedQuery.Proofs.Safety
import NestedQuery.Proofs.Projection
import NestedQuery.Proofs.Levels
import NestedQuery.Proofs.Made
import NestedQuery.Proofs.Failure
import NestedQuery.Proofs.Interleaving
import NestedQuery.Proofs.Held
import NestedQuery.Proofs.Degradation
import NestedQuery.Proofs.Likeness
import NestedQuery.Proofs.Frames
import NestedQuery.Proofs.Form
import NestedQuery.Proofs.RootQuery
import NestedQuery.Proofs.Reexecution
import NestedQuery.Proofs.Accounting
import NestedQuery.Proofs.Reordering
import NestedQuery.Proofs.Renumbering
import NestedQuery.Proofs.Relabelling
import NestedQuery.Proofs.Casts
import NestedQuery.Proofs.Window
import NestedQuery.Proofs.Grammar
import NestedQuery.Proofs.Roundtrip
import NestedQuery.Proofs.Meaning
import NestedQuery.Proofs.CastExtent
import NestedQuery.Proofs.Twins
import NestedQuery.Proofs.Statements
import NestedQuery.Proofs.Preorder
import NestedQuery.Proofs.Acceptance
import NestedQuery.Proofs.Paging
import NestedQuery.Proofs.Explanation
import NestedQuery.Proofs.Rerendering
import NestedQuery.Proofs.Exactness
import NestedQuery.Proofs.Hashing
import NestedQuery.Proofs.Equivalence
import NestedQuery.Proofs.Serialization
import NestedQuery.Proofs.Folded
import NestedQuery.Proofs.Retrying
import NestedQuery.Proofs.Rounding
import NestedQuery.Proofs.Accuracy
import NestedQuery.Proofs.Delays
import NestedQuery.Proofs.IntegerColumns
import NestedQuery.Proofs.Quoting
