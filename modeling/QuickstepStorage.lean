import QuickstepStorage.Model.PartitionAware
import QuickstepStorage.Pool.PartiallyFilled
import QuickstepStorage.Pool.Run
import QuickstepStorage.Pool.Independence
import QuickstepStorage.Model.Lifecycle
import QuickstepStorage.Pool.Lifecycle
import QuickstepStorage.Pool.Flush
import QuickstepStorage.Model.BlockState
import QuickstepStorage.Pool.Refinement
import QuickstepStorage.Pool.Placement
import QuickstepStorage.Pool.Interleaving
import QuickstepStorage.Optimizer.TestRunner
