import SiriusGpu.PipelinePaths
import SiriusGpu.HashTableLifetime
import SiriusGpu.ThrowingState
import SiriusGpu.BufferArena
import SiriusGpu.ColumnFormat
import SiriusGpu.BufferManager
import SiriusGpu.TableScan
import SiriusGpu.CacheLayout
import SiriusGpu.CacheTruth
import SiriusGpu.CacheRuns
import SiriusGpu.CacheCoherence
import SiriusGpu.EvictionSafety
import SiriusGpu.GpuContext
import SiriusGpu.CacheCapacity
import SiriusGpu.FailedCalls
import SiriusGpu.CallIsolation
import SiriusGpu.GpuMemory
import SiriusGpu.GpuColumns
import SiriusGpu.WarpReduction
import SiriusGpu.Materialize
import SiriusGpu.CudfColumns
import SiriusGpu.BufferedRelations
import SiriusGpu.ResultCollector
import SiriusGpu.HostColumns
import SiriusGpu.CollectorLoop
import SiriusGpu.ResultChunks
import SiriusGpu.ResultDelivery
import SiriusGpu.BufferedRows
import SiriusGpu.HalfAwayRounding
import SiriusGpu.DecimalExpressions
import SiriusGpu.DecimalFidelity
import SiriusGpu.StringComparison
import SiriusGpu.CudfInnerJoin
import SiriusGpu.HashJoinIndices
import SiriusGpu.BlockCompaction
import SiriusGpu.TwoPassCompaction
import SiriusGpu.TableFilters
import SiriusGpu.NestedLoopJoin
import SiriusGpu.OpenAddressing
import SiriusGpu.HashTableBuild
import SiriusGpu.HashJoinProbe
import SiriusGpu.SemiMarkJoin
import SiriusGpu.RightSemiAntiJoin
import SiriusGpu.UniqueBuildKeys
import SiriusGpu.ByteBuffers
import SiriusGpu.ScanIngestion
import SiriusGpu.DuplicateElimination
import SiriusGpu.UngroupedSum
import SiriusGpu.BlockTake
import SiriusGpu.ColumnValues
import SiriusGpu.StreamingLimit
import SiriusGpu.FallibleMaps
import SiriusGpu.FilterSelection
import SiriusGpu.GpuExpressions
import SiriusGpu.ProjectionExecution
import SiriusGpu.LexicographicOrder
import SiriusGpu.CudfOrderBy
import SiriusGpu.WeakOrders
import SiriusGpu.StringTopN
import SiriusGpu.OrderBy
import SiriusGpu.AggregateInputs
import SiriusGpu.UngroupedAggregate
import SiriusGpu.CachingAllocator
import SiriusGpu.Int128Widening
import SiriusGpu.DecimalScalars
import SiriusGpu.ByteMemory
import SiriusGpu.StringBuffers
import SiriusGpu.IntegerArithmetic
import SiriusGpu.PatternPrefixes
import SiriusGpu.KmpAutomaton
import SiriusGpu.StringMatching
import SiriusGpu.SubstringFunction
import SiriusGpu.MultiTermMatching
import SiriusGpu.TopN
import SiriusGpu.EvaluatorMeaning
import SiriusGpu.RowIdComposition
import SiriusGpu.RightOuterJoin
import SiriusGpu.GroupedAggregate
import SiriusGpu.LocalActions
import SiriusGpu.PlanExecution
import SiriusGpu.TupleMeaning
import SiriusGpu.StreamingOperators
