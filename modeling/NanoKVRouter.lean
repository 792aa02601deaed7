import NanoKVRouter.BlockPoolPins
import NanoKVRouter.CacheAlignment
import NanoKVRouter.MetricsReconcile
import NanoKVRouter.ChunkedPrefill
import NanoKVRouter.CacheMemory
import NanoKVRouter.CacheOwnership
import NanoKVRouter.CacheSharing
import NanoKVRouter.CacheTermination
import NanoKVRouter.MetricsPercentile
import NanoKVRouter.PrefillEstimate
import NanoKVRouter.RadixTreeBoundaries
import NanoKVRouter.RadixTreeMints
import NanoKVRouter.Scheduler
import NanoKVRouter.SchedulerOrder
import NanoKVRouter.Sensitivity
import NanoKVRouter.SimulationEngineRuns
import NanoKVRouter.SimulatorPromotions
import NanoKVRouter.SimulatorTermination
import NanoKVRouter.SimulatorTokens
import NanoKVRouter.RequestHash
import NanoKVRouter.TraceReplayRuns
import NanoKVRouter.TransferLanes
import NanoKVRouter.PrefixCoherence
import NanoKVRouter.TraceConversion
import NanoKVRouter.RadixTreePathPurge
import NanoKVRouter.RadixTreeLru
import NanoKVRouter.RadixTreeSelection
import NanoKVRouter.SimulatorReports
import NanoKVRouter.CacheQueries
import NanoKVRouter.SimulatorDelivery
import NanoKVRouter.RequestGenerator
import NanoKVRouter.ClosedLoop
import NanoKVRouter.RunOne
import NanoKVRouter.SimulatorTransfers
import NanoKVRouter.RequestCourses
import NanoKVRouter.PyViews
import NanoKVRouter.CacheTurns
import NanoKVRouter.CacheIsolation
import NanoKVRouter.CacheShortage
