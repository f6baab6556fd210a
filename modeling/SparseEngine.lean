import SparseEngine.CacheManager.RoutingSnapshot
import SparseEngine.CacheManager.Materialization
import SparseEngine.CacheManager.RoundTrip
import SparseEngine.CacheManager.PrefixContents
import SparseEngine.Quest.DecodeSelection
import SparseEngine.Scheduler.WireState
import SparseEngine.Responses.OutputItems
import SparseEngine.Router.InflightAccounting
import SparseEngine.DataParallel.Translation
import SparseEngine.OmniKV.Transparency
import SparseEngine.DeltaKV.Windows
import SparseEngine.Compaction.Boundaries
import SparseEngine.Compaction.PageTables
import SparseEngine.Mixed.Protocol
import SparseEngine.DeepSeek.Isolation
import SparseEngine.Chain.Reservation
import SparseEngine.Chain.RankAgreement
import SparseEngine.Dispatcher.StopStreaming
import SparseEngine.Dispatcher.RequestTokens
import SparseEngine.Mixed.StagedRuns
import SparseEngine.DeltaKV.PrefillRuns
import SparseEngine.PrefixCache.BalancedMembership
import SparseEngine.PrefixCache.InsertCapacity
import SparseEngine.PrefixCache.SubtreeDeletion
import SparseEngine.HeadSlots.PromiseRuns
import SparseEngine.Quantized.Runs
import SparseEngine.KVzip.Reconstruction
import SparseEngine.RawKV.Modes
import SparseEngine.Recurrent.Equivalence
import SparseEngine.Windows.Runs
import SparseEngine.Chain.Victims
import SparseEngine.Chain.Finishing
import SparseEngine.Scheduler.Batches
import SparseEngine.AsyncScheduling.Execution
import SparseEngine.AdaKV.Selection
import SparseEngine.RetroInfer.Index
