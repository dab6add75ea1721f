import Saknussemm.Run.AcceptedBatch
import Saknussemm.Run.PairGuard
import Saknussemm.SpanApplication
import Saknussemm.Run.Lifecycle
import Saknussemm.Linking.Formats
import Saknussemm.Run.Completion
import Saknussemm.Planning.Partition
import Saknussemm.Planning.Severing
import Saknussemm.Run.UnitFallback
import Saknussemm.Run.WholeRun
import Saknussemm.PageAlignment
import Saknussemm.TokenAlignment
import Saknussemm.Page.Losses
import Saknussemm.Alto.Tiling
import Saknussemm.Page.WordGranularity
import Saknussemm.Alto.Losses
import Saknussemm.Alto.FileIdentity
import Saknussemm.Alto.FixedPoint
import Saknussemm.Run.Batching
import Saknussemm.Run.Tiers
import Saknussemm.Run.Sidecar
import Saknussemm.Alto.ReadingOrder
import Saknussemm.Producers.Rules
import Saknussemm.Run.Joins
import Saknussemm.Run.StreamPages
import Saknussemm.Run.Cancellation
import Saknussemm.Run.Earned
import Saknussemm.Run.Exchanges
import Saknussemm.Run.Reporting
import Saknussemm.Page.RunDelivery
