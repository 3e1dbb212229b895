import TinoHelm.Proofs.AveragePrice
import TinoHelm.Proofs.BalanceRecovery
import TinoHelm.Proofs.ChannelBoundary
import TinoHelm.Proofs.CommandDelivery
import TinoHelm.Proofs.CommandGrammar
import TinoHelm.Proofs.CustomMessages
import TinoHelm.Proofs.DailySchedule
import TinoHelm.Proofs.DriftWarnings
import TinoHelm.Proofs.EmbedLimits
import TinoHelm.Proofs.ExactlyOnce
import TinoHelm.Proofs.ExecutedQuantity
import TinoHelm.Proofs.FallbackScan
import TinoHelm.Proofs.FleetReports
import TinoHelm.Proofs.HandleAgreement
import TinoHelm.Proofs.IntakePaths
import TinoHelm.Proofs.ListenerCleanup
import TinoHelm.Proofs.ListenerCorrelation
import TinoHelm.Proofs.MalformedAnnounces
import TinoHelm.Proofs.NodeModes
import TinoHelm.Proofs.OneEmbed
import TinoHelm.Proofs.OwnEmbed
import TinoHelm.Proofs.RedisEndpoints
import TinoHelm.Proofs.ReportCorrelation
import TinoHelm.Proofs.ReportTransport
import TinoHelm.Proofs.Resolution
import TinoHelm.Proofs.RoutingAuthority
import TinoHelm.Proofs.SendDrain
import TinoHelm.Proofs.SendOrder
import TinoHelm.Proofs.SendRefinement
import TinoHelm.Proofs.SlotRelease
import TinoHelm.Proofs.SnapshotRot
import TinoHelm.Proofs.StreamDelivery
import TinoHelm.Proofs.StreamDiscovery
import TinoHelm.Proofs.StreamOrder
import TinoHelm.Proofs.TableAlignment
import TinoHelm.Proofs.TrackerLru
import TinoHelm.Proofs.NodeEnvironment
import TinoHelm.Proofs.PodReports
import TinoHelm.Proofs.SummaryRuns
