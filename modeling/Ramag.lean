import Ramag.InsertChunks
import Ramag.ImportChunks
import Ramag.HostRuns
import Ramag.DiffExact
import Ramag.FragmentCodec
import Ramag.SyncCancel
import Ramag.JsonlBatches
import Ramag.GraphLanes
import Ramag.RebaseRuns
import Ramag.IndexMigration
import Ramag.ClipSearch
import Ramag.SqlPools
import Ramag.StatusDecoding
import Ramag.LogPages
import Ramag.QueryHistoryRuns
import Ramag.ClipboardDedup
import Ramag.ClipboardMedia
import Ramag.TransactionControl
import Ramag.MongoCommand
import Ramag.ArchiveSafety
import Ramag.TransactionTabRuns
import Ramag.UpdateVerified
import Ramag.RedisPoolsSound
import Ramag.SshTunnelsSound
import Ramag.TransferQueueSound
import Ramag.RemotePathLaws
import Ramag.PruneExact
import Ramag.ConnectionsKept
import Ramag.ClipboardCacheRuns
import Ramag.PluginSettingsKept
import Ramag.KafkaTail
import Ramag.ResultExport
import Ramag.SshForward
import Ramag.TableChangesMysql
import Ramag.ConnectionUriExact
import Ramag.OpenApiPaths
import Ramag.HttpExpanded
import Ramag.MemberAssignment
import Ramag.MongoPaging
import Ramag.ResultMemorySound
import Ramag.TopicDirectory
import Ramag.ContainerLogs
import Ramag.SplitConserved
import Ramag.DiffKeys
import Ramag.RefreshScopes
import Ramag.LatestWrites
import Ramag.SyncBatches
import Ramag.ImportLines
import Ramag.RedisWrites
import Ramag.LiteralLengths
import Ramag.IdConversion
import Ramag.RecordIdentity
import Ramag.LiteralReading
