import DddCqrsEs.Transition
import DddCqrsEs.Once
import DddCqrsEs.KeyedLog
import DddCqrsEs.Replay
import DddCqrsEs.Event
import DddCqrsEs.Aggregate
import DddCqrsEs.MemoryStore
import DddCqrsEs.MemoryRefinement
import DddCqrsEs.Projection
import DddCqrsEs.ProjectionReplay
import DddCqrsEs.SqlStore
import DddCqrsEs.LegacyKeys
import DddCqrsEs.Idempotency
import DddCqrsEs.IdempotentAppend
import DddCqrsEs.ExecuteIdempotentAtomic
import DddCqrsEs.ReplayBeatsFailure
import DddCqrsEs.ExecuteIdempotent
import DddCqrsEs.LeasedExecution
import DddCqrsEs.PooledWrite
import DddCqrsEs.LostAcknowledgement
import DddCqrsEs.SerialAppend
import DddCqrsEs.LineLog
import DddCqrsEs.JsonFile
import DddCqrsEs.StoredLines
import DddCqrsEs.TornTail
import DddCqrsEs.CursorFeed
import DddCqrsEs.GlobalFeed
import DddCqrsEs.CommitOrder
import DddCqrsEs.GuardedInsert
import DddCqrsEs.AppendAtomic
import DddCqrsEs.AppendGuard
import DddCqrsEs.Repository
import DddCqrsEs.NoLostUpdate
import DddCqrsEs.Snapshot
import DddCqrsEs.JsonString
import DddCqrsEs.StringIds
import DddCqrsEs.RedisServer
import DddCqrsEs.RedisKeys
import DddCqrsEs.RedisStore
import DddCqrsEs.RowReader
import DddCqrsEs.RedisAppend
import DddCqrsEs.RedisInvariant
import DddCqrsEs.RedisReads
import DddCqrsEs.RedisFeed
import DddCqrsEs.ProcessManager
import DddCqrsEs.DispatchOnce
import DddCqrsEs.Interruption
import DddCqrsEs.Schema
import DddCqrsEs.SchemaCrash
import DddCqrsEs.OwnRelease
import DddCqrsEs.Binary64
import DddCqrsEs.PooledIdempotent
import DddCqrsEs.IdempotencyStores
import DddCqrsEs.KeyLease
import DddCqrsEs.SqlKeyLease
import DddCqrsEs.AppendKeyLease
import DddCqrsEs.RedisKeyLease
import DddCqrsEs.LeaseAgreement
import DddCqrsEs.CheckedRevision
import DddCqrsEs.RevisionAgreement
import DddCqrsEs.ConnectionPool
import DddCqrsEs.StrandedConnection
import DddCqrsEs.RedisKeySpace
import DddCqrsEs.Separated
import DddCqrsEs.CheckpointScopes
import DddCqrsEs.RankedMaximum
import DddCqrsEs.CheckpointStores
import DddCqrsEs.JsonObject
import DddCqrsEs.ResettableMaximum
import DddCqrsEs.AsyncDispatch
import DddCqrsEs.RedisExecutors
import DddCqrsEs.ReplyShape
import DddCqrsEs.Numbering
import DddCqrsEs.JsonFileFeed
import DddCqrsEs.CrashFreeFile
import DddCqrsEs.RawFeeds
import DddCqrsEs.RawFeedStores
import DddCqrsEs.KeyTransaction
import DddCqrsEs.RetriedIdempotent
import DddCqrsEs.Upcast
import DddCqrsEs.CommandKeys
import DddCqrsEs.FullstackApp.Access
import DddCqrsEs.FullstackApp.Board
import DddCqrsEs.FullstackApp.BoardForest
import DddCqrsEs.FullstackApp.BoardMerge
import DddCqrsEs.FullstackApp.BoardEdits
import DddCqrsEs.FullstackApp.BoardRoundTrip
import DddCqrsEs.FullstackApp.Base
import DddCqrsEs.FullstackApp.BoardStore
import DddCqrsEs.FullstackApp.BoardSessions
import DddCqrsEs.StaleConflict
import DddCqrsEs.Accrual
import DddCqrsEs.PartialMigrators
import DddCqrsEs.FullstackApp.Profiles
import DddCqrsEs.FullstackApp.ProfileSessions
import DddCqrsEs.FullstackApp.ProfileHandles
import DddCqrsEs.ReplaceAll
import DddCqrsEs.FullstackApp.Vault
import DddCqrsEs.FullstackApp.VaultSessions
import DddCqrsEs.FullstackApp.VaultRewrites
import DddCqrsEs.FullstackApp.VaultChanges
import DddCqrsEs.Memo
import DddCqrsEs.FullstackApp.ConnectorCredentials
import DddCqrsEs.FullstackApp.ConnectorCaches
import DddCqrsEs.Paging
import DddCqrsEs.CatchUp
import DddCqrsEs.PagedReplay
import DddCqrsEs.MemoryWindow
import DddCqrsEs.Decimal
import DddCqrsEs.DecimalTexts
import DddCqrsEs.RowToEnvelope
import DddCqrsEs.LibsqlRoundTrip
import DddCqrsEs.Resp
import DddCqrsEs.RespReader
import DddCqrsEs.RespFraming
import DddCqrsEs.RedisSubscription
import DddCqrsEs.RedisPaging
import DddCqrsEs.Blocks
import DddCqrsEs.HashBatch
import DddCqrsEs.RedisSnapshots
import DddCqrsEs.LeaseHeartbeats
import DddCqrsEs.BatchInsert
import DddCqrsEs.Substrings
import DddCqrsEs.UniqueViolations
import DddCqrsEs.JsonTree
import DddCqrsEs.JsonEscapes
import DddCqrsEs.SqlText
import DddCqrsEs.Cuts
import DddCqrsEs.UrlHosts
import DddCqrsEs.NeonHosts
import DddCqrsEs.RedisAddress
import DddCqrsEs.Utf8
import DddCqrsEs.Truncation
import DddCqrsEs.Changes
import DddCqrsEs.FileOperations
import DddCqrsEs.Words
import DddCqrsEs.Brackets
import DddCqrsEs.InsertReturning
import DddCqrsEs.InsertTemplates
import DddCqrsEs.InsertReadBack
import DddCqrsEs.SqlLexer
import DddCqrsEs.SqlLexemes
import DddCqrsEs.LexemeBounds
import DddCqrsEs.QuotedBounds
import DddCqrsEs.NumberBounds
import DddCqrsEs.OperatorRuns
import DddCqrsEs.Interpolation
import DddCqrsEs.ValueLexemes
import DddCqrsEs.Interpolated
import DddCqrsEs.FullstackApp.BoardTree
import DddCqrsEs.FullstackApp.BoardLayout
import DddCqrsEs.FullstackApp.BoardConservation
import DddCqrsEs.EnclosedLexemes
import DddCqrsEs.FullstackApp.ReadonlySql
import DddCqrsEs.FullstackApp.ReadonlyScan
import DddCqrsEs.FullstackApp.ReadonlyQueries
import DddCqrsEs.InternetAddress
import DddCqrsEs.FullstackApp.Egress
import DddCqrsEs.FullstackApp.EgressGuard
import DddCqrsEs.UriParts
import DddCqrsEs.FullstackApp.ConnectionUri
import DddCqrsEs.DddCli.Markers
import DddCqrsEs.DddCli.Names
import DddCqrsEs.DddCli.FieldSpecs
import DddCqrsEs.DddCli.Regions
import DddCqrsEs.DddCli.AggregateFile
import DddCqrsEs.DddCli.Additions
import DddCqrsEs.DddCli.DomainRegistry
import DddCqrsEs.DddCli.AggregateEdits
import DddCqrsEs.DddCli.AggregateReading
import DddCqrsEs.DddCli.ManifestAgreement
import DddCqrsEs.Base64
import DddCqrsEs.BinaryText
import DddCqrsEs.Durations
import DddCqrsEs.PendingWait
import DddCqrsEs.Hyphenated
import DddCqrsEs.FullstackApp.OrgSlugs
import DddCqrsEs.UrlResolution
import DddCqrsEs.FullstackApp.Redirects
import DddCqrsEs.FileTree
import DddCqrsEs.DddCli.LinkedFiles
import DddCqrsEs.Ascii
import DddCqrsEs.CounterApp.Counter
import DddCqrsEs.Consumption
import DddCqrsEs.OwnedCheckpoints
import DddCqrsEs.RedisIntegers
import DddCqrsEs.CounterApp.AtomicProjection
import DddCqrsEs.CounterApp.ProjectionScript
import DddCqrsEs.CounterApp.ProjectionRuns
