import Wcdb.Base.CheckedReads
import Wcdb.Base.LRUCache
import Wcdb.Base.Puts
import Wcdb.Base.QueueDiscipline
import Wcdb.Base.Readers
import Wcdb.Base.VarintEncoding
import Wcdb.Core.AutoBackupConfig
import Wcdb.Core.BindText16
import Wcdb.Core.BusyRetryConfig
import Wcdb.Core.ColumnInfo
import Wcdb.Core.CompressRows
import Wcdb.Core.CompressingSelect
import Wcdb.Core.CompressingStatement
import Wcdb.Core.CompressingStatementReuse
import Wcdb.Core.CompressingUpdate
import Wcdb.Core.CompressionCenter
import Wcdb.Core.CompressionRecord
import Wcdb.Core.CompressionStepping
import Wcdb.Core.Configs
import Wcdb.Core.CopiedTables
import Wcdb.Core.CorruptionNotification
import Wcdb.Core.CreateTable
import Wcdb.Core.DatabasePool
import Wcdb.Core.HandlePool
import Wcdb.Core.InnerDatabase
import Wcdb.Core.NestedTransaction
import Wcdb.Core.Purges
import Wcdb.Core.Repetitions
import Wcdb.Core.ReportedCommit
import Wcdb.Core.TrainDict
import Wcdb.Core.TwoStep
import Wcdb.Core.UnmergedTables
import Wcdb.Core.UnregisteredPaths
import Wcdb.Core.VacuumRows
import Wcdb.Core.VacuumTables
import Wcdb.Fts.MatchInfoResult
import Wcdb.Fts.OneOrBinaryTokenizer
import Wcdb.Lib.Sql
import Wcdb.Migration.Bookkeeping
import Wcdb.Migration.FilterIsolation
import Wcdb.Migration.MigratingBindings
import Wcdb.Migration.MigratingCursor
import Wcdb.Migration.MigratingSelectMeaning
import Wcdb.Migration.SequenceFlag
import Wcdb.Repair.AssembleCell
import Wcdb.Repair.CellRoundTrip
import Wcdb.Repair.CellSafety
import Wcdb.Repair.CrawlComplete
import Wcdb.Repair.EncryptedRoundTrip
import Wcdb.Repair.FractionOrder
import Wcdb.Repair.Geometry
import Wcdb.Repair.IncrementalMaterialRoundTrip
import Wcdb.Repair.KeyedTable
import Wcdb.Repair.Material
import Wcdb.Repair.MaterialCandidates
import Wcdb.Repair.MaterialFile
import Wcdb.Repair.MaterialRotation
import Wcdb.Repair.MaterialRoundTrip
import Wcdb.Repair.MaterialWrites
import Wcdb.Repair.PageParse
import Wcdb.Repair.PagerCache
import Wcdb.Repair.Precedence
import Wcdb.Repair.RenewedSchema
import Wcdb.Repair.RestoredSequence
import Wcdb.Repair.RestoredTable
import Wcdb.Repair.RowidTable
import Wcdb.Repair.SegmentedScore
import Wcdb.Repair.StaleFrames
import Wcdb.Repair.Truncation
import Wcdb.Repair.Wal
import Wcdb.Winq.ClauseTokens
