import InfraLens.LibRun
import InfraLens.LibBincode
import InfraLens.Model
import InfraLens.RecordCodec
import InfraLens.LibBufWriter
import InfraLens.WalFile
import InfraLens.WalRecovery
import InfraLens.Crc32
import InfraLens.WalHandles
import InfraLens.LibMap
import InfraLens.MemTable
import InfraLens.Engine
import InfraLens.LibLedger
import InfraLens.EngineSteps
import InfraLens.Accounting
import InfraLens.AccountingSteps
import InfraLens.SingleWriter
import InfraLens.NoLoss
import InfraLens.Calls
import InfraLens.Concurrent
import InfraLens.Rows
import InfraLens.Shutdown
import InfraLens.RoundTrip
import InfraLens.Durability
import InfraLens.Ingest
import InfraLens.SSTableDir
import InfraLens.CrashConsistency
import InfraLens.Reopen
import InfraLens.Readers
import InfraLens.LibBits
import InfraLens.Bloom
import InfraLens.Schema
import InfraLens.Signals
import InfraLens.Upkeep
import InfraLens.BloomFiles
import InfraLens.ZoneMaps
import InfraLens.SeqNumbers
import InfraLens.Arrow
import InfraLens.Ast
import InfraLens.Eval
import InfraLens.RowSemantics
import InfraLens.RowRefinement
import InfraLens.BatchSplit
import InfraLens.LibKleene
import InfraLens.Sql
import InfraLens.Where
import InfraLens.LibPull
import InfraLens.Plan
import InfraLens.Aggregate
import InfraLens.Executor
import InfraLens.Pushdown
import InfraLens.Limits
import InfraLens.Pruning
import InfraLens.SelectList
import InfraLens.OtlpAgreement
import InfraLens.Export
import InfraLens.Printer
import InfraLens.GrammarAccepted
import InfraLens.Ring
import InfraLens.Membership
import InfraLens.Lexing
import InfraLens.Folding
import InfraLens.Like
import InfraLens.Ungrouped
import InfraLens.GroupAggregates
import InfraLens.Router
import InfraLens.Replica
import InfraLens.Replication
import InfraLens.ScatterGather
import InfraLens.CompactionFaults
import InfraLens.Failover
import InfraLens.BloomSafety
import InfraLens.WalDamage
import InfraLens.LibStable
import InfraLens.MemTableOrder
import InfraLens.NullPropagation
import InfraLens.Polling
import InfraLens.Kernels
import InfraLens.LibLex
import InfraLens.OrderBy
import InfraLens.HexIds
import InfraLens.Quoting
import InfraLens.Layout
import InfraLens.Intervals
import InfraLens.CompactionOrder
import InfraLens.TimeRange
import InfraLens.PartitionKeys
import InfraLens.LibScript
import InfraLens.ParserTotal
import InfraLens.LibJsonText
import InfraLens.StoredJson
import InfraLens.Buckets
import InfraLens.Overshoot
import InfraLens.WriteAhead
import InfraLens.Draining
import InfraLens.Batches
import InfraLens.RowQueries
import InfraLens.Answers
import InfraLens.Operators
import InfraLens.Optimizing
import InfraLens.QueryText
import InfraLens.CompactionWorker
import InfraLens.Http
