import SeriesStore.Prelude
import SeriesStore.Error
import SeriesStore.Codec.BitRun
import SeriesStore.Segment.Basic
import SeriesStore.Segment.Decode
import SeriesStore.Segment.Layout
import SeriesStore.Number.Shortest
import SeriesStore.Number.Word
import SeriesStore.Number.Decimal
import SeriesStore.Number.Double
import SeriesStore.Json.Value
import SeriesStore.Json.Render
import SeriesStore.Json.Read
import SeriesStore.Text.CaseData
import SeriesStore.Text.Lower
import SeriesStore.Text.PrintableData
import SeriesStore.Text.Escape
import SeriesStore.Key
import SeriesStore.Replication.ChangeVector
import SeriesStore.Replication.Topology
import SeriesStore.Time.Calendar
import SeriesStore.Time.Instant
import SeriesStore.Time.Span
import SeriesStore.Time.Buckets
import SeriesStore.Aggregation
import SeriesStore.Table
import SeriesStore.Policy
import SeriesStore.Decoding.Basic
import SeriesStore.Decoding.JsonText
import SeriesStore.Decoding.JsonValue
import SeriesStore.Toml.Document
import SeriesStore.Toml.Grammar
import SeriesStore.Toml.Lexical
import SeriesStore.Toml.Parse
import SeriesStore.Toml.Report
import SeriesStore.Decoding.Toml
import SeriesStore.Policy.Decode
import SeriesStore.Codec.Crc32
import SeriesStore.Text.Utf8
import SeriesStore.Store.Rows
import SeriesStore.Store.Database
import SeriesStore.Store.Documents
import SeriesStore.Store.Stats
import SeriesStore.Store.Reader
import SeriesStore.Store.Schedule
import SeriesStore.Store.Points
import SeriesStore.Store.Append
import SeriesStore.Store.Delete
import SeriesStore.Store.Replicate
import SeriesStore.Store.Feed
import SeriesStore.Store.Aggregate
import SeriesStore.Store.Rollup
import SeriesStore.Store.Retention
import SeriesStore.Store.Runner
import SeriesStore.Error.Json
import SeriesStore.Segment.Json
import SeriesStore.Policy.Json
import SeriesStore.Store.Json
import SeriesStore.Store.SettingsToml
import SeriesStore.Cluster
import SeriesStore.Proofs.BitRun
import SeriesStore.Proofs.SegmentCodec
import SeriesStore.Proofs.Segment
import SeriesStore.Proofs.SegmentLayout
import SeriesStore.Proofs.SegmentRoundTrip
import SeriesStore.Proofs.SegmentCapacity
import SeriesStore.Proofs.PayloadReading
import SeriesStore.Proofs.Number.Doubles
import SeriesStore.Proofs.SlotAlgebra
import SeriesStore.Proofs.SummaryFold
import SeriesStore.Proofs.RollupChain
import SeriesStore.Proofs.Store.Txn
import SeriesStore.Proofs.Store.KeyOrder
import SeriesStore.Proofs.Store.TableOrder
import SeriesStore.Proofs.Store.TableIndex
import SeriesStore.Proofs.Store.PointOrder
import SeriesStore.Proofs.Store.SegmentBuild
import SeriesStore.Proofs.Store.SeriesLayout
import SeriesStore.Proofs.Store.Frame
import SeriesStore.Proofs.Store.Retention
import SeriesStore.Proofs.Store.CleanNames
import SeriesStore.Proofs.Store.KeyParsing
import SeriesStore.Proofs.Time.CivilDays
import SeriesStore.Proofs.Time.BucketTiling
import SeriesStore.Proofs.Store.ReaderSummary
import SeriesStore.Proofs.Store.RowPlacement
import SeriesStore.Proofs.Store.SegmentsWell
import SeriesStore.Proofs.Store.AppendWell
import SeriesStore.Proofs.Store.Succeeds
import SeriesStore.Proofs.Store.LiveStats
import SeriesStore.Proofs.Store.RangeDeletion
import SeriesStore.Proofs.Store.EtagBudget
import SeriesStore.Proofs.Store.RetentionBatch
import SeriesStore.Proofs.Store.RetentionRun
import SeriesStore.Proofs.Replication.VectorText
import SeriesStore.Proofs.Replication.VectorMerge
import SeriesStore.Proofs.Replication.VectorCanonical
import SeriesStore.Proofs.Replication.VectorOrder
import SeriesStore.Proofs.Time.SpanOrder
import SeriesStore.Proofs.Time.SpanText
import SeriesStore.Proofs.PolicyChain
import SeriesStore.Proofs.Store.TieBreak
import SeriesStore.Proofs.SortedSearch
import SeriesStore.Proofs.Store.DocumentNames
import SeriesStore.Proofs.FitsAlone
import SeriesStore.Proofs.Store.Reencoding
import SeriesStore.Proofs.Store.Rounds
import SeriesStore.Proofs.Store.PolicyPaging
import SeriesStore.Proofs.Store.Rescheduling
import SeriesStore.Proofs.Time.RollupDue
import SeriesStore.Proofs.Store.TableWeight
import SeriesStore.Proofs.Store.RollupWork
import SeriesStore.Proofs.Store.RollupProgress
import SeriesStore.Proofs.Store.TrimRounds
import SeriesStore.Proofs.Store.RunnerStops
import SeriesStore.Proofs.Store.AppendMerge
import SeriesStore.Proofs.Store.AggregationPaths
