import Flusso.Cdc.Catchup
import Flusso.Cdc.ResumePoint
import Flusso.Stream.Delivery
import Flusso.Stream.Sequential
import Flusso.Stream.InOrder
import Flusso.Daemon.Convergence
import Flusso.Daemon.Answers
import Flusso.Daemon.Staging
import Flusso.Engine.SinkEngine
import Flusso.Daemon.Awaited
import Flusso.Daemon.Generations
import Flusso.Daemon.Seeding
import Flusso.Daemon.Continuity
import Flusso.Daemon.Deadlock
import Flusso.Cdc.Pgoutput
import Flusso.Cdc.Protocol
import Flusso.Cdc.Keys
import Flusso.Cdc.Transactions
import Flusso.Cdc.Messages
import Flusso.Kernel.Schema
import Flusso.Cdc.Cells
import Flusso.Document.Database
import Flusso.Document.Resolve
import Flusso.Document.Isolation
import Flusso.Document.Climbing
import Flusso.Document.Changes
import Flusso.Document.Arrival
import Flusso.Document.Completeness
import Flusso.Document.RootPaths
import Flusso.Cdc.ReplicaIdentity
import Flusso.Document.OldParents
import Flusso.Foundation.Json
import Flusso.Kernel.Display
import Flusso.Sql.Semantics
import Flusso.Document.Query
import Flusso.Document.Contents
import Flusso.Sql.Rules
import Flusso.Document.Building
import Flusso.Document.Assembly
import Flusso.Document.Evaluation
import Flusso.Document.Constants
import Flusso.Foundation.Segments
import Flusso.Sink.Bulk
import Flusso.Sink.Chunks
import Flusso.Sink.Rejections
import Flusso.Document.UpdateKeys
import Flusso.Sdk.Dsl
import Flusso.Sdk.Query
import Flusso.Sdk.Combinators
import Flusso.Daemon.Batching
import Flusso.Foundation.Faulty
import Flusso.Sink.Generations
import Flusso.Sink.Serving
import Flusso.Sink.Orphans
import Flusso.Daemon.Observed
import Flusso.Daemon.Gauge
import Flusso.Daemon.Reported
import Flusso.Kernel.Mapping
import Flusso.Sdk.Check
import Flusso.Sdk.Derive
import Flusso.Sdk.Fragment
import Flusso.Sdk.Root
import Flusso.Sdk.Places
import Flusso.Sdk.Agreement
import Flusso.Config.Values
import Flusso.Config.Entities
import Flusso.Config.Parser
import Flusso.Config.Conversion
import Flusso.Design.Codegen
import Flusso.Config.Converted
import Flusso.Design.Siblings
import Flusso.Design.Fields
import Flusso.Design.Roundtrip
import Flusso.Document.Prefetch
import Flusso.Document.SoftDelete
import Flusso.Kernel.Numerals
import Flusso.Sink.Values
import Flusso.Document.Coercion
import Flusso.Document.Meaning
import Flusso.Config.Denotation
import Flusso.Foundation.Separators
import Flusso.Kernel.ShortestDigits
import Flusso.Kernel.Rendering
import Flusso.Engine.DocumentIds
import Flusso.Engine.Seeding
import Flusso.Daemon.EngineRuns
import Flusso.Sink.EnumSort
import Flusso.Sql.Pieces
import Flusso.Sql.Spelling
import Flusso.Daemon.Control
import Flusso.Document.Paths
import Flusso.Sdk.Union
import Flusso.Foundation.Firsts
import Flusso.Sdk.Sort
import Flusso.Sdk.SortBuilder
import Flusso.Sdk.MapSort
import Flusso.Foundation.Casing
import Flusso.Sdk.Namespaces
import Flusso.Sdk.Renames
import Flusso.Sdk.SerdeKeys
import Flusso.Foundation.Ranking
import Flusso.Sdk.Hits
import Flusso.Sdk.Search
import Flusso.Sdk.Pages
import Flusso.Sdk.InnerHits
import Flusso.Sql.Layout
import Flusso.Document.Emitted
import Flusso.Document.Parameters
import Flusso.Document.Statements
import Flusso.Document.Batched
import Flusso.Document.Batches
import Flusso.Cdc.Publication
import Flusso.Document.Validation
import Flusso.Cdc.PreImages
import Flusso.Document.Coverage
import Flusso.Document.Streamed
