import DddService.Lib.Hoare
import DddService.Lib.Dict
import DddService.Basic
import DddService.Domain
import DddService.MessageQueue
import DddService.World
import DddService.Repository
import DddService.Controller
import DddService.Ledger
import DddService.Session
import DddService.Bodies
import DddService.Atomicity
import DddService.Outbox
import DddService.Refinement
import DddService.Simulation
import DddService.Calls
import DddService.Runs
import DddService.History
import DddService.Batches
import DddService.Concurrent
import DddService.Tracing
import DddService.TraceIsolation
import DddService.Consumer
import DddService.Lib.Locking
import DddService.Transactions
import DddService.Serializability
import DddService.SearchOperators
import DddService.SearchFilters
import DddService.Pagination
import DddService.Batching
import DddService.SearchOrder
import DddService.Retry
import DddService.Lib.Lineage
import DddService.Storing
import DddService.Causality
import DddService.CallTrace
import DddService.Notifications
import DddService.Lib.Coupling
import DddService.InStep
import DddService.Command
import DddService.PartialPublish
import DddService.SearchModels
import DddService.Coalescing
import DddService.Lib.PyValue
import DddService.Serialization
import DddService.RawDelivery
import DddService.ConsumeLoop
import DddService.Supervisor
import DddService.ObjectSaves
import DddService.ArchiveSnapshots
import DddService.NotFound
import DddService.Spreadsheet
import DddService.Lib.PyText
import DddService.Lib.JsonReads
import DddService.Logger
import DddService.LogLines
import DddService.LogParts
import DddService.EventBus
import DddService.SessionScopes
import DddService.CopyTool
import DddService.GeneratedNames
import DddService.GeneratedPaths
import DddService.Deadlock
import DddService.VersionHistory
import DddService.Lib.Topic
import DddService.Network
import DddService.RestartBudget
import DddService.CommandLedger
import DddService.Export
import DddService.VoidNotices
import DddService.ExactlyOnce
import DddService.Middleware
import DddService.GeneratedRuns
import DddService.ReadModel
import DddService.Settling
import DddService.Recovery
import DddService.SharedMessages
