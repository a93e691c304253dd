import WiseWay.Scripts
import WiseWay.AtomicProgram
import WiseWay.Fallible
import WiseWay.Records
import WiseWay.Rules
import WiseWay.Services
import WiseWay.AttemptTransactions
import WiseWay.ReturnTransactions
import WiseWay.Calls
import WiseWay.Worker
import WiseWay.Quarantine
import WiseWay.Intake
import WiseWay.SortingSystem
import WiseWay.Effects
import WiseWay.Changes
import WiseWay.LockContract
import WiseWay.WorkerContract
import WiseWay.ReturnContract
import WiseWay.DurableMove
import WiseWay.AuditTrail
import WiseWay.ClaimExclusivity
import WiseWay.SearchOutbox
import WiseWay.QuarantineReturn
import WiseWay.DictionaryService
import WiseWay.Requests
import WiseWay.ExactlyOnce
import WiseWay.PlannedBatch
import WiseWay.Relocation
import WiseWay.PlanExecution
import WiseWay.Sessions
import WiseWay.SessionFinality
import WiseWay.PublicationGate
import WiseWay.SearchTables
import WiseWay.SearchText
import WiseWay.Search
import WiseWay.SearchContract
import WiseWay.SearchIndex
import WiseWay.SortedTables
import WiseWay.PreparedSearch
import WiseWay.FacetTotals
import WiseWay.Calendar
import WiseWay.Doubles
import WiseWay.AuditTimes
import WiseWay.AuditPages
import WiseWay.AuditSnapshots
import WiseWay.SearchGenerations
import WiseWay.Wildcards
import WiseWay.Masks
import WiseWay.PlanSpecification
import WiseWay.StableSorting
import WiseWay.TopRows
import WiseWay.QueueStates
import WiseWay.Reconciliation
import WiseWay.ItemHistory
import WiseWay.Readiness
import WiseWay.Lookups
import WiseWay.FileNames
import WiseWay.ScannedNames
import WiseWay.PlanTotality
import WiseWay.TargetNames
import WiseWay.QueryLanguage
import WiseWay.BatchProgress
import WiseWay.ListPages
import WiseWay.PageTables
import WiseWay.PageStability
import WiseWay.SharedPages
import WiseWay.OrderedCodes
import WiseWay.NaturalBlob
import WiseWay.InstantKeys
import WiseWay.SlidingWindows
import WiseWay.LoginThrottle
import WiseWay.EntryIds
import WiseWay.Sweeps
import WiseWay.LargeIdentity
import WiseWay.ArchiveImport
import WiseWay.ImportVersions
import WiseWay.OrderedDicts
import WiseWay.IndexRevisions
import WiseWay.IndexCache
import WiseWay.ClientTransport
import WiseWay.RetriedKeys
import WiseWay.ClientSession
import WiseWay.TextCodecs
import WiseWay.JsonTexts
import WiseWay.JsonRoundTrips
import WiseWay.SearchCache
import WiseWay.CachedSearches
import WiseWay.RetryFetch
import WiseWay.PathTokens
import WiseWay.PosixPaths
import WiseWay.Sha256
import WiseWay.FileStores
import WiseWay.Snapshots
import WiseWay.SnapshotScans
import WiseWay.SnapshotCopies
import WiseWay.SnapshotManifests
import WiseWay.SnapshotRuns
import WiseWay.ColdSnapshots
import WiseWay.LastWriters
import WiseWay.ArchiveManifests
import WiseWay.PublishedArchives
import WiseWay.ExactSnapshots
import WiseWay.PublishedExactly
import WiseWay.ImportsInForce
import WiseWay.DeltaBases
import WiseWay.OutboxDrain
import WiseWay.OutboxDelivery
import WiseWay.StrandedBatches
import WiseWay.LargeScans
import WiseWay.LargePublication
import WiseWay.StagedScans
import WiseWay.StagedPublication
import WiseWay.LargeRuns
import WiseWay.Variants
import WiseWay.UndisturbedScans
import WiseWay.Groupings
import WiseWay.SqlSearch
import WiseWay.CandidateRows
import WiseWay.MarkerForest
import WiseWay.StoredFacets
import WiseWay.SearchTransactions
import WiseWay.PublishedAnswers
