import SymbolCache.Calendar
import SymbolCache.Command.Arguments
import SymbolCache.Command.Asking
import SymbolCache.Command.Invocation
import SymbolCache.Command.LegacyFilter
import SymbolCache.Command.Refreshing
import SymbolCache.Command.Run
import SymbolCache.Command.Script
import SymbolCache.Command.Statistics
import SymbolCache.Decimal.Binary64
import SymbolCache.Decimal.Shortest
import SymbolCache.Dict
import SymbolCache.FieldIndex.Basic
import SymbolCache.FieldIndex.Contribution
import SymbolCache.FieldIndex.Snapshot
import SymbolCache.FieldIndex.Update
import SymbolCache.Files.Action
import SymbolCache.Files.Path
import SymbolCache.Files.Snapshot
import SymbolCache.Files.Tree
import SymbolCache.Json.Decoder
import SymbolCache.Json.Printer
import SymbolCache.Json.Reader
import SymbolCache.Json.Value
import SymbolCache.Legacy.Header
import SymbolCache.Legacy.Json
import SymbolCache.Legacy.Object
import SymbolCache.Legacy.Printer
import SymbolCache.Legacy.Property
import SymbolCache.Legacy.Reader
import SymbolCache.Lexical.Block
import SymbolCache.Lexical.State
import SymbolCache.Log
import SymbolCache.Main
import SymbolCache.Object.Kind
import SymbolCache.Object.Record
import SymbolCache.Package.Archive
import SymbolCache.Package.Archive.Basic
import SymbolCache.Package.Archive.EndRecord
import SymbolCache.Package.Archive.Listing
import SymbolCache.Package.ArchiveWriter
import SymbolCache.Package.Artifact
import SymbolCache.Package.Checksum
import SymbolCache.Package.Digest
import SymbolCache.Package.Extraction
import SymbolCache.Package.Inflate
import SymbolCache.Proofs.ArtifactNames
import SymbolCache.Proofs.BenignFailures
import SymbolCache.Proofs.BlankedComments
import SymbolCache.Proofs.BlockLocation
import SymbolCache.Proofs.CacheWrites
import SymbolCache.Proofs.CatalogRecords
import SymbolCache.Proofs.CatalogViews
import SymbolCache.Proofs.CommentedUnits
import SymbolCache.Proofs.ConfinedChanges
import SymbolCache.Proofs.DeclarationReadback
import SymbolCache.Proofs.DictLookup
import SymbolCache.Proofs.DocumentKeys
import SymbolCache.Proofs.DocumentObjects
import SymbolCache.Proofs.Enclosure
import SymbolCache.Proofs.ExcludedDirectories
import SymbolCache.Proofs.ExportPieces
import SymbolCache.Proofs.ExtractedSources
import SymbolCache.Proofs.FailureMessages
import SymbolCache.Proofs.FieldHistory
import SymbolCache.Proofs.FieldLedger
import SymbolCache.Proofs.FieldRequests
import SymbolCache.Proofs.FileActions
import SymbolCache.Proofs.FilesBelow
import SymbolCache.Proofs.IncrementalScan
import SymbolCache.Proofs.InterruptedSave
import SymbolCache.Proofs.JsonReadback
import SymbolCache.Proofs.LegacyActions
import SymbolCache.Proofs.LegacyCode
import SymbolCache.Proofs.LegacyHeader
import SymbolCache.Proofs.LegacyRecords
import SymbolCache.Proofs.LegacyReread
import SymbolCache.Proofs.LegacyRoundTrip
import SymbolCache.Proofs.LegacySections
import SymbolCache.Proofs.LegacySurvivors
import SymbolCache.Proofs.LookupAgreement
import SymbolCache.Proofs.MergedRefreshes
import SymbolCache.Proofs.MessageReadback
import SymbolCache.Proofs.MessageStreams
import SymbolCache.Proofs.NestedBlocks
import SymbolCache.Proofs.NumberReadback
import SymbolCache.Proofs.PackageAnswers
import SymbolCache.Proofs.PackageDiscovery
import SymbolCache.Proofs.PackageFiles
import SymbolCache.Proofs.PathSteps
import SymbolCache.Proofs.PendingChanges
import SymbolCache.Proofs.PercentEscapes
import SymbolCache.Proofs.ProcedureHeaders
import SymbolCache.Proofs.ProcedureScan
import SymbolCache.Proofs.ProcedureSignatures
import SymbolCache.Proofs.ProcedureToggle
import SymbolCache.Proofs.ProcessFootprint
import SymbolCache.Proofs.PropertyListing
import SymbolCache.Proofs.ReachedDirectories
import SymbolCache.Proofs.RefreshHistory
import SymbolCache.Proofs.RefreshLifecycle
import SymbolCache.Proofs.RefreshMerge
import SymbolCache.Proofs.RefreshRuns
import SymbolCache.Proofs.RepeatedRefresh
import SymbolCache.Proofs.RequestLoop
import SymbolCache.Proofs.SavedCopies
import SymbolCache.Proofs.ScanMarks
import SymbolCache.Proofs.ScanRecovery
import SymbolCache.Proofs.ScopedUpdates
import SymbolCache.Proofs.ScratchDirectories
import SymbolCache.Proofs.SegmentNormalForm
import SymbolCache.Proofs.SnapshotFiles
import SymbolCache.Proofs.SoundTrees
import SymbolCache.Proofs.SourceDestinations
import SymbolCache.Proofs.StoreRefinement
import SymbolCache.Proofs.StraightPaths
import SymbolCache.Proofs.TextBytes
import SymbolCache.Proofs.TextPositions
import SymbolCache.Proofs.TextSplitting
import SymbolCache.Proofs.TextWords
import SymbolCache.Proofs.TopLevelRecords
import SymbolCache.Proofs.TreeChanges
import SymbolCache.Proofs.TreeFiles
import SymbolCache.Proofs.TreeNodes
import SymbolCache.Proofs.UnitOpenings
import SymbolCache.Proofs.Unpacking
import SymbolCache.Proofs.WorkerContacts
import SymbolCache.Proofs.WrittenNames
import SymbolCache.Query.Lookup
import SymbolCache.Refresh.Coordinator
import SymbolCache.Refresh.Report
import SymbolCache.Settings.Basic
import SymbolCache.Source.Catalog
import SymbolCache.Source.Declaration
import SymbolCache.Source.Definition
import SymbolCache.Source.Files
import SymbolCache.Source.Name
import SymbolCache.Source.Procedure
import SymbolCache.Source.Property
import SymbolCache.Store.Basic
import SymbolCache.Store.Snapshot
import SymbolCache.Symbols.Document
import SymbolCache.Text.Basic
import SymbolCache.Text.CharClass
import SymbolCache.Text.LowerCase
import SymbolCache.Text.Ranges
import SymbolCache.Text.Utf8
import SymbolCache.Toml.Document
import SymbolCache.Toml.Reader
import SymbolCache.Watch.Response
import SymbolCache.Watch.Trigger
import SymbolCache.Worker.Loop
import SymbolCache.Worker.Message
import SymbolCache.Worker.Peer
