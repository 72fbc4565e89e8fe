import CircuitNames.Circuit.Literal
import CircuitNames.Main
import CircuitNames.Proofs.Binds
import CircuitNames.Proofs.Declarations
import CircuitNames.Proofs.FormedCircuits
import CircuitNames.Proofs.DecodedCircuits
import CircuitNames.Proofs.TargetText
import CircuitNames.Proofs.LedgerNames
import CircuitNames.Proofs.Picks
import CircuitNames.Proofs.SweepActions
import CircuitNames.Proofs.SweepRun
import CircuitNames.Proofs.SweepNames
import CircuitNames.Proofs.SweepScopes
import CircuitNames.Proofs.ModuleOrder
import CircuitNames.Proofs.ModuleRanks
import CircuitNames.Proofs.DeclaredTargets
import CircuitNames.Proofs.CircuitSweep
import CircuitNames.Proofs.MappedStatements
import CircuitNames.Proofs.ExpressionUses
import CircuitNames.Proofs.SweepBindings
import CircuitNames.Proofs.SettledUses
import CircuitNames.Proofs.PassRun
import CircuitNames.Proofs.RenamedModules
import CircuitNames.Proofs.CollisionFreedom
import CircuitNames.Proofs.Designation
import CircuitNames.Proofs.Renaming
import CircuitNames.Proofs.References
import CircuitNames.Proofs.Selections
import CircuitNames.Proofs.LaterScopes
import CircuitNames.Proofs.MainModule
import CircuitNames.Proofs.IdentifierNames
import CircuitNames.Proofs.Addresses
import CircuitNames.Proofs.RegularLedgers
import CircuitNames.Proofs.IdentifiedResults
import CircuitNames.Proofs.HierarchicalTargets
import CircuitNames.Proofs.PassResults
import CircuitNames.Proofs.ComposedLedgers
import CircuitNames.Proofs.SequentialTracks
import CircuitNames.Proofs.Sites
import CircuitNames.Proofs.TrackedSites
import CircuitNames.Proofs.TrackedUses
import CircuitNames.Proofs.RepeatedPasses
import CircuitNames.Proofs.Histories
import CircuitNames.Proofs.Places
import CircuitNames.Proofs.Pipelines
import CircuitNames.Proofs.Entities
import CircuitNames.Proofs.RecordedChanges
import CircuitNames.Proofs.Alongside
import CircuitNames.Proofs.Lockstep
import CircuitNames.Proofs.LockstepRuns
import CircuitNames.Proofs.AgreeingSweeps
import CircuitNames.Proofs.SkipLocality
import CircuitNames.Proofs.KeyedLedgers
import CircuitNames.Proofs.SoundLedgers
import CircuitNames.Proofs.PassForms
import CircuitNames.Proofs.WrittenLedgers
import CircuitNames.Proofs.Tasks
import CircuitNames.Proofs.SplitPipelines
import CircuitNames.Proofs.DecimalValues
import CircuitNames.Proofs.Roundings
import CircuitNames.Proofs.RegularJson
import CircuitNames.Proofs.NumberTexts
import CircuitNames.Proofs.WholeNumbers
import CircuitNames.Proofs.QuotedTexts
import CircuitNames.Proofs.WrittenJson
import CircuitNames.Proofs.InterchangeForms
import CircuitNames.Proofs.ReadObjects
import CircuitNames.Proofs.ReadLedgers
import CircuitNames.Proofs.WrittenResults
import CircuitNames.Proofs.ModuleTurns
import CircuitNames.Proofs.Holders
import CircuitNames.Proofs.Relabels
import CircuitNames.Proofs.Traversals
import CircuitNames.Proofs.KeptNames
import CircuitNames.Proofs.FailingRuns
import CircuitNames.Proofs.Frames
import CircuitNames.Proofs.FixedPoints
import CircuitNames.Proofs.OrderIndependence
import CircuitNames.Proofs.ModuleLayout
import CircuitNames.Proofs.RunFaults
import CircuitNames.Proofs.SharedLedgers
import CircuitNames.Proofs.KeywordEscapes
import CircuitNames.Proofs.AbridgedJson
import CircuitNames.Proofs.FieldReads
import CircuitNames.Proofs.AcceptedExpressions
import CircuitNames.Proofs.AcceptedStatements
import CircuitNames.Proofs.KeyedValues
import CircuitNames.Proofs.AcceptedCircuits
import CircuitNames.Proofs.OrderFaults
import CircuitNames.Proofs.TargetGrammar
import CircuitNames.Proofs.AcceptedLedgers
import CircuitNames.Proofs.LedgerStores
import CircuitNames.Proofs.CanonicalLedgers
import CircuitNames.Proofs.ScopeHistories
import CircuitNames.Proofs.Allocations
import CircuitNames.Proofs.LeastNames
import CircuitNames.Proofs.ReadSkips
import CircuitNames.Proofs.SpelledExpressions
import CircuitNames.Proofs.LiteralValues
import CircuitNames.Proofs.ExpressionTexts
import CircuitNames.Proofs.AcceptedConfigs
import CircuitNames.Proofs.ArgumentGrammar
import CircuitNames.Proofs.WrittenFiles
import CircuitNames.Proofs.PrintedLines
import CircuitNames.Proofs.PrintedSuites
