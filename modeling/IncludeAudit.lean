import IncludeAudit.Config
import IncludeAudit.Diagnostic.AnalysisError
import IncludeAudit.Diagnostic.Log
import IncludeAudit.Directive
import IncludeAudit.Engine.Standard
import IncludeAudit.FileName.Canonical
import IncludeAudit.Graph.ClosureCache
import IncludeAudit.Line.Order
import IncludeAudit.Mapping.Load
import IncludeAudit.Pattern.Basic
import IncludeAudit.Pattern.FileGlobs
import IncludeAudit.Proofs.Cover.Stability
import IncludeAudit.Proofs.Decision.Diagnostics
import IncludeAudit.Proofs.Decision.KeptLines
import IncludeAudit.Proofs.Decision.Necessity
import IncludeAudit.Proofs.Decision.Precedence
import IncludeAudit.Proofs.Decision.Redundancy
import IncludeAudit.Proofs.Decision.Removals
import IncludeAudit.Proofs.Decision.Tolerance
import IncludeAudit.Proofs.FileName.CanonicalNames
import IncludeAudit.Proofs.FileName.ReadingBack
import IncludeAudit.Proofs.Graph.ClosureCache
import IncludeAudit.Proofs.Graph.ShortestCycles
import IncludeAudit.Proofs.Line.Order
import IncludeAudit.Proofs.Mapping.Spellings
import IncludeAudit.Proofs.Provider.Candidates
import IncludeAudit.Proofs.Provider.Chains
import IncludeAudit.Proofs.Provider.DeadEnds
import IncludeAudit.Proofs.Provider.InternalDirectories
import IncludeAudit.Proofs.Provider.MappingOrder
import IncludeAudit.Proofs.Session.Builtins
import IncludeAudit.Proofs.Session.ExportRegions
import IncludeAudit.Proofs.Session.Interleaving
import IncludeAudit.Proofs.Session.JointEdits
import IncludeAudit.Proofs.Session.Listing
import IncludeAudit.Proofs.Session.NestedClasses
import IncludeAudit.Proofs.Session.OneOrigin
import IncludeAudit.Proofs.Session.Rerun
import IncludeAudit.Proofs.Session.Withdrawals
import IncludeAudit.Proofs.Symbol.Stores
import IncludeAudit.Proofs.Use.Classification
import IncludeAudit.Proofs.Use.DoubleInstantiation
import IncludeAudit.Proofs.Use.ExternTemplates
import IncludeAudit.Provider.View
import IncludeAudit.Session.Calls
import IncludeAudit.Session.CompilationUnit
import IncludeAudit.Symbol.Table
import IncludeAudit.Use.Attribution
import IncludeAudit.Use.Classification
