import Okc.Lib.Check
import Okc.Lib.Text
import Okc.Lib.OrdMap
import Okc.Lib.Json
import Okc.Lib.FileTree
import Okc.Lib.Hoare
import Okc.Lib.Runs
import Okc.Lib.Table
import Okc.Lib.Search
import Okc.Core.Identity
import Okc.Core.Portable
import Okc.Core.Integration
import Okc.Core.Validate
import Okc.Core.Revision
import Okc.Core.Bulk
import Okc.Core.PlanId
import Okc.Core.Materialize
import Okc.Core.Retention
import Okc.Core.Lines
import Okc.Core.Artifact
import Okc.Core.Limits
import Okc.Core.Verification
import Okc.Core.Outputs
import Okc.Core.Publication
import Okc.Core.Compilation
import Okc.Core.Provenance
import Okc.Core.Wikilink
import Okc.Interop.Job
import Okc.Interop.Scheduler
import Okc.Interop.Cancellation
import Okc.Interop.Reservation
import Okc.Interop.Events
import Okc.App.Manifest
import Okc.App.Journal
import Okc.App.Store
import Okc.App.Configuration
import Okc.App.Review
import Okc.App.Plans
import Okc.App.Scanner
import Okc.App.Request
import Okc.App.Disclosure
import Okc.App.Execution
import Okc.App.Ledger
import Okc.App.Operations
import Okc.App.Progress
import Okc.App.Authority
import Okc.App.Worker
import Okc.App.Admission
import Okc.Core.Workspace
import Okc.Core.Policy
import Okc.Core.Allocation
import Okc.Core.Candidates
import Okc.Core.DocumentPaths
import Okc.Core.Inspection
import Okc.Core.LinkTarget
import Okc.Core.RelativeTarget
import Okc.App.Approval
import Okc.App.Regeneration
import Okc.Core.ByteScan
import Okc.Core.LinkSearch
import Okc.App.Conformance
import Okc.App.Selection
import Okc.Core.AnyOrder
import Okc.Core.ExactClasses
import Okc.Core.Fences
import Okc.Core.Reordering
import Okc.Core.Sections
import Okc.Core.ZipDirectory
import Okc.Lib.LinkTree
import Okc.App.OutputPath
import Okc.Core.Blocks
import Okc.Core.Corpus
import Okc.App.Backing
import Okc.App.CacheKeys
import Okc.App.Sealing
import Okc.App.Credentials
import Okc.App.Neighbors
import Okc.App.ScanLines
import Okc.Core.CanvasRewrite
import Okc.Core.Containment
import Okc.Core.SourcePaths
import Okc.Core.StrictJson
import Okc.App.CanonicalJson
import Okc.Core.BoundedReader
import Okc.Core.Preimages
import Okc.Core.SuffixedPaths
import Okc.Core.TypedIds
import Okc.Core.Frontmatter
import Okc.App.ClusterTasks
import Okc.App.OutputChecks
import Okc.Lib.Replay
import Okc.App.Currency
import Okc.App.Answers
import Okc.App.FirstCall
import Okc.App.Resume
import Okc.App.Completion
import Okc.Lib.Splice
import Okc.Core.MarkdownRewrite
import Okc.Core.MovedLinks
import Okc.Lib.Allot
import Okc.Core.OutputPlan
import Okc.Core.Plan
import Okc.Core.PlanCoverage
import Okc.Core.PlannedOutputs
import Okc.Core.PlanPaths
import Okc.Core.ResolvedRecords
import Okc.Core.AcceptedPlan
import Okc.Core.SealedSources
import Okc.Core.InspectedRecords
import Okc.Core.CheckedRecords
import Okc.Core.RecordedAmbiguities
import Okc.Core.BuiltPlan
