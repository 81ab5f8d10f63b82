import Reconciliation.Base.Sequence
import Reconciliation.Evidence.Signatures
import Reconciliation.Matching.Guarantees
import Reconciliation.Matching.Titles
import Reconciliation.Classification.Barrier
import Reconciliation.Classification.Reorders
import Reconciliation.Reports.CleanReport
import Reconciliation.Reports.Presence
import Reconciliation.Reports.Failures
import Reconciliation.Reports.ConfirmedPairs
import Reconciliation.Reports.PolicyLadder
import Reconciliation.Reports.References
import Reconciliation.Reports.IdentifiedDiff
import Reconciliation.Reports.MapOrder
import Reconciliation.Reports.Renaming
import Reconciliation.Reports.SelfComparison
import Reconciliation.Reports.Limits
import Reconciliation.Reports.Identifiers
import Reconciliation.Validation.RootedTrees
import Reconciliation.Reports.Repairs
import Reconciliation.Reports.MoveGeometry
import Reconciliation.Reports.Retention
import Reconciliation.Jobs.Redaction
import Reconciliation.Jobs.Executor
import Reconciliation.Adapters.Lossless
import Reconciliation.Reports.JsonMembers
import Reconciliation.Reports.Normalized
import Reconciliation.Alignment.Lcs
import Reconciliation.Contracts.Acyclic
import Reconciliation.Infrastructure.Logging
import Reconciliation.Infrastructure.ArtifactStore
import Reconciliation.Infrastructure.Decisions
import Reconciliation.Matching.ScoreAlgebra
import Reconciliation.Traversals
import Reconciliation.Adapters.ParsedTrees
import Reconciliation.Reports.Translations
import Reconciliation.Delivery.Api
import Reconciliation.Reports.PackagedDiff
import Reconciliation.Benchmark.Evaluator
import Reconciliation.Reports.TranslationJobs
