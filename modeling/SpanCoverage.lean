import SpanCoverage.Analysis.CoverageMap
import SpanCoverage.Digest
import SpanCoverage.Host.Machine
import SpanCoverage.Host.Replay
import SpanCoverage.Host.Session
import SpanCoverage.Identity
import SpanCoverage.Injection.Program
import SpanCoverage.Json.Document
import SpanCoverage.Json.Reader
import SpanCoverage.Payload.Report
import SpanCoverage.Program.Listing
import SpanCoverage.Proofs.Containment
import SpanCoverage.Proofs.Coverage
import SpanCoverage.Proofs.Exactness
import SpanCoverage.Proofs.Journal
import SpanCoverage.Proofs.Keeping
import SpanCoverage.Proofs.Ownership
import SpanCoverage.Proofs.ReadingOrder
import SpanCoverage.Proofs.SharedHits
import SpanCoverage.Proofs.Sharing
import SpanCoverage.Proofs.Transparency
import SpanCoverage.Span.Json
import SpanCoverage.Proofs.Displacement
import SpanCoverage.Proofs.Registration
import SpanCoverage.Proofs.Reloading
import SpanCoverage.Program.Enclosure
import SpanCoverage.Proofs.Acceptance
import SpanCoverage.Proofs.LeastLabels
import SpanCoverage.Payload.History
import SpanCoverage.Proofs.Histories
import SpanCoverage.Proofs.Windows
import SpanCoverage.Proofs.Origins
import SpanCoverage.Proofs.Walks
import SpanCoverage.Proofs.DeadCode
import SpanCoverage.Proofs.Gates
import SpanCoverage.Proofs.GatedRuns
import SpanCoverage.Proofs.BlockStructure
import SpanCoverage.Proofs.ForeignTables
import SpanCoverage.Host.Chronicle
import SpanCoverage.Proofs.Chronicles
import SpanCoverage.Proofs.Failures
import SpanCoverage.Program.Erasure
import SpanCoverage.Proofs.AddedProbes
import SpanCoverage.Proofs.PassThrough
import SpanCoverage.Proofs.SpanNodes
import SpanCoverage.Proofs.UnitOrder
import SpanCoverage.Proofs.Folding
import SpanCoverage.Proofs.Hereditary
import SpanCoverage.Proofs.SharedScopes
import SpanCoverage.Program.Hollow
import SpanCoverage.Proofs.Readiness
import SpanCoverage.Proofs.Isolation
import SpanCoverage.Proofs.ExactArithmetic
import SpanCoverage.Proofs.ReportText
import SpanCoverage.Json.Spelling
import SpanCoverage.Proofs.Spellings
import SpanCoverage.Span.Spelling
import SpanCoverage.Proofs.SpanTexts
import SpanCoverage.Text.Unquoted
import SpanCoverage.Program.Signs
import SpanCoverage.Program.Reading
import SpanCoverage.Proofs.Listings
