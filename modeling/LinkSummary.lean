import LinkSummary.Store.Builder
import LinkSummary.Merged
import LinkSummary.Query
import LinkSummary.Store.Json
import LinkSummary.Outline.Printer
import LinkSummary.Outline.Reader
import LinkSummary.Files.Disk
import LinkSummary.Files.SummaryFile
import LinkSummary.CommandLine.Plan
import LinkSummary.Main
import LinkSummary.Proofs.IdMap
import LinkSummary.Proofs.Symbol.Indexed
import LinkSummary.Proofs.Store.WellFormed
import LinkSummary.Proofs.Store.Inheritance
import LinkSummary.Proofs.Store.Named
import LinkSummary.Proofs.Store.History
import LinkSummary.Proofs.Store.Lineage
import LinkSummary.Proofs.Builder.Refusal
import LinkSummary.Proofs.Store.Refusal
import LinkSummary.Proofs.Dispatch
import LinkSummary.Proofs.Dispatch.Scan
import LinkSummary.Proofs.Program
import LinkSummary.Proofs.Program.Inheritance
import LinkSummary.Proofs.Query
import LinkSummary.Proofs.Outline
import LinkSummary.Proofs.Binary.Cursor
import LinkSummary.Proofs.Binary.Records
import LinkSummary.Proofs.Binary.RoundTrip
import LinkSummary.Proofs.Binary.Grammar
import LinkSummary.Proofs.Binary.Recognizes
import LinkSummary.Proofs.Binary.Frames
import LinkSummary.Proofs.Binary.Listing
import LinkSummary.Proofs.Binary.Accepted
import LinkSummary.Proofs.Binary.Language
import LinkSummary.Proofs.Binary.Canonical
import LinkSummary.Proofs.Binary.Truncation
import LinkSummary.Proofs.Binary.Skipping
import LinkSummary.Proofs.Binary.Newer
import LinkSummary.Proofs.Binary.Confined
import LinkSummary.Proofs.Binary.Bounds
import LinkSummary.Proofs.Binary.Consumption
import LinkSummary.Proofs.Builder
import LinkSummary.Proofs.Liveness.Raises
import LinkSummary.Proofs.Liveness.Reachability
import LinkSummary.Proofs.Liveness.Named
import LinkSummary.Proofs.Liveness.Trace
import LinkSummary.Proofs.Liveness.Settled
import LinkSummary.Proofs.Liveness.Justified
import LinkSummary.Proofs.Liveness.Shortest
import LinkSummary.Proofs.Merge.Union
import LinkSummary.Proofs.Merge.Contribution
import LinkSummary.Proofs.Merge.Named
import LinkSummary.Proofs.Merge.Growth
import LinkSummary.Proofs.Merge.Combined
import LinkSummary.Proofs.Merged
import LinkSummary.Proofs.Merged.Union
import LinkSummary.Proofs.Merged.Named
import LinkSummary.Proofs.Merged.Order
import LinkSummary.Proofs.Merged.Growth
import LinkSummary.Proofs.Merged.Increment
import LinkSummary.Proofs.Merged.Repetition
import LinkSummary.Proofs.Merged.Explained
import LinkSummary.Proofs.Merged.Answers
import LinkSummary.Proofs.Merged.Qualification
import LinkSummary.Proofs.Merged.Conformance
import LinkSummary.Proofs.Merged.Diagnostics
import LinkSummary.Proofs.Outline.Program
import LinkSummary.Proofs.Outline.Restored
import LinkSummary.Proofs.Files.Disk
import LinkSummary.Proofs.CommandLine.Arguments
import LinkSummary.Proofs.CommandLine.Merge
import LinkSummary.Proofs.CommandLine.Output
import LinkSummary.Proofs.Json.Spelling
import LinkSummary.Proofs.Json.Reading
import LinkSummary.Proofs.Json.Flags
import LinkSummary.Proofs.Store.Json
import LinkSummary.Proofs.Binary.Word
import LinkSummary.Proofs.Liveness.Walk
import LinkSummary.Proofs.Store.Settling
