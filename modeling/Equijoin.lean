import Equijoin.Main
import Equijoin.Proofs.Files.Entries
import Equijoin.Proofs.Tasks.Interleaving
import Equijoin.Proofs.Files.Places
import Equijoin.Proofs.Files.Views
import Equijoin.Proofs.Files.ScratchNames
import Equijoin.Proofs.Stages.Coercing
import Equijoin.Proofs.Stages.Splitting
import Equijoin.Proofs.Stages.Joining
import Equijoin.Proofs.Runs.Anatomy
import Equijoin.Proofs.Runs.Sequel
import Equijoin.Proofs.Runs.Schedules
import Equijoin.Proofs.Tables.Matching
import Equijoin.Proofs.Runs.Emission
import Equijoin.Proofs.Tables.Checks
import Equijoin.Proofs.Runs.Publication
import Equijoin.Proofs.Text.Encoding
import Equijoin.Proofs.Text.Records
import Equijoin.Proofs.Tables.Shards
import Equijoin.Proofs.Runs.Inputs
import Equijoin.Proofs.Runs.Refinement
import Equijoin.Proofs.Runs.Matches
import Equijoin.Proofs.Tasks.Guarantees
import Equijoin.Proofs.Stages.Releasing
import Equijoin.Proofs.Runs.Remains
import Equijoin.Proofs.Tables.Merging
import Equijoin.Proofs.Tables.Typing
import Equijoin.Proofs.Text.Headers
import Equijoin.Proofs.Runs.Descriptors
import Equijoin.Proofs.Tables.TextKeys
import Equijoin.Proofs.Runs.Promotions
import Equijoin.Proofs.Json.Reading
import Equijoin.Proofs.Json.Schemas
import Equijoin.Proofs.Number.Reading
import Equijoin.Proofs.Runs.Readback
import Equijoin.Proofs.Tasks.Progress
import Equijoin.Proofs.Tasks.Cancellation
import Equijoin.Proofs.Stages.Reports
import Equijoin.Proofs.Stages.Ledgers
import Equijoin.Proofs.Runs.Course
import Equijoin.Proofs.Runs.InFlight
import Equijoin.Proofs.Runs.Traces
import Equijoin.Proofs.Runs.Twins
import Equijoin.Proofs.Runs.Waits
import Equijoin.Proofs.Runs.Accounting
import Equijoin.Proofs.Text.Widths
import Equijoin.Proofs.Tables.Columns
import Equijoin.Proofs.Runs.Columns
import Equijoin.Proofs.Tables.KeyAtoms
import Equijoin.Proofs.Tables.IntegerKeys
import Equijoin.Proofs.Tables.NestedLoops
import Equijoin.Proofs.Tables.Partition
import Equijoin.Proofs.Tasks.Yields
import Equijoin.Proofs.Tables.Retyping
import Equijoin.Proofs.Stages.Scanning
import Equijoin.Proofs.Tables.Conflicts
import Equijoin.Proofs.Tables.CellFaults
import Equijoin.Proofs.Stages.CellFaults
import Equijoin.Proofs.Runs.CellFaults
import Equijoin.Proofs.Tables.Soundness
import Equijoin.Proofs.Tables.Bounds
import Equijoin.Proofs.Stages.Bounds
import Equijoin.Proofs.Runs.Bounds
import Equijoin.Proofs.Tables.Acceptance
import Equijoin.Proofs.Json.Descriptors
import Equijoin.Proofs.Text.Delimiters
import Equijoin.Proofs.Runs.Assembling
import Equijoin.Proofs.Tables.KeyBytes
import Equijoin.Proofs.Tasks.Confinement
import Equijoin.Proofs.Stages.Confinement
import Equijoin.Proofs.Runs.Separation
