import StagedLowering.Pipeline
import StagedLowering.Script.Body
import StagedLowering.Verdict
import StagedLowering.Tree.Edit
import StagedLowering.Config.Setting
import StagedLowering.Proofs.Forest
import StagedLowering.Proofs.Reachable
import StagedLowering.Proofs.TreeShape
import StagedLowering.Proofs.Links
import StagedLowering.Proofs.FlatTree
import StagedLowering.Proofs.Wrapping
import StagedLowering.Proofs.Execution
import StagedLowering.Proofs.Frames
import StagedLowering.Proofs.Passes
import StagedLowering.Proofs.Preservation
import StagedLowering.Proofs.Schedule
import StagedLowering.Proofs.FileLowering
import StagedLowering.Proofs.Aliases
import StagedLowering.Proofs.Rebinding
import StagedLowering.Proofs.Resolution
import StagedLowering.Proofs.Settling
import StagedLowering.Proofs.Ladder
import StagedLowering.Proofs.Rounds
import StagedLowering.Proofs.Binding
import StagedLowering.Proofs.ModuleLowering
import StagedLowering.Proofs.Traces
import StagedLowering.Proofs.Acceptance
import StagedLowering.Proofs.Limits
import StagedLowering.Proofs.Soundness
import StagedLowering.Proofs.Targets
import StagedLowering.Proofs.Readiness
import StagedLowering.Proofs.Refusals
import StagedLowering.Proofs.Calls
import StagedLowering.Proofs.Chronicle
import StagedLowering.Proofs.Levels
import StagedLowering.Proofs.Foretelling
import StagedLowering.Proofs.Policies
import StagedLowering.Proofs.Gains
import StagedLowering.Proofs.Independence
import StagedLowering.Proofs.AtRest
import StagedLowering.Proofs.Retracing
import StagedLowering.Proofs.Relowering
import StagedLowering.Proofs.Interruption
import StagedLowering.Proofs.Cancellation
import StagedLowering.Proofs.Leaving
import StagedLowering.Proofs.Scopes
import StagedLowering.Proofs.Reporting
import StagedLowering.Proofs.Observation
import StagedLowering.Proofs.Census
import StagedLowering.Proofs.Tallies
import StagedLowering.Proofs.Balance
import StagedLowering.Proofs.Building
import StagedLowering.Proofs.Entries
import StagedLowering.Proofs.Options
import StagedLowering.Proofs.Printing
import StagedLowering.Proofs.Rendering
import StagedLowering.Proofs.Ordering
import StagedLowering.Proofs.Faults
import StagedLowering.Proofs.Opening
import StagedLowering.Proofs.Unblocking
import StagedLowering.Proofs.Logs
import StagedLowering.Proofs.Repairing
import StagedLowering.Proofs.Staleness
import StagedLowering.Proofs.Introducing
import StagedLowering.Proofs.TemporaryNames
import StagedLowering.Proofs.Repeating
import StagedLowering.Proofs.Places
import StagedLowering.Proofs.Collecting
import StagedLowering.Proofs.Callees
import StagedLowering.Proofs.Agreement
import StagedLowering.Proofs.Sites
import StagedLowering.Proofs.Charting
import StagedLowering.Proofs.Surveying
import StagedLowering.Proofs.LineEnds
import StagedLowering.Proofs.Judging
import StagedLowering.Proofs.Searching
