import TerminalFeed.Config
import TerminalFeed.Decoder
import TerminalFeed.Envelope
import TerminalFeed.Frame
import TerminalFeed.Framing
import TerminalFeed.Json.Basic
import TerminalFeed.Json.Frames
import TerminalFeed.Json.Reader
import TerminalFeed.Limits
import TerminalFeed.Main
import TerminalFeed.Parser
import TerminalFeed.Proofs.Accounts
import TerminalFeed.Proofs.Arrivals
import TerminalFeed.Proofs.Backtracking
import TerminalFeed.Proofs.Barrier
import TerminalFeed.Proofs.Blocks
import TerminalFeed.Proofs.Chunks
import TerminalFeed.Proofs.Conservation
import TerminalFeed.Proofs.Delivery
import TerminalFeed.Proofs.Encoding
import TerminalFeed.Proofs.Envelopes
import TerminalFeed.Proofs.Findings
import TerminalFeed.Proofs.Finishing
import TerminalFeed.Proofs.Flushing
import TerminalFeed.Proofs.Greeting
import TerminalFeed.Proofs.Halting
import TerminalFeed.Proofs.LaneOrder
import TerminalFeed.Proofs.Layers
import TerminalFeed.Proofs.Ledger
import TerminalFeed.Proofs.Leniency
import TerminalFeed.Proofs.Lines
import TerminalFeed.Proofs.Notifying
import TerminalFeed.Proofs.Occurrences
import TerminalFeed.Proofs.PauseCounts
import TerminalFeed.Proofs.Pauses
import TerminalFeed.Proofs.Permits
import TerminalFeed.Proofs.Playing
import TerminalFeed.Proofs.Preemption
import TerminalFeed.Proofs.Priority
import TerminalFeed.Proofs.Reading
import TerminalFeed.Proofs.Replaying
import TerminalFeed.Proofs.Resuming
import TerminalFeed.Proofs.Runs
import TerminalFeed.Proofs.Scanning
import TerminalFeed.Proofs.Shadowing
import TerminalFeed.Proofs.SlotBalance
import TerminalFeed.Proofs.SourceText
import TerminalFeed.Proofs.Speech
import TerminalFeed.Proofs.Stashing
import TerminalFeed.Proofs.Strides
import TerminalFeed.Proofs.TaskOrder
import TerminalFeed.Proofs.Transcript
import TerminalFeed.Proofs.Transitions
import TerminalFeed.Proofs.Undisturbed
import TerminalFeed.Proofs.Waiting
import TerminalFeed.Proofs.WellFormed
import TerminalFeed.Replay.Arguments
import TerminalFeed.Replay.Command
import TerminalFeed.Replay.Stream
import TerminalFeed.Scenario.Phases
import TerminalFeed.Scenario.Script
import TerminalFeed.Scenario.SourceTree
import TerminalFeed.Scenario.World
import TerminalFeed.Scheduler.Batch
import TerminalFeed.Scheduler.Effects
import TerminalFeed.Scheduler.Executor
import TerminalFeed.Scheduler.Idle
import TerminalFeed.Scheduler.Lanes
import TerminalFeed.Scheduler.Pause
import TerminalFeed.Scheduler.Scheduler
import TerminalFeed.Scheduler.Slots
import TerminalFeed.SourceRules
import TerminalFeed.SourceRules.Basic
import TerminalFeed.Text.Blank
import TerminalFeed.Text.Decimal
import TerminalFeed.Text.Magnitude
import TerminalFeed.Text.Quoted
import TerminalFeed.Text.Unprintable
import TerminalFeed.Text.Utf8
import TerminalFeed.Toml.Reader
import TerminalFeed.Toml.Table
import TerminalFeed.Violation
