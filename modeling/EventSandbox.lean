import EventSandbox.Status
import EventSandbox.Text.Utf8
import EventSandbox.Number.Shortest
import EventSandbox.Json.Printer
import EventSandbox.Json.Parser
import EventSandbox.Log
import EventSandbox.Memory
import EventSandbox.Config.Json
import EventSandbox.Config.Toml
import EventSandbox.Budget
import EventSandbox.Guest.Run
import EventSandbox.Guest.Exec
import EventSandbox.Session
import EventSandbox.Pool.Holders
import EventSandbox.Processor.Interleaving
import EventSandbox.Processor.Nested
import EventSandbox.Wasm.Module
import EventSandbox.Cli.Directory
import EventSandbox.Main
import EventSandbox.Proofs.Guest.Trace
import EventSandbox.Proofs.Guest.Path
import EventSandbox.Proofs.Guest.HostCall
import EventSandbox.Proofs.Guest.OwnStep
import EventSandbox.Proofs.Guest.Traversal
import EventSandbox.Proofs.Guest.Rules
import EventSandbox.Proofs.Guest.Evolution
import EventSandbox.Proofs.Memory.Growth
import EventSandbox.Proofs.Guest.Startup
import EventSandbox.Proofs.Guest.Server
import EventSandbox.Proofs.Json.Fields
import EventSandbox.Proofs.Session
import EventSandbox.Proofs.Processor.Traffic
import EventSandbox.Proofs.Processor.Process
import EventSandbox.Proofs.Processor.Capacity
import EventSandbox.Proofs.Processor.Isolation
import EventSandbox.Proofs.Processor.Sequence
import EventSandbox.Proofs.Guest.Limits
import EventSandbox.Proofs.Pool.Callers
import EventSandbox.Proofs.Pool.Occupancy
import EventSandbox.Proofs.Json.Grammar
import EventSandbox.Proofs.Json.Token
import EventSandbox.Proofs.Json.Parser
import EventSandbox.Proofs.Json.Printer
import EventSandbox.Proofs.Json.Encoding
import EventSandbox.Proofs.Guest.RoundTrip
import EventSandbox.Proofs.Json.Canonical
import EventSandbox.Proofs.Guest.Lifecycle
import EventSandbox.Proofs.Guest.Effects
import EventSandbox.Proofs.Guest.Imports
import EventSandbox.Proofs.Guest.Creation
import EventSandbox.Proofs.Cli.Lines
import EventSandbox.Proofs.Cli.Crew
import EventSandbox.Proofs.Cli.Share
import EventSandbox.Proofs.Cli.Schedule
import EventSandbox.Proofs.Cli.Stages
import EventSandbox.Proofs.Cli.Exact
import EventSandbox.Proofs.Processor.Independent
import EventSandbox.Proofs.Cli.Confluence
import EventSandbox.Proofs.Json.Depth
import EventSandbox.Proofs.Guest.Puts
import EventSandbox.Proofs.Cli.Chain
import EventSandbox.Proofs.Cli.Ending
import EventSandbox.Proofs.Guest.Confinement
import EventSandbox.Proofs.Guest.CleanFailure
import EventSandbox.Proofs.Memory.Text
import EventSandbox.Proofs.Guest.Handover
import EventSandbox.Proofs.Guest.Channel
import EventSandbox.Proofs.Processor.Phases
import EventSandbox.Proofs.Number.Rank
import EventSandbox.Proofs.Number.Nearest
import EventSandbox.Proofs.Number.Arithmetic
import EventSandbox.Proofs.Number.Shortest
import EventSandbox.Proofs.Number.Reading
import EventSandbox.Proofs.Json.Float
import EventSandbox.Proofs.Json.Reread
import EventSandbox.Proofs.Guest.Floats
import EventSandbox.Proofs.Guest.Messages
import EventSandbox.Proofs.Config.Decoding
import EventSandbox.Proofs.Guest.Accounts
import EventSandbox.Proofs.Json.Meaning
import EventSandbox.Proofs.Memory.Access
import EventSandbox.Proofs.Budget
