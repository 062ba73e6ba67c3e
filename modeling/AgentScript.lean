import AgentScript.Number.Text
import AgentScript.Number.Read
import AgentScript.Text.Quoted
import AgentScript.Token.Lexer
import AgentScript.Value
import AgentScript.Json.Printer
import AgentScript.Json.Reader
import AgentScript.Syntax
import AgentScript.Syntax.Parser
import AgentScript.Syntax.Codec
import AgentScript.Context
import AgentScript.Bot
import AgentScript.Machine
import AgentScript.Machine.Port
import AgentScript.Machine.Site
import AgentScript.Machine.Command
import AgentScript.Machine.Statement
import AgentScript.Machine.Execution
import AgentScript.Yaml.Cursor
import AgentScript.Yaml.Scalar
import AgentScript.Yaml.Reader
import AgentScript.Settings.File
import AgentScript.CommandLine.Options
import AgentScript.CommandLine.Folder
import AgentScript.CommandLine.Desk
import AgentScript.CommandLine.Run
import AgentScript.Main
import AgentScript.Proofs.Token.Lexeme
import AgentScript.Proofs.Syntax.Grammar
import AgentScript.Proofs.Token.Cut
import AgentScript.Proofs.Syntax.Command
import AgentScript.Proofs.Syntax.Statement
import AgentScript.Proofs.Syntax.Soundness
import AgentScript.Proofs.Syntax.Uniqueness
import AgentScript.Proofs.Syntax.Readable
import AgentScript.Proofs.Syntax.Exact
import AgentScript.Proofs.Machine.Command
import AgentScript.Proofs.Machine.Statement
import AgentScript.Proofs.Context.Shape
import AgentScript.Proofs.Machine.Scope
import AgentScript.Proofs.Machine.Keeps
import AgentScript.Proofs.Machine.Calm
import AgentScript.Proofs.Machine.Tracking
import AgentScript.Proofs.Machine.Watch
import AgentScript.Proofs.Machine.Heed
import AgentScript.Proofs.Machine.Stop
import AgentScript.Proofs.Context.Guard
import AgentScript.Proofs.Machine.Reach
import AgentScript.Proofs.Machine.Readonly
import AgentScript.Proofs.Syntax.Proper
import AgentScript.Proofs.Syntax.Places
import AgentScript.Proofs.Machine.Blame
import AgentScript.Proofs.Machine.Demand
import AgentScript.Proofs.Machine.Position
import AgentScript.Proofs.Bot.Tame
import AgentScript.Proofs.Machine.Outcome
import AgentScript.Proofs.Bot.World
import AgentScript.Proofs.Machine.Answers
import AgentScript.Proofs.Machine.Touch
import AgentScript.Proofs.Syntax.Extent
import AgentScript.Proofs.Syntax.Viable
import AgentScript.Proofs.Syntax.Earliest
import AgentScript.Proofs.Number.Shortest
import AgentScript.Proofs.Number.Numeral
import AgentScript.Proofs.Json.Number
import AgentScript.Proofs.Json.RoundTrip
import AgentScript.Proofs.Syntax.Codec
import AgentScript.Proofs.Syntax.Legible
import AgentScript.Proofs.CommandLine.Folder
import AgentScript.Proofs.CommandLine.Emit
import AgentScript.Proofs.Machine.Scripted
import AgentScript.Proofs.CommandLine.Stored
import AgentScript.Proofs.Machine.Release
import AgentScript.Proofs.Context.Readings
import AgentScript.Proofs.Machine.Telemetry
import AgentScript.Proofs.Syntax.Match
import AgentScript.Proofs.Machine.Tie
import AgentScript.Proofs.Machine.Twin
import AgentScript.Proofs.Bot.Tie
import AgentScript.Proofs.Bot.Silent
import AgentScript.Proofs.Context.Recast
import AgentScript.Proofs.Machine.Recast
import AgentScript.Proofs.Machine.Renaming
import AgentScript.Proofs.Syntax.Layout
import AgentScript.Proofs.Machine.Layout
import AgentScript.Proofs.Context.Agreement
import AgentScript.Proofs.Machine.Sequel
import AgentScript.Proofs.Context.Overlap
import AgentScript.Proofs.Machine.Mention
import AgentScript.Proofs.Machine.Escort
import AgentScript.Proofs.Machine.Siege
import AgentScript.Proofs.Syntax.Reread
import AgentScript.Proofs.Token.Newline
import AgentScript.Proofs.Syntax.Concatenation
import AgentScript.Proofs.Syntax.Enclosure
import AgentScript.Proofs.Machine.Arguments
import AgentScript.Proofs.Machine.History
import AgentScript.Proofs.Machine.Permit
import AgentScript.Proofs.Number.Unpacked
import AgentScript.Proofs.Number.Order
import AgentScript.Proofs.Number.Rounding
import AgentScript.Proofs.Number.Addition
import AgentScript.Proofs.Bot.Inventory
import AgentScript.Proofs.Machine.Stock
import AgentScript.Proofs.Machine.Journey
import AgentScript.Proofs.Token.Rendering
import AgentScript.Proofs.Machine.Kinds
import AgentScript.Proofs.Number.Floor
import AgentScript.Proofs.Machine.Laps
import AgentScript.Proofs.Machine.Chronicle
import AgentScript.Proofs.Machine.Tally
import AgentScript.Proofs.Context.Action
import AgentScript.Proofs.Context.Height
import AgentScript.Proofs.Context.Sound
import AgentScript.Proofs.Context.Upsert
import AgentScript.Proofs.Context.Visible
import AgentScript.Proofs.Syntax.Logic
import AgentScript.Proofs.Number.Rank
import AgentScript.Proofs.Machine.Limits
import AgentScript.Proofs.Bot.Nearest
import AgentScript.Proofs.Machine.Target
import AgentScript.Proofs.Text.Quoted
import AgentScript.Proofs.CommandLine.Listing
import AgentScript.Proofs.Syntax.Progress
