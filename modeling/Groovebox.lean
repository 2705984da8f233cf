import Groovebox.Step
import Groovebox.Item
import Groovebox.Table
import Groovebox.Pattern
import Groovebox.Duration
import Groovebox.Timeline
import Groovebox.Pause
import Groovebox.Edit
import Groovebox.Grouping
import Groovebox.BlockMove
import Groovebox.Selections
import Groovebox.Drag
import Groovebox.Diagnostics
import Groovebox.Events
import Groovebox.Text.Lines
import Groovebox.Text.Decimal
import Groovebox.Notation
import Groovebox.Song
import Groovebox.Log
import Groovebox.Config
import Groovebox.Editor
import Groovebox.Document
import Groovebox.Json.Printer
import Groovebox.Json.Lexeme
import Groovebox.Json.Value
import Groovebox.Song.Shape
import Groovebox.Json.Reader
import Groovebox.Song.Format
import Groovebox.Yaml.Token
import Groovebox.Yaml.Layout
import Groovebox.Command
import Groovebox.Command.Help
import Groovebox.Command.Line
import Groovebox.Display
import Groovebox.Session
import Groovebox.Completion
import Groovebox.History
import Groovebox.Variables
import Groovebox.Options
import Groovebox.Main
import Groovebox.Proofs.Saturation
import Groovebox.Proofs.Layout
import Groovebox.Proofs.Timelines
import Groovebox.Proofs.Strips
import Groovebox.Proofs.Rests
import Groovebox.Proofs.Tiling
import Groovebox.Proofs.Lifting
import Groovebox.Proofs.Planning
import Groovebox.Proofs.FreeStretches
import Groovebox.Proofs.Containers
import Groovebox.Proofs.CanonicalRests
import Groovebox.Proofs.Moves
import Groovebox.Proofs.Conservation
import Groovebox.Proofs.Landing
import Groovebox.Proofs.MovingBack
import Groovebox.Proofs.Inlining
import Groovebox.Proofs.FreshNames
import Groovebox.Proofs.Grouping
import Groovebox.Proofs.Ungrouping
import Groovebox.Proofs.Descent
import Groovebox.Proofs.Results
import Groovebox.Proofs.Operations
import Groovebox.Proofs.Anchors
import Groovebox.Proofs.Answers
import Groovebox.Proofs.Snapshots
import Groovebox.Proofs.PatternEdits
import Groovebox.Proofs.InPlace
import Groovebox.Proofs.Effects
import Groovebox.Proofs.Atomicity
import Groovebox.Proofs.Staleness
import Groovebox.Proofs.TypedItems
import Groovebox.Proofs.ShortestRests
import Groovebox.Proofs.Drops
import Groovebox.Proofs.Hovers
import Groovebox.Proofs.Isolation
import Groovebox.Proofs.Contents
import Groovebox.Proofs.Reached
import Groovebox.Proofs.CallLengths
import Groovebox.Proofs.References
import Groovebox.Proofs.Diagnostics
import Groovebox.Proofs.Numerals
import Groovebox.Proofs.Limits
import Groovebox.Proofs.Actions
import Groovebox.Proofs.Commands
import Groovebox.Proofs.Deselection
import Groovebox.Proofs.Grammar
import Groovebox.Proofs.Notation
import Groovebox.Proofs.SingleItems
import Groovebox.Proofs.Completions
import Groovebox.Proofs.Words
import Groovebox.Proofs.Joined
import Groovebox.Proofs.Quoting
import Groovebox.Proofs.Unlogged
import Groovebox.Proofs.Chains
import Groovebox.Proofs.TypedSongs
import Groovebox.Proofs.Echo
import Groovebox.Proofs.Regrouping
import Groovebox.Proofs.SongShape
import Groovebox.Proofs.Json.Lexemes
import Groovebox.Proofs.Json.Values
import Groovebox.Proofs.Json.Songs
import Groovebox.Proofs.Yaml.Scalars
import Groovebox.Proofs.Yaml.Layouts
import Groovebox.Proofs.Yaml.Steps
import Groovebox.Proofs.Yaml.Blocks
import Groovebox.Proofs.Yaml.Nodes
import Groovebox.Proofs.Yaml.Songs
