import CqlConsole.Cli.Arguments
import CqlConsole.Cli.Effective
import CqlConsole.Cli.Options
import CqlConsole.Cli.Report
import CqlConsole.Cli.Run
import CqlConsole.Cli.Transcript
import CqlConsole.Cli.Usage
import CqlConsole.Cli.Word
import CqlConsole.Completion.Catalog
import CqlConsole.Completion.Rank
import CqlConsole.Completion.Suggestion
import CqlConsole.Completion.Walk
import CqlConsole.Error
import CqlConsole.Files.Disk
import CqlConsole.Files.Tree
import CqlConsole.Insert.State
import CqlConsole.Insert.Statement
import CqlConsole.Insert.Walk
import CqlConsole.Json
import CqlConsole.Literal
import CqlConsole.Main
import CqlConsole.Number.Binary64
import CqlConsole.Number.Hex
import CqlConsole.Number.Layout
import CqlConsole.Number.Numeral
import CqlConsole.Number.Shortest
import CqlConsole.Proofs.Insert.Acceptance
import CqlConsole.Proofs.Insert.Arity
import CqlConsole.Proofs.Insert.Balance
import CqlConsole.Proofs.Insert.Grammar
import CqlConsole.Proofs.Insert.Language
import CqlConsole.Proofs.Insert.Layout
import CqlConsole.Proofs.Insert.Placement
import CqlConsole.Proofs.Insert.PrintedText
import CqlConsole.Proofs.Insert.RoundTrip
import CqlConsole.Proofs.Insert.TokenWalk
import CqlConsole.Proofs.Insert.Viability
import CqlConsole.Proofs.Completion.Order
import CqlConsole.Proofs.Completion.Question
import CqlConsole.Proofs.Completion.Relisting
import CqlConsole.Proofs.Completion.TypeAhead
import CqlConsole.Proofs.Text.Encoding
import CqlConsole.Proofs.Token.Depth
import CqlConsole.Proofs.Token.Exactness
import CqlConsole.Proofs.Token.Forms
import CqlConsole.Proofs.Token.Growth
import CqlConsole.Proofs.Token.Layout
import CqlConsole.Proofs.Token.Pieces
import CqlConsole.Proofs.Token.RunEnd
import CqlConsole.Proofs.Token.Solid
import CqlConsole.Proofs.Token.Tiling
import CqlConsole.Proofs.Trie.Contents
import CqlConsole.Proofs.Trie.Edges
import CqlConsole.Proofs.Trie.Remainders
import CqlConsole.Release
import CqlConsole.Render.Grid
import CqlConsole.Render.Output
import CqlConsole.Schema.Address
import CqlConsole.Schema.Document
import CqlConsole.Schema.Snapshot
import CqlConsole.Schema.Version
import CqlConsole.Settings.Basic
import CqlConsole.Settings.Document
import CqlConsole.Settings.File
import CqlConsole.Settings.Level
import CqlConsole.Shell.Command
import CqlConsole.Shell.Highlight
import CqlConsole.Shell.Prompt
import CqlConsole.Shell.Session
import CqlConsole.Shell.Submission
import CqlConsole.Statement
import CqlConsole.Text.Blank
import CqlConsole.Text.Bytes
import CqlConsole.Text.CodePoints
import CqlConsole.Text.Ligature
import CqlConsole.Text.Lines
import CqlConsole.Text.Picture
import CqlConsole.Text.Quoted
import CqlConsole.Text.Shown
import CqlConsole.Text.Width
import CqlConsole.Token.Basic
import CqlConsole.Token.Classify
import CqlConsole.Token.Cursor
import CqlConsole.Token.Run
import CqlConsole.Toml.Codec
import CqlConsole.Toml.Node
import CqlConsole.Toml.Reader
import CqlConsole.Toml.Scalar
import CqlConsole.Toml.Strings
import CqlConsole.Toml.Writer
import CqlConsole.Trie
import CqlConsole.Uuid
import CqlConsole.Proofs.Completion.Lookup
import CqlConsole.Proofs.Token.Names
import CqlConsole.Proofs.Completion.Places
import CqlConsole.Proofs.Completion.Acceptance
import CqlConsole.Proofs.Schema.Lookup
import CqlConsole.Proofs.Completion.Writing
import CqlConsole.Proofs.Shell.Openings
import CqlConsole.Proofs.Shell.Submission
import CqlConsole.Proofs.Number.Reading
import CqlConsole.Proofs.Literal.Display
import CqlConsole.Proofs.Token.Passage
import CqlConsole.Proofs.Insert.Calls
import CqlConsole.Proofs.Trie.Shape
import CqlConsole.Proofs.Trie.Canonical
import CqlConsole.Proofs.Insert.Stages
import CqlConsole.Proofs.Shell.Agreement
import CqlConsole.Proofs.Token.Matching
import CqlConsole.Proofs.Shell.Rule
import CqlConsole.Proofs.Toml.Strings
import CqlConsole.Proofs.Toml.Values
import CqlConsole.Proofs.Toml.Documents
import CqlConsole.Proofs.Toml.Codec
import CqlConsole.Proofs.Settings.RoundTrip
import CqlConsole.Proofs.Render.Failure
import CqlConsole.Proofs.Completion.Listed
import CqlConsole.Proofs.Number.Overflow
import CqlConsole.Proofs.Number.Numerals
import CqlConsole.Proofs.Literal.Decoding
import CqlConsole.Proofs.Literal.Infinity
import CqlConsole.Proofs.Token.Appending
import CqlConsole.Proofs.Schema.Resolution
import CqlConsole.Proofs.Schema.Quoting
import CqlConsole.Proofs.Completion.Menu
import CqlConsole.Proofs.Schema.VersionForm
import CqlConsole.Proofs.Schema.VersionText
import CqlConsole.Proofs.Cli.Paths
import CqlConsole.Proofs.Cli.Effective
import CqlConsole.Proofs.Shell.Highlighting
import CqlConsole.Proofs.Trie.CommonStart
