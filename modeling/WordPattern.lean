import WordPattern.Bindings
import WordPattern.Buffer
import WordPattern.CommandLine
import WordPattern.Decimal.Binary
import WordPattern.Decimal.Numeral
import WordPattern.Decimal.Shortest
import WordPattern.Expr.Basic
import WordPattern.Expr.Eval
import WordPattern.Expr.Parser
import WordPattern.Expr.Value
import WordPattern.Files.Path
import WordPattern.Files.Store
import WordPattern.Files.Tree
import WordPattern.Main
import WordPattern.Pattern.Basic
import WordPattern.Pattern.Match
import WordPattern.Pattern.Parser
import WordPattern.Pattern.Scan
import WordPattern.Pattern.Search
import WordPattern.Pattern.Step
import WordPattern.Program.Basic
import WordPattern.Program.Parser
import WordPattern.Session.Basic
import WordPattern.Session.Recorded
import WordPattern.Session.Run
import WordPattern.Source.Error
import WordPattern.Text.Case
import WordPattern.Text.CaseTable
import WordPattern.Text.Character
import WordPattern.Text.Quoted
import WordPattern.Text.Utf8
import WordPattern.Token.Basic
import WordPattern.Token.Keyword
import WordPattern.Token.Lexer
import WordPattern.Token.Parsed
import WordPattern.Pattern.Walk
import WordPattern.Proofs.Walk.Moves
import WordPattern.Proofs.Walk.Equations
import WordPattern.Proofs.Walk.Cursor
import WordPattern.Proofs.Search.Tasks
import WordPattern.Proofs.Walk.Machine
import WordPattern.Proofs.Search.Limits
import WordPattern.Pattern.Tree
import WordPattern.Proofs.Tree.Order
import WordPattern.Proofs.Tree.Verdict
import WordPattern.Proofs.Tree.Bodies
import WordPattern.Proofs.Tree.Rounds
import WordPattern.Proofs.Walk.Means
import WordPattern.Proofs.Walk.Loops
import WordPattern.Proofs.Walk.Outcomes
import WordPattern.Proofs.Scan.Turns
import WordPattern.Proofs.Scan.Leftmost
import WordPattern.Proofs.Scan.Window
import WordPattern.Proofs.Replace.Spans
import WordPattern.Proofs.Text.Lossy
import WordPattern.Proofs.Replace.Identity
import WordPattern.Proofs.Pattern.Elements
import WordPattern.Proofs.Search.Ending
import WordPattern.Proofs.Bindings
import WordPattern.Proofs.Search.Suffix
import WordPattern.Proofs.Text.Suffix
import WordPattern.Proofs.Tree.Compare
import WordPattern.Proofs.Tree.Varies
import WordPattern.Proofs.Walk.Reordering
import WordPattern.Proofs.Walk.Unfolding
import WordPattern.Proofs.Files.Dialogue
import WordPattern.Proofs.Session.Unrolled
import WordPattern.Proofs.Session.Flush
import WordPattern.Proofs.Session.Statements
import WordPattern.Proofs.Session.Stores
import WordPattern.Proofs.Session.Apart
import WordPattern.Proofs.Session.Failure
import WordPattern.Proofs.Session.History
import WordPattern.Proofs.Session.Recorded
import WordPattern.Proofs.Session.Saved
import WordPattern.Proofs.Session.Overwritten
import WordPattern.Proofs.Session.Parts
import WordPattern.Pattern.Grammar
import WordPattern.Proofs.Token.Reads
import WordPattern.Proofs.Pattern.Derives
import WordPattern.Proofs.Pattern.Accepts
import WordPattern.Pattern.Arena
import WordPattern.Proofs.Pattern.Layout
import WordPattern.Proofs.Pattern.Trees
import WordPattern.Expr.Grammar
import WordPattern.Proofs.Expr.Continuing
import WordPattern.Proofs.Expr.Reading
import WordPattern.Proofs.Expr.Written
import WordPattern.Program.Grammar
import WordPattern.Proofs.Program.Reading
import WordPattern.Proofs.Token.Cuts
import WordPattern.Program.Arena
import WordPattern.Proofs.Program.Layout
import WordPattern.Proofs.Program.Joined
import WordPattern.Proofs.Walk.Copies
import WordPattern.Proofs.Walk.Counters
import WordPattern.Proofs.Search.Depth
import WordPattern.Proofs.Walk.Counts
import WordPattern.Proofs.Scan.Lines
import WordPattern.Proofs.Pattern.Beginnings
import WordPattern.Token.Grammar
import WordPattern.Proofs.Token.Literals
import WordPattern.Proofs.Token.Written
import WordPattern.Proofs.Files.Siblings
import WordPattern.Expr.Steps
import WordPattern.Proofs.Expr.Steps
import WordPattern.Proofs.Token.Places
import WordPattern.Program.Wanted
import WordPattern.Proofs.Program.Stacks
import WordPattern.Proofs.Program.Takes
import WordPattern.Proofs.Pattern.Takes
import WordPattern.Proofs.Expr.Takes
import WordPattern.Proofs.Program.FirstWrong
import WordPattern.Proofs.Program.Displayed
import WordPattern.Proofs.Text.Pieces
import WordPattern.Proofs.Text.Quoted
import WordPattern.Proofs.Session.Reports
import WordPattern.Fuel
import WordPattern.Pattern.Forest
import WordPattern.Proofs.Pattern.Forest
import WordPattern.Proofs.Program.Forest
import WordPattern.Token.Tape
import WordPattern.Pattern.Tape
import WordPattern.Expr.Tape
import WordPattern.Program.Tape
import WordPattern.Proofs.Token.Tape
import WordPattern.Proofs.Pattern.Tape
import WordPattern.Proofs.Expr.Tape
import WordPattern.Proofs.Program.Tape
import WordPattern.Buffer.Operation
import WordPattern.Buffer.Checked
import WordPattern.Proofs.Buffer.Runs
import WordPattern.Proofs.Buffer.Storages
