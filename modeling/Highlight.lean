import Highlight.CommandLine.Directory
import Highlight.Lexer
import Highlight.Main
import Highlight.Proofs.Moonli.Lines
import Highlight.Proofs.Moonli.SelfContained
import Highlight.Proofs.Moonli.Words
import Highlight.Proofs.Moonli.Numerals
import Highlight.Proofs.Pattern.Context
import Highlight.Proofs.Registry
import Highlight.Regex.Parse
import Highlight.Proofs.Pattern.BlockComment
import Highlight.Proofs.Output.JsonReader
import Highlight.Proofs.Output.RoundTrip
import Highlight.Proofs.Output.Row
import Highlight.Proofs.Text.Line
import Highlight.Proofs.Output.Listing
import Highlight.Proofs.Regex.Apart
import Highlight.Proofs.Regex.Backtrack
import Highlight.Proofs.Regex.Lockstep
import Highlight.Proofs.Regex.Scan
import Highlight.Proofs.Pattern.Finds
import Highlight.Proofs.Moonli.Quoted
import Highlight.Proofs.Moonli.Written
import Highlight.Proofs.Priority
import Highlight.Proofs.Checked
import Highlight.Proofs.PlainRuns
import Highlight.Proofs.Grammar
import Highlight.Proofs.Text.Place
import Highlight.Proofs.CommandLine
import Highlight.Proofs.Lexer
