import RequestScript.Diagnostic
import RequestScript.Grammar
import RequestScript.Parser.Basic
import RequestScript.Parser.Descent
import RequestScript.Parser.Log
import RequestScript.Parser.Phase
import RequestScript.Proofs.Grammar.Recognition
import RequestScript.Proofs.Grammar.Relocation
import RequestScript.Proofs.Grammar.Spans
import RequestScript.Proofs.Grammar.Trees
import RequestScript.Proofs.Grammar.Viability
import RequestScript.Proofs.Parser.Anchors
import RequestScript.Proofs.Parser.Descent
import RequestScript.Proofs.Parser.IsolatedFaults
import RequestScript.Proofs.Parser.Lookahead
import RequestScript.Proofs.Parser.Passing
import RequestScript.Proofs.Parser.Places
import RequestScript.Proofs.Parser.Refinement
import RequestScript.Proofs.Parser.Reports
import RequestScript.Proofs.Parser.Stopping
import RequestScript.Proofs.Script.Composition
import RequestScript.Proofs.Script.Extension
import RequestScript.Proofs.Script.IllegalCharacters
import RequestScript.Proofs.Script.InsertedLines
import RequestScript.Proofs.Script.Legibility
import RequestScript.Proofs.Script.Likeness
import RequestScript.Proofs.Script.LineEnds
import RequestScript.Proofs.Script.Log
import RequestScript.Proofs.Script.OneLine
import RequestScript.Proofs.Script.Ranges
import RequestScript.Proofs.Script.RoundTrip
import RequestScript.Proofs.Script.Slices
import RequestScript.Proofs.Script.WellFormed
import RequestScript.Proofs.Text.Covering
import RequestScript.Proofs.Text.Quoted
import RequestScript.Proofs.Token.Agreement
import RequestScript.Proofs.Token.Bounds
import RequestScript.Proofs.Token.ByLines
import RequestScript.Proofs.Token.Cutting
import RequestScript.Proofs.Token.LastLine
import RequestScript.Proofs.Token.Layout
import RequestScript.Proofs.Token.Reading
import RequestScript.Proofs.Token.Scan
import RequestScript.Proofs.Token.Simulation
import RequestScript.Proofs.Token.Tiling
import RequestScript.Proofs.Token.Trivia
import RequestScript.Proofs.Token.Words
import RequestScript.Script.Basic
import RequestScript.Script.Printer
import RequestScript.Script.Relocate
import RequestScript.Text.CharClass
import RequestScript.Text.Decimal
import RequestScript.Text.Hidden
import RequestScript.Text.Position
import RequestScript.Text.Quoted
import RequestScript.Text.Slice
import RequestScript.Token.Basic
import RequestScript.Token.Cursor
import RequestScript.Token.Lines
import RequestScript.Token.Reader
import RequestScript.Token.Session
import RequestScript.Token.Stream
