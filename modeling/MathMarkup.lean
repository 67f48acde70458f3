import MathMarkup.Main
import MathMarkup.Session
import MathMarkup.Store.Memory
import MathMarkup.Expr.Subtree
import MathMarkup.Expr.Grammar
import MathMarkup.Expr.Substitution
import MathMarkup.Expr.Valuation
import MathMarkup.Expr.Regroup
import MathMarkup.Expr.Reread
import MathMarkup.Document.Writers
import MathMarkup.Expr.Lexeme
import MathMarkup.Proofs.Text
import MathMarkup.Proofs.Fold.Steps
import MathMarkup.Proofs.Fold.Substitution
import MathMarkup.Proofs.Fold.Values
import MathMarkup.Proofs.Number.Rounding
import MathMarkup.Proofs.Number.Text
import MathMarkup.Proofs.Scan.Columns
import MathMarkup.Proofs.Scan.Spelling
import MathMarkup.Proofs.Parse.Reader
import MathMarkup.Proofs.Parse.Sound
import MathMarkup.Proofs.Parse.Complete
import MathMarkup.Proofs.Parse.Grammar
import MathMarkup.Proofs.WellFormed
import MathMarkup.Proofs.Regroup.Join
import MathMarkup.Proofs.Regroup.NormalForm
import MathMarkup.Proofs.Render.Success
import MathMarkup.Proofs.Render.Reread
import MathMarkup.Proofs.Render.Tokens
import MathMarkup.Proofs.Render.Derivation
import MathMarkup.Proofs.Render.RoundTrip
import MathMarkup.Proofs.Conversion
import MathMarkup.Proofs.Parse.Columns
import MathMarkup.Proofs.Chain
import MathMarkup.Proofs.Layout.Ink
import MathMarkup.Proofs.Layout.Markup
import MathMarkup.Proofs.Text.Search
import MathMarkup.Proofs.Store.Walk
import MathMarkup.Proofs.Store.Memory
import MathMarkup.Proofs.Store.Directories
import MathMarkup.Proofs.Store.Replace
import MathMarkup.Proofs.Path
import MathMarkup.Proofs.Store.Plain
import MathMarkup.Proofs.Document.Export
import MathMarkup.Proofs.Store.Temporary
import MathMarkup.Proofs.Store.Mirror
import MathMarkup.Proofs.Document.Insertion
import MathMarkup.Proofs.Document.Writers
import MathMarkup.Proofs.Session
import MathMarkup.Proofs.CommandLine
import MathMarkup.Proofs.Number.Numeral
import MathMarkup.Proofs.Scan.Lexemes
import MathMarkup.Proofs.Scan.Bytes
import MathMarkup.Proofs.Scan.LongestMatch
import MathMarkup.Expr.Diagnosis
import MathMarkup.Proofs.Parse.Balance
import MathMarkup.Proofs.Parse.Diagnosis
import MathMarkup.Expr.Minus
import MathMarkup.Proofs.Render.Minus
import MathMarkup.Proofs.Container
import MathMarkup.Proofs.Text.Utf8
import MathMarkup.Proofs.Document.Splice
import MathMarkup.Proofs.Path.Components
import MathMarkup.Proofs.Path.Extension
import MathMarkup.Proofs.Document.Target
import MathMarkup.Proofs.Scan.Blanks
import MathMarkup.Proofs.Trim
import MathMarkup.Proofs.CommandLine.Columns
import MathMarkup.Expr.Defect
import MathMarkup.Proofs.Render.Defect
import MathMarkup.Proofs.Scan.Description
import MathMarkup.Proofs.Spacing
import MathMarkup.Proofs.Number.Integral
import MathMarkup.Proofs.Number.Render
import MathMarkup.Proofs.CommandLine.Words
import MathMarkup.Proofs.Number.Reading
import MathMarkup.Proofs.CommandLine.Numbers
import MathMarkup.Proofs.CommandLine.Lists
