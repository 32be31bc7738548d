import BasicTokens.Main
import BasicTokens.Scan.Listing
import BasicTokens.Source.Recorded
import BasicTokens.Source.Script
import BasicTokens.Proofs.Delivery.Basic
import BasicTokens.Proofs.Delivery.Reading
import BasicTokens.Proofs.Delivery.Independence
import BasicTokens.Proofs.Delivery.Failure
import BasicTokens.Proofs.Grammar.Lexeme
import BasicTokens.Proofs.Grammar.Refusal
import BasicTokens.Proofs.Grammar.Tiling
import BasicTokens.Proofs.Scan.Shift
import BasicTokens.Proofs.Grammar.Composition
import BasicTokens.Proofs.Delivery.Signals
import BasicTokens.Proofs.Delivery.Restart
import BasicTokens.Proofs.Cursor.Operation
import BasicTokens.Proofs.Cursor.Trail
import BasicTokens.Proofs.Cursor.Release
import BasicTokens.Proofs.Cursor.Passage
import BasicTokens.Proofs.Grammar.Literal
import BasicTokens.Proofs.Delivery.File
import BasicTokens.Proofs.Text.OneLine
import BasicTokens.Proofs.Session.FileMode
import BasicTokens.Proofs.Session.Report
import BasicTokens.Proofs.Session.Line
import BasicTokens.Proofs.Session.Prompt
import BasicTokens.Proofs.Number.Rounding
import BasicTokens.Proofs.Number.Shortest
import BasicTokens.Proofs.Number.Layout
import BasicTokens.Proofs.Text.Quoted
import BasicTokens.Proofs.Grammar.Display
import BasicTokens.Proofs.Cursor.End
import BasicTokens.Proofs.Cursor.Progress
import BasicTokens.Proofs.Grammar.WellFormed
import BasicTokens.Proofs.Cursor.Agreement
import BasicTokens.Proofs.Cursor.Position
import BasicTokens.Proofs.Delivery.Faltering
import BasicTokens.Proofs.Cursor.Retry
import BasicTokens.Proofs.Text.Distinct
import BasicTokens.Proofs.Grammar.Distinct
import BasicTokens.Proofs.Session.Unambiguous
import BasicTokens.Proofs.Number.Exact
import BasicTokens.Proofs.Grammar.Numeral
import BasicTokens.Proofs.Grammar.Case
import BasicTokens.Proofs.Delivery.Feed
import BasicTokens.Proofs.Session.Account
import BasicTokens.Proofs.Session.Log
