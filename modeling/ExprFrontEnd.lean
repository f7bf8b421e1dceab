import ExprFrontEnd.Main
import ExprFrontEnd.Proofs.Canonical
import ExprFrontEnd.Proofs.Agreement
import ExprFrontEnd.Proofs.Between
import ExprFrontEnd.Proofs.PlainRow
import ExprFrontEnd.Proofs.Printing
import ExprFrontEnd.Proofs.ReadBack
import ExprFrontEnd.Proofs.RoundTrip
import ExprFrontEnd.Proofs.Tokens
import ExprFrontEnd.Proofs.Order
import ExprFrontEnd.Proofs.Progress
import ExprFrontEnd.Proofs.Spans
import ExprFrontEnd.Proofs.Yield
import ExprFrontEnd.Proofs.Acceptance
import ExprFrontEnd.Proofs.Nests
import ExprFrontEnd.Proofs.Seam
import ExprFrontEnd.Proofs.Scanning
import ExprFrontEnd.Proofs.Tiling
import ExprFrontEnd.Proofs.LineBreak
import ExprFrontEnd.Proofs.StatementScope
import ExprFrontEnd.Proofs.Reports
import ExprFrontEnd.Proofs.Within
import ExprFrontEnd.Proofs.SourceOrder
import ExprFrontEnd.Proofs.Layout
import ExprFrontEnd.Proofs.TwoLevels
import ExprFrontEnd.Proofs.TokenRows
import ExprFrontEnd.Proofs.Placeholders
import ExprFrontEnd.Proofs.BrokenHeads
import ExprFrontEnd.Proofs.Places
import ExprFrontEnd.Proofs.Following
import ExprFrontEnd.Proofs.NearestOptions
import ExprFrontEnd.Proofs.Literals
import ExprFrontEnd.Proofs.Extents
import ExprFrontEnd.Proofs.ReportedOnce
import ExprFrontEnd.Proofs.Faultless
import ExprFrontEnd.Proofs.LexInPlace
import ExprFrontEnd.Proofs.LineTable
import ExprFrontEnd.Proofs.Rendering
import ExprFrontEnd.Proofs.Expansion
