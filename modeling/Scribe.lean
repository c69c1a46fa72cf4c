import Scribe.Digits
import Scribe.Single.Basic
import Scribe.Single.Shortest
import Scribe.Single.Positional
import Scribe.Literal
import Scribe.Name
import Scribe.Options
import Scribe.Stop
import Scribe.Event
import Scribe.Tree.Operator
import Scribe.Tree.Basic
import Scribe.Writer
import Scribe.Sink.Basic
import Scribe.Sink.Op
import Scribe.Layout.Cmd
import Scribe.Layout.Expr
import Scribe.Layout.Place
import Scribe.Layout.Stmt
import Scribe.Layout.Script
import Scribe.Tree.Sameness
import Scribe.Printer.Basic
import Scribe.Printer.Render
import Scribe.Session
import Scribe.Proofs.Effect
import Scribe.Proofs.Truncation
import Scribe.Proofs.Defects
import Scribe.Proofs.Ink
import Scribe.Proofs.Word
import Scribe.Proofs.Expr.Token
import Scribe.Proofs.Expr.Settled
import Scribe.Proofs.Expr.Reader
import Scribe.Proofs.Expr.Grouping
import Scribe.Proofs.Stmt.Bare
import Scribe.Proofs.Stmt.Attachment
import Scribe.Proofs.Stmt.Grafting
import Scribe.Proofs.Depth
import Scribe.Proofs.History
import Scribe.Proofs.Blanks
import Scribe.Proofs.Elision
import Scribe.Proofs.Numeral
import Scribe.Proofs.Expr.Core
import Scribe.Proofs.Log
import Scribe.Proofs.Levels
import Scribe.Proofs.Parts
import Scribe.Proofs.EntryPoints
import Scribe.Proofs.Page.Contents
import Scribe.Proofs.Page.Leads
import Scribe.Proofs.Page.Rows
import Scribe.Proofs.Page.Braces
import Scribe.Proofs.Page.Shift
import Scribe.Proofs.Paired
import Scribe.Proofs.Expr.Sign
import Scribe.Proofs.Stmt.Condition
import Scribe.Proofs.Page.Chain
import Scribe.Proofs.Single.Rounding
import Scribe.Proofs.Single.Shortest
import Scribe.Proofs.Single.ReadBack
import Scribe.Proofs.Integer
import Scribe.Proofs.Name
import Scribe.Proofs.Sameness
import Scribe.Proofs.Scope
import Scribe.Proofs.MidLine
