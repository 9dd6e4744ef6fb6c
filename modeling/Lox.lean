import Lox.CommandLine
import Lox.CommandLine.Arguments
import Lox.Decimal.Shortest
import Lox.Machine
import Lox.Main
import Lox.Number
import Lox.Parse.Expression
import Lox.Parse.Program
import Lox.Parse.Reader
import Lox.Proofs.Grammar
import Lox.Proofs.Grammar.Reading
import Lox.Report
import Lox.Report.Faults
import Lox.Report.Problem
import Lox.Report.Reporter
import Lox.Report.Sources
import Lox.Report.Template
import Lox.Run.Access
import Lox.Run.Eval
import Lox.Run.Operator
import Lox.Scope
import Lox.Scope.Bind
import Lox.Scope.Bindings
import Lox.Session
import Lox.Shell
import Lox.Store
import Lox.Store.Frames
import Lox.Table
import Lox.Text.Blank
import Lox.Text.Digit
import Lox.Text.Invisible
import Lox.Text.Lines
import Lox.Text.Quoted
import Lox.Text.Styled
import Lox.Text.Utf8
import Lox.Token
import Lox.Token.Scan
import Lox.Tree
import Lox.Tree.Show
import Lox.Value
import Lox.Proofs.Grammar.Lists
import Lox.Proofs.Grammar.Soundness.Expressions
import Lox.Proofs.Grammar.Soundness.Statements
import Lox.Proofs.Grammar.Taking
import Lox.Proofs.Grammar.Completeness.Expressions
import Lox.Proofs.Grammar.Completeness.Statements
import Lox.Proofs.Grammar.Acceptance
import Lox.Proofs.Scope.Addresses
import Lox.Proofs.Scope.Lexical
import Lox.Proofs.Grammar.Shape
import Lox.Proofs.Run.Store
import Lox.Proofs.Run.Classes
import Lox.Proofs.Run.Steps
import Lox.Proofs.Run.Soundness
import Lox.Proofs.Run.Moments
import Lox.Proofs.Session.Soundness
import Lox.Proofs.Token.Joining
import Lox.Proofs.Scope.Joining
import Lox.Proofs.Run.Output
import Lox.Proofs.Session.Joining
import Lox.Proofs.Scope.Spots
import Lox.Proofs.Scope.Violations
import Lox.Proofs.Pairing
import Lox.Proofs.Pairing.Actions
import Lox.Proofs.Pairing.Calls
import Lox.Proofs.Pairing.Runs
import Lox.Proofs.Pairing.Diagonal
import Lox.Proofs.Pairing.Frames
import Lox.Proofs.Pairing.Planned
import Lox.Proofs.Pairing.Sessions
import Lox.Proofs.Run.Outward
import Lox.Proofs.Scope.Clear
import Lox.Proofs.Session.Outward
import Lox.Proofs.Run.Renaming
import Lox.Proofs.Scope.Rebinding
import Lox.Proofs.Scope.Renaming
import Lox.Proofs.Scope.Renaming.Walk
import Lox.Proofs.Scope.Renaming.Trees
import Lox.Proofs.Session.Renaming
import Lox.Proofs.Run.Bonds
import Lox.Proofs.Run.Receivers
import Lox.Proofs.Pairing.Moments
import Lox.Proofs.Scope.Receivers
import Lox.Proofs.Pairing.Visits
import Lox.Proofs.Run.Keywords
import Lox.Proofs.Session.Receivers
import Lox.Proofs.Grammar.Yield
import Lox.Proofs.Grammar.Moved
import Lox.Proofs.Grammar.Collecting
import Lox.Proofs.Grammar.Inside
import Lox.Proofs.Grammar.Resuming
import Lox.Proofs.Run.Moved
import Lox.Proofs.Scope.Moved
import Lox.Proofs.Session.Moved
import Lox.Proofs.Session.Turns
import Lox.Proofs.Session.Rejected
import Lox.Proofs.Session.Layout
import Lox.Proofs.Report.Quoting
import Lox.Proofs.Session.Diagnoses
import Lox.Proofs.Token.Stretches
import Lox.Proofs.Session.Registered
import Lox.Proofs.Run.Objects
import Lox.Proofs.Run.Ground
import Lox.Proofs.Run.Confinement
import Lox.Proofs.Run.Underway
import Lox.Proofs.Session.Confinement
import Lox.Proofs.Scope.Hollow
import Lox.Proofs.Hollow.Frames
import Lox.Proofs.Hollow.Actions
import Lox.Proofs.Hollow.Calls
import Lox.Proofs.Hollow.Runs
import Lox.Proofs.Grammar.Loops
import Lox.Proofs.Scope.Loops
import Lox.Proofs.Run.Loops
import Lox.Proofs.Hollow.Outside
import Lox.Proofs.Session.Loops
import Lox.Proofs.Scope.Recording
import Lox.Proofs.Scope.Repeating
import Lox.Proofs.Run.Updates
import Lox.Proofs.Scope.Updates
import Lox.Proofs.Session.Updates
import Lox.Proofs.Run.Declared
import Lox.Proofs.Session.Lineages
import Lox.Proofs.Token.Respelling
import Lox.Proofs.Tree.Display
import Lox.Proofs.Shell.Lines
import Lox.Proofs.Shell.Brackets
import Lox.Proofs.Decimal.Rounding
import Lox.Proofs.Decimal.Shortest
import Lox.Proofs.Number.Denoted
import Lox.Proofs.Number.Unsigned
import Lox.Proofs.Number.Shown
import Lox.Proofs.Grammar.Legible
import Lox.Proofs.Tree.Sexp
import Lox.Proofs.Tree.Writing
import Lox.Proofs.Tree.Decoding
import Lox.Proofs.Run.Forest
import Lox.Proofs.Report.Colour
import Lox.Proofs.Tree.Nodes
import Lox.Proofs.Grammar.Known
import Lox.Proofs.Grammar.Held
import Lox.Proofs.Grammar.Building
import Lox.Proofs.Grammar.Formed
