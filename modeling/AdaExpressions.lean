import AdaExpressions.CommandLine.Response
import AdaExpressions.Diagnostic.Report
import AdaExpressions.Grammar.Outline
import AdaExpressions.Main
import AdaExpressions.Name.Resolution
import AdaExpressions.Parser.Basic
import AdaExpressions.Token.Scanner
import AdaExpressions.Proofs.Grammar.Ladder
import AdaExpressions.Proofs.Remembering
import AdaExpressions.Proofs.Printing.RoundTrip
import AdaExpressions.Proofs.Grammar.Levels
import AdaExpressions.Proofs.Grammar.Membership
import AdaExpressions.Proofs.Grammar.Enclosing
import AdaExpressions.Proofs.Strictness
import AdaExpressions.Proofs.FinalErrors
import AdaExpressions.Proofs.Tree.Nesting
import AdaExpressions.Proofs.Shape.Identity
import AdaExpressions.Proofs.Relabelling.Kinds
import AdaExpressions.Proofs.Casing.Sources
import AdaExpressions.Proofs.Layout.Sources
import AdaExpressions.Proofs.ErrorPlaces
import AdaExpressions.Proofs.Cursor
import AdaExpressions.Proofs.Scope.History
import AdaExpressions.Proofs.Name.Designation
import AdaExpressions.Proofs.Name.Slots
import AdaExpressions.Proofs.Token.LongestMatch
import AdaExpressions.Proofs.Termination
import AdaExpressions.Proofs.Grammar.RightRecursion
import AdaExpressions.Proofs.Tree.Canonical
import AdaExpressions.Proofs.Source.Lines
import AdaExpressions.Proofs.Token.Failure
import AdaExpressions.Proofs.Grammar.StaticNames
import AdaExpressions.Proofs.Diagnostic.Caret
