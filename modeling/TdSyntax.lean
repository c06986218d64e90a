import TdSyntax.Main
import TdSyntax.Include.NameTable
import TdSyntax.Token.Stream
import TdSyntax.Tree.Parents
import TdSyntax.Tree.Summary
import TdSyntax.Workspace
import TdSyntax.View.Views
import TdSyntax.Proofs.Token.Tiling
import TdSyntax.Proofs.Event.Written
import TdSyntax.Proofs.Reading.Coverage
import TdSyntax.Proofs.Reading.Flow
import TdSyntax.Proofs.Reading.Progress
import TdSyntax.Proofs.Reading.Totality
import TdSyntax.Proofs.Tree.Places
import TdSyntax.Proofs.Parse.Lossless
import TdSyntax.Proofs.Diagnostic.Order
import TdSyntax.Proofs.Tree.Bare
import TdSyntax.Proofs.Token.Lexical
import TdSyntax.Proofs.Parse.Trivia
import TdSyntax.Proofs.Term.Atom
import TdSyntax.Proofs.Term.Lexemes
import TdSyntax.Proofs.Term.Lexed
import TdSyntax.Proofs.Term.Value
import TdSyntax.Proofs.Term.ValueTree
import TdSyntax.Proofs.Reading.Yields
import TdSyntax.Proofs.Reading.Delimited
import TdSyntax.Proofs.Term.ValueYields
import TdSyntax.Proofs.Term.ValueRead
import TdSyntax.Proofs.Tree.Bears
import TdSyntax.Proofs.Term.ValueMeaning
import TdSyntax.Proofs.Term.ValueMeant
import TdSyntax.Proofs.Term.ValueUnique
import TdSyntax.Proofs.Parse.Printed
import TdSyntax.Proofs.Term.Statement
import TdSyntax.Proofs.Term.StatementTree
import TdSyntax.Proofs.Term.PartsRead
import TdSyntax.Proofs.Term.StatementRead
import TdSyntax.Proofs.Term.PartsMeant
import TdSyntax.Proofs.Term.StatementMeant
import TdSyntax.Proofs.Term.StatementUnique
import TdSyntax.Proofs.Parse.RoundTrip
import TdSyntax.Proofs.Reading.Reports
import TdSyntax.Proofs.Parse.Complaints
import TdSyntax.Proofs.Parse.Misplaced
import TdSyntax.Proofs.Parse.Derivation
import TdSyntax.Proofs.Token.Ranges
import TdSyntax.Proofs.Token.Appended
import TdSyntax.Proofs.Token.Moved
import TdSyntax.Proofs.Token.Joined
import TdSyntax.Proofs.Tree.Alike
import TdSyntax.Proofs.Production.Closed
import TdSyntax.Proofs.Production.Joined
import TdSyntax.Proofs.Production.Resync
import TdSyntax.Proofs.Parse.Append
import TdSyntax.Proofs.Parse.Recovery
import TdSyntax.Proofs.Parse.Resync
import TdSyntax.Proofs.Include.Explored
import TdSyntax.Proofs.View.Ranges
import TdSyntax.Proofs.Parse.Diagnostics
import TdSyntax.Proofs.Literal.Value
import TdSyntax.Proofs.Command.Check
import TdSyntax.Proofs.Parse.Filled
import TdSyntax.Proofs.Parse.Directives
import TdSyntax.Proofs.Token.Unclosed
import TdSyntax.Proofs.Token.Delivered
import TdSyntax.Proofs.Parse.Integers
import TdSyntax.Proofs.Tree.Built
import TdSyntax.Proofs.Parse.Trimmed
import TdSyntax.Proofs.Tree.Reached
import TdSyntax.Proofs.Event.Direct
import TdSyntax.Proofs.Parse.Gathered
import TdSyntax.Proofs.Kind.Members
import TdSyntax.Proofs.Tree.Parents
import TdSyntax.Proofs.Parse.Dumped
import TdSyntax.Proofs.Reading.Functions
