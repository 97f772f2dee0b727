import FrontEnd.Main
import FrontEnd.Proofs.Parse.Completeness
import FrontEnd.Proofs.Scan.RoundTrip
import FrontEnd.Proofs.Scan.Lines
import FrontEnd.Proofs.Check.Agreement
import FrontEnd.Proofs.Check.Reference
import FrontEnd.Proofs.Check.ScopeLife
import FrontEnd.Proofs.Check.SymbolLife
import FrontEnd.Proofs.Check.ControlFlow
import FrontEnd.Proofs.Check.TypedProgram
import FrontEnd.Proofs.Check.Coverage
import FrontEnd.Proofs.Check.Written
import FrontEnd.Proofs.Check.Divisions
import FrontEnd.Proofs.Retelling.Renaming
import FrontEnd.Proofs.Limits.Widens
import FrontEnd.Proofs.Limits.WidensExpression
import FrontEnd.Proofs.Limits.WidensProgram
import FrontEnd.Proofs.Limits.ProceedsProgram
import FrontEnd.Proofs.Parse.Prefixes
import FrontEnd.Proofs.Check.Enclosure
import FrontEnd.Proofs.Scan.Partition
import FrontEnd.Proofs.Check.AttentiveProgram
import FrontEnd.Proofs.Check.MemberAccess
import FrontEnd.Proofs.Check.CaseLabels
import FrontEnd.Proofs.Check.Returns
import FrontEnd.Proofs.Compilation.Gates
import FrontEnd.Proofs.Scope.Frames
import FrontEnd.Proofs.Check.TracedHeaders
import FrontEnd.Proofs.Exchange.Verdict
import FrontEnd.Proofs.Lexeme.Numeral
import FrontEnd.Proofs.Scan.Delimiters
import FrontEnd.Proofs.Check.ArrayFilling
import FrontEnd.Proofs.Check.Completion
import FrontEnd.Proofs.Check.CallArguments
import FrontEnd.Proofs.Check.ExpressionEnd
import FrontEnd.Proofs.Check.UnsetProgram
import FrontEnd.Proofs.Lexical.Program
