import MiniLang.Text.Snippet
import MiniLang.Text.Quoted
import MiniLang.Text.Blank
import MiniLang.Session
import MiniLang.Token.Lexer
import MiniLang.Syntax.Printer
import MiniLang.Scope.Resolution
import MiniLang.Ir.Machine
import MiniLang.Compilation
import MiniLang.Session.Shared
import MiniLang.Main
import MiniLang.Proofs.Compilation.Blame
import MiniLang.Proofs.Compilation.Cancellation
import MiniLang.Proofs.Compilation.CancelledStart
import MiniLang.Proofs.Compilation.Correctness
import MiniLang.Proofs.Compilation.Hoisting
import MiniLang.Proofs.Compilation.Layout
import MiniLang.Proofs.Compilation.Parallel
import MiniLang.Proofs.Compilation.Places
import MiniLang.Proofs.Compilation.Rejection
import MiniLang.Proofs.Compilation.Snippets
import MiniLang.Proofs.Compilation.Storage
import MiniLang.Proofs.Compilation.Text
import MiniLang.Proofs.Compilation.Unreachable
import MiniLang.Proofs.Compilation.WellFormed
import MiniLang.Proofs.Ir.Limits
import MiniLang.Proofs.Scope.Blocks
import MiniLang.Proofs.Scope.LexicalResolution
import MiniLang.Proofs.Scope.Store
import MiniLang.Proofs.Syntax.Parser.Braces.Statements
import MiniLang.Proofs.Syntax.Parser.Recovery.Programs
import MiniLang.Proofs.Syntax.Parser.Segments.Programs
import MiniLang.Proofs.Syntax.Parser.Truncation.Programs
import MiniLang.Proofs.Syntax.Recognition
import MiniLang.Proofs.Syntax.RoundTrip
import MiniLang.Proofs.Syntax.Slices
import MiniLang.Proofs.Syntax.Validity
import MiniLang.Proofs.Text.Lookup
import MiniLang.Proofs.Token.MaximalMunch
import MiniLang.Proofs.Token.Splitting
import MiniLang.Proofs.Typing.Agreement.Programs
import MiniLang.Proofs.Typing.Containment.Programs
import MiniLang.Proofs.Typing.Unreachable
