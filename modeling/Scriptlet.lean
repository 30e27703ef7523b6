import Scriptlet.Syntax.Equality
import Scriptlet.Value.Printer
import Scriptlet.Session
import Scriptlet.Proofs.Eval.CutOff
import Scriptlet.Proofs.Eval.Limits
import Scriptlet.Proofs.Eval.Settling
import Scriptlet.Proofs.Eval.Tasks
import Scriptlet.Proofs.Eval.Course
import Scriptlet.Proofs.Eval.Depth
import Scriptlet.Proofs.Eval.Termination
import Scriptlet.Proofs.Parse.Reading
import Scriptlet.Proofs.Parse.Obeys
import Scriptlet.Proofs.Parse.Sound
import Scriptlet.Proofs.Parse.Gives
import Scriptlet.Proofs.Parse.Complete
import Scriptlet.Proofs.Lex.Words
import Scriptlet.Proofs.Parse.Flatten
import Scriptlet.Proofs.Grammar.Basic
import Scriptlet.Proofs.Grammar.Sound
import Scriptlet.Proofs.Grammar.Complete
import Scriptlet.Proofs.Text.Quoted
import Scriptlet.Proofs.Lex.Pieces
import Scriptlet.Proofs.Syntax.Induction
import Scriptlet.Proofs.Render.Printable
import Scriptlet.Proofs.Render.Spelling
import Scriptlet.Proofs.Render.RoundTrip
import Scriptlet.Proofs.Value.Entries
import Scriptlet.Proofs.Value.Shape
import Scriptlet.Proofs.Value.Alike
import Scriptlet.Proofs.Store.Scopes
import Scriptlet.Proofs.Eval.Coupling
import Scriptlet.Proofs.Eval.Discipline
import Scriptlet.Proofs.Eval.Names
import Scriptlet.Proofs.Eval.Renamed
import Scriptlet.Proofs.Store.Reach
import Scriptlet.Proofs.Store.Matching
import Scriptlet.Proofs.Store.Chain
import Scriptlet.Proofs.Eval.Frame
import Scriptlet.Proofs.Eval.Isolation
import Scriptlet.Proofs.Store.Handles
import Scriptlet.Proofs.Lex.Append
import Scriptlet.Proofs.Lex.Tiling
import Scriptlet.Proofs.Lex.Layout
import Scriptlet.Proofs.Lex.Longest
import Scriptlet.Proofs.Parse.Lookahead
import Scriptlet.Proofs.Parse.Braced
import Scriptlet.Proofs.Parse.Alike
import Scriptlet.Proofs.Parse.Charges
import Scriptlet.Proofs.Parse.Termination
import Scriptlet.Proofs.Parse.Order
import Scriptlet.Proofs.Parse.Shift
import Scriptlet.Proofs.Parse.Append
import Scriptlet.Proofs.Session.Layout
import Scriptlet.Proofs.Session.Piecewise
import Scriptlet.Proofs.Session.History
import Scriptlet.Proofs.Session.Errors
import Scriptlet.Proofs.Store.Relabel
import Scriptlet.Proofs.Eval.Equivariance
import Scriptlet.Proofs.Store.Spare
import Scriptlet.Proofs.Eval.Transparent
import Scriptlet.Proofs.Eval.Register
import Scriptlet.Proofs.Eval.Giving
import Scriptlet.Proofs.Session.Identity
import Scriptlet.Proofs.Eval.Literals
import Scriptlet.Proofs.Render.Data
import Scriptlet.Proofs.Lex.Strings
import Scriptlet.Proofs.Parse.Diagnostics
import Scriptlet.Proofs.Syntax.WellFormed
import Scriptlet.Proofs.Parse.Truthful
import Scriptlet.Proofs.Render.Strings
import Scriptlet.Proofs.Eval.Unwinding
import Scriptlet.Proofs.Eval.Origin
import Scriptlet.Proofs.Eval.Returns
import Scriptlet.Proofs.Eval.Rounds
import Scriptlet.Proofs.Eval.Exact
import Scriptlet.Proofs.Syntax.Parts
import Scriptlet.Proofs.Render.Loops
import Scriptlet.Proofs.Render.Escapes
import Scriptlet.Proofs.Render.Canonical
import Scriptlet.Proofs.Eval.Arithmetic
import Scriptlet.Proofs.Eval.Arguments
import Scriptlet.Proofs.Session.Throughout
import Scriptlet.Proofs.Session.Arguments
import Scriptlet.Proofs.Value.Keys
import Scriptlet.Proofs.Eval.Hashes
import Scriptlet.Proofs.Session.Hashes
import Scriptlet.Proofs.Text.Order
import Scriptlet.Proofs.Value.Comparison
import Scriptlet.Proofs.Eval.Comparison
import Scriptlet.Proofs.Eval.Sequences
