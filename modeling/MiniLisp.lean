import MiniLisp.Main
import MiniLisp.Session.Basic
import MiniLisp.Proofs.Eval.Arithmetic
import MiniLisp.Proofs.Interpreter.AliasArgument
import MiniLisp.Proofs.Interpreter.Assignment
import MiniLisp.Proofs.Interpreter.CodeFree
import MiniLisp.Proofs.Interpreter.Compiled
import MiniLisp.Proofs.Interpreter.Depth
import MiniLisp.Proofs.Interpreter.EmptyScope
import MiniLisp.Proofs.Interpreter.Footprint
import MiniLisp.Proofs.Interpreter.Isolation
import MiniLisp.Proofs.Interpreter.Layout
import MiniLisp.Proofs.Interpreter.LiteralData
import MiniLisp.Proofs.Interpreter.NameCall
import MiniLisp.Proofs.Interpreter.Parameters
import MiniLisp.Proofs.Interpreter.Splitting
import MiniLisp.Proofs.Interpreter.Termination
import MiniLisp.Proofs.Interpreter.TokenContract
import MiniLisp.Proofs.Interpreter.Truncated
import MiniLisp.Proofs.Session.ScopeTree
import MiniLisp.Proofs.Token.Lines
import MiniLisp.Proofs.Token.Printed
import MiniLisp.Proofs.Token.Segmentation
import MiniLisp.Proofs.Token.Whitespace
import MiniLisp.Proofs.Binary64.Addition
import MiniLisp.Proofs.Eval.Sum
import MiniLisp.Proofs.Interpreter.NameChain
import MiniLisp.Proofs.Token.Numerals
import MiniLisp.Proofs.Value.Equality
import MiniLisp.Proofs.Expr.Identity
import MiniLisp.Proofs.Interpreter.Identity
