import LoopNest.Main
import LoopNest.Proofs.Header.Heading
import LoopNest.Proofs.Header.Iterations
import LoopNest.Proofs.Nest.Batch
import LoopNest.Proofs.Nest.FailFast
import LoopNest.Proofs.Nest.Iterator
import LoopNest.Proofs.Expr.Relabel
import LoopNest.Proofs.Grammar.AcceptDecl
import LoopNest.Proofs.Grammar.AcceptProgram
import LoopNest.Proofs.Token.Floats
import LoopNest.Proofs.Grammar.RoundTrip
import LoopNest.Proofs.Header.Relabel
import LoopNest.Proofs.Nest.Relabel
import LoopNest.Proofs.Nest.Printed
import LoopNest.Proofs.Nest.Summaries
import LoopNest.Proofs.Grammar.Exact
import LoopNest.Proofs.Grammar.Scoping
import LoopNest.Proofs.Token.Coverage
import LoopNest.Proofs.Grammar.Progress
import LoopNest.Proofs.Nest.Places
import LoopNest.Proofs.Grammar.Declared
import LoopNest.Proofs.Nest.Options
import LoopNest.Proofs.Nest.Sessions
import LoopNest.Proofs.Token.Longest
import LoopNest.Proofs.Header.Shape
import LoopNest.Proofs.Token.Respacing
import LoopNest.Proofs.Grammar.Balanced
import LoopNest.Proofs.Grammar.NoErrorLost
import LoopNest.Proofs.Grammar.Redefined
import LoopNest.Proofs.Grammar.DeclaredTypes
import LoopNest.Proofs.Grammar.Spans
import LoopNest.Proofs.Grammar.AlongDecl
import LoopNest.Proofs.Header.Mirrored
import LoopNest.Proofs.Nest.Pointing
import LoopNest.Proofs.Source.Lines
import LoopNest.Proofs.Variable.Stack
import LoopNest.Proofs.Source.Underlined
import LoopNest.Proofs.Grammar.AlongStmt
import LoopNest.Proofs.Grammar.Matched
import LoopNest.Proofs.Grammar.Placement
import LoopNest.Proofs.Nest.Marked
import LoopNest.Proofs.Source.Merge
import LoopNest.Proofs.Layout.Levels
import LoopNest.Proofs.Expr.NormalForm
import LoopNest.Proofs.Grammar.InOrder
import LoopNest.Proofs.Stmt.Visitor
import LoopNest.Proofs.Grammar.Leftmost
