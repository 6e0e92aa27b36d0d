import Corvid.Main
import Corvid.Proofs.Eval.CallerLocals
import Corvid.Proofs.Eval.Depth
import Corvid.Proofs.Eval.FrameChain
import Corvid.Proofs.Eval.Histories
import Corvid.Proofs.Eval.Loops
import Corvid.Proofs.Eval.Purity
import Corvid.Proofs.Eval.Rendering
import Corvid.Proofs.Expr.Outline
import Corvid.Proofs.Integer
import Corvid.Proofs.Layout
import Corvid.Proofs.Logging
import Corvid.Proofs.Number.Narrowing
import Corvid.Proofs.Number.Shortest
import Corvid.Proofs.Places
import Corvid.Proofs.Printing.RoundTrip
import Corvid.Proofs.ReadBack
import Corvid.Proofs.Session.Complete
import Corvid.Proofs.Session.Counting
import Corvid.Proofs.Session.Enter
import Corvid.Proofs.Session.Reset
import Corvid.Proofs.Store.Forest
import Corvid.Proofs.Text.Escapes
import Corvid.Proofs.Token.Terminals
