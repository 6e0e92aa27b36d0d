import Corvid.Expr.Outline
import Corvid.Host

/-!
The debug log, and how errors are reported on the error channel.
-/
namespace Corvid.Log

/-- The name of a kind of value in the log. -/
def kindName : Value.Kind → String
  | .none => "CvNone"
  | .text => "CvString"
  | .int => "CvInt"
  | .float => "CvFloat"
  | .bool => "CvBool"
  | .list => "CvList"
  | .dict => "CvDict"
  | .range => "CvRange"
  | .function => "CvFn"

/-- What a run of a source text logs: its tree once it is parsed, and the kind of its value once there is
one. -/
def ofRun (host : Host) (source : String) (result : Except Failure Value) : String :=
  match Parser.parse source with
  | .error _ => ""
  | .ok tree =>
    let parsed := host.entry ("parsed tree:\n" ++ tree.outline "  ")
    match result with
    | .ok value => parsed ++ host.entry ("evaluation finished with " ++ kindName value.kind)
    | .error _ => parsed

/-- What is logged of a run that ended in a reported error. -/
def aborted (host : Host) (source : String) (failure : Failure) : String :=
  host.entry "evaluation aborted" ++ host.loggedTrace source failure

/-- The line that reports an error. -/
def errorLine (message : String) : String := "Error: " ++ message ++ "\n"

end Corvid.Log
