import Corvid.Eval
import Corvid.Parser

/-!
Running source text in a scope.
-/
namespace Corvid

/-- Why a source text gave no value. -/
inductive Failure where
  | parse (error : Parser.Error)
  | halt (reason : Halt)
  deriving DecidableEq, Repr

/-- What is reported of a stop. A number with too many digits is no error of the program: it is not reported but
ends whatever is running. -/
def Halt.message? : Halt → Option String
  | .fault cause mark => some (cause.message ++ mark.suffix)
  | .tooDeep => some "Maximum call depth exceeded."
  | .tooLong => none

def Failure.message? : Failure → Option String
  | .parse error => some error.message
  | .halt reason => reason.message?

/-- Parses a source text and evaluates it in a scope, nested no deeper than a limit. -/
def Store.run (store : Store) (limit scope : Nat) (source : String) : Except Failure Value × Store :=
  match Parser.parse source with
  | .error error => (.error (.parse error), store)
  | .ok tree =>
    match store.eval limit scope tree with
    | (.ok value, after) => (.ok value, after)
    | (.error halt, after) => (.error (.halt halt), after)

end Corvid
