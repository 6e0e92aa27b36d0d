import Corvid.Number.Shortest
import Corvid.Store

/-!
The text of values. A string by itself is written as it is; inside a container it stands in quotes. A
container that contains itself has no text.
-/
namespace Corvid

/-- The text of a value that is no container, as it stands inside one. -/
def Value.memberText? : Value → Option String
  | .none => some "None"
  | .text content => some ("\"" ++ content ++ "\"")
  | .int n => some (toString n)
  | .float number => some number.text
  | .bool b => some (if b then "true" else "false")
  | .range first last => some (toString first ++ ".." ++ toString last)
  | .function name parameters _ => some (name ++ "(" ++ ", ".intercalate parameters ++ ") \x7b ... \x7d")
  | .list _ | .dict _ => .none

/-- Parts between two brackets. -/
def enclosed (opening closing : String) (parts : List String) : String :=
  if parts.isEmpty then opening ++ " " ++ closing
  else opening ++ " " ++ ", ".intercalate parts ++ " " ++ closing

namespace Store

/-- The text of a value inside a container; none if containers are nested deeper than `depth`. -/
def memberText? (store : Store) : (depth : Nat) → Value → Option String
  | 0, value => value.memberText?
  | depth + 1, value =>
    match value with
    | .list handle => ((store.items handle).mapM (memberText? store depth)).map (enclosed "[" "]")
    | .dict handle =>
      let pairText? (pair : Key × Value) : Option String := do
        let key ← pair.1.toValue.memberText?
        let member ← memberText? store depth pair.2
        return key ++ ": " ++ member
      ((store.entries handle).mapM pairText?).map (enclosed "\x7b" "\x7d")
    | other => other.memberText?

/-- The text of a value by itself; none if containers are nested deeper than `depth`. -/
def text? (store : Store) (depth : Nat) (value : Value) : Option String :=
  match value with
  | .text content => some content
  | other => store.memberText? depth other

end Store

end Corvid
