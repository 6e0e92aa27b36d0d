import Corvid.Text.Blank
import Corvid.Text.Quoted

/-!
Where the body of a called function looks for names that it does not bind itself.
-/
namespace Corvid

inductive Scoping where
  /-- In the scope of its caller. -/
  | dynamic
  /-- In the outermost scope only. -/
  | global
  deriving DecidableEq, Repr

namespace Scoping

def name : Scoping → String
  | .dynamic => "dynamic"
  | .global => "global"

/-- A text that names no policy. -/
structure Unknown where
  text : String
  deriving DecidableEq, Repr

def Unknown.message (unknown : Unknown) : String :=
  "Unknown scoping policy " ++ Text.quoted unknown.text ++ " (expected one of: dynamic, global)"

/-- Reads the name of a policy; case and surrounding white space do not matter. -/
def ofText (text : String) : Except Unknown Scoping :=
  let word := Text.lowered (Text.stripped text.toList)
  if word = Scoping.dynamic.name.toList then .ok .dynamic
  else if word = Scoping.global.name.toList then .ok .global
  else .error ⟨text⟩

/-- The policy of a setting; dynamic where it is missing or empty. -/
def ofSetting : Option String → Except Unknown Scoping
  | none => .ok .dynamic
  | some text => if text.isEmpty then .ok .dynamic else ofText text

/-- A policy that is given, else that of a setting. -/
def choose (given : Option Scoping) (setting : Option String) : Except Unknown Scoping :=
  match given with
  | some scoping => .ok scoping
  | none => ofSetting setting

end Scoping

end Corvid
