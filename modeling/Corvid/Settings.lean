import Corvid.Text.Blank

/-!
What the environment may ask for.
-/
namespace Corvid

/-- The values of the environment variables that are looked at, where they are set. -/
structure Settings where
  /-- The policy of scopes that are given none. -/
  scoping : Option String
  /-- Whether runs are logged. -/
  debug : Option String
  /-- Whether errors are followed by a trace. -/
  trace : Option String
  deriving DecidableEq, Repr

namespace Settings

def onWords : List String := ["1", "true", "yes", "on"]

def offWords : List String := ["0", "false", "no", "off"]

/-- Whether a word is one of some words, its case aside. -/
def isOneOf (words : List String) (word : String) : Bool :=
  words.any fun known => known.toList == Text.lowered word.toList

/-- Whether a variable is set to a word that turns it on. -/
def isOn : Option String → Bool
  | some word => isOneOf onWords word
  | none => false

def debugOn (settings : Settings) : Bool := isOn settings.debug

def traceOn (settings : Settings) : Bool := isOn settings.trace

def setTrace (settings : Settings) (enabled : Bool) : Settings :=
  { settings with trace := if enabled then some "1" else none }

end Settings

end Corvid
