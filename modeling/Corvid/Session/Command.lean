import Corvid.Session.Buffer
import Corvid.Text.Blank

/-!
Session commands: lines that begin with a slash and speak to the session, not to the language.
-/
namespace Corvid.Session

inductive Command where
  | clear | traceback | reset | scoping
  deriving DecidableEq, Repr

namespace Command

def all : List Command := [.clear, .traceback, .reset, .scoping]

def name : Command → String
  | .clear => "/clear"
  | .traceback => "/py-traceback"
  | .reset => "/reset"
  | .scoping => "/scoping"

def help : Command → String
  | .clear => "Clear the terminal screen"
  | .traceback => "Show Python tracebacks on errors [on|off]"
  | .reset => "Drop every binding"
  | .scoping => "Show or set call scoping [dynamic|global]"

def ofName? (name : String) : Option Command := all.find? fun command => command.name == name

/-- A line that speaks to the session: the name it begins with, and the rest. -/
structure Line where
  name : String
  argument : String
  deriving DecidableEq, Repr

/-- Reads a line as a command, known or not. White space around it does not matter; the name ends at the first
space. -/
def line? (text : String) : Option Line :=
  let stripped := Text.stripped text.toList
  match stripped with
  | '/' :: _ =>
    let name := stripped.takeWhile (· != ' ')
    some ⟨String.ofList name, String.ofList (Text.stripped (stripped.drop name.length))⟩
  | _ => none

/-- The commands that what has been typed may become. -/
def completions (typed : List Char) : List Command :=
  match typed with
  | '/' :: _ => all.filter fun command => typed.isPrefixOf command.name.toList
  | _ => []

end Command

end Corvid.Session
