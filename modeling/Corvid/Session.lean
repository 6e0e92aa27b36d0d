import Corvid.Log
import Corvid.Session.Command
import Corvid.Settings

/-!
An interactive session: one scope that lives on from input to input. Errors of the language are reported and
the session goes on; only two things end it, a number with too many digits and a value that cannot be echoed.
-/
namespace Corvid

/-- What a session cannot report and go on from. -/
inductive Escape where
  | tooLong
  /-- The value to be echoed contains itself, or its containers are nested deeper than can be echoed. -/
  | endless
  deriving DecidableEq, Repr

structure Session where
  store : Store
  /-- The scope in which inputs are run. -/
  scope : Nat
  /-- Where the session writes. -/
  sink : Nat
  host : Host
  settings : Settings
  /-- Whether runs are logged. -/
  logging : Bool
  /-- What has been written to the error channel. -/
  errors : String

namespace Session

/-- A session on a store, writing to one of its sinks. -/
def start (store : Store) (sink : Nat) (host : Host) (settings : Settings) (logging : Bool)
    (scoping : Option Scoping) : Except Scoping.Unknown Session := do
  let policy ← Scoping.choose scoping settings.scoping
  let (scope, store) := store.addRoot [] sink policy
  return ⟨store, scope, sink, host, settings, logging, ""⟩

/-- The session's policy. -/
def scoping (session : Session) : Scoping := session.store.scopingOf session.scope

def say (session : Session) (text : String) : Session :=
  { session with store := session.store.append session.sink text }

def complain (session : Session) (text : String) : Session :=
  { session with errors := session.errors ++ text }

/-- Turns traces on or off: as the word says, or to the opposite if there is none. -/
def switchTrace (session : Session) (word : String) : Session :=
  let chosen :=
    if Settings.isOneOf Settings.onWords word then some true
    else if Settings.isOneOf Settings.offWords word then some false
    else if word.isEmpty then some !session.settings.traceOn
    else none
  match chosen with
  | none => session.complain "Usage: /py-traceback [on|off]\n"
  | some enabled =>
    { session with settings := session.settings.setTrace enabled }.say
      ("Python traceback: " ++ (if enabled then "on" else "off") ++ "\n")

/-- Goes on in a new scope with the same policy. -/
def reset (session : Session) : Session :=
  let (scope, store) := session.store.addRoot [] session.sink session.scoping
  { session with store, scope }.say "Environment reset.\n"

/-- Shows the policy, after a change if one is named. -/
def switchScoping (session : Session) (word : String) : Session :=
  let tell (session : Session) := session.say ("Scoping: " ++ session.scoping.name ++ "\n")
  if word.isEmpty then tell session
  else match Scoping.ofText word with
    | .ok policy => tell { session with store := session.store.setScoping session.scope policy }
    | .error unknown => session.complain (unknown.message ++ "\n")

/-- Carries a command line out. -/
def command (session : Session) (line : Command.Line) : Session :=
  match Command.ofName? line.name with
  | none => session.complain ("Unknown command: " ++ line.name ++ "\n")
  | some .clear => session
  | some .traceback => session.switchTrace line.argument
  | some .reset => session.reset
  | some .scoping => session.switchScoping line.argument

/-- Writes a value out, unless it is none. -/
def echo (session : Session) (value : Value) : Option Escape × Session :=
  if value.isNone then (none, session)
  else match session.store.text? session.host.echoLimit value with
    | some text => (none, session.say (text ++ "\n"))
    | none => (some .endless, session)

/-- Reports the failure of a source text. -/
def report (session : Session) (source : String) (failure : Failure) (message : String) : Session :=
  let session := session.complain (Log.errorLine message)
  if session.settings.traceOn then
    session.complain ("Python traceback:\n" ++ session.host.trace source failure)
  else session

/-- Runs a source text in the session's scope and echoes its value. -/
def runSource (session : Session) (source : String) : Option Escape × Session :=
  let (result, store) := session.store.run session.host.evalLimit session.scope source
  let session := { session with store }
  let session := if session.logging then session.complain (Log.ofRun session.host source result) else session
  match result with
  | .ok value => session.echo value
  | .error failure =>
    match failure.message? with
    | some message => (none, session.report source failure message)
    | none => (some .tooLong, session)

/-- Takes one complete input: nothing, a command, or source text. -/
def submit (session : Session) (input : String) : Option Escape × Session :=
  let text := cleaned input
  if (Text.stripped text.toList).isEmpty then (none, session)
  else match Command.line? text with
    | some line => (none, session.command line)
    | none => session.runSource text

/-- What comes from the keyboard. -/
inductive Event where
  | input (text : String)
  | interrupt
  deriving DecidableEq, Repr

def banner : String := "corvid repl (Ctrl-D to exit, / for commands)\n"

/-- Takes one event. -/
def handle (session : Session) : Event → Option Escape × Session
  | .input text => session.submit text
  | .interrupt => (none, session.say "KeyboardInterrupt\n")

/-- Takes events until they end or something escapes. -/
def handleAll (session : Session) : List Event → Option Escape × Session
  | [] => (none, session.say "\n")
  | event :: rest =>
    match session.handle event with
    | (none, after) => after.handleAll rest
    | (some escape, after) => (some escape, after)

/-- A whole session. -/
def interact (session : Session) (events : List Event) : Option Escape × Session :=
  (session.say banner).handleAll events

end Session

end Corvid
