import Corvid.Session

/-!
The command line: which source text to run and how, or an interactive session.
-/
namespace Corvid.CommandLine

structure Options where
  debug : Bool
  scoping : Option Scoping
  /-- Source text given as an argument. -/
  inline : Option String
  path : Option String
  deriving DecidableEq, Repr

def Options.initial : Options := ⟨false, none, none, none⟩

/-- The value in an argument `--scoping=value`. -/
def scopingValue? (argument : String) : Option String :=
  let flag := "--scoping=".toList
  if flag.isPrefixOf argument.toList then some (String.ofList (argument.toList.drop flag.length)) else none

def withScoping (options : Options) (value : String) : Except String Options :=
  match Scoping.ofText value with
  | .ok scoping => .ok { options with scoping := some scoping }
  | .error unknown => .error unknown.message

/-- Reads arguments from left to right; the first that makes no sense is the error. -/
def readOptions (options : Options) : List String → Except String Options
  | [] => .ok options
  | "--debug" :: rest => readOptions { options with debug := true } rest
  | "--scoping" :: [] => .error "--scoping flag requires a value"
  | "--scoping" :: value :: rest => do readOptions (← withScoping options value) rest
  | "-e" :: [] => .error "-e flag requires source text"
  | "--eval" :: [] => .error "--eval flag requires source text"
  | "-e" :: source :: rest | "--eval" :: source :: rest =>
    readOptions { options with inline := some source } rest
  | argument :: rest =>
    match scopingValue? argument, options.path with
    | some value, _ => do readOptions (← withScoping options value) rest
    | none, none => readOptions { options with path := some argument } rest
    | none, some _ => .error ("Unexpected argument: " ++ argument)

/-- What a path leads to. -/
inductive Entry where
  | missing
  | directory
  | file (content : ByteArray)

/-- What the program finds around it. -/
structure Surroundings where
  host : Host
  settings : Settings
  /-- The text on standard input. -/
  input : String
  /-- The events of a terminal, if standard input is one. -/
  events : Option (List Session.Event)
  /-- What each path leads to. -/
  entry : String → Entry

/-- Failures that are not the program's: they end everything. -/
inductive Crash where
  | scoping (unknown : Scoping.Unknown)
  | directory
  /-- A file that is not UTF-8. -/
  | undecodable
  | escape (escape : Escape)
  deriving DecidableEq, Repr

/-- How the command ends. -/
inductive Exit where
  | code (status : Nat)
  /-- A last message in place of a status. -/
  | message (text : String)
  | crash (reason : Crash)
  deriving DecidableEq, Repr

structure Outcome where
  exit : Exit
  output : String
  errors : String
  deriving DecidableEq, Repr

/-- The source text to run. Line ends of files and of standard input are unified. -/
def loadSource (options : Options) (around : Surroundings) : Except Exit String :=
  let unified (text : String) := String.ofList (Text.unixLines text.toList)
  match options.inline, options.path with
  | some source, _ => .ok source
  | none, none | none, some "-" => .ok (unified around.input)
  | none, some path =>
    match around.entry path with
    | .missing => .error (.message ("No such file: " ++ path))
    | .directory => .error (.crash .directory)
    | .file content =>
      match String.fromUTF8? content with
      | some text => .ok (unified text)
      | none => .error (.crash .undecodable)

/-- Runs a source text in a new scope and reports an error. -/
def runProgram (host : Host) (settings : Settings) (logging : Bool) (scoping : Option Scoping)
    (source : String) : Outcome :=
  match Scoping.choose scoping settings.scoping with
  | .error unknown => ⟨.crash (.scoping unknown), "", ""⟩
  | .ok policy =>
    let (scope, store) := Store.empty.addRoot [] Store.standardSink policy
    let (result, after) := store.run host.evalLimit scope source
    let output := after.written Store.standardSink
    let log := if logging then Log.ofRun host source result else ""
    match result with
    | .ok _ => ⟨.code 0, output, log⟩
    | .error failure =>
      match failure.message? with
      | some message =>
        let abort := if logging then Log.aborted host source failure else ""
        ⟨.code 1, output, log ++ abort ++ Log.errorLine message⟩
      | none => ⟨.crash (.escape .tooLong), output, log⟩

/-- An interactive session on standard output. Only the environment turns its log on. -/
def runSession (host : Host) (settings : Settings) (scoping : Option Scoping) (events : List Session.Event) :
    Outcome :=
  match Session.start Store.empty Store.standardSink host settings settings.debugOn scoping with
  | .error unknown => ⟨.crash (.scoping unknown), "", ""⟩
  | .ok session =>
    let (escape, after) := session.interact events
    let exit := match escape with
      | none => .code 0
      | some reason => .crash (.escape reason)
    ⟨exit, after.store.written Store.standardSink, after.errors⟩

/-- Whether to start a session: on a terminal, when nothing to run is named. -/
def sessionEvents? (options : Options) (around : Surroundings) : Option (List Session.Event) :=
  if options.inline.isNone && options.path.isNone then around.events else none

/-- Carries out what the arguments ask for. -/
def run (around : Surroundings) (arguments : List String) : Outcome :=
  match readOptions .initial arguments with
  | .error message => ⟨.message message, "", ""⟩
  | .ok options =>
    match sessionEvents? options around with
    | some events => runSession around.host around.settings options.scoping events
    | none =>
      match loadSource options around with
      | .error exit => ⟨exit, "", ""⟩
      | .ok source =>
        runProgram around.host around.settings (options.debug || around.settings.debugOn) options.scoping source

end Corvid.CommandLine
