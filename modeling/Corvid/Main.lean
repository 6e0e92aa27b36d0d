import Corvid.CommandLine

/-!
The program: arguments, environment, files and terminal, and nothing that decides anything.
-/
namespace Corvid.Main

open CommandLine

def settings : IO Settings := do
  return ⟨← IO.getEnv "CORVID_SCOPING", ← IO.getEnv "CORVID_DEBUG", ← IO.getEnv "CORVID_DEBUG_PY_TRACE"⟩

/-- Depths that are far below what the stack of this machine holds. Traces of its steps are not kept: a line stands for
each. -/
def host : Host where
  evalLimit := 6000
  echoLimit := 6000
  entry message := "DEBUG corvid_ref.runner: " ++ message ++ "\n"
  loggedTrace _ _ := "<traceback>\n"
  trace _ _ := "<traceback>\n"

/-- What a path leads to; the empty path is the working directory. -/
def entryAt (path : String) : IO Entry := do
  try
    return .file (← IO.FS.readBinFile (if path.isEmpty then "." else path))
  catch
    | .noFileOrDirectory .. => return .missing
    | _ => return .directory

/-- The words for what ends everything. -/
def crashText : Crash → String
  | .scoping unknown => unknown.message
  | .directory => "Is a directory"
  | .undecodable => "Not UTF-8"
  | .escape .tooLong => "Too many digits"
  | .escape .endless => "Maximum call depth exceeded."

def finish (exit : Exit) : IO UInt32 := do
  match exit with
  | .code status => return status.toUInt32
  | .message text => IO.eprintln text; return 1
  | .crash reason => IO.eprintln (crashText reason); return 1

/-- Writes what a session has added to its two channels. -/
def flushSession (before after : Session) : IO Unit := do
  let shown (old new : String) := String.ofList (new.toList.drop old.length)
  IO.print (shown (before.store.written before.sink) (after.store.written after.sink))
  IO.eprint (shown before.errors after.errors)

/-- Reads lines until no bracket is open, hands the text in, and goes on until the input ends. -/
partial def converse (input : IO.FS.Stream) (session : Session) (typed : String) : IO UInt32 := do
  let line ← input.getLine
  if line.isEmpty then
    let (_, after) := session.handleAll []
    flushSession session after
    return 0
  let text := typed ++ (if line.endsWith "\n" then (line.dropEnd 1).toString else line)
  match (Session.Buffer.mk text.toList text.length).enter with
  | .submitted typed =>
    let (escape, after) := session.handle (.input (String.ofList typed))
    flushSession session after
    match escape with
    | some reason => finish (.crash (.escape reason))
    | none => converse input after ""
  | .edited _ => converse input session (text ++ "\n")

def startSession (around : Settings) (options : Options) (input : IO.FS.Stream) : IO UInt32 := do
  match Session.start Store.empty Store.standardSink host around around.debugOn options.scoping with
  | .error unknown => finish (.crash (.scoping unknown))
  | .ok session =>
    let opened := session.say Session.banner
    flushSession session opened
    converse input opened ""

/-- The text of a stream to its end. -/
partial def readAll (stream : IO.FS.Stream) (done : ByteArray) : IO ByteArray := do
  let chunk ← stream.read 65536
  if chunk.isEmpty then return done else readAll stream (done ++ chunk)

def start (arguments : List String) : IO UInt32 := do
  let around ← settings
  let input ← IO.getStdin
  match readOptions .initial arguments with
  | .error message => finish (.message message)
  | .ok options =>
    let unnamed := options.inline.isNone && options.path.isNone
    if unnamed && (← input.isTty) then startSession around options input
    else
      let reads := options.inline.isNone && (unnamed || options.path == some "-")
      let bytes ← if reads then readAll input ByteArray.empty else pure ByteArray.empty
      let entry ← match options.inline, options.path with
        | none, some path => if path == "-" then pure .missing else entryAt path
        | _, _ => pure .missing
      let text := (String.fromUTF8? bytes).getD ""
      let outcome := CommandLine.run ⟨host, around, text, none, fun _ => entry⟩ arguments
      IO.print outcome.output
      IO.eprint outcome.errors
      finish outcome.exit

end Corvid.Main

def main (arguments : List String) : IO UInt32 := Corvid.Main.start arguments
