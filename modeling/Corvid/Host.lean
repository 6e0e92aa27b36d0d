import Corvid.Run

/-!
What the machine under the interpreter brings with it: how deep it can go, and texts that are its own and not the
language's.
-/
namespace Corvid

structure Host where
  /-- How deeply evaluation may be nested. -/
  evalLimit : Nat
  /-- How deeply the containers of a value may be nested that a session echoes. -/
  echoLimit : Nat
  /-- An entry of the log with some message. -/
  entry : String → String
  /-- The steps of the interpreter that led to a failure of a source text, as the log shows them. -/
  loggedTrace : String → Failure → String
  /-- The same steps, as a session shows them. -/
  trace : String → Failure → String

end Corvid
