/-!
The text being typed: how many brackets are open, what Enter does, and what is taken out before the text is
run.
-/
namespace Corvid.Session

/-- Where a character of a text stands. -/
inductive Place where
  | code | comment | string
  /-- After a backslash in a string. -/
  | escape
  deriving DecidableEq, Repr

/-- What has been seen of a text: where its end stands, and how many brackets are open there. -/
structure Scan where
  place : Place
  depth : Nat
  deriving DecidableEq, Repr

/-- Goes past one character. A closing bracket without an opening one does not count. -/
def Scan.next (scan : Scan) (c : Char) : Scan :=
  match scan.place with
  | .escape => { scan with place := .string }
  | .comment => { scan with place := if c = '\n' then .code else .comment }
  | .string =>
    if c = '\\' then { scan with place := .escape }
    else if c = '"' then { scan with place := .code }
    else scan
  | .code =>
    if c = '"' then { scan with place := .string }
    else if c = '#' then { scan with place := .comment }
    else if c = '(' ∨ c = '[' ∨ c = '{' then { scan with depth := scan.depth + 1 }
    else if c = ')' ∨ c = ']' ∨ c = '}' then { scan with depth := scan.depth - 1 }
    else scan

/-- How many brackets of a text are still open at its end. Brackets in strings and comments do not count, and
any closing bracket closes any opening one. -/
def openDepth (text : List Char) : Nat := (text.foldl Scan.next ⟨.code, 0⟩).depth

/-- Characters that come along when text is pasted and that nobody sees. -/
def isInvisible (c : Char) : Bool :=
  c = '\u200b' || c = '\u200c' || c = '\u200d' || c = '\ufeff' || c = '\u00a0' || c = '\r'

/-- A text without its invisible characters. -/
def cleaned (text : String) : String := String.ofList (text.toList.filter (!isInvisible ·))

/-- A text being edited, with a cursor between its characters. -/
structure Buffer where
  text : List Char
  cursor : Nat
  deriving DecidableEq, Repr

namespace Buffer

/-- Puts characters at the cursor, which moves behind them. -/
def insert (buffer : Buffer) (added : List Char) : Buffer :=
  ⟨buffer.text.take buffer.cursor ++ added ++ buffer.text.drop buffer.cursor,
    buffer.cursor + added.length⟩

/-- A new line, indented by four blanks for each open bracket. -/
def newLine (depth : Nat) : List Char := '\n' :: List.replicate (4 * depth) ' '

/-- What Enter does. -/
inductive Entered where
  /-- The text is handed in. -/
  | submitted (text : List Char)
  /-- Editing goes on. -/
  | edited (buffer : Buffer)
  deriving DecidableEq, Repr

/-- Enter hands the text in if no bracket is open anywhere in it, else it puts a new line at the cursor. -/
def enter (buffer : Buffer) : Entered :=
  let depth := openDepth buffer.text
  if depth = 0 then .submitted buffer.text else .edited (buffer.insert (newLine depth))

/-- The text in front of the cursor. -/
def beforeCursor (buffer : Buffer) : List Char := buffer.text.take buffer.cursor

end Buffer

end Corvid.Session
