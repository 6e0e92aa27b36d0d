import Corvid.Text.Blank
import Corvid.Token

/-!
Splitting a text into tokens. At each place the longest token that starts there is taken; blanks between
tokens are dropped. A separator is a whole run of line ends, semicolons, comments and white space that
begins with one of the first three. Splitting stops at the first character that starts no token.
-/
namespace Corvid.Token

def isDigit (c : Char) : Bool := '0' ≤ c && c ≤ '9'

def isNameStart (c : Char) : Bool := ('A' ≤ c && c ≤ 'Z') || ('a' ≤ c && c ≤ 'z') || c == '_'

def isNamePart (c : Char) : Bool := isNameStart c || isDigit c

/-- Blanks that may stand between any two tokens. -/
def isSpace (c : Char) : Bool := c == ' ' || c == '\t' || c == '\x0c' || c == '\r'

/-- Length of the run of separator text at the front; in a comment everything up to the line end belongs
to it. -/
def separatorLength (comment : Bool) : List Char → Nat
  | [] => 0
  | c :: rest =>
    if comment then separatorLength (c != '\n') rest + 1
    else if c = '#' then separatorLength true rest + 1
    else if c = ';' || Text.isBlank c then separatorLength false rest + 1
    else 0

/-- Length of the rest of a string literal after its opening quote, closing quote included. A backslash
takes the next character with it; a line end closes no string. -/
def stringLength? : List Char → Option Nat
  | '"' :: _ => some 1
  | '\\' :: c :: rest => if c = '\n' then none else (stringLength? rest).map (· + 2)
  | c :: rest => if c = '\n' ∨ c = '\\' then none else (stringLength? rest).map (· + 1)
  | [] => none

def digitCount (text : List Char) : Nat := (text.takeWhile isDigit).length

/-- Length of an exponent `e5`, `E-12` at the front; zero if there is none. -/
def exponentLength : List Char → Nat
  | c :: rest =>
    if c = 'e' ∨ c = 'E' then
      let signed := match rest with
        | s :: _ => if s = '+' ∨ s = '-' then 1 else 0
        | [] => 0
      match digitCount (rest.drop signed) with
      | 0 => 0
      | digits => 1 + signed + digits
    else 0
  | [] => 0

/-- Length of `.` and its digits, with an exponent if one follows; zero if no digit follows the point. -/
def fractionLength : List Char → Nat
  | '.' :: rest =>
    match digitCount rest with
    | 0 => 0
    | digits => 1 + digits + exponentLength (rest.drop digits)
  | _ => 0

/-- The kind of a word: a keyword if it is reserved, else a name. -/
def wordKind (word : List Char) : Kind :=
  match Keyword.ofWord? word with
  | some keyword => .keyword keyword
  | none => .name

/-- Kind and length, less one, of the token that starts at the front. -/
def tokenAt? : List Char → Option (Kind × Nat)
  | [] => none
  | c :: rest =>
    if c = ';' ∨ c = '\n' ∨ c = '#' then some (.separator, separatorLength (c == '#') rest)
    else if isNameStart c then
      let tail := rest.takeWhile isNamePart
      some (wordKind (c :: tail), tail.length)
    else if isDigit c then
      let whole := digitCount rest
      match fractionLength (rest.drop whole) with
      | 0 => some (.int, whole)
      | fraction => some (.float, whole + fraction)
    else if c = '"' then (stringLength? rest).map fun length => (.string, length)
    else (Symbol.at? (c :: rest)).map fun symbol => (.symbol symbol, symbol.text.length - 1)

/-- A character that starts no token. -/
structure Stray where
  char : Char
  position : Position
  deriving DecidableEq, Repr

/-- The tokens of a text up to its first stray character. -/
structure Split where
  tokens : List Token
  stray : Option Stray
  deriving DecidableEq, Repr

/-- Walks over the text, with `inside` the number of characters that still belong to the last token. -/
def splitFrom (position : Position) : (inside : Nat) → List Char → Split
  | _, [] => ⟨[], none⟩
  | inside + 1, c :: rest => splitFrom (position.next c) inside rest
  | 0, c :: rest =>
    if isSpace c then splitFrom (position.next c) 0 rest
    else match tokenAt? (c :: rest) with
      | none => ⟨[], some ⟨c, position⟩⟩
      | some (kind, more) =>
        let token := ⟨kind, String.ofList (c :: rest.take more), position⟩
        let split := splitFrom (position.next c) more rest
        ⟨token :: split.tokens, split.stray⟩

/-- Splits a whole text. -/
def split (text : String) : Split := splitFrom .start 0 text.toList

end Corvid.Token
