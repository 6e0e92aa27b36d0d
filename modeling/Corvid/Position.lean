/-!
Places in source text. A position is a line and a column, both counted from 1, the column in characters.
A mark is what a node of a tree knows about its place, which may be less than a position.
-/
namespace Corvid

structure Position where
  line : Nat
  column : Nat
  deriving DecidableEq, Repr

/-- The place of the first character of a text. -/
def Position.start : Position := ⟨1, 1⟩

/-- The place after a character: only a line feed starts a new line. -/
def Position.next (position : Position) (c : Char) : Position :=
  if c = '\n' then ⟨position.line + 1, 1⟩ else ⟨position.line, position.column + 1⟩

/-- The place after a run of characters. -/
def Position.after (position : Position) (text : List Char) : Position :=
  text.foldl Position.next position

inductive Mark where
  | absent
  | line (number : Nat)
  | spot (position : Position)
  deriving DecidableEq, Repr

/-- The first of two marks, unless it is absent. -/
def Mark.orElse (inner outer : Mark) : Mark :=
  match inner with
  | .absent => outer
  | known => known

/-- How a run-time message ends. -/
def Mark.suffix : Mark → String
  | .absent => ""
  | .line number => s!" (line {number})"
  | .spot position => s!" (line {position.line}, col {position.column})"

end Corvid
