/-!
White space and letter case. White space is the set of characters that Unicode counts as spaces or line
breaks, together with the four ASCII information separators.
-/
namespace Corvid.Text

/-- Unicode white space. -/
def isBlank (c : Char) : Bool :=
  let n := c.toNat
  (0x09 ≤ n && n ≤ 0x0D) || (0x1C ≤ n && n ≤ 0x20) || n == 0x85 || n == 0xA0 || n == 0x1680 ||
    (0x2000 ≤ n && n ≤ 0x200A) || n == 0x2028 || n == 0x2029 || n == 0x202F || n == 0x205F ||
    n == 0x3000

/-- A text without the white space at its two ends. -/
def stripped (text : List Char) : List Char :=
  ((text.dropWhile isBlank).reverse.dropWhile isBlank).reverse

/-- A word with its ASCII letters in lower case. No character outside ASCII has an ASCII lower-case form
made of the letters of the words this is compared with, so the ASCII map decides those comparisons. -/
def lowered (text : List Char) : List Char :=
  text.map Char.toLower

/-- Line ends in their one form: a carriage return, alone or before a line feed, becomes a line feed. -/
def unixLines : List Char → List Char
  | '\r' :: '\n' :: rest => '\n' :: unixLines rest
  | '\r' :: rest => '\n' :: unixLines rest
  | c :: rest => c :: unixLines rest
  | [] => []

end Corvid.Text
