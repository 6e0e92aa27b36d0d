import Corvid.Proofs.Printing.Expressible

/-!
Printing trees. A tree is printed on one line, with parentheses around everything that is part of something else, as
pieces of text: tokens, and blanks where two tokens would run into each other.
-/
namespace Corvid

inductive Piece where
  | token (kind : Token.Kind) (text : String)
  | gap

namespace Piece

def text : Piece → String
  | token _ text => text
  | gap => " "

def sign (symbol : Symbol) : Piece := token (.symbol symbol) symbol.text

def word (keyword : Keyword) : Piece := token (.keyword keyword) keyword.text

def name (text : String) : Piece := token .name text

/-- What stands between two statements. -/
def divider : Piece := token .separator "; "

def group (inside : List Piece) : List Piece := sign .openParen :: (inside ++ [sign .closeParen])

/-- Parts in order, with the same pieces between any two of them. -/
def chain (between : List Piece) : List (List Piece) → List Piece
  | [] => []
  | first :: rest => first ++ rest.flatMap (between ++ ·)

/-- A number; a minus sign is a token of its own. -/
def number (kind : Token.Kind) (lexeme : String) : List Piece :=
  match lexeme.toList with
  | '-' :: digits => [sign .minus, token kind (String.ofList digits)]
  | _ => [token kind lexeme]

def literal : LiteralKind → String → List Piece
  | .string, lexeme => [token .string lexeme]
  | .int, lexeme => number .int lexeme
  | .float, lexeme => number .float lexeme
  | .bool, lexeme => [word (if lexeme = "true" then .kwTrue else .kwFalse)]

def operator : Operator → Piece
  | .add => sign .plus
  | .sub => sign .minus
  | .mul => sign .times
  | .div => sign .divide
  | .and => word .kwAnd
  | .or => word .kwOr

def comparator : Comparator → Piece
  | .lt => sign .less
  | .le => sign .lessEqual
  | .gt => sign .greater
  | .ge => sign .greaterEqual
  | .eq => sign .equal
  | .ne => sign .notEqual

def joint : Joint → Piece
  | .arithmetic op | .logical op => operator op
  | .equality comparison | .comparison comparison => comparator comparison
  | .concat => sign .concat
  | .range => sign .range

end Piece

open Piece

namespace Expr

mutual

/-- The pieces of a tree, with parentheses around its parts. -/
def pieces : Expr → List Piece
  | none _ => [word .kwNone]
  | literal _ kind lexeme => Piece.literal kind lexeme
  | name _ text => [Piece.name text]
  | assign _ text value => Piece.name text :: gap :: sign .assign :: gap :: group value.pieces
  | list _ elements => sign .openBracket :: (chain [sign .comma, gap] (piecesAll elements) ++ [sign .closeBracket])
  | dict _ [] => [sign .openBracket, sign .colon, sign .closeBracket]
  | dict _ (pair :: pairs) =>
    sign .openBracket :: (chain [sign .comma, gap] (piecesPairs (pair :: pairs)) ++ [sign .closeBracket])
  | subscript _ target index =>
    group target.pieces ++ sign .openBracket :: (group index.pieces ++ [sign .closeBracket])
  | store _ target index value =>
    group target.pieces ++ sign .openBracket ::
      (group index.pieces ++ sign .closeBracket :: gap :: sign .assign :: gap :: group value.pieces)
  | join _ joint left right => group left.pieces ++ gap :: Piece.joint joint :: gap :: group right.pieces
  | negate _ operand => word .kwNot :: gap :: group operand.pieces
  | block _ body => sign .openBrace :: (chain [divider] (piecesAll body) ++ [sign .closeBrace])
  | conditional _ condition yes no =>
    word .kwIf :: gap :: (group condition.pieces ++ gap :: (yes.pieces ++ gap :: word .kwElse :: gap :: no.pieces))
  | loop _ item source body =>
    word .kwFor :: gap :: Piece.name item :: gap :: word .kwIn :: gap :: (group source.pieces ++ gap :: body.pieces)
  | function _ text parameters body =>
    word .kwFn :: gap :: Piece.name text :: sign .openParen ::
      (chain [sign .comma, gap] (parameters.map ([Piece.name ·])) ++ sign .closeParen :: gap :: body.pieces)
  | call _ text arguments =>
    Piece.name text :: sign .openParen :: (chain [sign .comma, gap] (piecesAll arguments) ++ [sign .closeParen])
  | print _ shown newline =>
    word (if newline then .kwPrintln else .kwPrint) :: sign .openParen :: (group shown.pieces ++ [sign .closeParen])
  | unknown _ _ => []

def piecesAll : List Expr → List (List Piece)
  | [] => []
  | expr :: rest => group expr.pieces :: piecesAll rest

def piecesPairs : List (Expr × Expr) → List (List Piece)
  | [] => []
  | (key, value) :: rest =>
    (group key.pieces ++ sign .colon :: gap :: group value.pieces) :: piecesPairs rest

end

/-- The text of a program. -/
def source : Expr → String
  | block _ body => String.join ((chain [divider] (piecesAll body)).map Piece.text)
  | _ => ""

theorem piecesAll_eq_map (exprs : List Expr) : piecesAll exprs = exprs.map fun expr => group expr.pieces := by
  induction exprs with
  | nil => rfl
  | cons expr rest ih => rw [piecesAll, ih, List.map_cons]

theorem piecesPairs_eq_map (pairs : List (Expr × Expr)) : piecesPairs pairs =
    pairs.map fun pair => group pair.1.pieces ++ sign .colon :: gap :: group pair.2.pieces := by
  induction pairs with
  | nil => rfl
  | cons pair rest ih => rw [piecesPairs, ih, List.map_cons]

end Expr

end Corvid
