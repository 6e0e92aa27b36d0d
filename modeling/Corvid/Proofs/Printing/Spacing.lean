import Corvid.Proofs.Printing.Printer

/-!
Printed text is split at its pieces: wherever no blank stands after a token, the next character continues no token,
or the token is a symbol that no longer one begins with.
-/
namespace Corvid

open Piece

namespace Piece

/-- What may follow any token. -/
def Quiet : List Piece → Prop
  | [] => True
  | piece :: _ => ∃ c rest, piece.text.toList = c :: rest ∧ Token.Inert c

/-- Pieces that do not run into each other. -/
inductive Spaced : List Piece → Prop where
  | nil : Spaced []
  | gap {rest : List Piece} (spaced : Spaced rest) : Spaced (gap :: rest)
  | token {kind : Token.Kind} {text : String} {rest : List Piece} (lexeme : Token.Lexeme kind text.toList)
      (quiet : Quiet rest) (spaced : Spaced rest) : Spaced (token kind text :: rest)
  | lone {symbol : Symbol} {rest : List Piece} (lone : Token.Lone symbol) (spaced : Spaced rest) :
      Spaced (sign symbol :: rest)
  | divider {rest : List Piece} (spaced : Spaced (sign .openParen :: rest)) :
      Spaced (divider :: sign .openParen :: rest)

/-- The text of pieces. -/
def chars (pieces : List Piece) : List Char := pieces.flatMap (·.text.toList)

/-- Kind and text of a token. -/
def spelling? : Piece → Option (Token.Kind × String)
  | token kind text => some (kind, text)
  | gap => none

end Piece

/-- A token without its place. -/
def Token.spelling (token : Token) : Token.Kind × String := (token.kind, token.text)

namespace Piece

/-- Pieces whose text is split into their tokens, wherever it begins. -/
def Reads (pieces : List Piece) : Prop :=
  ∀ position, ∃ tokens, Token.Splits position (chars pieces) tokens ∧
    tokens.map Token.spelling = pieces.filterMap spelling?

theorem Reads.token {kind : Token.Kind} {text : String} {rest : List Piece} {c : Char} {more : List Char}
    (text_eq : text.toList = c :: more) (starts : Token.Starts c (more ++ chars rest) kind more.length)
    (reads : Reads rest) : Reads (token kind text :: rest) := by
  intro position
  obtain ⟨tokens, splits, spelled⟩ := reads (position.after (c :: more))
  have same : text = String.ofList (c :: more) := by rw [← text_eq, String.ofList_toList]
  refine ⟨⟨kind, text, position⟩ :: tokens, ?_, congrArg _ spelled⟩
  have whole : Token.Splits position (c :: (more ++ chars rest))
      (⟨kind, String.ofList (c :: (more ++ chars rest).take more.length), position⟩ :: tokens) :=
    .token starts (by simpa using splits)
  rw [List.take_left, ← same] at whole
  rw [chars, List.flatMap_cons, Piece.text, text_eq]
  exact whole

/-- Text that is put together from spaced pieces is split into their tokens. -/
theorem Spaced.reads {pieces : List Piece} (spaced : Spaced pieces) : Reads pieces := by
  induction spaced with
  | nil => exact fun position => ⟨[], .nil position, rfl⟩
  | gap _ ih =>
    intro position
    obtain ⟨tokens, splits, spelled⟩ := ih (position.next ' ')
    exact ⟨tokens, .space rfl splits, spelled⟩
  | @token kind text rest lexeme quiet _ ih =>
    obtain ⟨c, more, text_eq, starts⟩ := lexeme.starts
    have solid : kind ≠ .separator := by
      rintro rfl
      cases lexeme
    refine ih.token text_eq ?_
    -- by itself the lexeme is one token; what follows begins with a character that does not prolong it
    cases rest with
    | nil => simpa [chars] using starts
    | cons piece rest =>
      obtain ⟨next, after, next_eq, inert⟩ := quiet
      have front : chars (piece :: rest) = next :: (after ++ chars rest) := by simp [chars, next_eq]
      rw [front]
      exact starts.append _ inert solid
  | @lone symbol rest lone _ ih =>
    obtain ⟨c, more, text_eq, _⟩ := (Token.Lexeme.symbol symbol).starts
    obtain ⟨rfl, starts⟩ := lone.starts text_eq (chars rest)
    exact ih.token text_eq starts
  | @divider rest _ ih =>
    have starts : Token.Starts ';' (' ' :: '(' :: chars rest) .separator _ := .separator (.inl rfl)
    exact ih.token rfl starts

/-- Spaced pieces stay on one line. -/
theorem Spaced.inLine {pieces : List Piece} (spaced : Spaced pieces) : '\n' ∉ chars pieces := by
  have cons {piece : Piece} {rest : List Piece} (first : '\n' ∉ piece.text.toList) (others : '\n' ∉ chars rest) :
      '\n' ∉ chars (piece :: rest) := List.not_mem_append first others
  induction spaced with
  | nil => exact List.not_mem_nil
  | gap _ ih => exact cons (by decide) ih
  | token lexeme _ _ ih => exact cons lexeme.inLine ih
  | @lone symbol _ _ _ ih => exact cons (Token.Lexeme.symbol symbol).inLine ih
  | divider _ ih => exact cons (by decide) ih

/-! Printed trees -/

/-- Pieces that anything may follow. -/
def Closed (pieces : List Piece) : Prop := ∀ rest, Spaced rest → Spaced (pieces ++ rest)

/-- Pieces that anything quiet may follow. -/
def Open (pieces : List Piece) : Prop := ∀ rest, Quiet rest → Spaced rest → Spaced (pieces ++ rest)

theorem quiet_gap (rest : List Piece) : Quiet (gap :: rest) := ⟨' ', [], rfl, by decide⟩

theorem quiet_sign {symbol : Symbol} {c : Char} (text_eq : symbol.text.toList = [c]) (inert : Token.Inert c)
    (rest : List Piece) : Quiet (sign symbol :: rest) := ⟨c, [], text_eq, inert⟩

theorem Spaced.word {rest : List Piece} (keyword : Keyword) (quiet : Quiet rest) (spaced : Spaced rest) :
    Spaced (word keyword :: rest) := .token (.keyword keyword) quiet spaced

/-- A sign between two blanks. -/
theorem Spaced.between {rest : List Piece} (symbol : Symbol) (spaced : Spaced rest) :
    Spaced (Piece.gap :: sign symbol :: Piece.gap :: rest) :=
  .gap (.token (.symbol symbol) (quiet_gap _) (.gap spaced))

theorem Closed.opened {pieces : List Piece} (closed : Closed pieces) : Open pieces :=
  fun rest _ spaced => closed rest spaced

/-- Pieces between two signs. -/
theorem Open.enclosed {inside : List Piece} (fits : Open inside) {left right : Symbol} {c : Char}
    (lone : Token.Lone left) (lone' : Token.Lone right) (text_eq : right.text.toList = [c]) (inert : Token.Inert c) :
    Closed (sign left :: (inside ++ [sign right])) := by
  intro rest spaced
  rw [List.cons_append, List.append_assoc]
  exact .lone lone (fits _ (quiet_sign text_eq inert _) (.lone lone' spaced))

theorem Open.parens {inside : List Piece} (fits : Open inside) :
    Closed (sign .openParen :: (inside ++ [sign .closeParen])) :=
  fits.enclosed (by decide) (by decide) rfl (by decide)

theorem Open.brackets {inside : List Piece} (fits : Open inside) :
    Closed (sign .openBracket :: (inside ++ [sign .closeBracket])) :=
  fits.enclosed (by decide) (by decide) rfl (by decide)

theorem Open.braces {inside : List Piece} (fits : Open inside) :
    Closed (sign .openBrace :: (inside ++ [sign .closeBrace])) :=
  fits.enclosed (by decide) (by decide) rfl (by decide)

theorem Open.group {inside : List Piece} (fits : Open inside) : Closed (group inside) := fits.parens

theorem Open.commas {parts : List (List Piece)} (all : ∀ part ∈ parts, Open part) :
    Open (chain [sign .comma, gap] parts) := by
  have others {parts : List (List Piece)} (all : ∀ part ∈ parts, Open part) {rest : List Piece} (quiet : Quiet rest)
      (spaced : Spaced rest) : Quiet (parts.flatMap ([sign .comma, gap] ++ ·) ++ rest) ∧
        Spaced (parts.flatMap ([sign .comma, gap] ++ ·) ++ rest) := by
    induction parts with
    | nil => exact ⟨quiet, spaced⟩
    | cons part parts ih =>
      obtain ⟨fits, all⟩ := List.forall_mem_cons.mp all
      obtain ⟨quiet', spaced'⟩ := ih all
      rw [List.flatMap_cons, List.append_assoc, List.append_assoc]
      exact ⟨quiet_sign rfl (by decide) _, .lone (by decide) (.gap (fits _ quiet' spaced'))⟩
  intro rest quiet spaced
  cases parts with
  | nil => exact spaced
  | cons first parts =>
    obtain ⟨fits, all⟩ := List.forall_mem_cons.mp all
    obtain ⟨quiet', spaced'⟩ := others all quiet spaced
    rw [Piece.chain, List.append_assoc]
    exact fits _ quiet' spaced'

theorem Closed.dividers {insides : List (List Piece)} (all : ∀ inside ∈ insides, Open inside) :
    Closed (chain [Piece.divider] (insides.map Piece.group)) := by
  have others {insides : List (List Piece)} (all : ∀ inside ∈ insides, Open inside) {rest : List Piece}
      (spaced : Spaced rest) : Spaced ((insides.map Piece.group).flatMap ([Piece.divider] ++ ·) ++ rest) := by
    induction insides with
    | nil => exact spaced
    | cons inside insides ih =>
      obtain ⟨fits, all⟩ := List.forall_mem_cons.mp all
      rw [List.map_cons, List.flatMap_cons, List.append_assoc, List.append_assoc]
      exact .divider (fits.group _ (ih all))
  intro rest spaced
  cases insides with
  | nil => exact spaced
  | cons inside insides =>
    obtain ⟨fits, all⟩ := List.forall_mem_cons.mp all
    rw [List.map_cons, Piece.chain, List.append_assoc]
    exact fits.group _ (others all spaced)

/-! Numbers -/

theorem Numeric.digit {kind : Token.Kind} (numeric : kind = .int ∨ kind = .float) {c : Char} {rest : List Char}
    (lexeme : Token.Lexeme kind (c :: rest)) : Token.isDigit c = true := by
  generalize same : c :: rest = text at lexeme
  cases lexeme with
  | int number =>
    subst same
    exact number.2 c List.mem_cons_self
  | @float whole _ _ number =>
    obtain ⟨first, more, rfl⟩ := List.exists_cons_of_ne_nil number.1
    cases same
    exact number.2 c List.mem_cons_self
  | _ => simp at numeric

theorem number_plain {kind : Token.Kind} (numeric : kind = .int ∨ kind = .float) {text : String}
    (lexeme : Token.Lexeme kind text.toList) : number kind text = [token kind text] := by
  rw [number]
  split
  · next digits found =>
    rw [found] at lexeme
    have := Numeric.digit numeric lexeme
    contradiction
  · rfl

theorem number_negative (kind : Token.Kind) (text : String) :
    number kind ("-" ++ text) = [sign .minus, token kind text] := by
  have front : ("-" ++ text).toList = '-' :: text.toList := by simp
  rw [number, front]
  simp

theorem open_number {kind : Token.Kind} (numeric : kind = .int ∨ kind = .float) {lexeme : String}
    (signed : Signed kind lexeme) : Open (number kind lexeme) := by
  obtain ⟨text, known, rfl | rfl⟩ := signed <;> intro rest quiet spaced
  · rw [number_plain numeric known]
    exact .token known quiet spaced
  · rw [number_negative]
    exact .lone (by decide) (.token known quiet spaced)

theorem open_literal {kind : LiteralKind} {lexeme : String} (spelled : kind.Spelled lexeme) :
    Open (literal kind lexeme) := by
  cases kind with
  | string => exact fun rest quiet spaced => .token spelled quiet spaced
  | int => exact open_number (.inl rfl) spelled
  | float => exact open_number (.inr rfl) spelled
  | bool => exact fun rest quiet spaced => .word _ quiet spaced

theorem spaced_joint {rest : List Piece} (joint : Joint) (spaced : Spaced rest) :
    Spaced (gap :: Piece.joint joint :: gap :: rest) := by
  have word (keyword : Keyword) : Spaced (Piece.gap :: Piece.word keyword :: Piece.gap :: rest) :=
    .gap (.word keyword (quiet_gap _) (.gap spaced))
  cases joint with
  | arithmetic op | logical op => cases op <;> first | exact spaced.between _ | exact word _
  | equality comparator | comparison comparator => cases comparator <;> exact spaced.between _
  | concat | range => exact spaced.between _

end Piece

namespace Expr

theorem open_items {exprs : List Expr} (all : ∀ expr ∈ exprs, Open expr.pieces) :
    Open (chain [sign .comma, gap] (piecesAll exprs)) := by
  rw [piecesAll_eq_map]
  refine .commas fun part member => ?_
  obtain ⟨expr, known, rfl⟩ := List.mem_map.mp member
  exact (all expr known).group.opened

theorem open_pairs {pairs : List (Expr × Expr)} (keys : ∀ pair ∈ pairs, Open pair.1.pieces)
    (values : ∀ pair ∈ pairs, Open pair.2.pieces) : Open (chain [sign .comma, gap] (piecesPairs pairs)) := by
  rw [piecesPairs_eq_map]
  refine .commas fun part member => ?_
  obtain ⟨pair, known, rfl⟩ := List.mem_map.mp member
  intro rest quiet spaced
  rw [List.append_assoc]
  exact (keys pair known).group _ (.lone (by decide) (.gap ((values pair known).group rest spaced)))

theorem closed_statements {exprs : List Expr} (all : ∀ expr ∈ exprs, Open expr.pieces) :
    Closed (chain [divider] (piecesAll exprs)) := by
  have composed : piecesAll exprs = (exprs.map pieces).map group := by
    rw [piecesAll_eq_map, List.map_map]
    rfl
  rw [composed]
  refine .dividers fun inside member => ?_
  obtain ⟨expr, known, rfl⟩ := List.mem_map.mp member
  exact all expr known

/-- The pieces of a tree do not run into each other. -/
theorem Expressible.opened {expr : Expr} (expressible : expr.Expressible) : Open expr.pieces := by
  induction expressible with
  | none mark => exact fun rest quiet spaced => .word _ quiet spaced
  | literal mark spelled => exact open_literal spelled
  | name mark named => exact fun rest quiet spaced => .token named quiet spaced
  | assign mark named inside ih =>
    intro rest quiet spaced
    exact .token named (quiet_gap _) ((ih.group rest spaced).between .assign)
  | list mark inside ih => exact (open_items ih).brackets.opened
  | @dict pairs mark keys values ih ih' =>
    cases pairs with
    | nil => exact fun rest quiet spaced => .lone (by decide) (.lone (by decide) (.lone (by decide) spaced))
    | cons pair pairs => exact (open_pairs ih ih').brackets.opened
  | subscript mark container place ih ih' =>
    intro rest quiet spaced
    rw [pieces, List.append_assoc]
    exact ih.group _ (ih'.group.opened.brackets rest spaced)
  | store mark container place inside ih ih' ih'' =>
    intro rest quiet spaced
    rw [pieces, List.append_assoc]
    have stored := (ih''.group rest spaced).between .assign
    have placed := ih'.group.opened.brackets _ stored
    simp only [List.cons_append, List.append_assoc, List.nil_append] at placed ⊢
    exact ih.group _ placed
  | @join joint left right mark matched before after ih ih' =>
    intro rest quiet spaced
    rw [pieces, List.append_assoc]
    exact ih.group _ (spaced_joint joint (ih'.group rest spaced))
  | negate mark inside ih => exact fun rest quiet spaced => .word _ (quiet_gap _) (.gap (ih.group rest spaced))
  | block mark inside ih => exact (closed_statements ih).opened.braces.opened
  | conditional mark test chosen other first second ih ih' ih'' =>
    intro rest quiet spaced
    have last := Spaced.gap (.word .kwElse (quiet_gap _) (.gap (ih'' rest quiet spaced)))
    have branches := ih.group _ (.gap (ih' _ (quiet_gap _) last))
    simp only [pieces, List.cons_append, List.append_assoc]
    exact .word .kwIf (quiet_gap _) (.gap branches)
  | loop mark named among enclosed inside ih ih' =>
    intro rest quiet spaced
    have course := ih.group _ (.gap (ih' rest quiet spaced))
    simp only [pieces, List.cons_append, List.append_assoc]
    exact .word .kwFor (quiet_gap _) (.gap (.token named (quiet_gap _)
      (.gap (.word .kwIn (quiet_gap _) (.gap course)))))
  | @function text parameters body mark named all enclosed inside ih =>
    intro rest quiet spaced
    have listed : Open (chain [sign .comma, gap] (parameters.map ([Piece.name ·]))) := by
      refine .commas fun part member => ?_
      obtain ⟨parameter, known, rfl⟩ := List.mem_map.mp member
      exact fun rest quiet spaced => .token (all parameter known) quiet spaced
    have head := listed.parens _ (.gap (ih rest quiet spaced))
    simp only [pieces, List.cons_append, List.append_assoc, List.nil_append] at head ⊢
    exact .word .kwFn (quiet_gap _) (.gap (.token named (quiet_sign rfl (by decide) _) head))
  | call mark named inside ih =>
    exact fun rest quiet spaced => .token named (quiet_sign rfl (by decide) _) ((open_items ih).parens rest spaced)
  | print mark inside newline ih =>
    exact fun rest quiet spaced => .word _ (quiet_sign rfl (by decide) _) (ih.group.opened.parens rest spaced)

end Expr

end Corvid
