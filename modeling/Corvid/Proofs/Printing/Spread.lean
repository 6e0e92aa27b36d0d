import Corvid.Proofs.Printing.Spacing
import Mathlib.Data.List.Chain

/-!
A text for given tokens. Each is written with a blank after it, and a separator as a semicolon, whatever its own text
was. The text is split into these tokens again if no two separators meet.
-/
namespace Corvid

/-- Makes all separators alike: a comment that ends a text belongs to one, and nothing can be written after it. -/
def Token.worded (spelling : Token.Kind × String) : Token.Kind × String :=
  (spelling.1, if spelling.1 = .separator then "" else spelling.2)

/-- Kind and text of a token, but of a separator only the kind. -/
def Token.wording (token : Token) : Token.Kind × String := worded token.spelling

theorem Token.map_wording (tokens : List Token) : tokens.map wording = (tokens.map spelling).map worded := by
  rw [List.map_map]
  rfl

theorem Token.kinds_of_wordings {tokens others : List Token} (same : tokens.map wording = others.map wording) :
    tokens.map Token.kind = others.map Token.kind := by
  have firsts := congrArg (List.map Prod.fst) same
  rw [List.map_map, List.map_map] at firsts
  exact firsts

/-- Not both of two tokens are separators. -/
def Token.Divided (first second : Token) : Prop := first.kind = .separator → second.kind ≠ .separator

namespace Piece

/-- The pieces that one token is written as. -/
def spread (token : Token) : List Piece :=
  if token.kind = .separator then [Piece.token .separator ";"] else [Piece.token token.kind token.text, gap]

theorem Reads.gap {rest : List Piece} (reads : Reads rest) : Reads (gap :: rest) := by
  intro position
  obtain ⟨tokens, splits, spelled⟩ := reads (position.next ' ')
  exact ⟨tokens, .space rfl splits, spelled⟩

/-- A token before a blank is read as it is written. -/
theorem Reads.spread_solid {token : Token} {rest : List Piece} (lexeme : Token.Lexeme token.kind token.text.toList)
    (reads : Reads rest) : Reads (Piece.token token.kind token.text :: Piece.gap :: rest) := by
  have solid : token.kind ≠ .separator := by
    intro same
    rw [same] at lexeme
    cases lexeme
  obtain ⟨c, more, text_eq, starts⟩ := lexeme.starts
  exact reads.gap.token text_eq (starts.append _ (by decide) solid)

/-- A semicolon is read as a separator by itself if no separator text follows. -/
theorem Reads.spread_separator {rest : List Piece} (ends : Token.separatorLength false (chars rest) = 0)
    (reads : Reads rest) : Reads (Piece.token .separator ";" :: rest) := by
  have starts : Token.Starts ';' (chars rest) .separator _ := .separator (.inl rfl)
  have none : Token.separatorLength (';' == '#') (chars rest) = 0 := ends
  rw [none] at starts
  exact reads.token rfl starts

/-- No separator text begins where a token other than a separator is written. -/
theorem separatorLength_spread {tokens : List Token}
    (lexemes : ∀ token ∈ tokens, token.kind ≠ .separator → Token.Lexeme token.kind token.text.toList)
    (solid : ∀ token ∈ tokens.head?, token.kind ≠ .separator) :
    Token.separatorLength false (chars (tokens.flatMap spread)) = 0 := by
  cases tokens with
  | nil => rfl
  | cons token tokens =>
    have solid : token.kind ≠ .separator := solid token rfl
    obtain ⟨c, more, text_eq, starts⟩ := (lexemes token List.mem_cons_self solid).starts
    obtain ⟨comment, divider, blank⟩ := starts.apart solid
    have front : ∃ after, chars ((token :: tokens).flatMap spread) = c :: after := by
      refine ⟨more ++ chars (gap :: tokens.flatMap spread), ?_⟩
      simp [spread, solid, chars, text, text_eq]
    obtain ⟨after, front⟩ := front
    have stops : Token.continuation? false c = none := by simp [Token.continuation?, comment, divider, blank]
    rw [front, Token.separatorLength_cons, stops]

/-- The pieces of tokens are read as these tokens. -/
theorem reads_spread {tokens : List Token}
    (lexemes : ∀ token ∈ tokens, token.kind ≠ .separator → Token.Lexeme token.kind token.text.toList)
    (divided : tokens.IsChain Token.Divided) : Reads (tokens.flatMap spread) := by
  induction tokens with
  | nil => exact fun position => ⟨[], .nil position, rfl⟩
  | cons token tokens ih =>
    have later := fun other member => lexemes other (List.mem_cons_of_mem token member)
    have reads := ih later divided.tail
    rw [List.flatMap_cons, spread]
    by_cases separator : token.kind = .separator
    · rw [if_pos separator]
      refine reads.spread_separator (separatorLength_spread later ?_)
      intro other first
      exact (List.isChain_cons.mp divided).1 other first separator
    · rw [if_neg separator]
      exact reads.spread_solid (lexemes token List.mem_cons_self separator)

theorem wording_spread (tokens : List Token) :
    ((tokens.flatMap spread).filterMap spelling?).map Token.worded = (tokens.map Token.spelling).map Token.worded := by
  induction tokens with
  | nil => rfl
  | cons token tokens ih =>
    have one : ((spread token).filterMap spelling?).map Token.worded = [Token.worded token.spelling] := by
      unfold spread
      split
      · next separator => simp [spelling?, Token.worded, Token.spelling, separator]
      · rfl
    rw [List.flatMap_cons, List.filterMap_append, List.map_append, one, ih]
    rfl

/-- Tokens have a text that is split into tokens of the same wording. -/
theorem exists_text {tokens : List Token}
    (lexemes : ∀ token ∈ tokens, token.kind ≠ .separator → Token.Lexeme token.kind token.text.toList)
    (divided : tokens.IsChain Token.Divided) :
    ∃ (source : String) (found : List Token), Token.Splits .start source.toList found ∧
      found.map Token.wording = tokens.map Token.wording := by
  obtain ⟨found, splits, spelled⟩ := reads_spread lexemes divided .start
  refine ⟨String.ofList (chars (tokens.flatMap spread)), found, by simpa using splits, ?_⟩
  rw [Token.map_wording, spelled, wording_spread, ← Token.map_wording]

end Piece

end Corvid
