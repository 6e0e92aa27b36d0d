import Corvid.Proofs.Token.Brackets
import Corvid.Proofs.Token.Joining

/-!
The bracket count of a text that is being typed, against its tokens. At every place where a token begins the count is
that of the tokens before it, and within a token other than a bracket it stays what it was, whatever characters the
token is made of. So brackets in strings and comments never count, whether or not the text is a program.
-/
namespace Corvid

/-- The kinds of tokens that change the number of open brackets. -/
def Token.Kind.brackets : List Token.Kind :=
  [.symbol .openParen, .symbol .openBracket, .symbol .openBrace,
    .symbol .closeParen, .symbol .closeBracket, .symbol .closeBrace]

namespace Session

theorem plain_of_keyword (word : Keyword) : ∀ c ∈ word.text.toList, Plain c := by
  have parts : word.text.toList.all Token.isNamePart = true := by cases word <;> decide
  exact fun c member => plain_of_isNamePart (List.all_eq_true.mp parts c member)

theorem plain_of_symbol {sign : Symbol} (other : .symbol sign ∉ Token.Kind.brackets) :
    ∀ c ∈ sign.text.toList, Plain c := by
  have plain : sign.text.toList.all (fun c => Plain c) = true := by
    cases sign <;> first | decide | exact absurd (by decide) other
  exact fun c member => of_decide_eq_true (List.all_eq_true.mp plain c member)

/-- Whatever part of a string is read, the count stays. -/
theorem Scan.depth_after_quoted {text part : List Char} (quoted : Token.Quoted text) (front : part <+: text)
    (depth : Nat) : ((Scan.mk .string depth).after part).depth = depth := by
  induction quoted generalizing part with
  | close =>
    obtain rfl | ⟨more, rfl, later⟩ := List.prefix_cons_iff.mp front
    · rfl
    · rw [List.prefix_nil.mp later]
      rfl
  | @plain c text plain _ ih =>
    obtain rfl | ⟨more, rfl, later⟩ := List.prefix_cons_iff.mp front
    · rfl
    · change (((Scan.mk .string depth).next c).after more).depth = depth
      simp only [Scan.next, if_neg plain.1, if_neg plain.2.1]
      exact ih later
  | escape _ _ ih =>
    obtain rfl | ⟨more, rfl, later⟩ := List.prefix_cons_iff.mp front
    · rfl
    · obtain rfl | ⟨most, rfl, last⟩ := List.prefix_cons_iff.mp later
      · rfl
      · change ((Scan.mk .string depth).after most).depth = depth
        exact ih last

/-- Whatever part of separator text is read, the count stays. -/
theorem Scan.depth_after_separator (comment : Bool) {text part : List Char}
    (front : part <+: text.take (Token.separatorLength comment text)) (depth : Nat) :
    ((Scan.mk (separatorPlace comment) depth).after part).depth = depth := by
  induction text generalizing comment part with
  | nil =>
    rw [List.take_nil, List.prefix_nil] at front
    rw [front]
    rfl
  | cons c text ih =>
    rw [Token.separatorLength_cons] at front
    cases going : Token.continuation? comment c with
    | none =>
      rw [going, List.take_zero, List.prefix_nil] at front
      rw [front]
      rfl
    | some mode =>
      rw [going, List.take_succ_cons] at front
      obtain rfl | ⟨more, rfl, later⟩ := List.prefix_cons_iff.mp front
      · rfl
      · change (((Scan.mk (separatorPlace comment) depth).next c).after more).depth = depth
        rw [Scan.next_separator going]
        exact ih mode later

theorem Scan.depth_after_lexeme {kind : Token.Kind} {text part : List Char} (lexeme : Token.Lexeme kind text)
    (other : kind ∉ Token.Kind.brackets) (front : part <+: text) (depth : Nat) :
    ((Scan.mk .code depth).after part).depth = depth := by
  have flat (plain : ∀ c ∈ text, Plain c) : ((Scan.mk .code depth).after part).depth = depth := by
    rw [Scan.after_plain (fun c member => plain c (front.subset member))]
  cases lexeme with
  | name letter parts =>
    refine flat (List.forall_mem_cons.mpr ⟨plain_of_isNamePart ?_, fun c member => ?_⟩)
    · simp [Token.isNamePart, letter]
    · exact plain_of_isNamePart (parts c member)
  | int number => exact flat (plain_of_digits number)
  | float number broken scaled => exact flat (plain_of_float number broken scaled)
  | string quoted =>
    obtain rfl | ⟨more, rfl, later⟩ := List.prefix_cons_iff.mp front
    · rfl
    · exact Scan.depth_after_quoted quoted later depth
  | keyword word => exact flat (plain_of_keyword word)
  | symbol sign => exact flat (plain_of_symbol other)

/-- Whatever part of a token other than a bracket is read, the count stays. -/
theorem Scan.depth_within {c : Char} {text part : List Char} {kind : Token.Kind} {more : Nat}
    (starts : Token.Starts c text kind more) (other : kind ∉ Token.Kind.brackets) (front : part <+: c :: text.take more)
    (depth : Nat) : ((Scan.mk .code depth).after part).depth = depth := by
  by_cases solid : kind = .separator
  · subst solid
    obtain ⟨opens, rfl⟩ := starts.separator_inv
    obtain rfl | ⟨rest, rfl, later⟩ := List.prefix_cons_iff.mp front
    · rfl
    · change (((Scan.mk .code depth).next c).after rest).depth = depth
      rw [Scan.next_opens opens]
      exact Scan.depth_after_separator (c == '#') later depth
  · exact Scan.depth_after_lexeme (starts.lexeme solid) other front depth

/-- The scan is in code where a token begins, and has counted the tokens before it. -/
theorem Scan.after_before {position : Position} {text : List Char} {before behind : List Token} {token : Token}
    (splits : Token.Splits position text (before ++ token :: behind)) :
    ∃ front c rest more, text = front ++ c :: rest ∧ Token.Starts c rest token.kind more ∧
      token.text.toList = c :: rest.take more ∧ token.position = position.after front ∧
      ∀ depth, (Scan.mk .code depth).after front = ⟨.code, Token.depthAfter depth before⟩ := by
  have space {c : Char} {front : List Char} {before : List Token} (blank : Token.isSpace c = true)
      (reaches : ∀ depth, (Scan.mk .code depth).after front = ⟨.code, Token.depthAfter depth before⟩) (depth : Nat) :
      (Scan.mk .code depth).after (c :: front) = ⟨.code, Token.depthAfter depth before⟩ := by
    change ((Scan.mk .code depth).next c).after front = _
    rw [Scan.next_plain (plain_of_isSpace blank)]
    exact reaches depth
  have step {position : Position} {c : Char} {rest front : List Char} {kind : Token.Kind} {more : Nat}
      {before : List Token} (starts : Token.Starts c rest kind more) (follows : more < rest.length)
      (reaches : ∀ depth, (Scan.mk .code depth).after front = ⟨.code, Token.depthAfter depth before⟩) (depth : Nat) :
      (Scan.mk .code depth).after (c :: rest.take more ++ front) =
        ⟨.code, Token.depthAfter depth (⟨kind, String.ofList (c :: rest.take more), position⟩ :: before)⟩ := by
    obtain ⟨inside, across, ends⟩ := Scan.after_token starts depth
    rw [Scan.after_append, across, ends follows]
    exact reaches _
  obtain ⟨front, c, rest, more, _, whole, starts, same, place, reaches, _⟩ := splits.starts_at
    (P := fun front before => ∀ depth, (Scan.mk .code depth).after front = ⟨.code, Token.depthAfter depth before⟩)
    (fun _ => rfl) space step
  exact ⟨front, c, rest, more, whole, starts, same, place, reaches⟩

/-- In a text that falls into tokens, the scan counts the brackets among the tokens and nothing else: where a token
begins the count is that of the tokens before it, and it does not change within a string, a separator with its comments,
or any other token that is no bracket. -/
theorem openDepth_eq_depthAfter {text : String} {tokens : List Token} (splits : Token.split text = ⟨tokens, none⟩) :
    openDepth text.toList = Token.depthAfter 0 tokens ∧
      ∀ before token behind, tokens = before ++ token :: behind →
        ∃ front rest, text.toList = front ++ (token.text.toList ++ rest) ∧
          token.position = Position.start.after front ∧ openDepth front = Token.depthAfter 0 before ∧
          (token.kind ∉ Token.Kind.brackets →
            ∀ part, part <+: token.text.toList → openDepth (front ++ part) = openDepth front) := by
  have found := Token.Splits.of_splitFrom splits
  refine ⟨Scan.after_splits found 0, ?_⟩
  rintro before token behind rfl
  obtain ⟨front, c, rest, more, whole, starts, same, place, reaches⟩ := Scan.after_before found
  have counted : openDepth front = Token.depthAfter 0 before := congrArg Scan.depth (reaches 0)
  refine ⟨front, rest.drop more, ?_, place, counted, fun other part inside => ?_⟩
  · rw [whole, same, List.cons_append, List.take_append_drop]
  · rw [same] at inside
    change ((Scan.mk .code 0).after (front ++ part)).depth = _
    rw [Scan.after_append, reaches, counted]
    exact Scan.depth_within starts other inside _

/-- Closing brackets without opening ones, brackets in a string after an escaped quote and in a comment, and two that
are open at the end. -/
theorem openDepth_eq_depthAfter_typed :
    (∃ tokens, Token.split "\x7d) f(\"\\\"[\" # \x7b\n[" = ⟨tokens, none⟩ ∧
      tokens.map Token.kind = [.symbol .closeBrace, .symbol .closeParen, .name, .symbol .openParen, .string, .separator,
        .symbol .openBracket] ∧ Token.depthAfter 0 tokens = 2) ∧
      openDepth "\x7d) f(\"\\\"[\" # \x7b\n[".toList = 2 ∧
      ∃ front, openDepth front = 1 ∧ openDepth (front ++ "\"\\\"[".toList) = 1 := by
  have splits : Token.split "\x7d) f(\"\\\"[\" # \x7b\n[" = ⟨[⟨.symbol .closeBrace, "\x7d", ⟨1, 1⟩⟩,
      ⟨.symbol .closeParen, ")", ⟨1, 2⟩⟩, ⟨.name, "f", ⟨1, 4⟩⟩, ⟨.symbol .openParen, "(", ⟨1, 5⟩⟩,
      ⟨.string, "\"\\\"[\"", ⟨1, 6⟩⟩, ⟨.separator, "# \x7b\n", ⟨1, 12⟩⟩, ⟨.symbol .openBracket, "[", ⟨2, 1⟩⟩],
      none⟩ := rfl
  obtain ⟨counted, inside⟩ := openDepth_eq_depthAfter splits
  obtain ⟨front, _, _, _, opened, still⟩ := inside [_, _, _, _] _ _ rfl
  exact ⟨⟨_, splits, rfl, rfl⟩, counted, front, opened, (still (by decide) _ ⟨['"'], rfl⟩).trans opened⟩

end Session

end Corvid
