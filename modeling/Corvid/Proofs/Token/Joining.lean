import Corvid.Proofs.Token.Boundary

/-!
The tokens of two texts with a line end between them. The line end makes one separator, together with the
separators that the first text ends with and the second begins with; all other tokens are those of the texts,
the second moved down by the lines of the first.
-/
namespace Corvid

/-- A place some lines further down. -/
def Position.down (lines : Nat) (position : Position) : Position := ⟨position.line + lines, position.column⟩

theorem Position.next_down (lines : Nat) (position : Position) (c : Char) :
    (position.down lines).next c = (position.next c).down lines := by
  simp only [Position.next, Position.down]
  split
  · rw [Nat.add_right_comm]
  · rfl

theorem Position.after_down (lines : Nat) (position : Position) (text : List Char) :
    (position.down lines).after text = (position.after text).down lines := by
  induction text generalizing position with
  | nil => rfl
  | cons c text ih => exact (congrArg (Position.after · text) (position.next_down lines c)).trans (ih _)

theorem Position.after_append (position : Position) (text rest : List Char) :
    position.after (text ++ rest) = (position.after text).after rest :=
  List.foldl_append

theorem Position.line_after (position : Position) (text : List Char) :
    (position.after text).line = position.line + text.count '\n' := by
  induction text generalizing position with
  | nil => rfl
  | cons c text ih =>
    have step : (position.next c).line = position.line + if c = '\n' then 1 else 0 := by
      rw [Position.next]
      split <;> rfl
    change ((position.next c).after text).line = _
    rw [ih, step, List.count_cons]
    simp only [beq_iff_eq]
    omega

/-- After a text and a line end, the next line begins. -/
theorem Position.after_newline (text : List Char) :
    Position.start.after (text ++ ['\n']) = Position.start.down (1 + text.count '\n') := by
  have line := Position.start.line_after text
  rw [Position.after_append]
  change (Position.start.after text).next '\n' = _
  rw [Position.next, if_pos rfl, line]
  simp only [Position.start, Position.down]
  congr 1
  omega

namespace Token

def down (lines : Nat) (token : Token) : Token := { token with position := token.position.down lines }

/-- Tokens without a separator at their end. -/
def withoutTrail : List Token → List Token
  | [] => []
  | [token] => if token.kind = .separator then [] else [token]
  | token :: rest => token :: withoutTrail rest

/-- Tokens without a separator at their front. -/
def withoutLead : List Token → List Token
  | [] => []
  | token :: rest => if token.kind = .separator then rest else token :: rest

theorem withoutTrail_cons {token : Token} {rest : List Token} (goes : token.kind = .separator → rest ≠ []) :
    withoutTrail (token :: rest) = token :: withoutTrail rest := by
  cases rest with
  | nil =>
    by_cases separator : token.kind = .separator
    · exact absurd rfl (goes separator)
    · simp [withoutTrail, separator]
  | cons => rfl

theorem continuation?_space {c : Char} (space : isSpace c = true) : continuation? false c = some false := by
  have plain : c ≠ '#' := by
    rintro rfl
    contradiction
  simp [continuation?, plain, isBlank_of_isSpace space]

/-- Where separator text stops inside a text, something else begins. -/
theorem continuation?_of_separatorLength_lt {comment : Bool} {text : List Char}
    (inside : separatorLength comment text < text.length) :
    ∃ c rest, text.drop (separatorLength comment text) = c :: rest ∧ continuation? false c = none := by
  induction text generalizing comment with
  | nil => contradiction
  | cons c text ih =>
    rw [separatorLength_cons] at inside ⊢
    cases going : continuation? comment c with
    | some mode =>
      simp only [going, List.length_cons] at inside
      simpa only [List.drop_succ_cons] using ih (Nat.lt_of_succ_lt_succ inside)
    | none =>
      have outside : comment = false := by
        cases comment with
        | false => rfl
        | true => simp [continuation?] at going
      exact ⟨c, text, rfl, outside ▸ going⟩

namespace Splits

variable {position : Position} {text : List Char} {tokens : List Token}

protected theorem down (lines : Nat) (splits : Splits position text tokens) :
    Splits (position.down lines) text (tokens.map (Token.down lines)) := by
  induction splits with
  | nil => exact .nil _
  | space blank _ ih =>
    rw [← Position.next_down] at ih
    exact .space blank ih
  | token starts _ ih =>
    rw [← Position.after_down] at ih
    exact .token starts ih

/-- Without the separator text at its front, a text has the same tokens but a leading separator. -/
theorem withoutLead (splits : Splits position text tokens) :
    Splits (position.after (text.take (separatorLength false text)))
      (text.drop (separatorLength false text)) (withoutLead tokens) := by
  induction splits with
  | nil => exact .nil _
  | @space position c text tokens blank rest ih =>
    simp only [separatorLength_cons, continuation?_space blank, List.take_succ_cons, List.drop_succ_cons]
    exact ih
  | @token position c text kind more tokens starts rest _ =>
    by_cases separator : kind = .separator
    · subst separator
      obtain ⟨opens, rfl⟩ := starts.separator_inv
      have going : continuation? false c = some (c == '#') := by
        obtain rfl | rfl | rfl := opens <;> decide
      simp only [separatorLength_cons, going, List.take_succ_cons, List.drop_succ_cons, Token.withoutLead]
      exact rest
    · have stays : continuation? false c = none := by
        simp [continuation?, starts.apart separator]
      simp only [separatorLength_cons, stays, Token.withoutLead, separator, if_false]
      exact .token starts rest

/-- A separator that reaches a line end or a comment takes in the separator text after it. -/
theorem run_on {c d : Char} {inside : Bool} (divider : Divider d inside) {rest : List Char} {following : List Token}
    (starts : Starts c text .separator text.length)
    (follows : Splits (position.after (c :: text ++ d :: rest.take (separatorLength inside rest)))
      (rest.drop (separatorLength inside rest)) following) :
    ∃ separator : Token, separator.kind = .separator ∧
      Splits position (c :: text ++ d :: rest) (separator :: following) := by
  have whole := starts.append_divider divider rest
  generalize size : text.length + 1 + separatorLength inside rest = length at whole
  have take : (text ++ d :: rest).take length = text ++ d :: rest.take (separatorLength inside rest) := by
    rw [← size, Nat.add_assoc, List.take_length_add_append, Nat.add_comm 1, List.take_succ_cons]
  have drop : (text ++ d :: rest).drop length = rest.drop (separatorLength inside rest) := by
    rw [← size, Nat.add_assoc, List.drop_length_add_append, Nat.add_comm 1, List.drop_succ_cons]
  have after : Splits (position.after (c :: (text ++ d :: rest).take length))
      ((text ++ d :: rest).drop length) following := by
    rw [take, drop]
    exact follows
  exact ⟨_, rfl, .token whole after⟩

/-- The tokens of a text, a line end or a comment, and what follows it. -/
theorem append_divider {d : Char} {mode : Bool} (divider : Divider d mode) {rest : List Char} {following : List Token}
    (splits : Splits position text tokens)
    (follows : Splits (position.after (text ++ d :: rest.take (separatorLength mode rest)))
      (rest.drop (separatorLength mode rest)) following) :
    ∃ separator : Token, separator.kind = .separator ∧
      Splits position (text ++ d :: rest) (withoutTrail tokens ++ separator :: following) := by
  induction splits with
  | nil position =>
    cases divider with
    | newline => exact ⟨_, rfl, .token (.separator (.inr (.inl rfl))) follows⟩
    | comment => exact ⟨_, rfl, .token (.separator (.inr (.inr rfl))) follows⟩
  | space blank _ ih =>
    obtain ⟨separator, kind, joined⟩ := ih follows
    exact ⟨separator, kind, .space blank joined⟩
  | @token position c text kind more tokens starts within ih =>
    have before : (text ++ d :: rest).take more = text.take more := List.take_append_of_le_length starts.le
    have behind : (text ++ d :: rest).drop more = text.drop more ++ d :: rest :=
      List.drop_append_of_le_length starts.le
    have further (starts' : Starts c (text ++ d :: rest) kind more) (goes : kind = .separator → tokens ≠ []) :
        ∃ separator : Token, separator.kind = .separator ∧ Splits position (c :: text ++ d :: rest)
          (withoutTrail (⟨kind, String.ofList (c :: text.take more), position⟩ :: tokens) ++
            separator :: following) := by
      have place : (position.after (c :: text.take more)).after
          (text.drop more ++ d :: rest.take (separatorLength mode rest)) =
          position.after (c :: text ++ d :: rest.take (separatorLength mode rest)) := by
        rw [← Position.after_append, List.cons_append, ← List.append_assoc, List.take_append_drop]
        rfl
      obtain ⟨separator, separates, joined⟩ := ih (place ▸ follows)
      rw [← before, ← behind] at joined
      refine ⟨separator, separates, ?_⟩
      rw [withoutTrail_cons goes, ← before]
      exact .token starts' joined
    by_cases separator : kind = .separator
    · subst separator
      by_cases reaches : more = text.length
      · -- The last separator of the text runs on over the line end.
        subst reaches
        rw [List.drop_length] at within
        cases within
        exact run_on divider starts follows
      · have inside : more < text.length := Nat.lt_of_le_of_ne starts.le reaches
        refine further (starts.append_of_lt _ inside) fun _ => ?_
        obtain ⟨_, rfl⟩ := starts.separator_inv
        obtain ⟨next, after, found, stays⟩ := continuation?_of_separatorLength_lt inside
        rw [found] at within
        cases within with
        | space blank => cases (continuation?_space blank).symm.trans stays
        | token => exact List.cons_ne_nil _ _
    · exact further (starts.append rest divider.inert separator) fun same => absurd same separator

/-- The tokens of two texts with a line end between them. -/
theorem join {second : List Char} {following : List Token} (splits : Splits .start text tokens)
    (follows : Splits .start second following) :
    ∃ separator : Token, separator.kind = .separator ∧
      Splits .start (text ++ '\n' :: second) (withoutTrail tokens ++ separator ::
        Token.withoutLead (following.map (Token.down (1 + text.count '\n')))) := by
  refine splits.append_divider .newline ?_
  rw [← List.singleton_append, ← List.append_assoc, Position.after_append, Position.after_newline]
  exact (follows.down _).withoutLead

/-- Where a token begins. What holds of a text without tokens, and is kept by putting a blank or a token in front, holds
of the text before the token and of the tokens before it. -/
theorem starts_at {P : List Char → List Token → Prop} (nil : P [] [])
    (space : ∀ {c front before}, isSpace c = true → P front before → P (c :: front) before)
    (token : ∀ {position c rest kind more front before}, Starts c rest kind more → more < rest.length →
      P front before →
      P (c :: rest.take more ++ front) (⟨kind, String.ofList (c :: rest.take more), position⟩ :: before))
    {before behind : List Token} {first : Token} (splits : Splits position text (before ++ first :: behind)) :
    ∃ front c rest more place, text = front ++ c :: rest ∧ Starts c rest first.kind more ∧
      first.text.toList = c :: rest.take more ∧ first.position = position.after front ∧ P front before ∧
      Splits place (rest.drop more) behind := by
  generalize whole : before ++ first :: behind = tokens at splits
  induction splits generalizing before with
  | nil => cases before <;> cases whole
  | @space position d text tokens blank _ ih =>
    obtain ⟨front, c, rest, more, place, rfl, starts, written, same, holds, later⟩ := ih whole
    exact ⟨d :: front, c, rest, more, place, rfl, starts, written, same, space blank holds, later⟩
  | @token position d text kind size tokens begins later ih =>
    cases before with
    | nil =>
      obtain ⟨rfl, rfl⟩ := List.cons.inj whole
      exact ⟨[], d, text, size, _, rfl, begins, String.toList_ofList, rfl, nil, later⟩
    | cons earlier before =>
      obtain ⟨rfl, tail⟩ := List.cons.inj whole
      obtain ⟨front, c, rest, more, place, found, starts, written, same, holds, later⟩ := ih tail
      have inside : size < text.length := by
        have length := congrArg List.length found
        rw [List.length_drop, List.length_append, List.length_cons] at length
        omega
      refine ⟨d :: text.take size ++ front, c, rest, more, place, ?_, starts, written, ?_, token begins inside holds,
        later⟩
      · rw [List.append_assoc, ← found, List.cons_append, List.take_append_drop]
      · rw [same, ← Position.after_append]

end Splits

end Token

end Corvid
