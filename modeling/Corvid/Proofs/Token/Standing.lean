import Corvid.Proofs.Token.Following
import Corvid.Proofs.Token.Joining

/-!
Where the tokens of a text stand in it. Each one is found in the text at its place, and so is the first character that
starts no token: nothing that begins there is the text of a token.
-/
namespace Corvid.Token

/-- The token is read somewhere in the text, which begins at the position. -/
inductive Stands (position : Position) (text : List Char) : Token → Prop where
  | intro {front inside rest : List Char} {c : Char} {kind : Kind} (found : text = front ++ c :: (inside ++ rest))
      (starts : Starts c (inside ++ rest) kind inside.length) :
      Stands position text ⟨kind, String.ofList (c :: inside), position.after front⟩

/-- The character stands in the text, which begins at the position, is no blank, and no token begins with it. -/
inductive Stray.Stands (position : Position) (text : List Char) : Stray → Prop where
  | intro {front rest : List Char} {c : Char} (found : text = front ++ c :: rest) (solid : isSpace c = false)
      (divides : c ≠ ';' ∧ c ≠ '\n' ∧ c ≠ '#')
      (stuck : ∀ kind lexeme, Lexeme kind lexeme → ¬lexeme <+: c :: rest) :
      Stray.Stands position text ⟨c, position.after front⟩

theorem Stands.lexeme {position : Position} {text : List Char} {token : Token} (stands : Stands position text token)
    (solid : token.kind ≠ .separator) : Lexeme token.kind token.text.toList := by
  cases stands with
  | intro found starts => simpa using starts.lexeme solid

/-- What stands in the rest of a text stands in the text. -/
theorem Stands.append {position : Position} {front text : List Char} {token : Token}
    (stands : Stands (position.after front) text token) : Stands position (front ++ text) token := by
  cases stands with
  | @intro before _ _ _ _ found starts =>
    rw [← Position.after_append]
    refine .intro ?_ starts
    rw [found, List.append_assoc]

theorem Stray.Stands.append {position : Position} {front text : List Char} {stray : Stray}
    (stands : Stray.Stands (position.after front) text stray) : Stray.Stands position (front ++ text) stray := by
  cases stands with
  | @intro before _ _ found solid divides stuck =>
    rw [← Position.after_append]
    refine .intro ?_ solid divides stuck
    rw [found, List.append_assoc]

/-- Where the text of a token begins, a token begins, whatever follows. -/
theorem Lexeme.exists_tokenAt? {kind : Kind} {lexeme : List Char} (known : Lexeme kind lexeme) (rest : List Char) :
    ∃ found, tokenAt? (lexeme ++ rest) = some found := by
  obtain ⟨c, inside, rfl, _⟩ := known.starts
  obtain ⟨_, _, starts, _⟩ := known.starts_append rest
  exact ⟨_, tokenAt?_eq_some_iff.mpr starts⟩

theorem stray_stands {position : Position} {c : Char} {rest : List Char} (solid : ¬isSpace c = true)
    (stuck : tokenAt? (c :: rest) = none) : Stray.Stands position (c :: rest) ⟨c, position⟩ := by
  have divides : ¬(c = ';' ∨ c = '\n' ∨ c = '#') := by
    intro opens
    rw [tokenAt?, if_pos opens] at stuck
    cases stuck
  simp only [not_or] at divides
  have free (kind : Kind) (lexeme : List Char) (known : Lexeme kind lexeme) : ¬lexeme <+: c :: rest := by
    rintro ⟨after, same⟩
    obtain ⟨found, begins⟩ := known.exists_tokenAt? after
    rw [same, stuck] at begins
    cases begins
  exact .intro (List.nil_append _).symm (Bool.not_eq_true _ ▸ solid) divides free

/-- A token stands where it starts. -/
theorem Starts.stands {c : Char} {text : List Char} {kind : Kind} {more : Nat} (starts : Starts c text kind more)
    (position : Position) : Stands position (c :: text) ⟨kind, String.ofList (c :: text.take more), position⟩ := by
  have whole : text.take more ++ text.drop more = text := List.take_append_drop more text
  have size : (text.take more).length = more := List.length_take_of_le starts.le
  have found : c :: text = [] ++ c :: (text.take more ++ text.drop more) := by rw [whole, List.nil_append]
  exact .intro found (by rwa [whole, size])

/-- The tokens of a text, and the character that ends them, stand in the text. -/
theorem splitFrom_stands (position : Position) (text : List Char) :
    (∀ token ∈ (splitFrom position 0 text).tokens, Stands position text token) ∧
      ∀ stray ∈ (splitFrom position 0 text).stray, Stray.Stands position text stray := by
  generalize size : text.length = length
  induction length using Nat.strongRecOn generalizing position text with
  | ind length ih =>
    cases text with
    | nil => simp
    | cons c text =>
      rw [List.length_cons] at size
      rw [splitFrom]
      split
      · have later := ih text.length (by omega) (position.after [c]) text rfl
        exact ⟨fun token member => (later.1 token member).append, fun stray member => (later.2 stray member).append⟩
      · next solid =>
        split
        · next stuck =>
          refine ⟨List.forall_mem_nil _, ?_⟩
          rintro stray ⟨⟩
          exact stray_stands solid stuck
        · next kind more found =>
          have starts := tokenAt?_eq_some_iff.mp found
          have whole : (c :: text.take more) ++ text.drop more = c :: text := by simp
          have later := ih (text.drop more).length (by rw [List.length_drop]; omega)
            (position.after (c :: text.take more)) (text.drop more) rfl
          have inside : splitFrom (position.next c) more text = _ := splitFrom_inside _ more text
          dsimp only
          rw [inside]
          refine ⟨List.forall_mem_cons.mpr ⟨?_, fun token member => ?_⟩, fun stray member => ?_⟩
          · exact starts.stands position
          · rw [← whole]
            exact (later.1 token member).append
          · rw [← whole]
            exact (later.2 stray member).append

end Corvid.Token
