import Corvid.Proofs.Token.Lexeme
import Corvid.Session.Buffer

/-!
Open brackets, counted in two ways. A text that is being typed is scanned character by character, past strings and
comments; a text that has been split is walked token by token. Where a text falls into tokens, the two counts agree:
within a token other than a bracket the scan changes nothing, and it is back in code at the end of every token that
something follows.
-/
namespace Corvid

namespace Token

/-- The number of open brackets after a token of some kind. A closing bracket without an opening one does not
count. -/
def Kind.depthAfter (depth : Nat) : Kind → Nat
  | .symbol .openParen | .symbol .openBracket | .symbol .openBrace => depth + 1
  | .symbol .closeParen | .symbol .closeBracket | .symbol .closeBrace => depth - 1
  | _ => depth

/-- The number of open brackets after some tokens. -/
def depthAfter (depth : Nat) (tokens : List Token) : Nat :=
  tokens.foldl (fun depth token => token.kind.depthAfter depth) depth

@[simp] theorem depthAfter_nil (depth : Nat) : depthAfter depth [] = depth := rfl

@[simp] theorem depthAfter_cons (depth : Nat) (token : Token) (tokens : List Token) :
    depthAfter depth (token :: tokens) = depthAfter (token.kind.depthAfter depth) tokens := rfl

@[simp] theorem depthAfter_append (depth : Nat) (front rest : List Token) :
    depthAfter depth (front ++ rest) = depthAfter (depthAfter depth front) rest :=
  List.foldl_append

end Token

namespace Session

/-- Goes past a run of characters. -/
def Scan.after (scan : Scan) (text : List Char) : Scan := text.foldl Scan.next scan

theorem Scan.after_append (scan : Scan) (text rest : List Char) :
    scan.after (text ++ rest) = (scan.after text).after rest :=
  List.foldl_append

/-- Characters that mean nothing to the scan in code. -/
def Plain (c : Char) : Prop := c ∉ ['"', '#', '(', '[', '\x7b', ')', ']', '\x7d']

instance (c : Char) : Decidable (Plain c) := inferInstanceAs (Decidable (_ ∉ _))

theorem Scan.next_plain {c : Char} (plain : Plain c) (depth : Nat) : (Scan.mk .code depth).next c = ⟨.code, depth⟩ := by
  simp only [Plain, List.mem_cons, List.not_mem_nil, or_false, not_or] at plain
  obtain ⟨quote, hash, paren, bracket, brace, paren', bracket', brace'⟩ := plain
  simp [Scan.next, quote, hash, paren, bracket, brace, paren', bracket', brace']

theorem Scan.after_plain {text : List Char} (plain : ∀ c ∈ text, Plain c) (depth : Nat) :
    (Scan.mk .code depth).after text = ⟨.code, depth⟩ := by
  induction text with
  | nil => rfl
  | cons c text ih =>
    obtain ⟨here, later⟩ := List.forall_mem_cons.mp plain
    change ((Scan.mk .code depth).next c).after text = _
    rw [Scan.next_plain here, ih later]

theorem plain_of_isNamePart {c : Char} (part : Token.isNamePart c = true) : Plain c := by
  intro special
  have none : ['"', '#', '(', '[', '\x7b', ')', ']', '\x7d'].all (fun c => !Token.isNamePart c) = true := by decide
  have other := List.all_eq_true.mp none c special
  rw [part] at other
  contradiction

theorem plain_of_isDigit {c : Char} (digit : Token.isDigit c = true) : Plain c :=
  plain_of_isNamePart (by simp [Token.isNamePart, digit])

theorem plain_of_digits {text : List Char} (number : Token.Digits text) : ∀ c ∈ text, Plain c :=
  fun c member => plain_of_isDigit (number.2 c member)

theorem plain_of_exponent {text : List Char} (scaled : Token.Exponent text) : ∀ c ∈ text, Plain c := by
  cases scaled with
  | absent => exact List.forall_mem_nil _
  | plain known number =>
    refine List.forall_mem_cons.mpr ⟨?_, plain_of_digits number⟩
    rcases known with rfl | rfl <;> decide
  | signed known known' number =>
    refine List.forall_mem_cons.mpr ⟨?_, List.forall_mem_cons.mpr ⟨?_, plain_of_digits number⟩⟩
    · rcases known with rfl | rfl <;> decide
    · rcases known' with rfl | rfl <;> decide

theorem plain_of_float {whole fraction exponent : List Char} (number : Token.Digits whole)
    (broken : Token.Digits fraction) (scaled : Token.Exponent exponent) :
    ∀ c ∈ whole ++ '.' :: (fraction ++ exponent), Plain c := by
  intro c member
  rcases List.mem_append.mp member with whole | fraction
  · exact plain_of_digits number c whole
  · rcases List.mem_cons.mp fraction with rfl | later
    · decide
    · rcases List.mem_append.mp later with digit | exponent
      · exact plain_of_digits broken c digit
      · exact plain_of_exponent scaled c exponent

theorem plain_of_isSpace {c : Char} (blank : Token.isSpace c = true) : Plain c := by
  simp only [Token.isSpace, Bool.or_eq_true, beq_iff_eq] at blank
  rcases blank with ((rfl | rfl) | rfl) | rfl <;> decide

/-- A string is left at its closing quote and nowhere before. -/
theorem Scan.after_quoted {text : List Char} (quoted : Token.Quoted text) (depth : Nat) :
    (Scan.mk .string depth).after text = ⟨.code, depth⟩ := by
  induction quoted with
  | close => rfl
  | @plain c text plain _ ih =>
    change ((Scan.mk .string depth).next c).after text = _
    simp only [Scan.next, if_neg plain.1, if_neg plain.2.1]
    exact ih
  | escape _ _ ih => exact ih

/-- A token other than a separator leads from code to code, and counts for what its kind counts. -/
theorem Scan.after_lexeme {kind : Token.Kind} {text : List Char} (lexeme : Token.Lexeme kind text) (depth : Nat) :
    (Scan.mk .code depth).after text = ⟨.code, kind.depthAfter depth⟩ := by
  cases lexeme with
  | name letter parts =>
    apply Scan.after_plain
    refine List.forall_mem_cons.mpr ⟨plain_of_isNamePart ?_, fun c member => plain_of_isNamePart (parts c member)⟩
    simp [Token.isNamePart, letter]
  | int number => exact Scan.after_plain (plain_of_digits number) depth
  | float number broken scaled => exact Scan.after_plain (plain_of_float number broken scaled) depth
  | string quoted => exact Scan.after_quoted quoted depth
  | keyword word => cases word <;> rfl
  | symbol sign => cases sign <;> rfl

/-- Where the scan stands in separator text. -/
def separatorPlace (comment : Bool) : Place := if comment then .comment else .code

/-- Separator text that goes on opens and closes no bracket. -/
theorem Scan.next_separator {comment mode : Bool} {c : Char} (going : Token.continuation? comment c = some mode)
    (depth : Nat) : (Scan.mk (separatorPlace comment) depth).next c = ⟨separatorPlace mode, depth⟩ := by
  unfold Token.continuation? at going
  split at going
  · next inside =>
    cases going
    by_cases ends : c = '\n' <;> simp [separatorPlace, Scan.next, inside, ends]
  · next outside =>
    split at going
    · next hash =>
      cases going
      simp [separatorPlace, Scan.next, outside, hash]
    · split at going
      · next blank =>
        cases going
        have plain : Plain c := by
          intro special
          have none : ['"', '#', '(', '[', '\x7b', ')', ']', '\x7d'].all
              (fun c => !(c = ';' || Text.isBlank c)) = true := by decide
          have other := List.all_eq_true.mp none c special
          rw [blank] at other
          contradiction
        rw [separatorPlace, if_neg outside, Scan.next_plain plain]
        rfl
      · cases going

/-- Separator text opens and closes no bracket. If something follows it, it does not end in a comment. -/
theorem Scan.after_separator (comment : Bool) (text : List Char) (depth : Nat) :
    ∃ inside, (Scan.mk (separatorPlace comment) depth).after (text.take (Token.separatorLength comment text)) =
        ⟨separatorPlace inside, depth⟩ ∧ (Token.separatorLength comment text < text.length → inside = false) := by
  induction text generalizing comment with
  | nil => exact ⟨comment, rfl, fun shorter => absurd shorter (Nat.lt_irrefl _)⟩
  | cons c text ih =>
    rw [Token.separatorLength_cons]
    cases going : Token.continuation? comment c with
    | none =>
      refine ⟨comment, rfl, fun _ => ?_⟩
      cases comment with
      | false => rfl
      | true => simp [Token.continuation?] at going
    | some mode =>
      obtain ⟨inside, reaches, shorter⟩ := ih mode
      refine ⟨inside, ?_, fun less => shorter (Nat.lt_of_succ_lt_succ less)⟩
      change ((Scan.mk (separatorPlace comment) depth).next c).after _ = _
      rw [Scan.next_separator going]
      exact reaches

/-- The first character of a separator. -/
theorem Scan.next_opens {c : Char} (opens : c = ';' ∨ c = '\n' ∨ c = '#') (depth : Nat) :
    (Scan.mk .code depth).next c = ⟨separatorPlace (c == '#'), depth⟩ := by
  rcases opens with rfl | rfl | rfl <;> rfl

/-- A token leads from code to code, unless it is a comment that ends the text. -/
theorem Scan.after_token {c : Char} {text : List Char} {kind : Token.Kind} {more : Nat}
    (starts : Token.Starts c text kind more) (depth : Nat) :
    ∃ inside, (Scan.mk .code depth).after (c :: text.take more) = ⟨separatorPlace inside, kind.depthAfter depth⟩ ∧
      (more < text.length → inside = false) := by
  by_cases solid : kind = .separator
  · subst solid
    obtain ⟨opens, rfl⟩ := starts.separator_inv
    obtain ⟨inside, reaches, shorter⟩ := Scan.after_separator (c == '#') text depth
    refine ⟨inside, ?_, shorter⟩
    change ((Scan.mk .code depth).next c).after _ = _
    rw [Scan.next_opens opens]
    exact reaches
  · exact ⟨false, Scan.after_lexeme (starts.lexeme solid) depth, fun _ => rfl⟩

/-- The scan of a text that falls into tokens counts what its tokens count. -/
theorem Scan.after_splits {position : Position} {text : List Char} {tokens : List Token}
    (splits : Token.Splits position text tokens) (depth : Nat) :
    ((Scan.mk .code depth).after text).depth = Token.depthAfter depth tokens := by
  induction splits generalizing depth with
  | nil => rfl
  | @space position c text tokens blank _ ih =>
    change (((Scan.mk .code depth).next c).after text).depth = _
    rw [Scan.next_plain (plain_of_isSpace blank)]
    exact ih depth
  | @token position c text kind more tokens starts rest ih =>
    obtain ⟨inside, reaches, shorter⟩ := Scan.after_token starts depth
    have whole : c :: text = c :: text.take more ++ text.drop more := by
      rw [List.cons_append, List.take_append_drop]
    rw [whole, Scan.after_append, reaches, Token.depthAfter_cons]
    by_cases follows : more < text.length
    · rw [shorter follows]
      exact ih (kind.depthAfter depth)
    · have nothing : text.drop more = [] := List.drop_eq_nil_of_le (Nat.le_of_not_lt follows)
      rw [nothing] at rest ⊢
      cases rest
      rfl

end Session

end Corvid
