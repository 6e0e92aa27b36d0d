import Corvid.Token.Lexer

/-!
Where tokens end. A token is the same whatever follows the character after it, provided that this character
continues no token; only separators run on, over blanks and further separators. So the tokens of a text that is
put together at such a character are those of its parts.
-/
namespace Corvid.Token

theorem isDigit_iff {c : Char} : isDigit c = true ↔ 48 ≤ c.toNat ∧ c.toNat ≤ 57 := by
  simp [isDigit, Char.le_def, UInt32.le_iff_toNat_le]

theorem isNameStart_iff {c : Char} : isNameStart c = true ↔
    (65 ≤ c.toNat ∧ c.toNat ≤ 90) ∨ (97 ≤ c.toNat ∧ c.toNat ≤ 122) ∨ c.toNat = 95 := by
  have underscore : c = '_' ↔ c.toNat = 95 := by
    rw [← Char.toNat_inj]
    rfl
  simp [isNameStart, Char.le_def, UInt32.le_iff_toNat_le, underscore, or_assoc]

theorem isBlank_of_isSpace {c : Char} (space : isSpace c = true) : Text.isBlank c = true := by
  simp only [isSpace, Bool.or_eq_true, beq_iff_eq] at space
  obtain ((rfl | rfl) | rfl) | rfl := space <;> decide

/-- Letters, digits and the underscore are no blanks. -/
theorem not_isBlank_of_isNamePart {c : Char} (part : isNamePart c = true) : Text.isBlank c = false := by
  simp only [isNamePart, Bool.or_eq_true, isNameStart_iff, isDigit_iff] at part
  simp only [Text.isBlank, Bool.or_eq_false_iff, Bool.and_eq_false_iff, decide_eq_false_iff_not, beq_eq_false_iff_ne]
  omega

/-- Characters that continue no token but a separator. -/
def Inert (c : Char) : Prop := isNamePart c = false ∧ c ≠ '.' ∧ c ≠ '=' ∧ c ≠ '+' ∧ c ≠ '-'

instance (c : Char) : Decidable (Inert c) := inferInstanceAs (Decidable (_ ∧ _))

theorem Inert.not_digit {c : Char} (inert : Inert c) : isDigit c = false := by
  have := inert.1
  simp only [isNamePart, Bool.or_eq_false_iff] at this
  exact this.2

theorem takeWhile_append_boundary {p : Char → Bool} {c : Char} (text rest : List Char) (outside : p c = false) :
    (text ++ c :: rest).takeWhile p = text.takeWhile p := by
  induction text with
  | nil => simp [outside]
  | cons first text ih => simp only [List.cons_append, List.takeWhile_cons, ih]

/-! Numbers -/

theorem digitCount_le (text : List Char) : digitCount text ≤ text.length :=
  (List.takeWhile_prefix _).length_le

theorem digitCount_append {c : Char} (text rest : List Char) (inert : Inert c) :
    digitCount (text ++ c :: rest) = digitCount text := by
  simp only [digitCount, takeWhile_append_boundary text rest inert.not_digit]

/-- Length of a sign at the front. -/
def signLength : List Char → Nat
  | s :: _ => if s = '+' ∨ s = '-' then 1 else 0
  | [] => 0

theorem signLength_append {c : Char} (text rest : List Char) (inert : Inert c) :
    signLength (text ++ c :: rest) = signLength text := by
  cases text with
  | nil => simp [signLength, inert.2.2.2.1, inert.2.2.2.2]
  | cons => rfl

theorem signLength_le (text : List Char) : signLength text ≤ text.length := by
  cases text with
  | nil => exact Nat.le_refl _
  | cons s text =>
    simp only [signLength, List.length_cons]
    split <;> omega

theorem exponentLength_cons (c : Char) (text : List Char) :
    exponentLength (c :: text) =
      if (c = 'e' ∨ c = 'E') ∧ digitCount (text.drop (signLength text)) ≠ 0 then
        1 + signLength text + digitCount (text.drop (signLength text))
      else 0 := by
  by_cases letter : c = 'e' ∨ c = 'E'
  · cases text with
    | nil => simp [exponentLength, signLength, letter, digitCount]
    | cons sign rest =>
      simp only [exponentLength, signLength, letter, if_true, true_and]
      split <;> simp_all
  · simp [exponentLength, letter]

theorem exponentLength_append {c : Char} (text rest : List Char) (inert : Inert c) :
    exponentLength (text ++ c :: rest) = exponentLength text := by
  cases text with
  | nil =>
    have letter : ¬(c = 'e' ∨ c = 'E') := by
      rintro (rfl | rfl) <;> exact absurd inert (by decide)
    simp [exponentLength, letter]
  | cons first text =>
    rw [List.cons_append, exponentLength_cons, exponentLength_cons, signLength_append _ _ inert,
      List.drop_append_of_le_length (signLength_le text), digitCount_append _ _ inert]

theorem exponentLength_le (text : List Char) : exponentLength text ≤ text.length := by
  cases text with
  | nil => exact Nat.le_refl _
  | cons first text =>
    have signs := signLength_le text
    have digits := digitCount_le (text.drop (signLength text))
    rw [List.length_drop] at digits
    rw [exponentLength_cons, List.length_cons]
    split <;> omega

theorem fractionLength_cons (c : Char) (text : List Char) :
    fractionLength (c :: text) =
      if c = '.' ∧ digitCount text ≠ 0 then 1 + digitCount text + exponentLength (text.drop (digitCount text))
      else 0 := by
  by_cases point : c = '.'
  · subst point
    rw [fractionLength]
    cases digitCount text <;> simp
  · simp [fractionLength, point]

theorem fractionLength_append {c : Char} (text rest : List Char) (inert : Inert c) :
    fractionLength (text ++ c :: rest) = fractionLength text := by
  cases text with
  | nil => simp [fractionLength, inert.2.1]
  | cons first text =>
    rw [List.cons_append, fractionLength_cons, fractionLength_cons, digitCount_append _ _ inert,
      List.drop_append_of_le_length (digitCount_le text), exponentLength_append _ _ inert]

theorem fractionLength_le (text : List Char) : fractionLength text ≤ text.length := by
  cases text with
  | nil => exact Nat.le_refl _
  | cons first text =>
    have digits := digitCount_le text
    have exponent := exponentLength_le (text.drop (digitCount text))
    rw [List.length_drop] at exponent
    rw [fractionLength_cons, List.length_cons]
    split <;> omega

/-! Strings and symbols -/

theorem stringLength?_plain {c : Char} (text : List Char) (plain : c ≠ '"' ∧ c ≠ '\\' ∧ c ≠ '\n') :
    stringLength? (c :: text) = (stringLength? text).map (· + 1) := by
  obtain ⟨quote, escape, line⟩ := plain
  rw [stringLength?.eq_def]
  split
  · simp_all
  · simp_all
  · simp_all
  · contradiction

theorem stringLength?_append {text : List Char} {length : Nat} (rest : List Char)
    (closed : stringLength? text = some length) : stringLength? (text ++ rest) = some length := by
  fun_induction stringLength? text generalizing length with
  | case1 => exact closed
  | case2 | case4 | case6 => contradiction
  | case3 c text other ih =>
    obtain ⟨inner, found, rfl⟩ := Option.map_eq_some_iff.mp closed
    simp [stringLength?, other, ih found]
  | case5 c text quote escape plain ih =>
    obtain ⟨inner, found, rfl⟩ := Option.map_eq_some_iff.mp closed
    rw [not_or] at plain
    rw [List.cons_append, stringLength?_plain _ ⟨quote, plain.2, plain.1⟩, ih found]
    rfl

theorem stringLength?_le {text : List Char} {length : Nat} (closed : stringLength? text = some length) :
    length ≤ text.length := by
  fun_induction stringLength? text generalizing length with
  | case1 =>
    cases closed
    exact Nat.le_add_left _ _
  | case2 | case4 | case6 => contradiction
  | case3 c text other ih | case5 c text quote escape plain ih =>
    obtain ⟨inner, found, rfl⟩ := Option.map_eq_some_iff.mp closed
    have := ih found
    simp only [List.length_cons]
    omega

theorem isPrefixOf_append_boundary {c : Char} {word : List Char} (text rest : List Char) (outside : c ∉ word) :
    word.isPrefixOf (text ++ c :: rest) = word.isPrefixOf text := by
  induction word generalizing text with
  | nil => cases text <;> rfl
  | cons first word ih =>
    rw [List.mem_cons, not_or] at outside
    obtain ⟨differs, outside⟩ := outside
    cases text with
    | nil => simp [List.isPrefixOf, Ne.symm differs]
    | cons head text => simp only [List.cons_append, List.isPrefixOf, ih text outside]

/-- Only an equals sign, a plus sign or a point stands second in a symbol. -/
theorem Inert.not_mem_tail {c : Char} (inert : Inert c) (symbol : Symbol) : c ∉ symbol.text.toList.tail := by
  obtain ⟨_, point, equal, plus, _⟩ := inert
  cases symbol <;> simp [Symbol.text, point, equal, plus]

theorem symbolAt?_append {c first : Char} (text rest : List Char) (inert : Inert c) :
    Symbol.at? (first :: text ++ c :: rest) = Symbol.at? (first :: text) := by
  have same (symbol : Symbol) : symbol.text.toList.isPrefixOf (first :: text ++ c :: rest) =
      symbol.text.toList.isPrefixOf (first :: text) := by
    have outside := inert.not_mem_tail symbol
    cases letters : symbol.text.toList with
    | nil => rfl
    | cons head tail =>
      rw [letters, List.tail_cons] at outside
      rw [List.cons_append, List.isPrefixOf_cons_cons, List.isPrefixOf_cons_cons]
      rw [isPrefixOf_append_boundary text rest outside]
  simp only [Symbol.at?, same]

theorem symbolAt?_front {text : List Char} {symbol : Symbol} (found : Symbol.at? text = some symbol) :
    symbol.text.toList <+: text := by
  have := List.find?_some found
  exact List.isPrefixOf_iff_prefix.mp this

/-! Separators -/

/-- Whether separator text goes on with a character, and whether it is in a comment then. -/
def continuation? (comment : Bool) (c : Char) : Option Bool :=
  if comment then some (c != '\n')
  else if c = '#' then some true
  else if c = ';' || Text.isBlank c then some false
  else none

theorem separatorLength_cons (comment : Bool) (c : Char) (text : List Char) :
    separatorLength comment (c :: text) =
      match continuation? comment c with
      | some inside => separatorLength inside text + 1
      | none => 0 := by
  rw [separatorLength, continuation?]
  split
  · rfl
  · split
    · rfl
    · split <;> rfl

theorem separatorLength_le (comment : Bool) (text : List Char) : separatorLength comment text ≤ text.length := by
  induction text generalizing comment with
  | nil => exact Nat.le_refl _
  | cons c text ih =>
    rw [separatorLength_cons]
    split
    · exact Nat.succ_le_succ (ih _)
    · exact Nat.zero_le _

/-- A comment goes on to the end of its line. -/
theorem separatorLength_inLine {comment : List Char} (inLine : '\n' ∉ comment) (rest : List Char) :
    separatorLength true (comment ++ rest) = comment.length + separatorLength true rest := by
  induction comment with
  | nil => exact (Nat.zero_add _).symm
  | cons c comment ih =>
    rw [List.mem_cons, not_or] at inLine
    have going : continuation? true c = some true := by simp [continuation?, Ne.symm inLine.1]
    rw [List.cons_append, separatorLength_cons, going, List.length_cons]
    simp only [ih inLine.2]
    omega

/-- Separator text that ends inside a text ends there whatever follows. -/
theorem separatorLength_append_of_lt {comment : Bool} {text : List Char} (rest : List Char)
    (inside : separatorLength comment text < text.length) :
    separatorLength comment (text ++ rest) = separatorLength comment text := by
  induction text generalizing comment with
  | nil => contradiction
  | cons c text ih =>
    rw [List.cons_append, separatorLength_cons, separatorLength_cons]
    rw [separatorLength_cons] at inside
    split
    · next next_mode going =>
      rw [going] at inside
      rw [ih (Nat.lt_of_succ_lt_succ inside)]
    · rfl

/-- The characters with which all separator text goes on, and whether it is in a comment then. -/
inductive Divider : Char → Bool → Prop where
  | newline : Divider '\n' false
  | comment : Divider '#' true

theorem Divider.continuation?_eq {d : Char} {inside : Bool} (divider : Divider d inside) (comment : Bool) :
    continuation? comment d = some inside := by
  cases divider <;> cases comment <;> decide

theorem Divider.inert {d : Char} {inside : Bool} (divider : Divider d inside) : Inert d := by
  cases divider <;> decide

/-- Separator text that reaches a line end or a comment goes on after it. -/
theorem separatorLength_append_divider {d : Char} {inside comment : Bool} (divider : Divider d inside)
    {text : List Char} (rest : List Char) (reaches : separatorLength comment text = text.length) :
    separatorLength comment (text ++ d :: rest) = text.length + 1 + separatorLength inside rest := by
  induction text generalizing comment with
  | nil =>
    rw [List.nil_append, separatorLength_cons, divider.continuation?_eq]
    simp [Nat.add_comm]
  | cons c text ih =>
    rw [separatorLength_cons, List.length_cons] at reaches
    rw [List.cons_append, separatorLength_cons]
    cases going : continuation? comment c with
    | none => simp [going] at reaches
    | some mode =>
      rw [going] at reaches
      simp only [ih (Nat.succ.inj reaches), List.length_cons]
      omega

/-! Tokens -/

theorem wordKind_ne_separator (word : List Char) : wordKind word ≠ .separator := by
  rw [wordKind]
  split <;> simp

/-- The tokens that start with a character: kind and length, less one. -/
inductive Starts (c : Char) (text : List Char) : Kind → Nat → Prop where
  | separator (opens : c = ';' ∨ c = '\n' ∨ c = '#') :
      Starts c text .separator (separatorLength (c == '#') text)
  | word (letter : isNameStart c = true) :
      Starts c text (wordKind (c :: text.takeWhile isNamePart)) (text.takeWhile isNamePart).length
  | int (digit : isDigit c = true) (whole : fractionLength (text.drop (digitCount text)) = 0) :
      Starts c text .int (digitCount text)
  | float (digit : isDigit c = true) (broken : fractionLength (text.drop (digitCount text)) ≠ 0) :
      Starts c text .float (digitCount text + fractionLength (text.drop (digitCount text)))
  | string {length : Nat} (quote : c = '"') (closed : stringLength? text = some length) :
      Starts c text .string length
  | symbol {symbol : Symbol} (known : Symbol.at? (c :: text) = some symbol) :
      Starts c text (.symbol symbol) (symbol.text.length - 1)

/-- The characters that symbols begin with. -/
def symbolHeads : List Char :=
  ['=', '!', '<', '>', '+', '.', '-', '*', '/', ',', ':', '(', ')', '[', ']', '\x7b', '\x7d']

theorem symbolAt?_head {c : Char} {text : List Char} {symbol : Symbol}
    (known : Symbol.at? (c :: text) = some symbol) : c ∈ symbolHeads := by
  obtain ⟨rest, found⟩ := symbolAt?_front known
  cases symbol <;> simp only [Symbol.text, String.reduceToList, List.cons_append, List.cons.injEq] at found <;>
    rw [← found.1] <;> decide

/-- A symbol begins with nothing that another token or a blank begins with. -/
theorem symbolHeads_apart {c : Char} (member : c ∈ symbolHeads) : ¬(c = ';' ∨ c = '\n' ∨ c = '#') ∧
    ¬isNameStart c = true ∧ ¬isDigit c = true ∧ c ≠ '"' ∧ Text.isBlank c = false := by
  have all : symbolHeads.all (fun c => ¬(c = ';' ∨ c = '\n' ∨ c = '#') ∧ ¬isNameStart c = true ∧
      ¬isDigit c = true ∧ c ≠ '"' ∧ Text.isBlank c = false) = true := by
    decide
  exact of_decide_eq_true (List.all_eq_true.mp all c member)

theorem tokenAt?_digit {c : Char} {text : List Char} (digit : isDigit c = true) :
    tokenAt? (c :: text) =
      match fractionLength (text.drop (digitCount text)) with
      | 0 => some (.int, digitCount text)
      | fraction => some (.float, digitCount text + fraction) := by
  have plain : ¬(c = ';' ∨ c = '\n' ∨ c = '#') := by rintro (rfl | rfl | rfl) <;> contradiction
  have other : ¬isNameStart c = true := by
    rw [isDigit_iff] at digit
    rw [isNameStart_iff]
    omega
  rw [tokenAt?, if_neg plain, if_neg other]
  exact if_pos digit

theorem tokenAt?_eq_some_iff {c : Char} {text : List Char} {kind : Kind} {more : Nat} :
    tokenAt? (c :: text) = some (kind, more) ↔ Starts c text kind more := by
  constructor
  · intro found
    simp only [tokenAt?] at found
    split at found
    · next opens =>
      cases found
      exact .separator opens
    · split at found
      · next letter =>
        cases found
        exact .word letter
      · split at found
        · next digit =>
          split at found
          · next whole =>
            cases found
            exact .int digit whole
          · next broken =>
            cases found
            exact .float digit broken
        · split at found
          · next quote =>
            obtain ⟨length, closed, same⟩ := Option.map_eq_some_iff.mp found
            cases same
            exact .string quote closed
          · obtain ⟨symbol, known, same⟩ := Option.map_eq_some_iff.mp found
            cases same
            exact .symbol known
  · intro starts
    cases starts with
    | separator opens => rw [tokenAt?, if_pos opens]
    | word letter =>
      have plain : ¬(c = ';' ∨ c = '\n' ∨ c = '#') := by rintro (rfl | rfl | rfl) <;> contradiction
      rw [tokenAt?, if_neg plain, if_pos letter]
    | int digit whole =>
      simp only [tokenAt?_digit digit, whole]
    | float digit broken =>
      rw [tokenAt?_digit digit]
      split
      · contradiction
      · rfl
    | string quote closed =>
      subst quote
      simp [tokenAt?, isNameStart, isDigit, closed]
    | symbol known =>
      obtain ⟨plain, letter, digit, quote, _⟩ := symbolHeads_apart (symbolAt?_head known)
      rw [tokenAt?, if_neg plain, if_neg letter, if_neg digit, if_neg quote, known]
      rfl

namespace Starts

variable {c first : Char} {text : List Char} {kind : Kind} {more : Nat}

/-- A token is no longer than the text. -/
theorem le (starts : Starts c text kind more) : more ≤ text.length := by
  cases starts with
  | separator => exact separatorLength_le _ _
  | word => exact (List.takeWhile_prefix _).length_le
  | int => exact digitCount_le text
  | float =>
    have digits := digitCount_le text
    have fraction := fractionLength_le (text.drop (digitCount text))
    rw [List.length_drop] at fraction
    omega
  | string _ closed => exact stringLength?_le closed
  | symbol known =>
    have shorter := (symbolAt?_front known).length_le
    rw [String.length_toList, List.length_cons] at shorter
    omega

/-- A token other than a separator is the same whatever follows an inert character after it. -/
theorem append (starts : Starts first text kind more) (rest : List Char) (inert : Inert c)
    (solid : kind ≠ .separator) : Starts first (text ++ c :: rest) kind more := by
  have number : fractionLength ((text ++ c :: rest).drop (digitCount (text ++ c :: rest))) =
      fractionLength (text.drop (digitCount text)) := by
    rw [digitCount_append _ _ inert, List.drop_append_of_le_length (digitCount_le text),
      fractionLength_append _ _ inert]
  cases starts with
  | separator => contradiction
  | word letter =>
    rw [← takeWhile_append_boundary text rest inert.1]
    exact .word letter
  | int digit whole =>
    rw [← digitCount_append text rest inert]
    exact .int digit (number.trans whole)
  | float digit broken =>
    rw [← number, ← digitCount_append text rest inert]
    exact .float digit (number ▸ broken)
  | string quote closed => exact .string quote (stringLength?_append _ closed)
  | symbol known =>
    rw [← symbolAt?_append text rest inert] at known
    exact .symbol known

theorem separator_inv (starts : Starts c text .separator more) :
    (c = ';' ∨ c = '\n' ∨ c = '#') ∧ more = separatorLength (c == '#') text := by
  generalize same : Kind.separator = kind at starts
  cases starts with
  | separator opens => exact ⟨opens, rfl⟩
  | word => exact absurd same.symm (wordKind_ne_separator _)
  | int | float | string | symbol => contradiction

/-- Only a separator begins like separator text. -/
theorem apart (starts : Starts c text kind more) (solid : kind ≠ .separator) :
    c ≠ '#' ∧ c ≠ ';' ∧ Text.isBlank c = false := by
  cases starts with
  | separator => contradiction
  | word letter =>
    exact ⟨by rintro rfl; contradiction, by rintro rfl; contradiction,
      not_isBlank_of_isNamePart (by simp [isNamePart, letter])⟩
  | int digit | float digit =>
    exact ⟨by rintro rfl; contradiction, by rintro rfl; contradiction,
      not_isBlank_of_isNamePart (by simp [isNamePart, digit])⟩
  | string quote =>
    subst quote
    decide
  | symbol known =>
    obtain ⟨plain, _, _, _, blank⟩ := symbolHeads_apart (symbolAt?_head known)
    exact ⟨fun same => plain (.inr (.inr same)), fun same => plain (.inl same), blank⟩

theorem not_isSpace (starts : Starts c text kind more) : ¬isSpace c = true := by
  intro space
  by_cases solid : kind = .separator
  · subst solid
    obtain ⟨rfl | rfl | rfl, _⟩ := starts.separator_inv <;> contradiction
  · have blank := isBlank_of_isSpace space
    rw [(starts.apart solid).2.2] at blank
    contradiction

/-- A separator that ends inside the text is the same whatever follows the text. -/
theorem append_of_lt (starts : Starts first text .separator more) (rest : List Char)
    (inside : more < text.length) : Starts first (text ++ rest) .separator more := by
  obtain ⟨opens, rfl⟩ := starts.separator_inv
  rw [← separatorLength_append_of_lt rest inside]
  exact .separator opens

/-- A separator that reaches a line end or a comment goes on after it. -/
theorem append_divider {d : Char} {inside : Bool} (divider : Divider d inside)
    (starts : Starts first text .separator text.length) (rest : List Char) :
    Starts first (text ++ d :: rest) .separator (text.length + 1 + separatorLength inside rest) := by
  obtain ⟨opens, reaches⟩ := starts.separator_inv
  rw [← separatorLength_append_divider divider rest reaches.symm]
  exact .separator opens

end Starts

/-! Splitting -/

@[simp] theorem splitFrom_nil (position : Position) (inside : Nat) : splitFrom position inside [] = ⟨[], none⟩ := by
  cases inside <;> rfl

/-- The inside of a token is passed over. -/
theorem splitFrom_inside (position : Position) (inside : Nat) (text : List Char) :
    splitFrom position inside text = splitFrom (position.after (text.take inside)) 0 (text.drop inside) := by
  induction text generalizing position inside with
  | nil => simp
  | cons c text ih =>
    cases inside with
    | zero => rfl
    | succ inside => exact ih (position.next c) inside

/-- How a text without stray characters falls into tokens. -/
inductive Splits : Position → List Char → List Token → Prop where
  | nil (position : Position) : Splits position [] []
  | space {position : Position} {c : Char} {text : List Char} {tokens : List Token} (blank : isSpace c = true)
      (rest : Splits (position.next c) text tokens) : Splits position (c :: text) tokens
  | token {position : Position} {c : Char} {text : List Char} {kind : Kind} {more : Nat} {tokens : List Token}
      (starts : Starts c text kind more)
      (rest : Splits (position.after (c :: text.take more)) (text.drop more) tokens) :
      Splits position (c :: text) (⟨kind, String.ofList (c :: text.take more), position⟩ :: tokens)

theorem Splits.splitFrom_eq {position : Position} {text : List Char} {tokens : List Token}
    (splits : Splits position text tokens) : splitFrom position 0 text = ⟨tokens, none⟩ := by
  induction splits with
  | nil => rfl
  | space blank _ ih => rw [splitFrom, if_pos blank, ih]
  | @token position c text kind more tokens starts _ ih =>
    have inside := splitFrom_inside (position.next c) more text
    change _ = splitFrom (position.after (c :: text.take more)) 0 (text.drop more) at inside
    rw [splitFrom, if_neg starts.not_isSpace, tokenAt?_eq_some_iff.mpr starts]
    simp only [inside, ih]

theorem Splits.of_splitFrom {position : Position} {text : List Char} {tokens : List Token}
    (read : splitFrom position 0 text = ⟨tokens, none⟩) : Splits position text tokens := by
  generalize size : text.length = length
  induction length using Nat.strongRecOn generalizing position text tokens with
  | ind length ih =>
    cases text with
    | nil =>
      cases read
      exact .nil position
    | cons c text =>
      rw [List.length_cons] at size
      rw [splitFrom] at read
      split at read
      · next blank => exact .space blank (ih text.length (by omega) read rfl)
      · split at read
        · cases read
        · next kind more found =>
          have starts := tokenAt?_eq_some_iff.mp found
          rw [splitFrom_inside] at read
          cases rest : splitFrom ((position.next c).after (text.take more)) 0 (text.drop more) with
          | mk after stray =>
            rw [rest] at read
            cases read
            exact .token starts (ih (text.drop more).length (by rw [List.length_drop]; omega) rest rfl)

end Corvid.Token
