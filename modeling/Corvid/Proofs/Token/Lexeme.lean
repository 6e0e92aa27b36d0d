import Corvid.Proofs.Token.Boundary

/-!
Lexemes: what the text of each token looks like, written as a pattern and without reference to how texts are split.
A text is a lexeme of a kind exactly if it is split into one token of that kind.
-/
namespace Corvid.Token

/-- One digit or more. -/
def Digits (text : List Char) : Prop := text ≠ [] ∧ ∀ c ∈ text, isDigit c = true

/-- An exponent or nothing. -/
inductive Exponent : List Char → Prop where
  | absent : Exponent []
  | plain {letter : Char} {digits : List Char} (known : letter = 'e' ∨ letter = 'E') (number : Digits digits) :
      Exponent (letter :: digits)
  | signed {letter sign : Char} {digits : List Char} (known : letter = 'e' ∨ letter = 'E')
      (known' : sign = '+' ∨ sign = '-') (number : Digits digits) : Exponent (letter :: sign :: digits)

/-- A string after its opening quote: plain characters and escapes of one character, then the closing quote. -/
inductive Quoted : List Char → Prop where
  | close : Quoted ['"']
  | plain {c : Char} {text : List Char} (plain : c ≠ '"' ∧ c ≠ '\\' ∧ c ≠ '\n') (rest : Quoted text) :
      Quoted (c :: text)
  | escape {c : Char} {text : List Char} (inLine : c ≠ '\n') (rest : Quoted text) : Quoted ('\\' :: c :: text)

/-- The texts of each kind of token, separators aside. -/
inductive Lexeme : Kind → List Char → Prop where
  | name {c : Char} {text : List Char} (letter : isNameStart c = true)
      (parts : ∀ part ∈ text, isNamePart part = true) (free : ∀ word : Keyword, word.text.toList ≠ c :: text) :
      Lexeme .name (c :: text)
  | int {digits : List Char} (number : Digits digits) : Lexeme .int digits
  | float {whole fraction exponent : List Char} (number : Digits whole) (broken : Digits fraction)
      (scaled : Exponent exponent) : Lexeme .float (whole ++ '.' :: (fraction ++ exponent))
  | string {inside : List Char} (quoted : Quoted inside) : Lexeme .string ('"' :: inside)
  | keyword (word : Keyword) : Lexeme (.keyword word) word.text.toList
  | symbol (sign : Symbol) : Lexeme (.symbol sign) sign.text.toList

/-! Tokens are lexemes -/

theorem take_digitCount (text : List Char) : text.take (digitCount text) = text.takeWhile isDigit :=
  (List.prefix_iff_eq_take.mp (List.takeWhile_prefix isDigit)).symm

theorem digits_take {text : List Char} (some : digitCount text ≠ 0) : Digits (text.take (digitCount text)) := by
  rw [take_digitCount]
  exact ⟨fun nil => some (congrArg List.length nil), fun c member => List.all_eq_true.mp List.all_takeWhile _ member⟩

theorem digits_cons {c : Char} (digit : isDigit c = true) (text : List Char) :
    Digits (c :: text.take (digitCount text)) := by
  refine ⟨List.cons_ne_nil _ _, fun d member => ?_⟩
  obtain rfl | later := List.mem_cons.mp member
  · exact digit
  · rw [take_digitCount] at later
    exact List.all_eq_true.mp List.all_takeWhile _ later

theorem exponent_take (text : List Char) : Exponent (text.take (exponentLength text)) := by
  cases text with
  | nil => exact .absent
  | cons letter text =>
    rw [exponentLength_cons]
    split
    · next found =>
      obtain ⟨known, digits⟩ := found
      cases text with
      | nil => exact absurd rfl digits
      | cons sign text =>
        by_cases known' : sign = '+' ∨ sign = '-'
        · have one : signLength (sign :: text) = 1 := if_pos known'
          rw [one] at digits ⊢
          rw [show 1 + 1 + digitCount ((sign :: text).drop 1) = digitCount text + 1 + 1 by simp; omega]
          exact .signed known known' (digits_take digits)
        · have none : signLength (sign :: text) = 0 := if_neg known'
          rw [none] at digits ⊢
          rw [show 1 + 0 + digitCount ((sign :: text).drop 0) = digitCount (sign :: text) + 1 by simp; omega]
          exact .plain known (digits_take digits)
    · exact .absent

theorem fraction_take {text : List Char} (some : fractionLength text ≠ 0) :
    ∃ fraction exponent, text.take (fractionLength text) = '.' :: (fraction ++ exponent) ∧ Digits fraction ∧
      Exponent exponent := by
  cases text with
  | nil => contradiction
  | cons point text =>
    rw [fractionLength_cons] at some ⊢
    split at some
    · next found =>
      rw [if_pos found]
      obtain ⟨rfl, digits⟩ := found
      refine ⟨_, _, ?_, digits_take digits, exponent_take (text.drop (digitCount text))⟩
      rw [Nat.add_assoc, Nat.add_comm 1, List.take_succ_cons, List.take_add]
    · contradiction

theorem quoted_take {text : List Char} {length : Nat} (closed : stringLength? text = some length) :
    Quoted (text.take length) := by
  fun_induction stringLength? text generalizing length with
  | case1 =>
    cases closed
    exact .close
  | case2 | case4 | case6 => contradiction
  | case3 c text other ih =>
    obtain ⟨inner, found, rfl⟩ := Option.map_eq_some_iff.mp closed
    exact .escape other (ih found)
  | case5 c text quote escape plain ih =>
    obtain ⟨inner, found, rfl⟩ := Option.map_eq_some_iff.mp closed
    rw [not_or] at plain
    exact .plain ⟨quote, plain.2, plain.1⟩ (ih found)

theorem lexeme_word {c : Char} {text : List Char} (letter : isNameStart c = true)
    (parts : ∀ part ∈ text, isNamePart part = true) : Lexeme (wordKind (c :: text)) (c :: text) := by
  rw [wordKind]
  split
  · next word found =>
    have same : word.text.toList = c :: text := by simpa using List.find?_some found
    rw [← same]
    exact .keyword word
  · next free =>
    refine .name letter parts fun word same => ?_
    have other := List.find?_eq_none.mp free word (by cases word <;> decide)
    simp [same] at other

/-- The text of a token is a lexeme of its kind. -/
theorem Starts.lexeme {c : Char} {text : List Char} {kind : Kind} {more : Nat} (starts : Starts c text kind more)
    (solid : kind ≠ .separator) : Lexeme kind (c :: text.take more) := by
  cases starts with
  | separator => contradiction
  | word letter =>
    have taken : text.take (text.takeWhile isNamePart).length = text.takeWhile isNamePart :=
      (List.prefix_iff_eq_take.mp (List.takeWhile_prefix isNamePart)).symm
    rw [taken]
    exact lexeme_word letter fun part member => List.all_eq_true.mp List.all_takeWhile _ member
  | int digit whole => exact .int (digits_cons digit text)
  | float digit broken =>
    obtain ⟨fraction, exponent, same, number, scaled⟩ := fraction_take broken
    rw [List.take_add, same, ← List.cons_append]
    exact .float (digits_cons digit text) number scaled
  | string quote closed =>
    subst quote
    exact .string (quoted_take closed)
  | @symbol sign known =>
    have taken := List.prefix_iff_eq_take.mp (symbolAt?_front known)
    have positive : sign.text.toList.length = sign.text.length - 1 + 1 := by cases sign <;> rfl
    rw [positive, List.take_succ_cons] at taken
    rw [← taken]
    exact .symbol sign

/-! Lexemes are tokens -/

theorem takeWhile_of_all {p : Char → Bool} {text : List Char} (all : ∀ c ∈ text, p c = true) :
    text.takeWhile p = text := by
  have whole : (text ++ []).takeWhile p = text ++ [].takeWhile p := List.takeWhile_append_of_pos all
  simpa using whole

theorem Digits.count_eq {digits : List Char} (number : Digits digits) : digitCount digits = digits.length :=
  congrArg List.length (takeWhile_of_all number.2)

theorem Digits.length_ne_zero {digits : List Char} (number : Digits digits) : digits.length ≠ 0 :=
  fun zero => number.1 (List.length_eq_zero_iff.mp zero)

/-- Digits are counted up to what follows them. -/
theorem digitCount_append_of_all {digits rest : List Char} (all : ∀ c ∈ digits, isDigit c = true)
    (ends : digitCount rest = 0) : digitCount (digits ++ rest) = digits.length := by
  have count : digitCount (digits ++ rest) = digits.length + digitCount rest := by
    rw [digitCount, List.takeWhile_append_of_pos all, List.length_append, digitCount]
  omega

theorem Exponent.count_eq_zero {exponent : List Char} (scaled : Exponent exponent) : digitCount exponent = 0 := by
  cases scaled with
  | absent => rfl
  | plain known | signed known => obtain rfl | rfl := known <;> rfl

theorem Exponent.length_eq {exponent : List Char} (scaled : Exponent exponent) :
    exponentLength exponent = exponent.length := by
  cases scaled with
  | absent => rfl
  | @plain letter digits known number =>
    have unsigned : signLength digits = 0 := by
      obtain ⟨first, more, rfl⟩ := List.exists_cons_of_ne_nil number.1
      have digit := number.2 first List.mem_cons_self
      refine if_neg ?_
      rintro (rfl | rfl) <;> contradiction
    rw [exponentLength_cons, unsigned, List.drop_zero, number.count_eq, if_pos ⟨known, number.length_ne_zero⟩,
      List.length_cons]
    omega
  | @signed letter sign digits known known' number =>
    have one : signLength (sign :: digits) = 1 := if_pos known'
    rw [exponentLength_cons, one, List.drop_one, List.tail_cons, number.count_eq,
      if_pos ⟨known, number.length_ne_zero⟩, List.length_cons, List.length_cons]
    omega

theorem fractionLength_eq {fraction exponent : List Char} (broken : Digits fraction) (scaled : Exponent exponent) :
    fractionLength ('.' :: (fraction ++ exponent)) = ('.' :: (fraction ++ exponent)).length := by
  have count := digitCount_append_of_all broken.2 scaled.count_eq_zero
  rw [fractionLength_cons, count, if_pos ⟨rfl, broken.length_ne_zero⟩, List.drop_left, scaled.length_eq,
    List.length_cons, List.length_append]
  omega

theorem Quoted.length_eq {inside : List Char} (quoted : Quoted inside) :
    stringLength? inside = some inside.length := by
  induction quoted with
  | close => rfl
  | plain plain _ ih =>
    rw [stringLength?_plain _ plain, ih]
    rfl
  | escape inLine _ ih =>
    rw [stringLength?, if_neg inLine, ih]
    rfl

theorem wordKind_of_free {word : List Char} (free : ∀ keyword : Keyword, keyword.text.toList ≠ word) :
    wordKind word = .name := by
  have unreserved : Keyword.ofWord? word = none :=
    List.find?_eq_none.mpr fun keyword _ => by simpa using free keyword
  rw [wordKind, unreserved]

/-- A lexeme by itself is one token. -/
theorem Lexeme.starts {kind : Kind} {text : List Char} (lexeme : Lexeme kind text) :
    ∃ c rest, text = c :: rest ∧ Starts c rest kind rest.length := by
  cases lexeme with
  | @name c rest letter parts free =>
    have starts : Starts c rest _ _ := .word letter
    rw [takeWhile_of_all parts, wordKind_of_free free] at starts
    exact ⟨c, rest, rfl, starts⟩
  | int number =>
    obtain ⟨first, rest, rfl⟩ := List.exists_cons_of_ne_nil number.1
    have count : digitCount rest = rest.length :=
      congrArg List.length (takeWhile_of_all fun c member => number.2 c (List.mem_cons_of_mem _ member))
    have whole : fractionLength (rest.drop (digitCount rest)) = 0 := by
      rw [count, List.drop_length]
      rfl
    have starts : Starts first rest _ _ := .int (number.2 first List.mem_cons_self) whole
    rw [count] at starts
    exact ⟨first, rest, rfl, starts⟩
  | @float whole fraction exponent number broken scaled =>
    obtain ⟨first, more, rfl⟩ := List.exists_cons_of_ne_nil number.1
    have count : digitCount (more ++ '.' :: (fraction ++ exponent)) = more.length :=
      digitCount_append_of_all (fun c member => number.2 c (List.mem_cons_of_mem _ member)) rfl
    have length := fractionLength_eq broken scaled
    have starts : Starts first (more ++ '.' :: (fraction ++ exponent)) _ _ :=
      .float (number.2 first List.mem_cons_self) (by rw [count, List.drop_left, length]; simp)
    rw [count, List.drop_left, length, ← List.length_append] at starts
    exact ⟨first, _, rfl, starts⟩
  | string quoted => exact ⟨_, _, rfl, .string rfl quoted.length_eq⟩
  | keyword word => cases word <;> exact ⟨_, _, rfl, tokenAt?_eq_some_iff.mp rfl⟩
  | symbol sign => cases sign <;> exact ⟨_, _, rfl, tokenAt?_eq_some_iff.mp rfl⟩

/-! Lexemes inside a text -/

/-- No lexeme leaves its line. -/
theorem Lexeme.inLine {kind : Kind} {text : List Char} (lexeme : Lexeme kind text) : '\n' ∉ text := by
  have digits {text : List Char} (number : Digits text) : '\n' ∉ text := fun member => by
    have := number.2 _ member
    contradiction
  cases lexeme with
  | name letter parts free =>
    intro member
    obtain same | later := List.mem_cons.mp member
    · subst same
      contradiction
    · have := parts _ later
      contradiction
  | int number => exact digits number
  | @float whole fraction exponent number broken scaled =>
    have exponent_fine : '\n' ∉ exponent := by
      cases scaled with
      | absent => exact List.not_mem_nil
      | plain known number => obtain rfl | rfl := known <;> simpa using digits number
      | signed known known' number =>
        obtain rfl | rfl := known <;> obtain rfl | rfl := known' <;> simpa using digits number
    simpa using ⟨digits number, digits broken, exponent_fine⟩
  | string quoted =>
    have inside {text : List Char} (quoted : Quoted text) : '\n' ∉ text := by
      induction quoted with
      | close => decide
      | plain plain _ ih => simpa using ⟨plain.2.2.symm, ih⟩
      | escape inLine _ ih => simpa using ⟨inLine.symm, ih⟩
    simpa using inside quoted
  | keyword word => cases word <;> decide
  | symbol sign => cases sign <;> decide

/-- Symbols of one character that no symbol of two begins with. -/
def Lone (sign : Symbol) : Prop :=
  sign ∈ [Symbol.minus, .times, .divide, .comma, .colon, .openParen, .closeParen, .openBracket, .closeBracket,
    .openBrace, .closeBrace]

instance (sign : Symbol) : Decidable (Lone sign) := inferInstanceAs (Decidable (_ ∈ _))

/-- A lone symbol is the same whatever follows. -/
theorem Lone.starts {sign : Symbol} (lone : Lone sign) {c : Char} {more : List Char}
    (text_eq : sign.text.toList = c :: more) (rest : List Char) : more = [] ∧ Starts c rest (.symbol sign) 0 := by
  have found : more = [] ∧ Symbol.at? (c :: rest) = some sign := by
    simp only [Lone, List.mem_cons, List.not_mem_nil, or_false] at lone
    obtain rfl | rfl | rfl | rfl | rfl | rfl | rfl | rfl | rfl | rfl | rfl := lone <;>
      simp only [Symbol.text, String.reduceToList, List.cons.injEq] at text_eq <;>
      obtain ⟨rfl, rfl⟩ := text_eq <;>
      simp [Symbol.at?, Symbol.all, Symbol.text, List.isPrefixOf]
  obtain ⟨nil, known⟩ := found
  have starts : Starts c rest _ _ := .symbol known
  rw [← String.length_toList, text_eq, nil] at starts
  exact ⟨nil, starts⟩

end Corvid.Token
