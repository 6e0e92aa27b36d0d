import Corvid.Proofs.Positions
import Corvid.Proofs.Token.Following
import Mathlib.Computability.Language
import Mathlib.Data.List.Chain

/-!
The terminals of the grammar, as languages, and the tokens of a text against them. A text is split by looking at one
character and then at what follows it; nothing there compares the terminals with each other. Still no match of any
terminal at the place of a token is longer than the token, a word is a keyword exactly if it is reserved, and a
separator takes in everything up to the next token that is none.
-/
namespace Corvid.Token

open scoped Computability

/-- The texts of one character that is among those given. -/
def single (among : Char → Prop) : Language Char := {text | ∃ c, among c ∧ text = [c]}

/-- Digits: `[0-9]+`. -/
def digits : Language Char := single (isDigit ·) * (single (isDigit ·))∗

/-- Exponents: `[eE][+-]?[0-9]+`. -/
def exponent : Language Char :=
  single (fun c => c = 'e' ∨ c = 'E') * ((1 + single (fun c => c = '+' ∨ c = '-')) * digits)

/-- What may stand between the quotes of a string: `\\.|[^"\\\n]`. -/
def stringPart : Language Char :=
  single (· = '\\') * single (· ≠ '\n') + single (fun c => c ≠ '"' ∧ c ≠ '\\' ∧ c ≠ '\n')

/-- Comments: `#[^\n]*`. -/
def comment : Language Char := single (· = '#') * (single (· ≠ '\n'))∗

/-- What a separator goes on with: `\s|;|#[^\n]*`. -/
def separatorPart : Language Char := single (fun c => c = ';' ∨ Text.isBlank c = true) + comment

/-- What the lexer matches: the tokens of each kind, and the blanks that it drops. -/
inductive Terminal where
  | token (kind : Kind)
  | blanks

/-- The texts that a terminal matches. The pattern of names matches reserved words, too. -/
def Terminal.language : Terminal → Language Char
  | token .name => single (isNameStart ·) * (single (isNamePart ·))∗
  | token .int => digits
  | token .float => digits * (single (· = '.') * (digits * (1 + exponent)))
  | token .string => single (· = '"') * (stringPart∗ * single (· = '"'))
  | token .separator => (single (fun c => c = ';' ∨ c = '\n') + comment) * separatorPart∗
  | token (.keyword word) => {word.text.toList}
  | token (.symbol sign) => {sign.text.toList}
  | blanks => single (isSpace ·) * (single (isSpace ·))∗

/-! Membership -/

theorem mem_single_mul {among : Char → Prop} {rest : Language Char} {text : List Char} :
    text ∈ single among * rest ↔ ∃ c tail, text = c :: tail ∧ among c ∧ tail ∈ rest := by
  constructor
  · rintro ⟨_, ⟨c, known, rfl⟩, tail, member, rfl⟩
    exact ⟨c, tail, rfl, known, member⟩
  · rintro ⟨c, tail, rfl, known, member⟩
    exact ⟨[c], ⟨c, known, rfl⟩, tail, member, rfl⟩

theorem cons_mem_single_mul {among : Char → Prop} {rest : Language Char} {c : Char} {text : List Char} :
    c :: text ∈ single among * rest ↔ among c ∧ text ∈ rest := by
  rw [mem_single_mul]
  constructor
  · rintro ⟨_, _, same, found⟩
    cases same
    exact found
  · exact fun found => ⟨c, text, rfl, found⟩

theorem append_mem_kstar {parts : Language Char} {text rest : List Char} (first : text ∈ parts) (more : rest ∈ parts∗) :
    text ++ rest ∈ parts∗ := by
  have grows : parts * parts∗ ≤ parts∗ := mul_kstar_le_kstar
  exact grows (Language.append_mem_mul first more)

/-- What holds of the texts that come last and is kept by putting a part in front holds of all. -/
theorem kstar_mul_induction {parts last : Language Char} {P : List Char → Prop} (ends : ∀ text ∈ last, P text)
    (goes : ∀ part ∈ parts, ∀ rest, P rest → P (part ++ rest)) {text : List Char} (member : text ∈ parts∗ * last) :
    P text := by
  obtain ⟨_, ⟨front, rfl, inside⟩, rest, ended, rfl⟩ := member
  induction front with
  | nil => exact ends rest ended
  | cons part front ih =>
    obtain ⟨first, inside⟩ := List.forall_mem_cons.mp inside
    change P (part ++ front.flatten ++ rest)
    rw [List.append_assoc]
    exact goes part first _ (ih inside)

theorem mem_single_kstar {among : Char → Prop} {text : List Char} :
    text ∈ (single among)∗ ↔ ∀ c ∈ text, among c := by
  induction text with
  | nil => exact iff_of_true (Language.nil_mem_kstar _) (List.forall_mem_nil _)
  | cons c text ih =>
    rw [← Language.one_add_self_mul_kstar_eq_kstar, Language.mem_add, cons_mem_single_mul, ih, List.forall_mem_cons]
    exact or_iff_right (List.cons_ne_nil c text)

theorem mem_digits {text : List Char} : text ∈ digits ↔ Digits text := by
  cases text with
  | nil =>
    refine iff_of_false (fun member => ?_) fun number => number.1 rfl
    obtain ⟨_, _, same, _⟩ := mem_single_mul.mp member
    cases same
  | cons c text =>
    rw [digits, cons_mem_single_mul, mem_single_kstar, Digits, List.forall_mem_cons]
    exact (and_iff_right (List.cons_ne_nil c text)).symm

theorem mem_one_add_exponent {text : List Char} : text ∈ 1 + exponent ↔ Exponent text := by
  rw [exponent, add_mul, one_mul, mul_add, Language.mem_add, Language.mem_add, Language.mem_one, mem_single_mul,
    mem_single_mul]
  constructor
  · rintro (rfl | ⟨letter, _, rfl, known, number⟩ | ⟨letter, _, rfl, known, signed⟩)
    · exact .absent
    · exact .plain known (mem_digits.mp number)
    · obtain ⟨sign, _, rfl, known', number⟩ := mem_single_mul.mp signed
      exact .signed known known' (mem_digits.mp number)
  · intro scaled
    cases scaled with
    | absent => exact .inl rfl
    | plain known number => exact .inr (.inl ⟨_, _, rfl, known, mem_digits.mpr number⟩)
    | signed known known' number =>
      exact .inr (.inr ⟨_, _, rfl, known, cons_mem_single_mul.mpr ⟨known', mem_digits.mpr number⟩⟩)

theorem mem_stringPart_kstar {text : List Char} : text ∈ stringPart∗ * single (· = '"') ↔ Quoted text := by
  constructor
  · refine kstar_mul_induction ?closes ?goes
    case closes =>
      rintro _ ⟨_, rfl, rfl⟩
      exact .close
    case goes =>
      rintro _ (⟨_, ⟨_, rfl, rfl⟩, _, ⟨c, inLine, rfl⟩, rfl⟩ | ⟨c, plain, rfl⟩) rest quoted
      · exact .escape inLine quoted
      · exact .plain plain quoted
  · intro quoted
    induction quoted with
    | close => exact ⟨[], Language.nil_mem_kstar _, ['"'], ⟨'"', rfl, rfl⟩, rfl⟩
    | @plain c _ plain _ ih =>
      obtain ⟨front, parts, last, ends, rfl⟩ := ih
      exact ⟨[c] ++ front, append_mem_kstar (.inr ⟨c, plain, rfl⟩) parts, last, ends, rfl⟩
    | @escape c _ inLine _ ih =>
      obtain ⟨front, parts, last, ends, rfl⟩ := ih
      have escaped : ['\\', c] ∈ stringPart := .inl ⟨['\\'], ⟨_, rfl, rfl⟩, [c], ⟨c, inLine, rfl⟩, rfl⟩
      exact ⟨['\\', c] ++ front, append_mem_kstar escaped parts, last, ends, rfl⟩

/-! Separators -/

theorem separatorLength_le_append (inside : Bool) (text rest : List Char) :
    separatorLength inside text ≤ separatorLength inside (text ++ rest) := by
  induction text generalizing inside with
  | nil => exact Nat.zero_le _
  | cons c text ih =>
    rw [List.cons_append, separatorLength_cons, separatorLength_cons]
    split
    · exact Nat.succ_le_succ (ih _)
    · exact Nat.le_refl _

/-- Texts that are separator text as a whole, also inside a comment. -/
def Filler (text : List Char) : Prop := ∀ inside, separatorLength inside text = text.length

theorem separatorLength_of_filler {text rest : List Char} (inLine : text ∈ (single (· ≠ '\n'))∗)
    (filler : Filler rest) : separatorLength true (text ++ rest) = (text ++ rest).length := by
  have within : '\n' ∉ text := fun member => mem_single_kstar.mp inLine _ member rfl
  rw [separatorLength_inLine within, filler, List.length_append]

theorem filler_of_mem {text : List Char} (member : text ∈ separatorPart∗) : Filler text := by
  rw [← mul_one separatorPart∗] at member
  refine kstar_mul_induction ?_ ?_ member
  · rintro _ rfl inside
    rfl
  · rintro _ (⟨c, known, rfl⟩ | commented) rest filler inside
    · obtain ⟨mode, going⟩ : ∃ mode, continuation? inside c = some mode := by
        cases inside <;> simp only [continuation?, if_true, Bool.false_eq_true, if_false, Option.some.injEq, exists_eq']
        split
        · exact ⟨_, rfl⟩
        · simp [known]
      rw [List.singleton_append, separatorLength_cons, going]
      exact congrArg Nat.succ (filler mode)
    · obtain ⟨_, line, rfl, rfl, inLine⟩ := mem_single_mul.mp commented
      rw [List.cons_append, separatorLength_cons, Divider.comment.continuation?_eq]
      exact congrArg Nat.succ (separatorLength_of_filler inLine filler)

/-- Separator text at the front of a text, which may begin inside a comment. -/
theorem take_separatorLength_mem (text : List Char) :
    text.take (separatorLength false text) ∈ separatorPart∗ ∧
      text.take (separatorLength true text) ∈ (single (· ≠ '\n'))∗ * separatorPart∗ := by
  induction text with
  | nil => exact ⟨Language.nil_mem_kstar _, [], Language.nil_mem_kstar _, [], Language.nil_mem_kstar _, rfl⟩
  | cons c text ih =>
    obtain ⟨free, commented⟩ := ih
    have blank (known : c = ';' ∨ Text.isBlank c = true) :
        c :: text.take (separatorLength false text) ∈ separatorPart∗ :=
      append_mem_kstar (.inl ⟨c, known, rfl⟩) free
    rw [separatorLength_cons, separatorLength_cons]
    constructor
    · cases going : continuation? false c with
      | none => exact Language.nil_mem_kstar _
      | some inside =>
        rw [continuation?, if_neg Bool.false_ne_true] at going
        split at going
        · next same =>
          cases going
          subst same
          obtain ⟨line, inLine, rest, later, whole⟩ := commented
          change '#' :: text.take (separatorLength true text) ∈ _
          rw [← whole]
          exact append_mem_kstar (.inr (cons_mem_single_mul.mpr ⟨rfl, inLine⟩)) later
        · split at going
          · next known =>
            cases going
            exact blank (by simpa using known)
          · cases going
    · by_cases ends : c = '\n'
      · subst ends
        exact ⟨[], Language.nil_mem_kstar _, _, blank (.inr rfl), rfl⟩
      · have going : continuation? true c = some true := by simp [continuation?, ends]
        obtain ⟨line, inLine, rest, later, whole⟩ := commented
        rw [going]
        change c :: text.take (separatorLength true text) ∈ _
        rw [← whole]
        exact ⟨[c] ++ line, append_mem_kstar ⟨c, ends, rfl⟩ inLine, rest, later, rfl⟩

/-! Tokens and matches -/

theorem Lexeme.mem_language {kind : Kind} {text : List Char} (lexeme : Lexeme kind text) :
    text ∈ (Terminal.token kind).language := by
  cases lexeme with
  | name letter parts => exact cons_mem_single_mul.mpr ⟨letter, mem_single_kstar.mpr parts⟩
  | int number => exact mem_digits.mpr number
  | float number broken scaled =>
    have fraction := Language.append_mem_mul (mem_digits.mpr broken) (mem_one_add_exponent.mpr scaled)
    exact Language.append_mem_mul (mem_digits.mpr number) (cons_mem_single_mul.mpr ⟨rfl, fraction⟩)
  | string quoted => exact cons_mem_single_mul.mpr ⟨rfl, mem_stringPart_kstar.mpr quoted⟩
  | keyword | symbol => rfl

/-- A match of a terminal is a lexeme; one of the pattern of names may be a keyword. -/
theorem exists_lexeme {kind : Kind} {text : List Char} (solid : kind ≠ .separator)
    (member : text ∈ (Terminal.token kind).language) : ∃ kind', Lexeme kind' text := by
  cases kind with
  | name =>
    obtain ⟨c, tail, rfl, letter, parts⟩ := mem_single_mul.mp member
    exact ⟨_, lexeme_word letter (mem_single_kstar.mp parts)⟩
  | int => exact ⟨_, .int (mem_digits.mp member)⟩
  | float =>
    obtain ⟨whole, number, _, fraction, rfl⟩ := member
    obtain ⟨_, _, rfl, rfl, _, broken, _, scaled, rfl⟩ := mem_single_mul.mp fraction
    exact ⟨_, .float (mem_digits.mp number) (mem_digits.mp broken) (mem_one_add_exponent.mp scaled)⟩
  | string =>
    obtain ⟨_, _, rfl, rfl, quoted⟩ := mem_single_mul.mp member
    exact ⟨_, .string (mem_stringPart_kstar.mp quoted)⟩
  | separator => contradiction
  | keyword word =>
    obtain rfl : text = word.text.toList := member
    exact ⟨_, .keyword word⟩
  | symbol sign =>
    obtain rfl : text = sign.text.toList := member
    exact ⟨_, .symbol sign⟩

/-- The text of a token is a match of the terminal of its kind. -/
theorem Starts.mem_language {c : Char} {text : List Char} {kind : Kind} {more : Nat}
    (starts : Starts c text kind more) : c :: text.take more ∈ (Terminal.token kind).language := by
  by_cases solid : kind = .separator
  · subst solid
    obtain ⟨opens, rfl⟩ := starts.separator_inv
    obtain ⟨free, line, inLine, rest, later, whole⟩ := take_separatorLength_mem text
    obtain rfl | rfl | rfl := opens
    · exact ⟨[';'], .inl ⟨';', .inl rfl, rfl⟩, _, free, rfl⟩
    · exact ⟨['\n'], .inl ⟨'\n', .inr rfl, rfl⟩, _, free, rfl⟩
    · exact ⟨'#' :: line, .inr (cons_mem_single_mul.mpr ⟨rfl, inLine⟩), rest, later, congrArg (List.cons '#') whole⟩
  · exact (starts.lexeme solid).mem_language

/-- A match of the separators' terminal opens a separator that takes it in. -/
theorem separator_starts_append {text : List Char} (member : text ∈ (Terminal.token .separator).language)
    (rest : List Char) :
    ∃ c inside more, text = c :: inside ∧ Starts c (inside ++ rest) .separator more ∧ inside.length ≤ more := by
  obtain ⟨_, opening, tail, parts, rfl⟩ := member
  have filler := filler_of_mem parts
  obtain ⟨c, known, rfl⟩ | commented := opening
  · have opens : c = ';' ∨ c = '\n' ∨ c = '#' := known.imp_right .inl
    have plain : (c == '#') = false := by obtain rfl | rfl := known <;> rfl
    have longer := separatorLength_le_append (c == '#') tail rest
    rw [plain, filler, ← plain] at longer
    exact ⟨c, tail, _, rfl, .separator opens, longer⟩
  · obtain ⟨_, line, rfl, rfl, inLine⟩ := mem_single_mul.mp commented
    have longer := separatorLength_le_append true (line ++ tail) rest
    rw [separatorLength_of_filler inLine filler] at longer
    exact ⟨'#', line ++ tail, _, rfl, .separator (.inr (.inr rfl)), longer⟩

/-- Where a terminal matches, a token begins that is no shorter than the match. -/
theorem exists_starts_append {kind : Kind} {text : List Char} (member : text ∈ (Terminal.token kind).language)
    (rest : List Char) :
    ∃ c inside kind' more, text = c :: inside ∧ Starts c (inside ++ rest) kind' more ∧ inside.length ≤ more := by
  by_cases solid : kind = .separator
  · subst solid
    obtain ⟨c, inside, more, found⟩ := separator_starts_append member rest
    exact ⟨c, inside, .separator, more, found⟩
  · obtain ⟨_, lexeme⟩ := exists_lexeme solid member
    obtain ⟨c, inside, rfl, _⟩ := lexeme.starts
    obtain ⟨kind', more, found⟩ := lexeme.starts_append rest
    exact ⟨c, inside, kind', more, rfl, found⟩

/-- No match of a terminal at the place of a token is longer than the token. -/
theorem Starts.longest {c : Char} {text lexeme : List Char} {kind : Kind} {more : Nat} {terminal : Terminal}
    (starts : Starts c text kind more) (member : lexeme ∈ terminal.language) (front : lexeme <+: c :: text) :
    lexeme.length ≤ more + 1 := by
  obtain ⟨rest, whole⟩ := front
  cases terminal with
  | token kind' =>
    -- The match stands by itself, so a token begins here that takes it in, and there is only one token here.
    obtain ⟨d, inside, kind'', more', rfl, starts', longer⟩ := exists_starts_append member rest
    cases whole
    obtain ⟨_, rfl⟩ := starts.unique starts'
    exact Nat.succ_le_succ longer
  | blanks =>
    obtain ⟨d, inside, rfl, blank, _⟩ := mem_single_mul.mp member
    cases whole
    exact absurd blank starts.not_isSpace

theorem wordKind_keyword (word : Keyword) : wordKind word.text.toList = .keyword word := by
  cases word <;> rfl

theorem wordKind_cases (text : List Char) :
    (∃ word : Keyword, word.text.toList = text) ∨ wordKind text = .name := by
  by_cases reserved : ∃ word : Keyword, word.text.toList = text
  · exact .inl reserved
  · exact .inr (wordKind_of_free (not_exists.mp reserved))

/-- The kind of a token that looks like a name. -/
theorem Starts.kind_eq_wordKind {c : Char} {text : List Char} {kind : Kind} {more : Nat}
    (starts : Starts c text kind more) (named : c :: text.take more ∈ (Terminal.token .name).language) :
    kind = wordKind (c :: text.take more) := by
  obtain ⟨letter, _⟩ := cons_mem_single_mul.mp named
  obtain ⟨rfl, rfl⟩ := starts.unique (.word letter)
  rw [← List.prefix_iff_eq_take.mp (List.takeWhile_prefix isNamePart)]

/-! Adjacent tokens -/

/-- Where no separator text goes on, the next token is no separator. -/
theorem Splits.head_ne_separator {position : Position} {c : Char} {text : List Char} {tokens : List Token}
    (splits : Splits position (c :: text) tokens) (stops : continuation? false c = none) :
    ∀ token ∈ tokens.head?, token.kind ≠ .separator := by
  cases splits with
  | space blank =>
    rw [continuation?_space blank] at stops
    cases stops
  | token starts =>
    rintro _ ⟨⟩ rfl
    obtain ⟨rfl | rfl | rfl, _⟩ := starts.separator_inv <;> cases stops

/-- A separator is followed by a token of another kind, if by any. -/
theorem Splits.separated {position : Position} {text : List Char} {tokens : List Token}
    (splits : Splits position text tokens) :
    tokens.IsChain fun token next => token.kind = .separator → next.kind ≠ .separator := by
  induction splits with
  | nil => exact .nil
  | space _ _ ih => exact ih
  | @token position c text kind more tokens starts rest ih =>
    refine List.isChain_cons.mpr ⟨fun next found same => ?_, ih⟩
    cases same
    obtain ⟨_, rfl⟩ := starts.separator_inv
    by_cases inside : separatorLength (c == '#') text < text.length
    · obtain ⟨d, later, follows, stops⟩ := continuation?_of_separatorLength_lt inside
      rw [follows] at rest
      exact rest.head_ne_separator stops next found
    · rw [List.drop_eq_nil_of_le (Nat.le_of_not_lt inside)] at rest
      cases rest
      cases found

/-- How a token stands before the rest of a text. It is a match of the terminal of its kind; no match of any terminal
at its place is longer; and if it looks like a name, it is a keyword exactly if it is reserved, and else a name. -/
structure Maximal (token : Token) (rest : List Char) : Prop where
  own : token.text.toList ∈ (Terminal.token token.kind).language
  longest : ∀ (terminal : Terminal) (lexeme : List Char), lexeme ∈ terminal.language →
    lexeme <+: token.text.toList ++ rest → lexeme.length ≤ token.text.length
  keyword : token.text.toList ∈ (Terminal.token .name).language →
    ∀ word, token.kind = .keyword word ↔ token.text = word.text
  name : token.text.toList ∈ (Terminal.token .name).language →
    (token.kind = .name ↔ ∀ word : Keyword, token.text ≠ word.text)

theorem Starts.maximal {token : Token} {c : Char} {text : List Char} {more : Nat}
    (starts : Starts c text token.kind more) (written : token.text.toList = c :: text.take more) :
    token.Maximal (text.drop more) := by
  have kinds (named : token.text.toList ∈ (Terminal.token .name).language) :
      token.kind = wordKind token.text.toList := by
    rw [written] at named ⊢
    exact starts.kind_eq_wordKind named
  refine ⟨?own, fun terminal lexeme member front => ?longest, fun named word => ?keyword, fun named => ?name⟩
  case own =>
    rw [written]
    exact starts.mem_language
  case longest =>
    rw [written, List.cons_append, List.take_append_drop] at front
    rw [← String.length_toList, written, List.length_cons, List.length_take_of_le starts.le]
    exact starts.longest member front
  case keyword =>
    rw [kinds named, ← String.toList_inj]
    constructor
    · intro same
      obtain ⟨word', found⟩ | free := wordKind_cases token.text.toList
      · rw [← found, wordKind_keyword] at same
        cases same
        exact found.symm
      · rw [free] at same
        cases same
    · intro same
      rw [same, wordKind_keyword]
  case name =>
    rw [kinds named]
    constructor
    · intro same word reserved
      rw [reserved, wordKind_keyword] at same
      cases same
    · intro free
      exact wordKind_of_free fun word same => free word (String.toList_inj.mp same.symm)

/-- A text that falls into tokens is spelled by them, with blanks between. Every token stands where the text before it
ends, and is maximal there. No two separators follow each other, blanks between them or not. -/
theorem split_maximal {text : String} {tokens : List Token} (splits : split text = ⟨tokens, none⟩) :
    Spells text.toList tokens ∧
      (∀ front token back, tokens = front ++ token :: back →
        ∃ before after, text.toList = before ++ (token.text.toList ++ after) ∧ Spells before front ∧
          Spells after back ∧ token.position = .behind before ∧ token.Maximal after) ∧
      tokens.IsChain fun token next => token.kind = .separator → next.kind ≠ .separator := by
  have found := Splits.of_splitFrom splits
  refine ⟨found.spells, ?_, found.separated⟩
  rintro front token back rfl
  obtain ⟨before, c, rest, more, whole, starts, written, place, spelled, spelled'⟩ := found.spelled_at
  refine ⟨before, rest.drop more, ?_, spelled, spelled', ?_, starts.maximal written⟩
  · rw [whole, written, List.cons_append, List.take_append_drop]
  · rw [place, Position.after_eq_behind]

/-- A range between two numbers, one with a fraction and an exponent, a separator that goes on after its comment, and a
keyword that another one and a name begin like. -/
theorem split_maximal_overlaps :
    ∃ tokens, split "x=1..2.5e3 # a\n ;\tprint(println, printer)" = ⟨tokens, none⟩ ∧
      tokens.map Token.text =
        ["x", "=", "1", "..", "2.5e3", "# a\n ;\t", "print", "(", "println", ",", "printer", ")"] ∧
      Spells "x=1..2.5e3 # a\n ;\tprint(println, printer)".toList tokens ∧
      (∃ after, Maximal ⟨.int, "1", ⟨1, 3⟩⟩ after) ∧ (∃ after, Maximal ⟨.separator, "# a\n ;\t", ⟨1, 12⟩⟩ after) ∧
      (∃ after, Maximal ⟨.keyword .kwPrintln, "println", ⟨2, 10⟩⟩ after) ∧
      tokens.IsChain fun token next => token.kind = .separator → next.kind ≠ .separator := by
  have splits : split "x=1..2.5e3 # a\n ;\tprint(println, printer)" = ⟨[⟨.name, "x", ⟨1, 1⟩⟩,
      ⟨.symbol .assign, "=", ⟨1, 2⟩⟩, ⟨.int, "1", ⟨1, 3⟩⟩, ⟨.symbol .range, "..", ⟨1, 4⟩⟩, ⟨.float, "2.5e3", ⟨1, 6⟩⟩,
      ⟨.separator, "# a\n ;\t", ⟨1, 12⟩⟩, ⟨.keyword .kwPrint, "print", ⟨2, 4⟩⟩, ⟨.symbol .openParen, "(", ⟨2, 9⟩⟩,
      ⟨.keyword .kwPrintln, "println", ⟨2, 10⟩⟩, ⟨.symbol .comma, ",", ⟨2, 17⟩⟩, ⟨.name, "printer", ⟨2, 19⟩⟩,
      ⟨.symbol .closeParen, ")", ⟨2, 26⟩⟩], none⟩ := rfl
  obtain ⟨spelled, maximal, separated⟩ := split_maximal splits
  obtain ⟨_, after, _, _, _, _, int⟩ := maximal [_, _] _ _ rfl
  obtain ⟨_, after', _, _, _, _, separator⟩ := maximal [_, _, _, _, _] _ _ rfl
  obtain ⟨_, after'', _, _, _, _, keyword⟩ := maximal [_, _, _, _, _, _, _, _] _ _ rfl
  exact ⟨_, splits, rfl, spelled, ⟨after, int⟩, ⟨after', separator⟩, ⟨after'', keyword⟩, separated⟩

end Corvid.Token
