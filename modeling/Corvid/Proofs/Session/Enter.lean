import Corvid.Proofs.SyntaxErrors
import Corvid.Proofs.Token.Brackets

/-!
Enter after an opening bracket. The tokens of a text that ends with an opening bracket stay what they are whatever is
typed after it. Enter puts a separator there. A block may begin with one, so after a brace the text can still be
completed; nothing in parentheses or square brackets does, so after those no program begins with the text any more.
-/
namespace Corvid

namespace Token

/-- Brackets that open something. -/
def Opens (sign : Symbol) : Prop := sign = .openParen ∨ sign = .openBracket ∨ sign = .openBrace

theorem Opens.lone {sign : Symbol} (opens : Opens sign) : Lone sign := by
  rcases opens with rfl | rfl | rfl <;> decide

/-- A bracket is written as one character, which continues no token. -/
theorem Opens.exists_inert {sign : Symbol} (opens : Opens sign) : ∃ c, sign.text.toList = [c] ∧ Inert c := by
  rcases opens with rfl | rfl | rfl
  · exact ⟨'(', rfl, by decide⟩
  · exact ⟨'[', rfl, by decide⟩
  · exact ⟨'\x7b', rfl, by decide⟩

theorem Opens.depthAfter {sign : Symbol} (opens : Opens sign) (depth : Nat) :
    (Kind.symbol sign).depthAfter depth = depth + 1 := by
  rcases opens with rfl | rfl | rfl <;> rfl

/-- An opening bracket is the same whatever follows it. -/
theorem Opens.starts {sign : Symbol} (opens : Opens sign) {c : Char} {text : List Char} {more : Nat}
    (starts : Starts c text (.symbol sign) more) (other : List Char) : Starts c other (.symbol sign) more := by
  have written : c :: text.take more = sign.text.toList := by
    have lexeme := starts.lexeme (by simp)
    generalize c :: text.take more = letters at lexeme
    cases lexeme
    rfl
  obtain ⟨nothing, same⟩ := opens.lone.starts written.symm other
  have size : (text.take more).length = more := List.length_take_of_le starts.le
  rw [nothing] at size
  exact size ▸ same

/-- A token is the same whatever is put behind a text in which an inert character stands. -/
theorem Starts.append_of_mem {first c : Char} {text : List Char} {kind : Kind} {more : Nat}
    (starts : Starts first text kind more) (member : c ∈ text) (inert : Inert c) (solid : kind ≠ .separator)
    (rest : List Char) : Starts first (text ++ rest) kind more := by
  obtain ⟨front, back, rfl⟩ := List.append_of_mem member
  have number (back : List Char) : fractionLength ((front ++ c :: back).drop (digitCount (front ++ c :: back))) =
      fractionLength (front.drop (digitCount front)) := by
    rw [digitCount_append _ _ inert, List.drop_append_of_le_length (digitCount_le front),
      fractionLength_append _ _ inert]
  rw [List.append_assoc, List.cons_append]
  cases starts with
  | separator => contradiction
  | word letter =>
    rw [takeWhile_append_boundary front back inert.1, ← takeWhile_append_boundary front (back ++ rest) inert.1]
    exact .word letter
  | int digit whole =>
    rw [digitCount_append front back inert, ← digitCount_append front (back ++ rest) inert]
    exact .int digit ((number _).trans ((number back).symm.trans whole))
  | float digit broken =>
    rw [number back, ← number (back ++ rest), digitCount_append front back inert,
      ← digitCount_append front (back ++ rest) inert]
    exact .float digit ((number _).trans_ne ((number back).symm.trans_ne broken))
  | string quote closed =>
    have closed := stringLength?_append rest closed
    rw [List.append_assoc, List.cons_append] at closed
    exact .string quote closed
  | symbol known =>
    rw [← List.cons_append, symbolAt?_append front back inert] at known
    exact .symbol ((symbolAt?_append front (back ++ rest) inert).trans known)

/-- A symbol of a text is written in it. -/
theorem Splits.mem_of_symbol {position : Position} {text : List Char} {tokens : List Token}
    (splits : Splits position text tokens) {token : Token} (member : token ∈ tokens) {sign : Symbol}
    (kind : token.kind = .symbol sign) {c : Char} (written : c ∈ sign.text.toList) : c ∈ text := by
  have stands := (splitFrom_stands position text).1 token (by rwa [splits.splitFrom_eq])
  have lexeme := stands.lexeme (by simp [kind])
  rw [kind] at lexeme
  generalize same : token.text.toList = letters at lexeme
  cases lexeme
  cases stands with
  | @intro front inside rest first _ found =>
    rw [String.toList_ofList] at same
    rw [found, ← List.cons_append, same]
    exact List.mem_append_right front (List.mem_append_left rest written)

/-- What is put behind a last opening bracket is split by itself. -/
theorem Splits.splitFrom_append {position : Position} {text : List Char} {tokens : List Token}
    (splits : Splits position text tokens)
    (ends : ∀ last ∈ tokens.getLast?, ∃ sign, Opens sign ∧ last.kind = .symbol sign) (rest : List Char) :
    splitFrom position 0 (text ++ rest) =
      ⟨tokens ++ (splitFrom (position.after text) 0 rest).tokens, (splitFrom (position.after text) 0 rest).stray⟩ := by
  induction splits with
  | nil => rfl
  | space blank _ ih =>
    rw [List.cons_append, splitFrom, if_pos blank, ih ends]
    rfl
  | @token position c text kind more tokens starts within ih =>
    have shorter : more ≤ text.length := starts.le
    have whole : (position.after (c :: text.take more)).after (text.drop more) = position.after (c :: text) := by
      rw [← Position.after_append, List.cons_append, List.take_append_drop]
    have inside := splitFrom_inside (position.next c) more (text ++ rest)
    rw [List.take_append_of_le_length shorter, List.drop_append_of_le_length shorter] at inside
    change _ = splitFrom (position.after (c :: text.take more)) 0 _ at inside
    -- the token is the bracket, or the bracket stands behind it
    obtain ⟨same, later⟩ : Starts c (text ++ rest) kind more ∧
        ∀ last ∈ tokens.getLast?, ∃ sign, Opens sign ∧ last.kind = .symbol sign := by
      obtain rfl | ⟨before, last, rfl⟩ := List.eq_nil_or_concat tokens
      · obtain ⟨sign, opens, rfl⟩ := ends _ rfl
        exact ⟨opens.starts starts _, by simp⟩
      · rw [List.concat_eq_append] at ends within ⊢
        rw [← List.cons_append, List.getLast?_concat] at ends
        rw [List.getLast?_concat]
        obtain ⟨sign, opens, symbol⟩ := ends last rfl
        obtain ⟨d, written, inert⟩ := opens.exists_inert
        have behind : d ∈ text.drop more := within.mem_of_symbol (by simp) symbol (by simp [written])
        refine ⟨?_, ends⟩
        by_cases solid : kind = .separator
        · subst solid
          have follows : more < text.length := by
            have := List.length_pos_of_mem behind
            rw [List.length_drop] at this
            omega
          exact starts.append_of_lt rest follows
        · exact starts.append_of_mem (List.mem_of_mem_drop behind) inert solid rest
    rw [List.cons_append, splitFrom, if_neg same.not_isSpace, tokenAt?_eq_some_iff.mpr same]
    simp only [inside, ih later, whole, List.take_append_of_le_length shorter, List.cons_append]

end Token

namespace Parser

open Grammar

/-- Some program begins with the text. -/
def Begins (text : String) : Prop := ∃ rest tree, parse (text ++ rest) = .ok tree

/-- After an opening bracket a block begins, or something else that begins with no separator. -/
inductive Opened : Symbol → State → Prop where
  | block (start : Position) (purpose : Purpose) (outer : List Layer) :
      Opened .openBrace ⟨.opening, ⟨.block start purpose [], []⟩, outer⟩
  | bracket (start : Position) (outer : List Layer) : Opened .openBracket ⟨.opening, ⟨.bracket start, []⟩, outer⟩
  | arguments (start : Position) (name : String) (outer : List Layer) :
      Opened .openParen ⟨.opening, ⟨.arguments start name [], []⟩, outer⟩
  | print (start : Position) (newline : Bool) (outer : List Layer) :
      Opened .openParen ⟨.opening, ⟨.print start newline, []⟩, outer⟩
  | operand {sign : Symbol} (layer : Layer) (outer : List Layer) (other : sign ≠ .openBrace) :
      Opened sign ⟨.operand, layer, outer⟩
  | parameters (start : Position) (name : String) (layer : Layer) (outer : List Layer) :
      Opened .openParen ⟨.firstParameter start name, layer, outer⟩

section Brackets

variable {state next : State} {bracket : Token} {sign : Symbol}

theorem opened_of_beginOperand (opens : Token.Opens sign) (kind : bracket.kind = .symbol sign)
    (begins : state.beginOperand bracket = some next) : Opened sign next := by
  cases beginOperand_cases begins with
  | group paren =>
    obtain rfl : sign = .openParen := by simpa [kind] using paren
    exact .operand _ _ (by decide)
  | bracket square =>
    obtain rfl : sign = .openBracket := by simpa [kind] using square
    exact .bracket _ _
  | block brace =>
    obtain rfl : sign = .openBrace := by simpa [kind] using brace
    exact .block _ _ _
  | _ => rcases opens with rfl | rfl | rfl <;> simp_all

/-- No expression ends with an opening bracket. -/
theorem endExpression_opens (opens : Token.Opens sign) (phrase : Phrase) :
    state.endExpression phrase (.symbol sign) = none := by
  rw [Option.eq_none_iff_forall_ne_some]
  intro next ends
  rcases opens with rfl | rfl | rfl <;> cases endExpression_cases ends <;> contradiction

theorem opened_of_continueOperand {operand : Operand} (opens : Token.Opens sign) (kind : bracket.kind = .symbol sign)
    (continues : state.continueOperand operand bracket = some next) : Opened sign next := by
  cases continueOperand_cases continues with
  | subscript square =>
    obtain rfl : sign = .openBracket := by simpa [kind] using square
    exact .operand _ _ (by decide)
  | call paren =>
    obtain rfl : sign = .openParen := by simpa [kind] using paren
    exact .arguments _ _ _
  | body brace body =>
    obtain rfl : sign = .openBrace := by simpa [kind] using brace
    cases openBody_cases body with
    | branch | loop => exact .block _ _ _
  | join joins =>
    rw [kind] at joins
    rcases opens with rfl | rfl | rfl <;> cases joins
  | ends ends =>
    rw [kind, endExpression_opens opens] at ends
    cases ends
  | assign | store | otherwise => rcases opens with rfl | rfl | rfl <;> simp_all

theorem opened_of_step (opens : Token.Opens sign) (kind : bracket.kind = .symbol sign)
    (steps : state.step bracket = some next) : Opened sign next := by
  cases step_cases steps with
  | begins _ begins => exact opened_of_beginOperand opens kind begins
  | closes _ closes => cases closeEmpty_cases closes <;> rcases opens with rfl | rfl | rfl <;> simp_all
  | continues _ continues => exact opened_of_continueOperand opens kind continues
  | print _ paren =>
    obtain rfl : sign = .openParen := by simpa [kind] using paren
    exact .print _ _ _
  | functionParen _ paren =>
    obtain rfl : sign = .openParen := by simpa [kind] using paren
    exact .parameters _ _ _ _
  | lastBlock _ brace | functionBody _ brace =>
    obtain rfl : sign = .openBrace := by simpa [kind] using brace
    exact .block _ _ _
  | _ => rcases opens with rfl | rfl | rfl <;> simp_all

end Brackets

/-- A separator comes after a brace only. -/
theorem Opened.step_separator_iff {sign : Symbol} {state : State} (opened : Opened sign state) {separator : Token}
    (divides : separator.kind = .separator) : (∃ next, state.step separator = some next) ↔ sign = .openBrace := by
  cases opened with
  | operand layer outer other => simp [State.step, State.beginOperand, divides, other]
  | _ => simp [State.step, State.beginOperand, State.closeEmpty, divides]

/-- The tokens of a program are read without error. -/
theorem exists_leads_of_parse {source : String} {tree : Expr} (read : parse source = .ok tree) :
    ∃ state, Leads .initial (Token.split source).tokens state := by
  obtain ⟨derivation, known⟩ := exists_derivation_of_parse read
  obtain ⟨state, _, leads, _⟩ := exists_finish_of_derivation derivation
  exact ⟨state, known ▸ leads⟩

/-- Where the brackets of a text have been opened, and what is left to read. -/
theorem exists_opened {before rest : List Token} {last : Token} {next : State} {sign : Symbol}
    (opens : Token.Opens sign) (kind : last.kind = .symbol sign)
    (leads : Leads .initial (before ++ [last] ++ rest) next) :
    ∃ state, Leads .initial (before ++ [last]) state ∧ Opened sign state ∧ Leads state rest next := by
  obtain ⟨opened, front, later⟩ := leads.exists_middle
  obtain ⟨middle, _, bracket⟩ := front.exists_middle
  obtain ⟨state, step, nothing⟩ := bracket.exists_step
  obtain rfl : state = opened := Except.ok.inj nothing
  exact ⟨state, front, opened_of_step opens kind step, later⟩

section Bracket

variable {text : String} {before : List Token} {last : Token} {sign : Symbol}

/-- The tokens of a text that goes on after an opening bracket. -/
theorem split_append (split : Token.split text = ⟨before ++ [last], none⟩) (opens : Token.Opens sign)
    (kind : last.kind = .symbol sign) (rest : String) :
    Token.split (text ++ rest) =
      ⟨before ++ [last] ++ (Token.splitFrom (Position.start.after text.toList) 0 rest.toList).tokens,
        (Token.splitFrom (Position.start.after text.toList) 0 rest.toList).stray⟩ := by
  have splits : Token.Splits .start text.toList (before ++ [last]) := .of_splitFrom split
  rw [Token.split, String.toList_append]
  apply splits.splitFrom_append
  rw [List.getLast?_concat]
  rintro _ ⟨⟩
  exact ⟨sign, opens, kind⟩

/-- A new line is read as one separator if no separator text follows. -/
theorem starts_newLine (depth : Nat) {rest : List Char} (stops : Token.separatorLength false rest = 0) :
    Token.Starts '\n' (List.replicate (4 * depth) ' ' ++ rest) .separator (List.replicate (4 * depth) ' ').length := by
  have blanks (count : Nat) : Token.separatorLength false (List.replicate count ' ' ++ rest) = count := by
    induction count with
    | zero => exact stops
    | succ count ih =>
      rw [List.replicate_succ, List.cons_append, Token.separatorLength_cons, Token.continuation?_space rfl]
      exact congrArg (· + 1) ih
  have starts : Token.Starts '\n' (List.replicate (4 * depth) ' ' ++ rest) .separator _ := .separator (.inr (.inl rfl))
  have length : Token.separatorLength ('\n' == '#') (List.replicate (4 * depth) ' ' ++ rest) = 4 * depth := blanks _
  rw [length] at starts
  rwa [List.length_replicate]

/-- A new line and some more text are read as a separator and given tokens. -/
theorem exists_lines (depth : Nat) {tokens : List Token}
    (lexemes : ∀ token ∈ tokens, token.kind ≠ .separator → Token.Lexeme token.kind token.text.toList)
    (divided : (Token.sample .separator :: tokens).IsChain Token.Divided) :
    ∃ rest : String, ∀ position, ∃ found,
      Token.Splits position (Session.Buffer.newLine depth ++ rest.toList) found ∧
        found.map Token.wording = (Token.sample .separator :: tokens).map Token.wording := by
  have stops : Token.separatorLength false (Piece.chars (tokens.flatMap Piece.spread)) = 0 :=
    Piece.separatorLength_spread lexemes fun token first => (List.isChain_cons.mp divided).1 token first rfl
  have line : (String.ofList (Session.Buffer.newLine depth)).toList = '\n' :: List.replicate (4 * depth) ' ' :=
    String.toList_ofList
  have reads := (Piece.reads_spread lexemes divided.tail).token line (starts_newLine depth stops)
  refine ⟨String.ofList (Piece.chars (tokens.flatMap Piece.spread)), fun position => ?_⟩
  obtain ⟨found, splits, spelled⟩ := reads position
  refine ⟨found, ?_, ?_⟩
  · rw [Piece.chars, List.flatMap_cons, Piece.text, line] at splits
    rw [String.toList_ofList]
    exact splits
  · rw [Token.map_wording, spelled, Token.map_wording]
    exact congrArg (Token.worded (.separator, "") :: ·) (Piece.wording_spread tokens)

/-- After a separator that may stand there, the text can be completed. -/
theorem begins_newLine (split : Token.split text = ⟨before ++ [last], none⟩) (opens : Token.Opens sign)
    (kind : last.kind = .symbol sign) (depth : Nat) {state next : State}
    (leads : Leads .initial (before ++ [last]) state)
    (step : state.step (Token.sample .separator) = some next) :
    Begins (text ++ String.ofList (Session.Buffer.newLine depth)) := by
  obtain ⟨kinds, whole, known⟩ := exists_completion (leads.snoc step)
  rw [List.append_assoc] at known
  obtain ⟨final, _, reads, _⟩ := exists_finish_of_derivation whole
  rw [known] at reads
  obtain ⟨_, _, later⟩ := reads.exists_middle
  have lexemes : ∀ token ∈ kinds.map Token.sample, token.kind ≠ .separator →
      Token.Lexeme token.kind token.text.toList := by
    intro token member solid
    obtain ⟨kind, _, rfl⟩ := List.mem_map.mp member
    exact kind.lexeme_sample solid
  obtain ⟨rest, written⟩ := exists_lines depth lexemes (isChain_divided later)
  obtain ⟨found, splits, wordings⟩ := written (Position.start.after text.toList)
  have same : (before ++ [last] ++ found).map Token.kind = whole.tokens.map Token.kind := by
    simp [known, Token.kinds_of_wordings wordings]
  obtain ⟨derivation, tokens⟩ := whole.exists_of_kinds same
  refine ⟨rest, derivation.program, parse_eq_ok_iff.mpr ⟨derivation, ?_, rfl⟩⟩
  have read := split_append split opens kind (String.ofList (Session.Buffer.newLine depth) ++ rest)
  rw [String.toList_append, String.toList_ofList, splits.splitFrom_eq, ← String.append_assoc, ← tokens] at read
  exact .of_splitFrom read

/-- A text that ends with an opening bracket can be completed after a new line if the bracket is a brace. -/
theorem begins_newLine_iff (split : Token.split text = ⟨before ++ [last], none⟩) (opens : Token.Opens sign)
    (kind : last.kind = .symbol sign) (begun : Begins text) (depth : Nat) :
    Begins (text ++ String.ofList (Session.Buffer.newLine depth)) ↔ sign = .openBrace := by
  constructor
  · rintro ⟨rest, tree, read⟩
    obtain ⟨final, leads⟩ := exists_leads_of_parse read
    rw [String.append_assoc, split_append split opens kind] at leads
    obtain ⟨state, _, opened, later⟩ := exists_opened opens kind leads
    -- the new line begins a separator
    rw [String.toList_append, String.toList_ofList, Session.Buffer.newLine, List.cons_append, Token.splitFrom,
      if_neg (by decide), Token.tokenAt?_eq_some_iff.mpr (.separator (.inr (.inl rfl)))] at later
    obtain ⟨next, step, _⟩ := later.exists_step
    refine (opened.step_separator_iff ?_).mp ⟨next, step⟩
    rfl
  · intro brace
    obtain ⟨rest, tree, read⟩ := begun
    obtain ⟨final, leads⟩ := exists_leads_of_parse read
    rw [split_append split opens kind] at leads
    obtain ⟨state, front, opened, _⟩ := exists_opened opens kind leads
    have separator : (Token.sample .separator).kind = .separator := rfl
    obtain ⟨next, step⟩ := (opened.step_separator_iff separator).mpr brace
    exact begins_newLine split opens kind depth front step

end Bracket

end Parser

namespace Session

/-- Enter at the end of a text that ends with an opening bracket, and that some program begins with, goes to a new
line. Some program begins with the text and the new line exactly if the bracket is a brace. -/
theorem enter_continues_iff {text : String} {before : List Token} {last : Token} {sign : Symbol}
    (split : Token.split text = ⟨before ++ [last], none⟩) (kind : last.kind = .symbol sign)
    (opens : sign = .openParen ∨ sign = .openBracket ∨ sign = .openBrace) (begun : Parser.Begins text) :
    let line := Buffer.newLine (openDepth text.toList)
    0 < openDepth text.toList ∧
      (Buffer.mk text.toList text.toList.length).enter =
        .edited ⟨text.toList ++ line, text.toList.length + line.length⟩ ∧
      (Parser.Begins (text ++ String.ofList line) ↔ sign = .openBrace) := by
  intro line
  have brackets : Token.Opens sign := opens
  have splits : Token.Splits .start text.toList (before ++ [last]) := .of_splitFrom split
  have depth : openDepth text.toList = Token.depthAfter 0 before + 1 := by
    have counted := Scan.after_splits splits 0
    rw [Token.depthAfter_append, Token.depthAfter_cons, kind, brackets.depthAfter] at counted
    exact counted
  have unclosed : 0 < openDepth text.toList := by omega
  refine ⟨unclosed, ?_, Parser.begins_newLine_iff split brackets kind begun _⟩
  rw [Buffer.enter, if_neg unclosed.ne', Buffer.insert, List.take_length, List.drop_length, List.append_nil]

/-- A call and a block that have just been opened. -/
theorem enter_continues_iff_call :
    (Parser.Begins "f(" ∧ (Buffer.mk "f(".toList 2).enter = .edited ⟨"f(\n    ".toList, 7⟩ ∧
        ¬Parser.Begins "f(\n    ") ∧
      Parser.Begins "\x7b" ∧ (Buffer.mk "\x7b".toList 1).enter = .edited ⟨"\x7b\n    ".toList, 6⟩ ∧
        Parser.Begins "\x7b\n    " := by
  have call : Parser.Begins "f(" := ⟨")", .block (.spot ⟨1, 1⟩) [.call (.spot ⟨1, 1⟩) "f" []], rfl⟩
  have block : Parser.Begins "\x7b" := ⟨"\x7d", .block (.spot ⟨1, 1⟩) [.block (.spot ⟨1, 1⟩) []], rfl⟩
  have split : Token.split "f(" = ⟨[⟨.name, "f", ⟨1, 1⟩⟩] ++ [⟨.symbol .openParen, "(", ⟨1, 2⟩⟩], none⟩ := rfl
  have split' : Token.split "\x7b" = ⟨[] ++ [⟨.symbol .openBrace, "\x7b", ⟨1, 1⟩⟩], none⟩ := rfl
  obtain ⟨_, entered, iff⟩ := enter_continues_iff split rfl (.inl rfl) call
  obtain ⟨_, entered', iff'⟩ := enter_continues_iff split' rfl (.inr (.inr rfl)) block
  exact ⟨⟨call, entered, fun begins => absurd (iff.mp begins) (by decide)⟩, block, entered', iff'.mpr rfl⟩

end Session

end Corvid
