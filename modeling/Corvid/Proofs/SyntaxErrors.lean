import Corvid.Proofs.Grammar.Completion
import Corvid.Proofs.Parsing
import Corvid.Proofs.Printing.Spread
import Corvid.Proofs.Token.Standing

/-!
Syntax errors are reported at the earliest point. Tokens are viable if some program begins with them. A token is
reported if the tokens before it are viable and are not with it, a stray character if all tokens before it are viable,
and the end of the text if its tokens are viable but are no program yet.
-/
namespace Corvid.Parser

open Grammar

/-- Some program begins with these tokens. -/
def Viable (tokens : List Token) : Prop :=
  ∃ source tree, parse source = .ok tree ∧
    tokens.map Token.wording <+: (Token.split source).tokens.map Token.wording

/-- Some program has just these tokens. -/
def Whole (tokens : List Token) : Prop :=
  ∃ source tree, parse source = .ok tree ∧
    tokens.map Token.wording = (Token.split source).tokens.map Token.wording

/-! Reading and derivations -/

/-- The tokens of a program are derived. -/
theorem exists_derivation_of_parse {source : String} {tree : Expr} (read : parse source = .ok tree) :
    ∃ derivation : Derivation .body, derivation.tokens = (Token.split source).tokens := by
  obtain ⟨derivation, splits, _⟩ := parse_eq_ok_iff.mp read
  refine ⟨derivation, ?_⟩
  rw [Token.split, splits.splitFrom_eq]

/-- Derived tokens are read without error, to a state in which the program may end. -/
theorem exists_finish_of_derivation (derivation : Derivation .body) :
    ∃ state body, Leads .initial derivation.tokens state ∧ state.finish = some body := by
  have reads := ofSplit_of_derivation derivation
  unfold ofSplit at reads
  dsimp only at reads
  split at reads
  · cases reads
  · cases reads
  · next state advanced _ =>
    split at reads
    · next body finishes => exact ⟨state, body, advanced, finishes⟩
    · cases reads

/-! Separators do not meet -/

section Separators

variable {state next : State} {token : Token}

theorem beginOperand_separator (separator : token.kind = .separator) : state.beginOperand token = none := by
  simp only [State.beginOperand, separator]

theorem closeEmpty_separator (separator : token.kind = .separator) (closes : state.closeEmpty token = some next) :
    state.mode = .opening ∧ next.mode = .resumed := by
  cases closeEmpty_cases closes with
  | programLead mode | blockLead mode => exact ⟨mode, rfl⟩
  | block _ kind | list _ _ kind | dict _ _ kind | call _ _ kind | print _ _ kind =>
    rw [separator] at kind
    cases kind

theorem endExpression_separator {phrase : Phrase} (ends : state.endExpression phrase .separator = some next) :
    next.mode = .resumed := by
  cases context : state.layer.context with
  | program | block =>
    simp only [State.endExpression, context, Option.some.injEq] at ends
    subst ends
    rfl
  | _ => simp [State.endExpression, context] at ends

theorem step_separator (separator : token.kind = .separator) (steps : state.step token = some next) :
    state.mode ≠ .resumed ∧ next.mode = .resumed := by
  cases step_cases steps with
  | begins _ begins =>
    rw [beginOperand_separator separator] at begins
    cases begins
  | closes _ closes =>
    obtain ⟨mode, resumed⟩ := closeEmpty_separator separator closes
    exact ⟨by simp [mode], resumed⟩
  | @continues operand _ mode continues =>
    have ends : state.endExpression (state.settled operand) .separator = some next := by
      simpa only [State.continueOperand, separator, Token.Kind.joint?] using continues
    exact ⟨by simp [mode], endExpression_separator ends⟩
  | _ => simp_all

/-- What holds of any two tokens that are read one after the other holds all along the tokens that are read. -/
theorem isChain_of_leads {related : Token → Token → Prop}
    (pairs : ∀ {before between after : State} {first second : Token}, before.step first = some between →
      between.step second = some after → related first second)
    {tokens : List Token} (leads : Leads state tokens next) : tokens.IsChain related := by
  induction tokens generalizing state with
  | nil => exact .nil
  | cons token rest ih =>
    obtain ⟨middle, step, later⟩ := leads.exists_step
    cases rest with
    | nil => exact .singleton token
    | cons following others =>
      obtain ⟨_, step', _⟩ := later.exists_step
      exact .cons_cons (pairs step step') (ih later)

/-- No two separators meet in tokens that are read without error. -/
theorem isChain_divided {tokens : List Token} (leads : Leads state tokens next) :
    tokens.IsChain Token.Divided :=
  isChain_of_leads (fun step step' separator separator' =>
    (step_separator separator' step').1 (step_separator separator step).2) leads

end Separators

/-! Viable tokens -/

/-- Tokens of the same kinds as those of a program are derived. -/
theorem exists_derivation_of_kinds {source : String} {tree : Expr} (read : parse source = .ok tree)
    {tokens : List Token} (same : tokens.map Token.kind = (Token.split source).tokens.map Token.kind) :
    ∃ derivation : Derivation .body, derivation.tokens = tokens := by
  obtain ⟨derivation, known⟩ := exists_derivation_of_parse read
  exact derivation.exists_of_kinds (by rw [known, same])

/-- Derived tokens are those of a text. -/
theorem whole_of_derivation (derivation : Derivation .body)
    (lexemes : ∀ token ∈ derivation.tokens, token.kind ≠ .separator → Token.Lexeme token.kind token.text.toList) :
    Whole derivation.tokens := by
  obtain ⟨state, _, leads, _⟩ := exists_finish_of_derivation derivation
  obtain ⟨source, found, splits, same⟩ := Piece.exists_text lexemes (isChain_divided leads)
  obtain ⟨other, known⟩ := derivation.exists_of_kinds (Token.kinds_of_wordings same)
  have read : parse source = .ok other.program := parse_eq_ok_iff.mpr ⟨other, known ▸ splits, rfl⟩
  refine ⟨source, other.program, read, ?_⟩
  rw [Token.split, splits.splitFrom_eq, same]

/-- Tokens that some program begins with are read without error. -/
theorem Viable.leads {tokens : List Token} (viable : Viable tokens) : ∃ state, Leads .initial tokens state := by
  obtain ⟨source, tree, read, rest, same⟩ := viable
  generalize found : (Token.split source).tokens = others at same
  have front : tokens.map Token.wording = (others.take tokens.length).map Token.wording := by
    rw [List.map_take, ← same, List.take_left' (List.length_map _)]
  -- the tokens themselves, going on like those of the program
  have kinds : (tokens ++ others.drop tokens.length).map Token.kind = others.map Token.kind := by
    rw [List.map_append, Token.kinds_of_wordings front, ← List.map_append, List.take_append_drop]
  obtain ⟨derivation, known⟩ := exists_derivation_of_kinds read (found ▸ kinds)
  obtain ⟨state, _, leads, _⟩ := exists_finish_of_derivation derivation
  rw [known] at leads
  obtain ⟨middle, front, _⟩ := leads.exists_middle
  exact ⟨middle, front⟩

/-- Tokens of a text that are read without error are viable. -/
theorem viable_of_leads {tokens : List Token} {state : State} (leads : Leads .initial tokens state)
    (lexemes : ∀ token ∈ tokens, token.kind ≠ .separator → Token.Lexeme token.kind token.text.toList) :
    Viable tokens := by
  obtain ⟨kinds, derivation, known⟩ := exists_completion leads
  have all : ∀ token ∈ derivation.tokens, token.kind ≠ .separator → Token.Lexeme token.kind token.text.toList := by
    intro token member solid
    rw [known, List.mem_append] at member
    obtain earlier | later := member
    · exact lexemes token earlier solid
    · obtain ⟨kind, _, rfl⟩ := List.mem_map.mp later
      exact kind.lexeme_sample solid
  obtain ⟨source, tree, read, same⟩ := whole_of_derivation derivation all
  refine ⟨source, tree, read, ?_⟩
  rw [← same, known, List.map_append]
  exact List.prefix_append _ _

theorem lexemes_of_split {source : String} {tokens : List Token}
    (among : ∀ token ∈ tokens, token ∈ (Token.split source).tokens) :
    ∀ token ∈ tokens, token.kind ≠ .separator → Token.Lexeme token.kind token.text.toList :=
  fun token member => ((Token.splitFrom_stands .start source.toList).1 token (among token member)).lexeme

/-- The first tokens of a text are viable if they are read without error. -/
theorem viable_iff {source : String} {before after : List Token}
    (read : (Token.split source).tokens = before ++ after) :
    Viable before ↔ ∃ state, Leads .initial before state := by
  constructor
  · exact Viable.leads
  · rintro ⟨state, leads⟩
    apply viable_of_leads leads
    apply lexemes_of_split
    intro token member
    rw [read]
    exact List.mem_append_left after member

/-- The tokens of a text are those of a program if the program may end after them. -/
theorem whole_iff {source : String} {state : State} (leads : Leads .initial (Token.split source).tokens state) :
    Whole (Token.split source).tokens ↔ ∃ body, state.finish = some body := by
  constructor
  · rintro ⟨other, tree, read, same⟩
    obtain ⟨derivation, known⟩ := exists_derivation_of_kinds read (Token.kinds_of_wordings same)
    obtain ⟨state', body, leads', finishes⟩ := exists_finish_of_derivation derivation
    rw [known] at leads'
    obtain rfl : state' = state := Except.ok.inj (leads'.symm.trans leads)
    exact ⟨body, finishes⟩
  · rintro ⟨body, finishes⟩
    obtain ⟨derivation, known, _⟩ :=
      exists_derivation_of_finish (advance_reached reached_initial leads) finishes
    rw [List.nil_append] at known
    rw [← known]
    exact whole_of_derivation derivation (lexemes_of_split fun token member => known ▸ member)

/-! Errors -/

/-- A token is reported if it has no next state after those before it. -/
theorem advance_eq_error_iff {state : State} {tokens : List Token} {token : Token} :
    advance state tokens = .error token ↔
      ∃ before after middle, tokens = before ++ token :: after ∧ Leads state before middle ∧
        middle.step token = none := by
  constructor
  · intro fails
    induction tokens generalizing state with
    | nil => cases fails
    | cons first rest ih =>
      unfold advance at fails
      split at fails
      · next stuck =>
        cases fails
        exact ⟨[], rest, state, rfl, .nil state, stuck⟩
      · next next_state step =>
        obtain ⟨before, after, middle, rfl, leads, stuck⟩ := ih fails
        exact ⟨first :: before, after, middle, rfl, .cons step leads, stuck⟩
  · rintro ⟨before, after, middle, rfl, leads, stuck⟩
    induction before generalizing state with
    | nil =>
      obtain rfl : state = middle := Except.ok.inj leads
      simp only [List.nil_append, advance, stuck]
    | cons first before ih =>
      obtain ⟨following, step, later⟩ := leads.exists_step
      simp only [List.cons_append, advance, step]
      exact ih later

theorem leads_snoc_iff {state middle : State} {before : List Token} {token : Token}
    (leads : Leads state before middle) :
    (∃ next, Leads state (before ++ [token]) next) ↔ middle.step token ≠ none := by
  constructor
  · rintro ⟨next, longer⟩ stuck
    have fails := advance_eq_error_iff.mpr ⟨before, [], middle, rfl, leads, stuck⟩
    cases fails.symm.trans longer
  · intro goes
    obtain ⟨next, step⟩ := Option.ne_none_iff_exists'.mp goes
    exact ⟨next, leads.snoc step⟩

/-- What is reported of a text, and where. -/
inductive Offends (source : String) : Position → String → Prop where
  | token {before after : List Token} {found : Token} (read : (Token.split source).tokens = before ++ found :: after)
      (viable : Viable before) (stuck : ¬Viable (before ++ [found]))
      (stands : Token.Stands .start source.toList found) :
      Offends source found.position ("Unexpected token " ++ Text.quoted found.text)
  | character {found : Token.Stray} (stray : (Token.split source).stray = some found)
      (viable : Viable (Token.split source).tokens) (stands : Token.Stray.Stands .start source.toList found) :
      Offends source found.position ("Unexpected character " ++ Text.quoted (String.singleton found.char))
  | ending {before : List Token} {last : Token} (split : Token.split source = ⟨before ++ [last], none⟩)
      (viable : Viable (before ++ [last])) (unfinished : ¬Whole (before ++ [last]))
      (stands : Token.Stands .start source.toList last) :
      Offends source last.position "Unexpected end of input"

theorem offends_of_error {source : String} {error : Error} (fails : parse source = .error error) :
    Offends source error.position error.description := by
  have stands := Token.splitFrom_stands .start source.toList
  unfold parse ofSplit at fails
  split at fails
  · next token stuck =>
    cases fails
    obtain ⟨before, after, middle, read, leads, stuck⟩ := advance_eq_error_iff.mp stuck
    have longer : (Token.split source).tokens = (before ++ [token]) ++ after := by simp [read]
    refine .token read ((viable_iff read).mpr ⟨middle, leads⟩) ?_ (stands.1 token (read ▸ by simp))
    rw [viable_iff longer, leads_snoc_iff leads]
    exact not_not.mpr stuck
  · next state stray advanced found =>
    cases fails
    exact .character found ((viable_iff (List.append_nil _).symm).mpr ⟨state, advanced⟩) (stands.2 stray found)
  · next state advanced clean =>
    split at fails
    · cases fails
    · next unfinished =>
      cases fails
      have viable : Viable (Token.split source).tokens := (viable_iff (List.append_nil _).symm).mpr ⟨state, advanced⟩
      have incomplete : ¬Whole (Token.split source).tokens := by simp [whole_iff advanced, unfinished]
      obtain empty | ⟨before, last, known⟩ := List.eq_nil_or_concat (Token.split source).tokens
      · -- a text without tokens is a program
        rw [empty] at advanced
        cases advanced
        cases unfinished
      · rw [List.concat_eq_append] at known
        have whole : Token.split source = ⟨before ++ [last], none⟩ := by rw [← known, ← clean]
        rw [known] at viable incomplete
        have place : lastPosition (Token.split source).tokens = last.position := by simp [known, lastPosition]
        simp only [Error.position, place]
        exact .ending whole viable incomplete (stands.1 last (known ▸ by simp))

theorem error_of_offends {source : String} {position : Position} {text : String}
    (offends : Offends source position text) :
    ∃ error, parse source = .error error ∧ error.position = position ∧ error.description = text := by
  cases offends with
  | @token before after found read viable stuck =>
    obtain ⟨middle, leads⟩ := (viable_iff read).mp viable
    have longer : (Token.split source).tokens = (before ++ [found]) ++ after := by simp [read]
    rw [viable_iff longer, leads_snoc_iff leads, not_not] at stuck
    have fails := advance_eq_error_iff.mpr ⟨before, after, middle, read, leads, stuck⟩
    refine ⟨.token found, ?_, rfl, rfl⟩
    simp only [parse, ofSplit, fails]
  | @character found stray viable =>
    obtain ⟨state, leads⟩ := (viable_iff (List.append_nil _).symm).mp viable
    have advanced : advance .initial (Token.split source).tokens = .ok state := leads
    refine ⟨.character found, ?_, rfl, rfl⟩
    simp only [parse, ofSplit, advanced, stray]
  | @ending before last split viable unfinished =>
    have known : (Token.split source).tokens = before ++ [last] := by rw [split]
    rw [← known] at viable unfinished
    obtain ⟨state, leads⟩ := (viable_iff (List.append_nil _).symm).mp viable
    have unended : state.finish = none := by
      rw [whole_iff leads, not_exists] at unfinished
      exact Option.eq_none_iff_forall_ne_some.mpr unfinished
    have advanced : advance .initial (before ++ [last]) = .ok state := known ▸ leads
    refine ⟨.ending last.position, ?_, rfl, rfl⟩
    simp [parse, ofSplit, split, advanced, unended, lastPosition]

/-- A text fails to parse with a message and at a place exactly if it offends so: where its tokens first cease to be
those that some program begins with, at the first character that starts no token if that comes before, or at its last
token if it could go on but must not end. -/
theorem parse_fails_iff (source : String) (position : Position) (text : String) :
    (∃ error, parse source = .error error ∧ error.position = position ∧
      error.message = text ++ s!" at line {position.line}, col {position.column}") ↔ Offends source position text := by
  constructor
  · rintro ⟨error, fails, rfl, said⟩
    obtain rfl : error.description = text := (String.append_left_inj _).mp said
    exact offends_of_error fails
  · intro offends
    obtain ⟨error, fails, rfl, rfl⟩ := error_of_offends offends
    exact ⟨error, fails, rfl, rfl⟩

end Corvid.Parser
