import Corvid.Proofs.Joining
import Corvid.Proofs.Session.Cleaning
import Corvid.Proofs.Session.Submit
import Corvid.Proofs.SyntaxErrors

/-!
Handing a program in and running it. What is handed in is cleaned first, and a line that begins with a slash is a
command. No program is taken for one, for none begins with a slash, even after cleaning. A cleaned program differs from
the program itself in marks alone if cleaning does no harm to its tokens; then the two have the same effects, for a run
only carries marks along.
-/
namespace Corvid

namespace Parser

open Grammar

/-- A number with a fraction is an operand that cannot be called, assigned to or given an `else`. -/
theorem step_float {state next : State} {token : Token} (float : token.kind = .float)
    (steps : state.step token = some next) :
    ∃ operand : Operand, next.mode = .operator operand ∧ (operand.ending = .closed ∨ operand.ending = .signed) := by
  cases step_cases steps with
  | begins _ begins =>
    simp only [State.beginOperand, float, Option.some.injEq] at begins
    subst begins
    exact ⟨_, rfl, .inl rfl⟩
  | closes _ closes => cases closeEmpty_cases closes <;> simp_all
  | continues _ continues =>
    simp only [State.continueOperand, float, Token.Kind.joint?] at continues
    cases context : state.layer.context <;> simp [State.endExpression, context] at continues
  | negativeFloat => exact ⟨_, rfl, .inr rfl⟩
  | _ => simp_all

/-- No name and no `else` comes after such an operand. -/
theorem step_after_closed {state next : State} {token : Token} {operand : Operand}
    (mode : state.mode = .operator operand) (ending : operand.ending = .closed ∨ operand.ending = .signed)
    (steps : state.step token = some next) : token.kind ≠ .name ∧ token.kind ≠ .keyword .kwElse := by
  have continues : state.continueOperand operand token = some next := by
    simpa only [State.step, mode] using steps
  constructor
  all_goals
    intro kind
    obtain closed | closed := ending <;>
      cases context : state.layer.context <;>
      simp [State.continueOperand, kind, closed, Token.Kind.joint?, State.endExpression, context] at continues

theorem isChain_ended {state next : State} {tokens : List Token} (leads : Leads state tokens next) :
    tokens.IsChain Token.Ended := by
  refine isChain_of_leads (fun step step' float => ?_) leads
  obtain ⟨operand, mode, ending⟩ := step_float float step
  exact step_after_closed mode ending step'

/-- No program begins with a slash. -/
theorem first_ne_divide {state : State} {tokens others : List Token} {first : Token}
    (leads : Leads .initial tokens state) (lead : Token.withoutLead tokens = first :: others) :
    first.kind ≠ .symbol .divide := by
  intro divide
  cases tokens with
  | nil => cases lead
  | cons token rest =>
    obtain ⟨next, step, later⟩ := leads.exists_step
    by_cases separator : token.kind = .separator
    · simp only [Token.withoutLead, if_pos separator] at lead
      subst lead
      obtain ⟨_, step', _⟩ := later.exists_step
      have resumed : next = State.initial.expect .resumed := by
        simpa [State.step, State.initial, State.beginOperand, State.closeEmpty, separator] using step.symm
      subst resumed
      simp [State.step, State.initial, State.expect, State.beginOperand, State.closeEmpty, divide] at step'
    · simp only [Token.withoutLead, if_neg separator] at lead
      cases lead
      simp [State.step, State.initial, State.beginOperand, State.closeEmpty, divide] at step

/-- A text whose tokens have the wording of those of a program is read as that program, marks aside. -/
theorem parse_of_derivation (derivation : Derivation .body) {source : String} {tokens : List Token}
    (splits : Token.Splits .start source.toList tokens)
    (same : tokens.map Token.wording = derivation.tokens.map Token.wording) :
    ∃ tree, parse source = .ok tree ∧ tree.bare = derivation.program.bare := by
  obtain ⟨change, kept, rfl⟩ := exists_relabeled (congrArg Prod.fst) same
  have texts (index : Nat) (old : Token) (solid : old.kind ≠ .separator) :
      (change.token index old).text = old.text := by
    have wording := congrArg Prod.snd (kept index old)
    simpa [Token.wording, Token.worded, Token.spelling, change.kind_eq, solid] using wording
  refine ⟨(derivation.relabel change 0).program, parse_eq_ok_iff.mpr ⟨_, ?_, rfl⟩, ?_⟩
  · rwa [Derivation.tokens_relabel]
  · have unmarked := derivation.unmark_relabel texts 0
    simp only [Category.remark] at unmarked
    simp only [Expr.bare_eq_remark, Derivation.program, Expr.remark, Expr.remarkAll_eq_map, unmarked]
    rfl

/-- Tokens of the same wording are read as the same program, marks aside. -/
theorem parse_of_wordings {source source' : String} {tree : Expr} {tokens : List Token}
    (reads : parse source = .ok tree) (splits : Token.Splits .start source'.toList tokens)
    (same : tokens.map Token.wording = (Token.split source).tokens.map Token.wording) :
    ∃ tree', parse source' = .ok tree' ∧ tree'.bare = tree.bare := by
  obtain ⟨derivation, splits', rfl⟩ := parse_eq_ok_iff.mp reads
  rw [Token.split, splits'.splitFrom_eq] at same
  exact parse_of_derivation derivation splits same

end Parser

/-! Runs that differ in marks alone -/

theorem unmark_coherent : Coherent unmark where
  absent := rfl
  orElse _ _ := rfl

/-- Trees that differ in marks alone are evaluated alike, marks aside. -/
theorem Store.eval_of_bare_eq {tree tree' : Expr} (same : tree'.bare = tree.bare) (store : Store)
    (limit scope : Nat) :
    remarkOutcome unmark (Value.remark unmark) (store.eval limit scope tree') =
      remarkOutcome unmark (Value.remark unmark) (store.eval limit scope tree) := by
  have carries := evalWithin_follows unmark_coherent limit
  rw [Store.eval, Store.eval, ← carries tree' scope store, ← carries tree scope store, ← Expr.bare_eq_remark,
    ← Expr.bare_eq_remark, same]

theorem Store.append_empty (store : Store) (sink : Nat) : store.append sink "" = store := by
  have same : store.sinks.modify sink (· ++ "") = store.sinks := by
    ext i
    · simp
    · simp [Array.getElem_modify]
  rw [Store.append, same]

namespace Session

/-- No program is taken for a command. -/
theorem line?_cleaned {source : String} {tree : Expr} (reads : Parser.parse source = .ok tree) :
    Command.line? (cleaned source) = none := by
  have noSlash : ∀ rest, Text.stripped (visible source.toList) ≠ '/' :: rest := by
    intro rest stripped
    have head := head?_stripped source.toList
    rw [stripped, List.head?_cons] at head
    obtain ⟨others, left⟩ := List.head?_eq_some_iff.mp head.symm
    obtain ⟨derivation, splits, _⟩ := Parser.parse_eq_ok_iff.mp reads
    obtain ⟨_, _, leads, _⟩ := Parser.exists_finish_of_derivation derivation
    obtain ⟨position, front⟩ := exists_splits_dropWhile splits (by simp [left])
    rw [left] at front
    generalize lead : Token.withoutLead derivation.tokens = tokens at front
    cases front with
    | space blank => contradiction
    | token starts =>
      have slash : Token.Starts '/' others (.symbol .divide) 0 := (Token.Lone.starts (by decide) rfl others).2
      exact absurd (starts.unique slash).1 (Parser.first_ne_divide leads lead)
  rw [Command.line?, toList_cleaned]
  dsimp only
  split
  · next rest stripped => exact absurd stripped (noSlash rest)
  · rfl

/-- A program without visible characters does nothing, if it can be run at all. -/
theorem run_of_blank {source : String} {tree : Expr} (reads : Parser.parse source = .ok tree)
    (blank : Text.stripped (cleaned source).toList = []) (store : Store) (limit scope : Nat) :
    store.run limit scope source = (if limit = 0 then .error (.halt .tooDeep) else .ok .none, store) := by
  have head := head?_stripped source.toList
  rw [← toList_cleaned, blank, List.head?_nil] at head
  have left := List.head?_eq_none_iff.mp head.symm
  obtain ⟨derivation, splits, _⟩ := Parser.parse_eq_ok_iff.mp reads
  obtain ⟨position, front⟩ := exists_splits_dropWhile splits (by simp [left])
  rw [left] at front
  generalize lead : Token.withoutLead derivation.tokens = tokens at front
  cases front
  -- there is nothing, or one separator
  obtain ⟨only, same⟩ : ∃ only : Option Grammar.Separator,
      (Grammar.Derivation.empty only).tokens = derivation.tokens := by
    cases found : derivation.tokens with
    | nil => exact ⟨none, rfl⟩
    | cons token rest =>
      rw [found, Token.withoutLead] at lead
      split at lead
      · next separator =>
        subst lead
        exact ⟨some ⟨token, separator⟩, rfl⟩
      · cases lead
  rw [← same] at splits
  have again := Parser.parse_eq_ok_iff.mpr ⟨_, splits, rfl⟩
  cases limit with
  | zero => exact Store.run_zero again
  | succ limit =>
    rw [Store.run_of_parse again, Grammar.Derivation.program, Store.eval_block (by simp [Grammar.Derivation.meaning])]
    rfl

/-- What is echoed after a run, if its containers are nested no deeper than a limit. -/
def echoed (limit : Nat) : Except Failure Value × Store → String
  | (.ok value, after) => if value.isNone then "" else (after.text? limit value).elim "" (· ++ "\n")
  | (.error _, _) => ""

/-- What a source text that is handed in does to the store: it is run, and its value is echoed. -/
theorem store_runSource (session : Session) (source : String) :
    (session.runSource source).2.store = (session.outcome source).2.append session.sink
      (echoed session.host.echoLimit (session.outcome source)) := by
  rw [runSource_eq]
  cases outcome : session.outcome source with
  | mk result store =>
    have after : (session.ran source).store = store := congrArg Prod.snd outcome
    cases result with
    | error failure =>
      rw [echoed, Store.append_empty]
      cases told : failure.message? with
      | none => simpa [told] using after
      | some message =>
        simp only [told, Option.elim_some, report_eq]
        exact after
    | ok value =>
      have limit : (session.ran source).host.echoLimit = session.host.echoLimit := rfl
      simp only [echo, echoed, after, limit]
      split
      · rw [Store.append_empty]
        exact after
      · cases store.text? session.host.echoLimit value with
        | none =>
          rw [Option.elim_none, Store.append_empty]
          exact after
        | some shown => exact congrArg (Store.append · session.sink (shown ++ "\n")) after

/-- The echo does not depend on marks. -/
theorem echoed_remark (limit : Nat) (change : Mark → Mark) (outcome : Except Halt Value × Store) :
    echoed limit (reported (remarkOutcome change (Value.remark change) outcome)) = echoed limit (reported outcome) := by
  obtain ⟨result, after⟩ := outcome
  cases result with
  | error halt => rfl
  | ok value =>
    have nothing : (value.remark change).isNone = value.isNone := by cases value <;> rfl
    simp only [remarkOutcome, reported, echoed, nothing, Store.text?_remark]

theorem append_echoed_remark (limit : Nat) (change : Mark → Mark) (sink : Nat) (outcome : Except Halt Value × Store) :
    ((reported outcome).2.append sink (echoed limit (reported outcome))).remark change =
      (reported (remarkOutcome change (Value.remark change) outcome)).2.append sink
        (echoed limit (reported (remarkOutcome change (Value.remark change) outcome))) := by
  rw [echoed_remark]
  obtain ⟨result, after⟩ := outcome
  cases result <;> rfl

/-- An intact program is still one when it has been cleaned, and differs from it in marks alone. -/
theorem Intact.exists_cleaned {source : String} {tree : Expr} (intact : Intact source.toList)
    (reads : Parser.parse source = .ok tree) :
    ∃ tree', Parser.parse (cleaned source) = .ok tree' ∧ tree'.bare = tree.bare := by
  obtain ⟨derivation, splits, _⟩ := Parser.parse_eq_ok_iff.mp reads
  obtain ⟨_, _, leads, _⟩ := Parser.exists_finish_of_derivation derivation
  obtain ⟨tokens, again, same⟩ := intact.exists_splits splits (Parser.isChain_ended leads) .start
  rw [← toList_cleaned] at again
  refine Parser.parse_of_wordings reads again ?_
  rw [same, Token.split, splits.splitFrom_eq]

/-- A program is never taken for a command. Handing it in runs its cleaned text, unless nothing is left of it. If
cleaning does no harm to its tokens, this does to the store what running the program itself does, marks aside, and
echoes the value. -/
theorem submit_agrees_with_run {source : String} {tree : Expr} (reads : Parser.parse source = .ok tree)
    (session : Session) :
    let outcome := session.store.run session.host.evalLimit session.scope source
    Command.line? (cleaned source) = none ∧
      (Text.stripped (cleaned source).toList ≠ [] → session.submit source = session.runSource (cleaned source)) ∧
      (Intact source.toList →
        (session.submit source).2.store.remark unmark =
          (outcome.2.append session.sink (echoed session.host.echoLimit outcome)).remark unmark) := by
  intro outcome
  have plain := line?_cleaned reads
  refine ⟨plain, fun filled => session.submit_source filled plain, fun intact => ?_⟩
  by_cases blank : Text.stripped (cleaned source).toList = []
  · have nothing : session.submit source = (none, session) := by
      rw [submit, if_pos (by simpa using blank)]
    have unchanged : outcome = (_, session.store) := run_of_blank reads blank ..
    have silent : echoed session.host.echoLimit outcome = "" := by
      rw [unchanged]
      split <;> rfl
    rw [nothing, silent, unchanged, Store.append_empty]
  · obtain ⟨tree', reads', bare⟩ := intact.exists_cleaned reads
    unfold outcome
    rw [session.submit_source blank plain, store_runSource, Session.outcome, Store.run_of_parse reads',
      Store.run_of_parse reads, append_echoed_remark, append_echoed_remark, session.store.eval_of_bare_eq bare]

/-- An invisible character in a string is lost, and so is a carriage return that is all there is between two words. -/
theorem submit_differs_from_run :
    let host : Host := ⟨4, 0, id, fun _ _ => "", fun _ _ => ""⟩
    let session : Session := ⟨(Store.empty.addRoot [] 0 .dynamic).2, 0, 0, host, ⟨none, none, none⟩, false, ""⟩
    ((∃ tree, Parser.parse "println(\"a\u00a0b\")" = .ok tree) ∧
      (session.store.run host.evalLimit session.scope "println(\"a\u00a0b\")").2.written 0 = "a\u00a0b\n" ∧
      (session.submit "println(\"a\u00a0b\")").2.store.written 0 = "ab\n") ∧
    (∃ tree, Parser.parse "println(not\rtrue)" = .ok tree) ∧
      (session.store.run host.evalLimit session.scope "println(not\rtrue)").2.written 0 = "false\n" ∧
      (session.submit "println(not\rtrue)").2.store.written 0 = "" := by
  intro host session
  have reads : Parser.parse "println(\"a\u00a0b\")" = .ok (.block (.spot ⟨1, 1⟩)
      [.print (.spot ⟨1, 1⟩) (.literal (.spot ⟨1, 9⟩) .string "\"a\u00a0b\"") true]) := rfl
  have reads' : Parser.parse "println(not\rtrue)" = .ok (.block (.spot ⟨1, 1⟩)
      [.print (.spot ⟨1, 1⟩) (.negate (.spot ⟨1, 9⟩) (.literal (.spot ⟨1, 13⟩) .bool "true")) true]) := rfl
  refine ⟨⟨⟨_, reads⟩, ?_, ?_⟩, ⟨_, reads'⟩, ?_, ?_⟩ <;> decide +kernel

/-- A line that ends with a carriage return, and a comment with a blank that is taken out. -/
theorem submit_agrees_with_run_lines :
    let host : Host := ⟨4, 0, id, fun _ _ => "", fun _ _ => ""⟩
    let session : Session := ⟨(Store.empty.addRoot [] 0 .dynamic).2, 0, 0, host, ⟨none, none, none⟩, false, ""⟩
    cleaned "a=1\r\n#\u00a0" = "a=1\n#" ∧ Intact "a=1\r\n#\u00a0".toList ∧
      (session.submit "a=1\r\n#\u00a0").2.store.remark unmark =
        ((session.store.run host.evalLimit session.scope "a=1\r\n#\u00a0").2.append session.sink "1\n").remark unmark := by
  intro host session
  have reads : Parser.parse "a=1\r\n#\u00a0" = .ok (.block (.spot ⟨1, 1⟩)
      [.assign (.spot ⟨1, 1⟩) "a" (.literal (.spot ⟨1, 3⟩) .int "1")]) := rfl
  have comment : Intact ['\n', '#', '\u00a0'] := by
    refine @Intact.token '\n' ['#', '\u00a0'] [] .separator (.separator (.inr (.inl rfl))) (by simp) ?_ .nil
    intro gap d inside' after kind' text_eq
    simp at text_eq
  have number : Intact ['1', '\r', '\n', '#', '\u00a0'] := by
    have alone : Token.Starts '1' [] .int 0 := .int rfl rfl
    exact @Intact.token '1' [] _ .int (.int rfl rfl) (by simp) (apart_return alone (by decide) (by decide) (by decide))
      (.space rfl comment)
  have intact : Intact "a=1\r\n#\u00a0".toList := by
    have sign : Intact ['=', '1', '\r', '\n', '#', '\u00a0'] :=
      @Intact.token '=' [] _ (.symbol .assign) (.symbol rfl) (by simp) (apart_of_ne (by decide)) number
    exact @Intact.token 'a' [] _ .name (.word rfl) (by simp) (apart_of_ne (by decide)) sign
  have echo : echoed host.echoLimit (session.store.run host.evalLimit session.scope "a=1\r\n#\u00a0") = "1\n" := by decide +kernel
  obtain ⟨_, _, agrees⟩ := submit_agrees_with_run reads session
  have same := agrees intact
  rw [echo] at same
  exact ⟨rfl, intact, same⟩

end Session

end Corvid
