import Corvid.Proofs.Eval.Origin
import Corvid.Proofs.Eval.Spelling
import Corvid.Proofs.Joining

/-!
How the running of a text can end. The faults of trees that no text has, an unknown node or an operator of another
family, never arise, and of all literals only whole numbers can fail. Functions that were declared by earlier texts
may be called: the nodes of their bodies are nodes of those texts.
-/
namespace Corvid

/-- The faults that have no kind of their own: they arise only in trees that no text has. -/
def Fault.Internal : Fault → Prop
  | unknownNode _ | arithmeticOperator _ | logicalOperator _ | comparator _ => True
  | _ => False

namespace Expr

theorem Expressible.child {whole part : Expr} (expressible : whole.Expressible) (below : part ∈ whole.children) :
    part.Expressible := by
  cases expressible with
  | none | literal | name => cases below
  | list _ inside | block _ inside | call _ _ inside => exact inside part below
  | dict _ keys values =>
    obtain ⟨pair, member, either⟩ := List.mem_flatMap.mp below
    simp only [List.mem_cons, List.not_mem_nil, or_false] at either
    obtain rfl | rfl := either
    · exact keys pair member
    · exact values pair member
  | _ =>
    simp only [children, List.mem_cons, List.not_mem_nil, or_false] at below
    rcases below with rfl | rfl | rfl <;> assumption

theorem Sourced.expressible {texts : Set String} {node : Expr} (sourced : node.Sourced texts) : node.Expressible := by
  obtain ⟨text, _, tree, reads, within⟩ := sourced
  exact within.induction (fun _ _ below expressible => expressible.child below) (Parser.parse_expressible reads).2

/-- What a node that a text can have stops with on its own account: a fault that depends on values, or a whole number
that stands for none. -/
theorem Own.of_expressible {node : Expr} {halt : Halt} (own : node.Own halt) (expressible : node.Expressible) :
    halt = .tooDeep ∨ (∃ cause, halt = .fault cause .absent ∧ cause.Plain) ∨
      ∃ mark lexeme digits n, node = .literal mark .int lexeme ∧ Numeral lexeme digits n ∧
        (halt = .tooLong ∧ digitLimit < digits.length ∨ halt = .fault (.malformed .int lexeme) .absent ∧
          ¬(Integer.least ≤ n ∧ n ≤ Integer.greatest)) := by
  cases own with
  | deep => exact .inl rfl
  | plain _ plain => exact .inr (.inl ⟨_, rfl, plain⟩)
  | unknown => cases expressible
  | unmatched mark left right odd =>
    cases expressible with
    | join _ matched => exact absurd matched odd
  | @literal mark kind lexeme halt stops =>
    cases expressible with
    | literal _ spelled =>
      obtain ⟨rfl, digits, n, numeral, reason⟩ := spelled.stops stops
      exact .inr (.inr ⟨mark, lexeme, digits, n, rfl, numeral, reason⟩)

end Expr

theorem Fault.Plain.not_internal {cause : Fault} (plain : cause.Plain) : ¬cause.Internal := by
  cases cause <;> simp_all [Plain, Internal]

/-- A whole number of some texts whose evaluation is what a request stops with. -/
def NumeralStops (limit : Nat) (texts : Set String) (request : Request) (lexeme : String) (halt : Halt) : Prop :=
  ∃ mark outer, (Expr.literal mark .int lexeme).Sourced texts ∧
    Stops limit request (.literal mark .int lexeme :: outer) halt

/-- How the evaluation of a parsed text can stop, where all functions were declared by parsed texts. -/
theorem eval_stops {source : String} {tree : Expr} (reads : Parser.parse source = .ok tree) {texts : Set String}
    {store after : Store} {limit scope : Nat} (declared : store.DeclaredBy texts scope) {halt : Halt}
    (ended : store.eval limit scope tree = (.error halt, after)) :
    halt = .tooDeep ∨ (∃ cause mark, halt = .fault cause mark ∧ cause.Plain) ∨
      ∃ lexeme digits n, Numeral lexeme digits n ∧
        (halt = .tooLong ∧ NumeralStops limit (insert source texts) ⟨tree, scope, store⟩ lexeme .tooLong ∧
          digitLimit < digits.length ∨
        (∃ mark, halt = .fault (.malformed .int lexeme) mark) ∧
          NumeralStops limit (insert source texts) ⟨tree, scope, store⟩ lexeme (.fault (.malformed .int lexeme) .absent) ∧
          ¬(Integer.least ≤ n ∧ n ≤ Integer.greatest)) := by
  by_cases deep : halt = .tooDeep
  · exact .inl deep
  have answer : Request.answer ⟨tree, scope, store⟩ (evalWithin limit) = (.error halt, after) := ended
  obtain ⟨node, outer, raised, stops, own, rfl⟩ := exists_innermost answer deep
  have sourced := stops.sourced reads declared node List.mem_cons_self
  right
  obtain rfl | ⟨cause, rfl, plain⟩ | ⟨mark, lexeme, digits, n, rfl, numeral, reason⟩ :=
    own.of_expressible sourced.expressible
  · exact absurd rfl deep
  · exact .inl ⟨cause, _, rfl, plain⟩
  · refine .inr ⟨lexeme, digits, n, numeral, ?_⟩
    obtain ⟨rfl, long⟩ | ⟨rfl, outside⟩ := reason
    · exact .inl ⟨rfl, ⟨mark, outer, sourced, stops⟩, long⟩
    · exact .inr ⟨⟨_, rfl⟩, ⟨mark, outer, sourced, stops⟩, outside⟩

/-- Running a text that parses, where all functions were declared by texts that parse, ends in one of these ways: with
a value; with a fault of a kind of its own, which for a literal is that of a whole number beyond 32 bits; for being
nested too deeply; or at a whole number of more than 4300 digits. All functions are such as before. -/
theorem run_outcome {source : String} {tree : Expr} (reads : Parser.parse source = .ok tree) {texts : Set String}
    {store : Store} {scope : Nat} (declared : store.DeclaredBy texts scope) (limit : Nat) :
    (store.run limit scope source).2.DeclaredBy (insert source texts) scope ∧
    match (store.run limit scope source).1 with
    | .ok _ => True
    | .error (.parse _) => False
    | .error (.halt (.fault cause _)) => ¬cause.Internal ∧ ∀ kind lexeme, cause = .malformed kind lexeme →
        kind = .int ∧ NumeralStops limit (insert source texts) ⟨tree, scope, store⟩ lexeme (.fault cause .absent) ∧
          ∃ digits n, Numeral lexeme digits n ∧ ¬(Integer.least ≤ n ∧ n ≤ Integer.greatest)
    | .error (.halt .tooDeep) => True
    | .error (.halt .tooLong) => ∃ lexeme digits n,
        NumeralStops limit (insert source texts) ⟨tree, scope, store⟩ lexeme .tooLong ∧
          Numeral lexeme digits n ∧ 4300 < digits.length := by
  have kept : (store.eval limit scope tree).2.DeclaredBy (insert source texts) scope :=
    evalWithin_declared reads declared limit
  rw [Store.run_of_parse reads]
  cases ended : store.eval limit scope tree with
  | mk outcome after =>
    rw [ended] at kept
    cases outcome with
    | ok value => exact ⟨kept, trivial⟩
    | error halt =>
      refine ⟨kept, ?_⟩
      obtain rfl | ⟨cause, mark, rfl, plain⟩ | ⟨lexeme, digits, n, numeral, reason⟩ := eval_stops reads declared ended
      · trivial
      · refine ⟨plain.not_internal, ?_⟩
        rintro kind lexeme rfl
        exact plain.elim
      · obtain ⟨rfl, stops, long⟩ | ⟨⟨mark, rfl⟩, stops, outside⟩ := reason
        · exact ⟨lexeme, digits, n, stops, numeral, long⟩
        · refine ⟨id, ?_⟩
          rintro kind _ ⟨⟩
          exact ⟨rfl, stops, digits, n, numeral, outside⟩

/-- Values have no decidable equality, failures have: an outcome is a failure if it is one whatever the value were. -/
theorem eq_error_of_map {outcome : Except Failure Value} {failure : Failure}
    (found : (outcome.map fun _ => ()) = .error failure) : outcome = .error failure := by
  cases outcome with
  | ok value => cases found
  | error reason =>
    cases found
    rfl

/-- A function that adds a number beyond 32 bits: the text that declares it runs, a later text that calls it fails. -/
theorem run_outcome_declared :
    ∃ middle, ((Store.empty.addRoot [] Store.standardSink .dynamic).2.run 5 0
        "fn f(n) \x7b n + 2147483648 \x7d").2 = middle ∧
      middle.DeclaredBy {"fn f(n) \x7b n + 2147483648 \x7d"} 0 ∧
      Parser.parse "f(1)" = .ok (.block (.spot ⟨1, 1⟩)
        [.call (.spot ⟨1, 1⟩) "f" [.literal (.spot ⟨1, 3⟩) .int "1"]]) ∧
      (middle.run 5 0 "f(1)").1 = .error (.halt (.fault (.malformed .int "2147483648") (.spot ⟨1, 15⟩))) ∧
      NumeralStops 5 {"f(1)", "fn f(n) \x7b n + 2147483648 \x7d"} ⟨.block (.spot ⟨1, 1⟩)
        [.call (.spot ⟨1, 1⟩) "f" [.literal (.spot ⟨1, 3⟩) .int "1"]], 0, middle⟩ "2147483648"
        (.fault (.malformed .int "2147483648") .absent) := by
  have nothing := Store.addRoot_declaredBy ∅ Store.standardSink .dynamic
  have reads : Parser.parse "fn f(n) \x7b n + 2147483648 \x7d" = .ok (.block (.spot ⟨1, 1⟩)
      [.function (.spot ⟨1, 1⟩) "f" ["n"] (.block (.spot ⟨1, 9⟩) [.join (.spot ⟨1, 11⟩) (.arithmetic .add)
        (.name (.spot ⟨1, 11⟩) "n") (.literal (.spot ⟨1, 15⟩) .int "2147483648")])]) := rfl
  have reads' : Parser.parse "f(1)" = .ok (.block (.spot ⟨1, 1⟩)
      [.call (.spot ⟨1, 1⟩) "f" [.literal (.spot ⟨1, 3⟩) .int "1"]]) := rfl
  have declared := (run_outcome reads nothing 5).1
  have fails : (((Store.empty.addRoot [] Store.standardSink .dynamic).2.run 5 0
      "fn f(n) \x7b n + 2147483648 \x7d").2.run 5 0 "f(1)").1 =
      .error (.halt (.fault (.malformed .int "2147483648") (.spot ⟨1, 15⟩))) :=
    eq_error_of_map (by decide +kernel)
  rw [insert_empty_eq] at declared
  generalize ((Store.empty.addRoot [] Store.standardSink .dynamic).2.run 5 0
    "fn f(n) \x7b n + 2147483648 \x7d").2 = middle at declared fails
  have outcome := (run_outcome reads' declared 5).2
  rw [fails] at outcome
  exact ⟨middle, rfl, declared, reads', fails, (outcome.2 _ _ rfl).2.1⟩

end Corvid
