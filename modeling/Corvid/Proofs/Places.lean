import Corvid.Proofs.Outcomes

/-!
Where faults are placed. The rule that raises a fault knows no place; on its way outward, through calls too, the
fault gets that of the first node that has one. Nodes of parsed trees either have a full position or none, and the
statements of a program have one, so every fault of a parsed text gets a line and a column.
-/
namespace Corvid

namespace Mark

/-- A mark without lines that lack a column. -/
def full : Mark → Mark
  | line _ => absent
  | other => other

theorem full_eq (mark : Mark) : mark.full = .absent ∨ ∃ position, mark.full = .spot position := by
  cases mark with
  | absent | line => exact .inl rfl
  | spot position => exact .inr ⟨position, rfl⟩

end Mark

namespace Grammar

theorem Leaf.relabel_id {kind : Token.Kind} (index : Nat) :
    (Leaf.relabel (.move fun _ => id) index : Leaf kind → Leaf kind) = id := rfl

theorem Derivation.place_id {category : Category} (derivation : Derivation category) (index : Nat) :
    derivation.place (fun _ => id) index = derivation := by
  induction derivation generalizing index with
  | _ => simp [relabel, Leaf.relabel_id, *]

end Grammar

/-- The marks of a parsed tree are full. -/
theorem Parser.parse_full {source : String} {tree : Expr} (reads : parse source = .ok tree) :
    tree.remark Mark.full = tree := by
  obtain ⟨derivation, _, rfl⟩ := parse_eq_ok_iff.mp reads
  -- only positions of tokens become marks, so tokens that stay where they are keep every mark as it is
  have meaning : List.map (Expr.remark Mark.full) derivation.meaning = derivation.meaning := by
    have moved : (derivation.place (fun _ => id) 0).meaning =
        Grammar.Category.body.remark Mark.full derivation.meaning :=
      Grammar.Derivation.meaning_place rfl (fun _ => rfl) derivation 0
    rw [Grammar.Derivation.place_id] at moved
    exact moved.symm
  have start : (programMark derivation.tokens).full = programMark derivation.tokens := by
    cases derivation.tokens <;> rfl
  rw [Grammar.Derivation.program, Expr.remark, Expr.remarkAll_eq_map, meaning, start]

theorem Expr.Sourced.mark_full {texts : Set String} {node : Expr} (sourced : node.Sourced texts) :
    node.mark = .absent ∨ ∃ position, node.mark = .spot position := by
  obtain ⟨text, _, tree, reads, within⟩ := sourced
  rw [← Parser.parse_full reads] at within
  obtain ⟨original, rfl⟩ := within.of_remark
  rw [Expr.mark_remark]
  exact original.mark.full_eq

/-- A fault of a parsed text has a place: that of the statement, if there is none further inside. -/
theorem Store.eval_located {source : String} {tree : Expr} (reads : Parser.parse source = .ok tree)
    {store after : Store} {limit scope : Nat} {cause : Fault} {mark : Mark}
    (ended : store.eval limit scope tree = (.error (.fault cause mark), after)) : mark ≠ .absent := by
  obtain ⟨⟨whole, body, rfl⟩, _⟩ := Parser.parse_expressible reads
  have marked := Parser.parse_marked reads
  cases limit with
  | zero => cases ended
  | succ limit =>
    rw [Store.eval_block marked] at ended
    exact evalBlock_located marked .none store cause mark after ended

/-- What a chain says of the fault that an evaluation ends in. -/
theorem Stops.fault {depth : Nat} {request : Request} {chain : List Expr} {halt : Halt} {cause : Fault} {mark : Mark}
    (stops : Stops depth request chain halt)
    (ended : (request.answer (evalWithin depth)).1 = .error (.fault cause mark)) :
    halt = .fault cause .absent ∧ mark = firstMark chain := by
  obtain ⟨after, answer⟩ := stops.outcome
  obtain ⟨node, outer, rfl, own⟩ := stops.innermost
  rw [answer] at ended
  cases halt with
  | fault raised place =>
    cases own.place
    cases ended
    exact ⟨rfl, rfl⟩
  | tooDeep => cases ended
  | tooLong => cases ended

theorem exists_chain {depth : Nat} {request : Request} {cause : Fault} {mark : Mark}
    (ended : (request.answer (evalWithin depth)).1 = .error (.fault cause mark)) :
    ∃ chain, Stops depth request chain (.fault cause .absent) := by
  have answer : request.answer (evalWithin depth) =
      (.error (.fault cause mark), (request.answer (evalWithin depth)).2) := Prod.ext ended rfl
  obtain ⟨node, outer, raised, stops, _⟩ := exists_innermost answer Halt.noConfusion
  obtain ⟨rfl, _⟩ := stops.fault ended
  exact ⟨node :: outer, stops⟩

/-- Every fault carries the place of the first node that has one, going outward from the node whose own rule raised it
through all nodes that are being evaluated, and none exactly if none of these nodes has one; what is nested too deeply
is reported without a place. In particular every fault of a parsed text, where all functions were declared by parsed
texts, carries the line and column of a node of these texts. -/
theorem faults_placed :
    (∀ (depth : Nat) (expr : Expr) (scope : Nat) (store : Store) (cause : Fault) (mark : Mark),
      (evalWithin depth expr scope store).1 = .error (.fault cause mark) →
      (∃ chain, Stops depth ⟨expr, scope, store⟩ chain (.fault cause .absent)) ∧
      ∀ chain halt, Stops depth ⟨expr, scope, store⟩ chain halt → halt = .fault cause .absent ∧
        mark = firstMark chain ∧ (mark = .absent ↔ ∀ node ∈ chain, node.mark = .absent)) ∧
    Halt.message? .tooDeep = some "Maximum call depth exceeded." ∧
    ∀ (source : String) (tree : Expr) (texts : Set String) (store : Store) (limit scope : Nat) (cause : Fault)
      (mark : Mark), Parser.parse source = .ok tree → store.DeclaredBy texts scope →
      (store.run limit scope source).1 = .error (.halt (.fault cause mark)) →
      ∃ chain node position, Stops limit ⟨tree, scope, store⟩ chain (.fault cause .absent) ∧ node ∈ chain ∧
        node.Sourced (insert source texts) ∧ node.mark = .spot position ∧ mark = .spot position := by
  refine ⟨fun depth expr scope store cause mark ended => ⟨exists_chain ended, fun chain halt stops => ?_⟩, rfl, ?_⟩
  · obtain ⟨raised, rfl⟩ := stops.fault ended
    exact ⟨raised, rfl, firstMark_eq_absent_iff⟩
  · intro source tree texts store limit scope cause mark reads declared failed
    rw [Store.run_of_parse reads] at failed
    cases ended : store.eval limit scope tree with
    | mk outcome after =>
      rw [ended] at failed
      cases outcome with
      | ok value => cases failed
      | error halt =>
        cases failed
        have answer : (Request.answer ⟨tree, scope, store⟩ (evalWithin limit)).1 = .error (.fault cause mark) :=
          congrArg Prod.fst ended
        obtain ⟨chain, stops⟩ := exists_chain answer
        obtain ⟨_, rfl⟩ := stops.fault answer
        have known := Store.eval_located reads ended
        obtain ⟨node, member, same⟩ := exists_firstMark known
        have sourced := stops.sourced reads declared node member
        obtain missing | ⟨position, full⟩ := sourced.mark_full
        · exact absurd (same.symm.trans missing) known
        · exact ⟨chain, node, position, stops, member, sourced, full, same.symm.trans full⟩

/-- A fault that gets its line from the call, because the body of the function has no marks; and one in a function
that an earlier text declared, which is placed there. -/
theorem faults_placed_calls :
    (let body := Expr.join .absent (.arithmetic .div) (.literal .absent .int "1") (.literal .absent .int "0")
      let start := (Store.empty.addRoot [("f", .function "f" [] body)] Store.standardSink .dynamic).2
      let expr := Expr.block .absent [.call (.line 7) "f" []]
      (evalWithin 4 expr 0 start).1 = .error (.fault .zeroDivision (.line 7)) ∧
        ∃ chain, Stops 4 ⟨expr, 0, start⟩ chain (.fault .zeroDivision .absent) ∧ firstMark chain = .line 7) ∧
    ∃ middle, ((Store.empty.addRoot [] Store.standardSink .dynamic).2.eval 5 0 (.block (.spot ⟨1, 1⟩)
        [.function (.spot ⟨1, 1⟩) "f" ["n"] (.block (.spot ⟨1, 9⟩) [.join (.spot ⟨1, 11⟩) (.arithmetic .div)
          (.literal (.spot ⟨1, 11⟩) .int "1") (.name (.spot ⟨1, 15⟩) "n")])])).2 = middle ∧
      middle.DeclaredBy {"fn f(n) \x7b 1 / n \x7d"} 0 ∧
      (middle.run 5 0 "f(0)").1 = .error (.halt (.fault .zeroDivision (.spot ⟨1, 11⟩))) ∧
      ∃ node : Expr, node.Sourced {"f(0)", "fn f(n) \x7b 1 / n \x7d"} ∧ node.mark = .spot ⟨1, 11⟩ := by
  constructor
  · intro body start expr
    have ended : (evalWithin 4 expr 0 start).1 = .error (.fault .zeroDivision (.line 7)) := rfl
    obtain ⟨⟨chain, stops⟩, placed⟩ := faults_placed.1 4 expr 0 start _ _ ended
    exact ⟨ended, chain, stops, (placed chain _ stops).2.1.symm⟩
  · have reads : Parser.parse "fn f(n) \x7b 1 / n \x7d" = .ok (.block (.spot ⟨1, 1⟩)
        [.function (.spot ⟨1, 1⟩) "f" ["n"] (.block (.spot ⟨1, 9⟩) [.join (.spot ⟨1, 11⟩) (.arithmetic .div)
          (.literal (.spot ⟨1, 11⟩) .int "1") (.name (.spot ⟨1, 15⟩) "n")])]) := rfl
    have reads' : Parser.parse "f(0)" = .ok (.block (.spot ⟨1, 1⟩)
        [.call (.spot ⟨1, 1⟩) "f" [.literal (.spot ⟨1, 3⟩) .int "0"]]) := rfl
    have nothing := Store.addRoot_declaredBy ∅ Store.standardSink .dynamic
    have declared := evalWithin_declared reads nothing 5
    have fails : (((Store.empty.addRoot [] Store.standardSink .dynamic).2.eval 5 0 (.block (.spot ⟨1, 1⟩)
        [.function (.spot ⟨1, 1⟩) "f" ["n"] (.block (.spot ⟨1, 9⟩) [.join (.spot ⟨1, 11⟩) (.arithmetic .div)
          (.literal (.spot ⟨1, 11⟩) .int "1") (.name (.spot ⟨1, 15⟩) "n")])])).2.run 5 0 "f(0)").1 =
        .error (.halt (.fault .zeroDivision (.spot ⟨1, 11⟩))) :=
      eq_error_of_map (by decide +kernel)
    rw [insert_empty_eq] at declared
    refine ⟨_, rfl, declared, fails, ?_⟩
    obtain ⟨_, node, _, _, _, sourced, marked, same⟩ := faults_placed.2.2 _ _ _ _ _ _ _ _ reads' declared fails
    cases same
    exact ⟨node, sourced, marked⟩

end Corvid
