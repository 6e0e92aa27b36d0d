import Corvid.Proofs.Grammar.Joining
import Corvid.Proofs.Marks.Equivariance
import Corvid.Proofs.Parsing
import Corvid.Run

/-!
Running a text piece by piece. Two texts with a line end between them make one program, the statements of the
first and then those of the second, moved down. Running it is running the pieces one after the other.

The two ways differ in marks alone: what comes from the second text is marked further down. To say which marks
those are, the second text is run with every mark tagged by the text it comes from. Both ways are this one run
with its tags resolved, the marks of the second text moved down by some lines or by none.
-/
namespace Corvid

namespace Mark

/-- A mark some lines further down. -/
def down (lines : Nat) : Mark → Mark
  | absent => absent
  | line number => line (number + lines)
  | spot position => spot (position.down lines)

/-- A mark that also says which of two texts it comes from: the line is even for the first, odd for the second. -/
def tag (second : Bool) : Mark → Mark
  | absent => absent
  | line number => line (2 * number + second.toNat)
  | spot position => spot ⟨2 * position.line + second.toNat, position.column⟩

/-- The mark without its tag, moved down if it comes from the second text. -/
def resolve (lines : Nat) : Mark → Mark
  | absent => absent
  | line number => line (number / 2 + number % 2 * lines)
  | spot position => spot ⟨position.line / 2 + position.line % 2 * lines, position.column⟩

@[simp] theorem resolve_tag_false (lines : Nat) (mark : Mark) : (mark.tag false).resolve lines = mark := by
  cases mark <;> simp [tag, resolve]

@[simp] theorem resolve_tag_true (lines : Nat) (mark : Mark) : (mark.tag true).resolve lines = mark.down lines := by
  have half (n : Nat) : (2 * n + 1) / 2 = n := by omega
  cases mark <;> simp [tag, resolve, down, Position.down, half]

theorem down_zero : down 0 = id := by
  funext mark
  cases mark <;> rfl

theorem resolve_faithful (lines : Nat) : Faithful (resolve lines) := by
  intro mark
  cases mark <;> simp [resolve]

theorem down_faithful (lines : Nat) : Faithful (down lines) := by
  intro mark
  cases mark <;> simp [down]

theorem tag_faithful (second : Bool) : Faithful (tag second) := by
  intro mark
  cases mark <;> simp [tag]

end Mark

/-! One program after another -/

namespace Parser

open Grammar

/-- The program of two texts with a line end between them. -/
theorem parse_joined {first second : String} {mark mark' : Mark} {body body' : List Expr}
    (reads : parse first = .ok (.block mark body)) (reads' : parse second = .ok (.block mark' body')) :
    ∃ joined, parse (first ++ "\n" ++ second) = .ok (.block joined
      (body ++ body'.map (Expr.remark (Mark.down (1 + first.toList.count '\n'))))) := by
  obtain ⟨derivation, splits, same⟩ := parse_eq_ok_iff.mp reads
  obtain ⟨derivation', splits', same'⟩ := parse_eq_ok_iff.mp reads'
  obtain ⟨_, rfl⟩ := Expr.block.inj same
  obtain ⟨_, rfl⟩ := Expr.block.inj same'
  obtain ⟨separator, kind, joined⟩ := splits.join splits'
  let moved := derivation'.place (fun _ => Position.down (1 + first.toList.count '\n')) 0
  have tokens : (derivation.followedBy ⟨separator, kind⟩ moved).tokens = Token.withoutTrail derivation.tokens ++
      separator :: Token.withoutLead (derivation'.tokens.map (Token.down (1 + first.toList.count '\n'))) := by
    rw [Derivation.tokens_followedBy, Derivation.tokens_place, placeTokens_eq_map]
    rfl
  have moves : moved.meaning = Category.body.remark (Mark.down (1 + first.toList.count '\n')) derivation'.meaning :=
    Derivation.meaning_place rfl (fun _ => rfl) derivation' 0
  have meaning : (derivation.followedBy ⟨separator, kind⟩ moved).meaning =
      (derivation.meaning ++ List.map (Expr.remark (Mark.down (1 + first.toList.count '\n')))
        derivation'.meaning : List Expr) := by
    rw [Derivation.meaning_followedBy, moves]
    rfl
  have text : (first ++ "\n" ++ second).toList = first.toList ++ '\n' :: second.toList := by
    simp
  refine ⟨programMark (derivation.followedBy ⟨separator, kind⟩ moved).tokens,
    parse_eq_ok_iff.mpr ⟨derivation.followedBy ⟨separator, kind⟩ moved, ?_, ?_⟩⟩
  · rw [text, tokens]
    exact joined
  · rw [Derivation.program, meaning]

/-- Every statement of a program knows its place. -/
theorem parse_marked {source : String} {mark : Mark} {body : List Expr}
    (reads : parse source = .ok (.block mark body)) : ∀ expr ∈ body, expr.mark ≠ .absent := by
  obtain ⟨derivation, _, same⟩ := parse_eq_ok_iff.mp reads
  obtain ⟨_, rfl⟩ := Expr.block.inj same
  exact derivation.marked

end Parser

/-! One run after another -/

namespace Rule

variable {evaluate : Evaluator} {scope : Nat}

theorem evalBlock_append (front back : List Expr) (last : Value) (store : Store) :
    evalBlock evaluate scope (front ++ back) last store =
      match evalBlock evaluate scope front last store with
      | (.ok value, middle) => evalBlock evaluate scope back value middle
      | (.error halt, middle) => (.error halt, middle) := by
  induction front generalizing last store with
  | nil => rfl
  | cons expr front ih =>
    change Eval.bind (evaluate expr scope) (evalBlock evaluate scope (front ++ back)) store =
      match Eval.bind (evaluate expr scope) (evalBlock evaluate scope front) store with
      | (.ok value, middle) => evalBlock evaluate scope back value middle
      | (.error halt, middle) => (.error halt, middle)
    simp only [Eval.bind]
    cases evaluate expr scope store with
    | mk result middle =>
      cases result with
      | ok value => exact ih value middle
      | error halt => rfl

/-- A block with statements does not depend on what came before it. -/
theorem evalBlock_of_ne_nil {body : List Expr} (filled : body ≠ []) (last last' : Value) :
    evalBlock evaluate scope body last = evalBlock evaluate scope body last' := by
  cases body with
  | nil => contradiction
  | cons => rfl

end Rule

/-- Whether a fault in an outcome knows its place. -/
def Located {α : Type} (outcome : Except Halt α × Store) : Prop :=
  ∀ cause mark after, outcome = (.error (.fault cause mark), after) → mark ≠ .absent

theorem Mark.orElse_ne_absent {inner outer : Mark} (known : outer ≠ .absent) : inner.orElse outer ≠ .absent := by
  cases inner <;> simp [Mark.orElse, known]

theorem Eval.locate_located {α : Type} {mark : Mark} (known : mark ≠ .absent) (inner : Eval α) (store : Store) :
    Located (Eval.locate mark inner store) := by
  intro cause place after found
  rw [Eval.locate] at found
  split at found
  · cases found
    exact Mark.orElse_ne_absent known
  · next other => exact absurd found (other _ _ _)

/-- A mark around an evaluation whose faults know their place has no effect. -/
theorem Eval.locate_eq_of_located {α : Type} {inner : Eval α} {store : Store} (located : Located (inner store))
    (mark : Mark) : Eval.locate mark inner store = inner store := by
  rw [Eval.locate]
  split
  · next cause place after found =>
    have known := located cause place after found
    rw [found]
    cases place <;> first | rfl | contradiction
  · rfl

theorem evalBlock_located {depth scope : Nat} {body : List Expr} (marked : ∀ expr ∈ body, expr.mark ≠ .absent)
    (last : Value) (store : Store) :
    Located (Rule.evalBlock (evalWithin depth) scope body last store) := by
  induction body generalizing last store with
  | nil => exact fun _ _ _ found => nomatch found
  | cons expr rest ih =>
    have here : Located (evalWithin depth expr scope store) := by
      cases depth with
      | zero => exact fun _ _ _ found => nomatch found
      | succ depth => exact Eval.locate_located (marked expr List.mem_cons_self) _ store
    change Located (Eval.bind (evalWithin depth expr scope) (Rule.evalBlock (evalWithin depth) scope rest) store)
    rw [Eval.bind]
    split
    · exact ih (fun expr member => marked expr (List.mem_cons_of_mem _ member)) _ _
    · next halt after found =>
      intro cause mark after' same
      cases same
      exact here cause mark after found

/-- The place of a program as a whole has no effect. -/
theorem Store.eval_block {store : Store} {limit scope : Nat} {mark : Mark} {body : List Expr}
    (marked : ∀ expr ∈ body, expr.mark ≠ .absent) :
    store.eval (limit + 1) scope (.block mark body) = Rule.evalBlock (evalWithin limit) scope body .none store := by
  rw [Store.eval, evalWithin]
  exact Eval.locate_eq_of_located (evalBlock_located marked .none store) _

/-- The outcome of a run whose evaluation has an outcome. -/
def reported : Except Halt Value × Store → Except Failure Value × Store
  | (.ok value, after) => (.ok value, after)
  | (.error halt, after) => (.error (.halt halt), after)

theorem Store.run_of_parse {store : Store} {limit scope : Nat} {source : String} {tree : Expr}
    (reads : Parser.parse source = .ok tree) :
    store.run limit scope source = reported (store.eval limit scope tree) := by
  rw [Store.run, reads]
  simp only
  split <;> next found => rw [found, reported]

/-- Nothing can be evaluated where nothing may be nested. -/
theorem Store.run_zero {store : Store} {scope : Nat} {source : String} {tree : Expr}
    (reads : Parser.parse source = .ok tree) : store.run 0 scope source = (.error (.halt .tooDeep), store) := by
  rw [Store.run_of_parse reads]
  rfl

/-- The outcome of a run whose marks are tagged: those of the second text are moved down. -/
def resolved (lines : Nat) (outcome : Except Halt Value × Store) : Except Failure Value × Store :=
  reported (remarkOutcome (Mark.resolve lines) (Value.remark (Mark.resolve lines)) outcome)

/-- Statements that are moved down run as tagged statements do whose tags are resolved afterwards. -/
theorem evalBlock_down (depth scope lines : Nat) (body : List Expr) (store : Store) :
    Rule.evalBlock (evalWithin depth) scope (body.map (Expr.remark (Mark.down lines))) .none store =
      remarkOutcome (Mark.resolve lines) (Value.remark (Mark.resolve lines))
        (Rule.evalBlock (evalWithin depth) scope (body.map (Expr.remark (Mark.tag true))) .none
          (store.remark (Mark.tag false))) := by
  have carries := evalWithin_follows (Mark.resolve_faithful lines).coherent depth
  have moved : Mark.resolve lines ∘ Mark.tag true = Mark.down lines := funext (Mark.resolve_tag_true lines)
  have follows := Rule.evalBlock_follows carries scope (body.map (Expr.remark (Mark.tag true))) .none
    (store.remark (Mark.tag false))
  rw [Store.remark_remark_cancel (Mark.resolve_tag_false lines), Expr.remarkAll_eq_map, List.map_map] at follows
  rw [← follows]
  congr 1
  refine List.map_congr_left fun expr _ => ?_
  rw [Function.comp, Expr.remark_remark, moved]

theorem remark_marked {change : Mark → Mark} (faithful : Faithful change)
    {body : List Expr} (marked : ∀ expr ∈ body, expr.mark ≠ .absent) :
    ∀ expr ∈ body.map (Expr.remark change), expr.mark ≠ .absent := by
  intro expr member
  obtain ⟨original, known, rfl⟩ := List.mem_map.mp member
  rw [Expr.mark_remark, Ne, faithful]
  exact marked original known

/-- A program by itself runs as the tagged program does, its tags resolved. -/
theorem Store.run_eq_resolved {store : Store} {limit scope : Nat} {source : String} {mark : Mark} {body : List Expr}
    (reads : Parser.parse source = .ok (.block mark body)) :
    store.run (limit + 1) scope source = resolved 0
      ((store.remark (Mark.tag false)).eval (limit + 1) scope (Expr.remark (Mark.tag true) (.block mark body))) := by
  have marked := Parser.parse_marked reads
  have same : body.map (Expr.remark (Mark.down 0)) = body := by
    rw [Mark.down_zero, ← Expr.remarkAll_eq_map, Expr.remarkAll_id]
  rw [Store.run_of_parse reads, Store.eval_block marked, Expr.remark, Expr.remarkAll_eq_map,
    Store.eval_block (remark_marked (Mark.tag_faithful true) marked), resolved, ← evalBlock_down, same]

/-- Running a text piece by piece is running it as a whole. Two texts with a line end between them make the program
of both, the second moved down by the lines of the first. If the first text fails, the whole fails as it does. If
it succeeds, take the run of the second text after it, with every mark tagged by the text it comes from: its
outcome is that of the second text by itself and, with the marks of the second text moved down, that of the whole,
which has the first text's value if there is no second statement. -/
theorem run_joined {first second : String} {mark mark' : Mark} {body body' : List Expr}
    (reads : Parser.parse first = .ok (.block mark body))
    (reads' : Parser.parse second = .ok (.block mark' body')) :
    (∃ joined, Parser.parse (first ++ "\n" ++ second) = .ok (.block joined
      (body ++ body'.map (Expr.remark (Mark.down (1 + first.toList.count '\n')))))) ∧
    ∀ (limit : Nat) (store : Store) (scope : Nat),
      (∀ failure after, store.run limit scope first = (.error failure, after) →
        store.run limit scope (first ++ "\n" ++ second) = (.error failure, after)) ∧
      ∀ value middle, store.run limit scope first = (.ok value, middle) →
        let tagged := (middle.remark (Mark.tag false)).eval limit scope
          (Expr.remark (Mark.tag true) (.block mark' body'))
        middle.run limit scope second = resolved 0 tagged ∧
        (body' ≠ [] → store.run limit scope (first ++ "\n" ++ second) =
          resolved (1 + first.toList.count '\n') tagged) ∧
        (body' = [] → store.run limit scope (first ++ "\n" ++ second) = (.ok value, middle)) := by
  obtain ⟨joined, whole⟩ := Parser.parse_joined reads reads'
  refine ⟨⟨joined, whole⟩, fun limit store scope => ?_⟩
  cases limit with
  | zero =>
    rw [Store.run_zero reads, Store.run_zero whole]
    exact ⟨fun _ _ fails => fails, fun _ _ succeeds => nomatch succeeds⟩
  | succ limit =>
    have marked := Parser.parse_marked reads
    have marked' := Parser.parse_marked reads'
    have moved := remark_marked (Mark.down_faithful (1 + first.toList.count '\n')) marked'
    have together : store.run (limit + 1) scope (first ++ "\n" ++ second) = reported (Rule.evalBlock (evalWithin limit)
        scope (body ++ body'.map (Expr.remark (Mark.down (1 + first.toList.count '\n')))) .none store) := by
      rw [Store.run_of_parse whole, Store.eval_block]
      exact fun expr member => (List.mem_append.mp member).elim (marked expr) (moved expr)
    rw [together, Rule.evalBlock_append, Store.run_of_parse reads, Store.eval_block marked]
    cases Rule.evalBlock (evalWithin limit) scope body .none store with
    | mk result after =>
      cases result with
      | error halt => exact ⟨fun _ _ fails => fails, fun _ _ succeeds => nomatch succeeds⟩
      | ok last =>
        refine ⟨fun _ _ fails => (nomatch fails), fun value middle succeeds => ?_⟩
        cases succeeds
        refine ⟨Store.run_eq_resolved reads', fun filled => ?_, fun none => ?_⟩
        · rw [Expr.remark, Expr.remarkAll_eq_map,
            Store.eval_block (remark_marked (Mark.tag_faithful true) marked'), resolved, ← evalBlock_down]
          exact congrArg reported (congrFun (Rule.evalBlock_of_ne_nil (by simpa using filled) _ _) _)
        · rw [none]
          rfl

/-- A function of the first text that the second calls: the call is moved down by a line, the function is not, and
neither is the fault in it. -/
theorem run_joined_call :
    let body := Expr.block (.spot ⟨1, 9⟩) [.join (.spot ⟨1, 11⟩) (.arithmetic .div)
      (.literal (.spot ⟨1, 11⟩) .int "1") (.name (.spot ⟨1, 15⟩) "n")]
    let call := Expr.block (.spot ⟨1, 1⟩) [.call (.spot ⟨1, 1⟩) "f" [.literal (.spot ⟨1, 3⟩) .int "0"]]
    let start := (Store.empty.addRoot [] 0 .dynamic).2
    let middle := start.bind 0 "f" (.function "f" ["n"] body)
    Parser.parse "fn f(n) \x7b 1 / n \x7d" =
        .ok (.block (.spot ⟨1, 1⟩) [.function (.spot ⟨1, 1⟩) "f" ["n"] body]) ∧
      Parser.parse "f(0)" = .ok call ∧
      (∃ joined, Parser.parse ("fn f(n) \x7b 1 / n \x7d" ++ "\n" ++ "f(0)") = .ok (.block joined
        [.function (.spot ⟨1, 1⟩) "f" ["n"] body,
          .call (.spot ⟨2, 1⟩) "f" [.literal (.spot ⟨2, 3⟩) .int "0"]])) ∧
      start.run 5 0 "fn f(n) \x7b 1 / n \x7d" = (.ok (.function "f" ["n"] body), middle) ∧
      start.run 5 0 ("fn f(n) \x7b 1 / n \x7d" ++ "\n" ++ "f(0)") =
        resolved 1 ((middle.remark (Mark.tag false)).eval 5 0 (Expr.remark (Mark.tag true) call)) ∧
      (start.run 5 0 ("fn f(n) \x7b 1 / n \x7d" ++ "\n" ++ "f(0)")).1 =
        .error (.halt (.fault .zeroDivision (.spot ⟨1, 11⟩))) ∧
      (middle.run 5 0 "f(0)").1 = .error (.halt (.fault .zeroDivision (.spot ⟨1, 11⟩))) := by
  intro body call start middle
  have reads : Parser.parse "fn f(n) \x7b 1 / n \x7d" =
      .ok (.block (.spot ⟨1, 1⟩) [.function (.spot ⟨1, 1⟩) "f" ["n"] body]) := rfl
  have reads' : Parser.parse "f(0)" = .ok call := rfl
  have declares : start.run 5 0 "fn f(n) \x7b 1 / n \x7d" = (.ok (.function "f" ["n"] body), middle) := by
    rw [Store.run_of_parse reads]
    rfl
  obtain ⟨⟨joined, whole⟩, runs⟩ := run_joined reads reads'
  have together := ((runs 5 start 0).2 _ middle declares).2.1 (List.cons_ne_nil _ _)
  refine ⟨reads, reads', ⟨joined, whole⟩, declares, together, ?_, ?_⟩
  · rw [Store.run_of_parse whole]
    rfl
  · rw [Store.run_of_parse reads']
    rfl

end Corvid
