import Corvid.Proofs.Eval.Plan

/-!
The nodes that are being evaluated when an evaluation stops. They form a chain: the innermost is the node whose own
rule stops while everything that it asks for succeeds, and around each node is the one whose rule asked for it, which
for a function's body is the call. A fault is marked by the innermost node of the chain that knows its line.
-/
namespace Corvid

/-- The rule of the node that a request is about. -/
def Request.rule (request : Request) (depth : Nat) (evaluate : Rule.Evaluator) : Eval Value :=
  Rule.apply evaluate (showWithin depth) request.scope request.expr

theorem Request.rule_uniform (request : Request) (depth : Nat) :
    Rule.Uniform request.expr.Own (request.rule depth) :=
  Rule.apply_uniform (showWithin_stopsDeep depth) request.scope request.expr

/-- The evaluations that the rule of a request asks for, with one less of the depth. -/
def Request.Asks (request : Request) (depth : Nat) (part : Request) : Prop :=
  Rule.Asks (request.rule depth) (evalWithin depth) request.store part

/-- The nodes that are being evaluated when the evaluation of a request to a depth stops, the innermost first, and
what the innermost one stops with. -/
inductive Stops : (depth : Nat) → Request → List Expr → Halt → Prop where
  | own {depth : Nat} {request : Request} {halt : Halt} {after : Store}
      (stops : request.rule depth (evalWithin depth) request.store = (.error halt, after))
      (succeed : ∀ part, request.Asks depth part →
        ∃ value later, part.answer (evalWithin depth) = (.ok value, later)) :
      Stops (depth + 1) request [request.expr] halt
  | around {depth : Nat} {request part : Request} {chain : List Expr} {halt : Halt}
      (asks : request.Asks depth part) (inner : Stops depth part chain halt) :
      Stops (depth + 1) request (chain ++ [request.expr]) halt

/-- The mark of the first node that has one. -/
def firstMark (chain : List Expr) : Mark := ((chain.map Expr.mark).find? (· ≠ .absent)).getD .absent

theorem firstMark_append (chain : List Expr) (expr : Expr) :
    firstMark (chain ++ [expr]) = (firstMark chain).orElse expr.mark := by
  induction chain with
  | nil => cases found : expr.mark <;> simp [firstMark, found, Mark.orElse]
  | cons node rest ih =>
    unfold firstMark at ih ⊢
    by_cases missing : node.mark = .absent
    · simpa [missing] using ih
    · cases found : node.mark <;> simp_all [Mark.orElse]

theorem firstMark_eq_absent_iff {chain : List Expr} :
    firstMark chain = .absent ↔ ∀ node ∈ chain, node.mark = .absent := by
  induction chain with
  | nil => simp [firstMark]
  | cons node rest ih =>
    unfold firstMark at ih ⊢
    by_cases missing : node.mark = .absent
    · simpa [missing] using ih
    · simp [missing]

theorem exists_firstMark {chain : List Expr} (known : firstMark chain ≠ .absent) :
    ∃ node ∈ chain, node.mark = firstMark chain := by
  unfold firstMark at known ⊢
  cases found : (chain.map Expr.mark).find? (· ≠ .absent) with
  | none =>
    rw [found] at known
    exact absurd rfl known
  | some mark => exact List.mem_map.mp (List.mem_of_find?_eq_some found)

/-- A stop with the place of a node around it, unless it has one already. -/
def Halt.located (mark : Mark) : Halt → Halt
  | .fault cause place => .fault cause (place.orElse mark)
  | other => other

theorem Eval.locate_eq_ok_iff {α : Type} {inner : Eval α} {store after : Store} {mark : Mark} {result : α} :
    Eval.locate mark inner store = (.ok result, after) ↔ inner store = (.ok result, after) := by
  unfold Eval.locate
  split
  · next found =>
    rw [found]
    constructor <;> intro same <;> cases same
  · exact Iff.rfl

theorem Eval.locate_of_error {α : Type} {inner : Eval α} {store after : Store} {halt : Halt} (mark : Mark)
    (stops : inner store = (.error halt, after)) :
    Eval.locate mark inner store = (.error (halt.located mark), after) := by
  unfold Eval.locate
  rw [stops]
  cases halt <;> rfl

namespace Stops

variable {depth : Nat} {request : Request} {chain : List Expr} {halt : Halt}

/-- The chain begins with a node that stops on its own account. -/
theorem innermost (stops : Stops depth request chain halt) :
    ∃ node outer, chain = node :: outer ∧ node.Own halt := by
  induction stops with
  | @own depth request halt after stops succeed =>
    refine ⟨request.expr, [], rfl, ?_⟩
    obtain own | ⟨part, asks, answer⟩ := (request.rule_uniform depth).blames stops
    · exact own
    -- what is asked for succeeds here, so it is not to blame
    · obtain ⟨value, later, succeeds⟩ := succeed part asks
      rw [answer] at succeeds
      cases succeeds
  | around asks inner ih =>
    obtain ⟨node, outer, rfl, own⟩ := ih
    exact ⟨node, outer ++ [_], rfl, own⟩

/-- The evaluation of a request stops as the innermost node does, with the first mark that there is on the way
outward. -/
theorem outcome (stops : Stops depth request chain halt) :
    ∃ after, request.answer (evalWithin depth) = (.error (halt.located (firstMark chain)), after) := by
  induction stops with
  | @own depth request halt after stops succeed =>
    have mark : firstMark [request.expr] = request.expr.mark := firstMark_append [] request.expr
    rw [mark]
    exact ⟨after, Eval.locate_of_error request.expr.mark stops⟩
  | @around depth request part chain halt asks inner ih =>
    obtain ⟨after, answer⟩ := ih
    have stops := asks.stops answer
    refine ⟨after, (Eval.locate_of_error request.expr.mark stops).trans ?_⟩
    rw [firstMark_append]
    cases halt with
    | fault cause place =>
      cases place <;> rfl
    | tooDeep => rfl
    | tooLong => rfl

end Stops

/-- Every evaluation that stops before the depth is used up has a chain. -/
theorem exists_stops {depth : Nat} {request : Request} {halt : Halt} {after : Store}
    (answer : request.answer (evalWithin depth) = (.error halt, after)) (shallow : halt ≠ .tooDeep) :
    ∃ chain raised, Stops depth request chain raised := by
  induction depth generalizing request halt after with
  | zero =>
    cases answer
    contradiction
  | succ depth ih =>
    change Eval.locate request.expr.mark (request.rule depth (evalWithin depth)) request.store = _ at answer
    cases found : request.rule depth (evalWithin depth) request.store with
    | mk result later =>
      cases result with
      | ok value =>
        rw [Eval.locate, found] at answer
        cases answer
      | error raised =>
        rw [Eval.locate_of_error _ found] at answer
        -- the chain goes on into a part that stops; if all parts succeed, the rule stops on its own account
        by_cases inside : ∃ part, request.Asks depth part ∧
            ∃ reason later, part.answer (evalWithin depth) = (.error reason, later)
        · obtain ⟨part, asks, reason, _, stops⟩ := inside
          have same := found.symm.trans (asks.stops stops)
          cases same
          have shallow' : raised ≠ .tooDeep := by
            rintro rfl
            cases answer
            contradiction
          obtain ⟨chain, inner, stopped⟩ := ih stops shallow'
          exact ⟨chain ++ [request.expr], inner, .around asks stopped⟩
        · refine ⟨[request.expr], raised, .own found fun part asks => ?_⟩
          cases outcome : part.answer (evalWithin depth) with
          | mk result later =>
            cases result with
            | ok value => exact ⟨value, later, rfl⟩
            | error reason => exact absurd ⟨part, asks, reason, later, outcome⟩ inside

/-- Whatever an evaluation stops with but for its depth, it has from the innermost node of a chain, and its place from
the first node that knows one. -/
theorem exists_innermost {depth : Nat} {request : Request} {halt : Halt} {after : Store}
    (answer : request.answer (evalWithin depth) = (.error halt, after)) (shallow : halt ≠ .tooDeep) :
    ∃ node outer raised, Stops depth request (node :: outer) raised ∧ node.Own raised ∧
      halt = raised.located (firstMark (node :: outer)) := by
  obtain ⟨chain, raised, stops⟩ := exists_stops answer shallow
  obtain ⟨node, outer, rfl, own⟩ := stops.innermost
  obtain ⟨later, answer'⟩ := stops.outcome
  have same := answer.symm.trans answer'
  cases same
  exact ⟨node, outer, raised, stops, own, rfl⟩

end Corvid
