import Corvid.Proofs.Eval.Visits
import Corvid.Proofs.Store.Nesting

/-!
Trees that call no function. Their loops go through a number of items that is fixed when they start, and all else is
evaluated once, so evaluation goes no deeper than the tree is high. It can still be too deep where a value is written
out: the containers in the value are nested too, and they have to do with what the nodes around them leave of the depth.
-/
namespace Corvid

namespace Expr

mutual

/-- How many nodes are nested in one another, at most. A function's body does not count: it is not evaluated along with
its declaration. -/
def height : Expr → Nat
  | none _ | literal .. | name .. | function .. | unknown .. => 1
  | assign _ _ value => value.height + 1
  | list _ elements => heightAll elements + 1
  | dict _ pairs => heightPairs pairs + 1
  | subscript _ target index => max target.height index.height + 1
  | store _ target index value => max target.height (max index.height value.height) + 1
  | join _ _ left right => max left.height right.height + 1
  | negate _ operand => operand.height + 1
  | block _ body => heightAll body + 1
  | conditional _ condition yes no => max condition.height (max yes.height no.height) + 1
  | loop _ _ source body => max source.height body.height + 1
  | call _ _ arguments => heightAll arguments + 1
  | print _ shown _ => shown.height + 1

def heightAll : List Expr → Nat
  | [] => 0
  | expr :: rest => max expr.height (heightAll rest)

def heightPairs : List (Expr × Expr) → Nat
  | [] => 0
  | (key, value) :: rest => max (max key.height value.height) (heightPairs rest)

end

theorem height_le_heightAll {exprs : List Expr} {part : Expr} (member : part ∈ exprs) :
    part.height ≤ heightAll exprs := by
  induction exprs with
  | nil => cases member
  | cons first rest ih =>
    rw [heightAll]
    obtain rfl | later := List.mem_cons.mp member
    · exact Nat.le_max_left ..
    · exact (ih later).trans (Nat.le_max_right ..)

theorem height_le_heightPairs {pairs : List (Expr × Expr)} {part : Expr}
    (member : part ∈ pairs.flatMap fun pair => [pair.1, pair.2]) : part.height ≤ heightPairs pairs := by
  induction pairs with
  | nil => cases member
  | cons first rest ih =>
    rw [heightPairs]
    rw [List.flatMap_cons, List.mem_append] at member
    obtain here | later := member
    · simp only [List.mem_cons, List.not_mem_nil, or_false] at here
      obtain rfl | rfl := here <;> omega
    · have := ih later
      omega

theorem height_pos (expr : Expr) : 0 < expr.height := by
  cases expr <;> simp [height]

/-- What is nested in a node is less high. -/
theorem height_lt_of_operand {part whole : Expr} (below : part ∈ whole.operands) : part.height < whole.height := by
  cases whole with
  | none | literal | name | function | unknown => cases below
  | list | block | call => exact Nat.lt_succ_of_le (height_le_heightAll below)
  | dict => exact Nat.lt_succ_of_le (height_le_heightPairs below)
  | _ =>
    simp only [operands, children, List.mem_cons, List.not_mem_nil, or_false] at below
    rw [height]
    rcases below with rfl | rfl | rfl <;> omega

/-- A tree that calls no function when it is evaluated. -/
def CallFree (expr : Expr) : Prop := ∀ node : Expr, node.Level expr → ¬node.Calls

theorem CallFree.of_operands {expr : Expr} (other : ¬expr.Calls) (parts : ∀ part ∈ expr.operands, part.CallFree) :
    expr.CallFree := by
  intro node level
  obtain rfl | ⟨part, below, inner⟩ := Relation.ReflTransGen.cases_head level
  · exact other
  · exact parts part below node inner

theorem CallFree.operand {part whole : Expr} (free : whole.CallFree) (below : part ∈ whole.operands) :
    part.CallFree :=
  fun node level => free node (Relation.ReflTransGen.head below level)

end Expr

/-- The rule of a node writes a value out in some store, with some depth for its parts: what it prints, unless that is
the word `none` itself, or one of the two sides that it puts together, once both are known. -/
inductive Request.Renders (depth : Nat) : Request → Value → Store → Prop where
  | printed {mark : Mark} {shown : Expr} {newline : Bool} {scope : Nat} {store after : Store} {value : Value}
      (word : ∀ mark, shown ≠ .none mark) (gives : evalWithin depth shown scope store = (.ok value, after)) :
      Renders depth ⟨.print mark shown newline, scope, store⟩ value after
  | joined {mark : Mark} {left right : Expr} {scope : Nat} {store middle after : Store} {a b value : Value}
      (gives : evalWithin depth left scope store = (.ok a, middle))
      (gives' : evalWithin depth right scope middle = (.ok b, after)) (either : value = a ∨ value = b) :
      Renders depth ⟨.join mark .concat left right, scope, store⟩ value after

theorem Eval.bind_eq_error {α β : Type} {first : Eval α} {next : α → Eval β} {store after : Store} {halt : Halt}
    (stops : (first >>= next) store = (.error halt, after)) :
    first store = (.error halt, after) ∨
      ∃ a middle, first store = (.ok a, middle) ∧ next a middle = (.error halt, after) := by
  cases found : first store with
  | mk result middle =>
    cases result with
    | ok a => exact .inr ⟨a, middle, rfl, (Eval.bind_of_ok found).symm.trans stops⟩
    | error reason =>
      have same := (Eval.bind_of_error found).symm.trans stops
      cases same
      exact .inl rfl

theorem showWithin_tooDeep {depth : Nat} {value : Value} {store after : Store}
    (stops : showWithin depth value store = (.error .tooDeep, after)) : ¬store.NestsWithin depth value := by
  rw [← Store.isSome_text?_iff]
  intro shown
  obtain ⟨text, known⟩ := Option.isSome_iff_exists.mp shown
  rw [showWithin, known] at stops
  cases stops

namespace Rule

/-- A rule that writes nothing out is too deep only because something is that it asks for. -/
theorem Plan.uniform_shallow {expr : Expr} {scope : Nat} {α : Type}
    {computation : Evaluator → (Value → Eval String) → Eval α} (plan : Plan expr scope computation)
    (silent : ¬expr.Shows) (render : Value → Eval String) :
    Uniform (· ≠ .tooDeep) fun evaluate => computation evaluate render := by
  induction plan with
  | own calm => exact .step fun store halt after stops => (calm.stops store halt after stops).2
  | operand below => exact .ask _ scope
  | render shows => exact absurd shows silent
  | write prints text => exact .update _
  | enter calls bindings body => exact .bind (.create _) fun inner => .ask body inner
  | bind before behind ih ih' => exact .bind ih ih'

end Rule

theorem Request.rule_of_tooDeep {request : Request} {depth : Nat} {after : Store}
    (stops : request.answer (evalWithin (depth + 1)) = (.error .tooDeep, after)) :
    request.rule depth (evalWithin depth) request.store = (.error .tooDeep, after) := by
  change Eval.locate request.expr.mark (request.rule depth (evalWithin depth)) request.store = _ at stops
  cases found : request.rule depth (evalWithin depth) request.store with
  | mk result later =>
    cases result with
    | ok value =>
      rw [Eval.locate, found] at stops
      cases stops
    | error halt =>
      rw [Eval.locate_of_error _ found] at stops
      cases halt <;> cases stops
      rfl

namespace Request

/-- Why the rule of an evaluation is too deep: something is that it asks for, or it writes out a value that is nested
deeper than what is left. -/
def TooDeep (request : Request) (depth : Nat) (after : Store) : Prop :=
  (∃ part, request.Asks depth part ∧ part.answer (evalWithin depth) = (.error .tooDeep, after)) ∨
    ∃ value shown, request.Renders depth value shown ∧ ¬shown.NestsWithin depth value

variable {depth scope : Nat} {mark : Mark} {store after : Store}

theorem print_tooDeep {shown : Expr} {newline : Bool}
    (stops : Rule.print (evalWithin depth) (showWithin depth) scope shown newline store = (.error .tooDeep, after)) :
    TooDeep ⟨.print mark shown newline, scope, store⟩ depth after := by
  by_cases word : ∀ mark, shown ≠ .none mark
  · have asks : Request.Asks ⟨.print mark shown newline, scope, store⟩ depth ⟨shown, scope, store⟩ := by
      intro halt later
      change Rule.print _ (showWithin depth) scope shown newline store = _
      rw [Rule.print, Rule.printed_of_ne word]
      exact Eval.bind_of_error (Eval.bind_of_error (Rule.answer_stopping _ _ halt later))
    rw [Rule.print, Rule.printed_of_ne word] at stops
    obtain stops | ⟨_, _, _, stops⟩ := Eval.bind_eq_error stops
    · obtain stops | ⟨value, middle, gives, stops⟩ := Eval.bind_eq_error stops
      · exact .inl ⟨_, asks, stops⟩
      · exact .inr ⟨value, middle, .printed word gives, showWithin_tooDeep stops⟩
    · cases stops
  · simp only [not_forall, not_not] at word
    obtain ⟨mark, rfl⟩ := word
    cases stops

theorem concat_tooDeep {left right : Expr}
    (stops : Rule.join (evalWithin depth) (showWithin depth) scope .concat left right store =
      (.error .tooDeep, after)) :
    TooDeep ⟨.join mark .concat left right, scope, store⟩ depth after := by
  have asks : Request.Asks ⟨.join mark .concat left right, scope, store⟩ depth ⟨left, scope, store⟩ :=
    Rule.asks_evaluate.bind_left
  obtain stops | ⟨a, middle, gives, stops⟩ := Eval.bind_eq_error stops
  · exact .inl ⟨_, asks, stops⟩
  have asks' : Request.Asks ⟨.join mark .concat left right, scope, store⟩ depth ⟨right, scope, middle⟩ := by
    have first : Rule.Uniform (fun _ => True) fun evaluate => evaluate left scope := .ask left scope
    exact .bind_right first gives Rule.asks_evaluate.bind_left
  obtain stops | ⟨b, last, gives', stops⟩ := Eval.bind_eq_error stops
  · exact .inl ⟨_, asks', stops⟩
  -- both sides are known: the left one is written out first, then the right one
  obtain stops | ⟨text, final, shown, stops⟩ := Eval.bind_eq_error stops
  · exact .inr ⟨a, last, .joined gives gives' (.inl rfl), showWithin_tooDeep stops⟩
  have quiet : last = final := by rw [← Contract.showWithin_quiet depth a last, shown]
  rw [← quiet] at stops
  obtain stops | ⟨_, _, _, stops⟩ := Eval.bind_eq_error stops
  · exact .inr ⟨b, last, .joined gives gives' (.inr rfl), showWithin_tooDeep stops⟩
  · cases stops

theorem tooDeep_of_rule {request : Request}
    (stops : request.rule depth (evalWithin depth) request.store = (.error .tooDeep, after)) :
    request.TooDeep depth after := by
  obtain ⟨expr, scope, store⟩ := request
  by_cases shows : expr.Shows
  · cases expr with
    | print mark shown newline => exact print_tooDeep stops
    | join mark joint left right =>
      cases joint with
      | concat => exact concat_tooDeep stops
      | _ => exact shows.elim
    | _ => exact shows.elim
  · have uniform := (Rule.apply_plan expr scope).uniform_shallow shows (showWithin depth)
    obtain shallow | asked := uniform.blames stops
    · exact absurd rfl shallow
    · exact .inl asked

end Request

/-- What is evaluated on the way from a tree that calls no function is nested no deeper than the tree is high. -/
theorem Visits.height_le {depth left : Nat} {request inner : Request} (visits : Visits depth request left inner)
    (free : request.expr.CallFree) : depth + inner.expr.height ≤ left + request.expr.height := by
  induction visits with
  | here => exact Nat.le_refl _
  | onward asks visits ih =>
    obtain ⟨reached, begins⟩ := asks.begins
    cases begins with
    | operand below =>
      have within := ih (free.operand below)
      have lower := Expr.height_lt_of_operand below
      dsimp only at within
      omega
    | enter calls => exact absurd calls (free _ .refl)

/-- The evaluation of a tree that calls no function is too deep only if the tree is too high or a value is nested too
deeply where it is written out. -/
theorem Request.tooDeep_callFree {request : Request} (free : request.expr.CallFree) {depth : Nat} {after : Store}
    (stops : request.answer (evalWithin depth) = (.error .tooDeep, after)) :
    depth < request.expr.height ∨ ∃ left inner value shown, Visits depth request (left + 1) inner ∧
      inner.Renders left value shown ∧ ¬shown.NestsWithin left value := by
  induction depth generalizing request with
  | zero => exact .inl request.expr.height_pos
  | succ depth ih =>
    obtain ⟨part, asks, stops⟩ | ⟨value, shown, renders, deep⟩ := tooDeep_of_rule (rule_of_tooDeep stops)
    · obtain ⟨reached, begins⟩ := asks.begins
      cases begins with
      | operand below =>
        obtain high | ⟨left, inner, value, shown, visits, deep⟩ := ih (free.operand below) stops
        · have lower := Expr.height_lt_of_operand below
          dsimp only at high
          exact .inl (by omega)
        · exact .inr ⟨left, inner, value, shown, .onward asks visits, deep⟩
      | enter calls => exact absurd calls (free _ .refl)
    · exact .inr ⟨depth, request, value, shown, .here _ _, renders, deep⟩

/-- Evaluation of a tree that calls no function, in any scope of any store: whatever is evaluated on the way is nested
no deeper than the tree is high, and evaluation is too deep only if the tree is higher than the depth, or if the rule
of some node writes out a value whose containers are nested deeper than what is left of the depth there. -/
theorem evalWithin_callFree {expr : Expr} (free : expr.CallFree) (depth scope : Nat) (store : Store) :
    (∀ left inner, Visits depth ⟨expr, scope, store⟩ left inner → depth + inner.expr.height ≤ left + expr.height) ∧
    ((evalWithin depth expr scope store).1 = .error .tooDeep → depth < expr.height ∨
      ∃ left inner value shown, Visits depth ⟨expr, scope, store⟩ (left + 1) inner ∧
        inner.Renders left value shown ∧ ¬shown.NestsWithin left value) := by
  refine ⟨fun left inner visits => visits.height_le free, fun stops => ?_⟩
  have answer : Request.answer ⟨expr, scope, store⟩ (evalWithin depth) =
      (.error .tooDeep, (evalWithin depth expr scope store).2) := Prod.ext stops rfl
  exact Request.tooDeep_callFree free answer

/-- A loop over a list that puts the list into itself, and then its printing. Four levels are enough for the tree; no
number of levels is for the list. -/
theorem evalWithin_callFree_cyclic :
    let name := Expr.name .absent "l"
    let zero := Expr.literal .absent .int "0"
    let expr := Expr.block .absent [.assign .absent "l" (.list .absent [zero]),
      .loop .absent "x" name (.store .absent name zero name), .print .absent name true]
    let start := (Store.empty.addRoot [] Store.standardSink .dynamic).2
    expr.CallFree ∧ expr.height = 4 ∧ (evalWithin 9 expr 0 start).1 = .error .tooDeep ∧
      ∃ left inner value shown, Visits 9 ⟨expr, 0, start⟩ (left + 1) inner ∧
        inner.Renders left value shown ∧ ¬shown.NestsWithin left value := by
  intro name zero expr start
  have free : expr.CallFree := by
    have named : name.CallFree := .of_operands id (List.forall_mem_nil _)
    have number : zero.CallFree := .of_operands id (List.forall_mem_nil _)
    refine .of_operands id (List.forall_mem_cons.mpr ⟨?_, List.forall_mem_cons.mpr
      ⟨?_, List.forall_mem_singleton.mpr ?_⟩⟩)
    · exact .of_operands id (List.forall_mem_singleton.mpr (.of_operands id (List.forall_mem_singleton.mpr number)))
    · refine .of_operands id (List.forall_mem_cons.mpr ⟨named, List.forall_mem_singleton.mpr (.of_operands id ?_)⟩)
      exact List.forall_mem_cons.mpr ⟨named, List.forall_mem_cons.mpr ⟨number, List.forall_mem_singleton.mpr named⟩⟩
    · exact .of_operands id (List.forall_mem_singleton.mpr named)
  have height : expr.height = 4 := rfl
  have stops : (evalWithin 9 expr 0 start).1 = .error .tooDeep := rfl
  refine ⟨free, height, stops, ?_⟩
  obtain high | rendered := (evalWithin_callFree free 9 0 start).2 stops
  · rw [height] at high
    exact absurd high (by decide)
  · exact rendered

/-! Nodes and containers use up the same depth, so neither has to be nested deeper than the limit -/

/-- An expression inside of so many blocks. -/
def Expr.enclosed (expr : Expr) : (blocks : Nat) → Expr
  | 0 => expr
  | blocks + 1 => .block .absent [expr.enclosed blocks]

theorem Expr.CallFree.enclosed {expr : Expr} (free : expr.CallFree) (blocks : Nat) :
    (expr.enclosed blocks).CallFree := by
  induction blocks with
  | zero => exact free
  | succ blocks ih => exact .of_operands id (List.forall_mem_singleton.mpr ih)

theorem Expr.height_enclosed (expr : Expr) (blocks : Nat) : (expr.enclosed blocks).height = expr.height + blocks := by
  induction blocks with
  | zero => rfl
  | succ blocks ih => simp [Expr.enclosed, height, heightAll, ih, Nat.add_assoc]

theorem evalWithin_enclosed {expr : Expr} {scope depth : Nat} {store after : Store}
    (stops : evalWithin depth expr scope store = (.error .tooDeep, after)) (blocks : Nat) :
    evalWithin (depth + blocks) (expr.enclosed blocks) scope store = (.error .tooDeep, after) := by
  induction blocks with
  | zero => exact stops
  | succ blocks ih => exact Eval.locate_of_error .absent (Eval.bind_of_error ih)

/-- The names of a scope see one list, which holds a list, and so on for so many lists. -/
def Store.tower (levels : Nat) : Store where
  containers := (Array.range levels).map fun level => .list [if level = 0 then .int 0 else .list (level - 1)]
  scopes := #[⟨[("l", .list (levels - 1))], none, standardSink, .dynamic⟩]
  sinks := #[""]
  nans := 0

theorem Store.items_tower (levels : Nat) {level : Nat} (inside : level < levels) :
    (tower levels).items level = [if level = 0 then .int 0 else .list (level - 1)] := by
  simp [tower, items, inside]

/-- A list of the tower is nested as deep as it stands high. -/
theorem Store.nestsWithin_tower_iff {levels level : Nat} (inside : level < levels) (depth : Nat) :
    (tower levels).NestsWithin depth (.list level) ↔ level < depth := by
  induction depth generalizing level with
  | zero => simp [NestsWithin]
  | succ depth ih =>
    have held (member : Value) : (tower levels).Holds (.list level) member ↔
        member = if level = 0 then .int 0 else .list (level - 1) := by
      rw [← List.mem_singleton, ← items_tower levels inside]
      exact ⟨fun holds => by cases holds; assumption, .item⟩
    simp only [NestsWithin, held, forall_eq]
    split
    · have leaf : (tower levels).NestsWithin depth (.int 0) := by
        cases depth with
        | zero => trivial
        | succ => exact fun _ holds => by cases holds
      exact iff_of_true leaf (by omega)
    · rw [ih (by omega)]
      omega

/-- Nothing in the tower is nested deeper than the tower is high. -/
theorem Store.nestsWithin_tower {levels depth : Nat} (enough : levels < depth) (value : Value) :
    (tower levels).NestsWithin depth value := by
  obtain ⟨depth, rfl⟩ : ∃ less, depth = less + 1 := ⟨depth - 1, by omega⟩
  intro member holds
  cases holds with
  | @item level member among =>
    by_cases inside : level < levels
    · exact (nestsWithin_tower_iff inside (depth + 1)).mpr (by omega) member (.item among)
    · simp [tower, items, inside] at among
  | @entry level key member among =>
    by_cases inside : level < levels <;> simp [tower, entries, inside] at among

/-- A tree that calls no function can be too deep although it is no higher than the limit and no value there is has
containers that are nested deeper than the limit: 3830 blocks leave too little of it for 2200 lists. -/
theorem evalWithin_tooDeep_within_limit :
    let expr := (Expr.print .absent (.name .absent "l") true).enclosed 3830
    let store := Store.tower 2200
    expr.CallFree ∧ expr.height ≤ 6000 ∧ (∀ value, store.NestsWithin 6000 value) ∧
      evalWithin 6000 expr 0 store = (.error .tooDeep, store) := by
  intro expr store
  refine ⟨?_, ?_, Store.nestsWithin_tower (by decide), ?_⟩
  · have leaf : (Expr.name .absent "l").CallFree := .of_operands id (List.forall_mem_nil _)
    have shown : (Expr.print .absent (.name .absent "l") true).CallFree :=
      .of_operands id (List.forall_mem_singleton.mpr leaf)
    exact shown.enclosed 3830
  · rw [Expr.height_enclosed]
    decide
  · have found : evalWithin 2169 (.name .absent "l") 0 store = (.ok (.list 2199), store) := rfl
    have deep : showWithin 2169 (.list 2199) store = (.error .tooDeep, store) := by
      have unshown : store.text? 2169 (.list 2199) = none := by
        rw [← Option.not_isSome_iff_eq_none, Store.isSome_text?_iff, Store.nestsWithin_tower_iff (by decide)]
        decide
      rw [showWithin, unshown]
    have stops : evalWithin 2170 (.print .absent (.name .absent "l") true) 0 store = (.error .tooDeep, store) :=
      Eval.locate_of_error .absent (Eval.bind_of_error ((Eval.bind_of_ok found).trans deep))
    exact evalWithin_enclosed stops 3830

end Corvid
