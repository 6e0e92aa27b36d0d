import Corvid.Proofs.Eval.Contract

/-!
The evaluations that a run comes to, in their order. A rule has operands evaluated in its own scope and, if it calls a
function, the body in a scope made for the call, one after another; between them it changes neither frames nor output,
and a node that prints adds its text when they are done. Whatever is nested in a run is reached by such steps.
-/
namespace Corvid

namespace Rule

/-- The evaluations that a node can ask for when its rule has come to a store: of an operand, in its own scope, or of
the body of a function that it calls, in a scope made for the call. -/
inductive Begins (expr : Expr) (scope : Nat) (reached : Store) : Request → Prop where
  | operand {part : Expr} (below : part ∈ expr.operands) : Begins expr scope reached ⟨part, scope, reached⟩
  | enter (calls : expr.Calls) (bindings : Bindings) (body : Expr) :
      Begins expr scope reached ⟨body, (reached.addCall scope bindings).1, (reached.addCall scope bindings).2⟩

/-- The evaluations, in order, by which a rule goes from one store to another. -/
inductive Path (evaluate : Evaluator) (expr : Expr) (scope : Nat) : Store → List Request → Store → Prop where
  | still {before after : Store} (still : before.Still after) : Path evaluate expr scope before [] after
  | part {before : Store} {part : Request} (begins : Begins expr scope before part) :
      Path evaluate expr scope before [part] (part.answer evaluate).2
  | append {first middle last : Store} {earlier later : List Request}
      (path : Path evaluate expr scope first earlier middle) (path' : Path evaluate expr scope middle later last) :
      Path evaluate expr scope first (earlier ++ later) last

/-- The only evaluation that entering a body asks for is that of the body. -/
theorem eq_of_asks_enter {caller : Nat} {bindings : Bindings} {body : Expr} {evaluate : Evaluator} {store : Store}
    {part : Request}
    (asks : Asks (fun evaluate => Eval.create (·.addCall caller bindings) >>= evaluate body) evaluate store part) :
    part = ⟨body, (store.addCall caller bindings).1, (store.addCall caller bindings).2⟩ := by
  have made : Uniform (fun _ => True) fun _ => Eval.create (·.addCall caller bindings) := .create _
  obtain never | ⟨inner, middle, found, asks⟩ := asks.of_bind made
  · exact absurd never not_asks_step
  · cases found
    exact eq_of_asks_evaluate asks

/-- A computation that goes from a store on by evaluations of a node, and they are all that it asks for. -/
def Walks (evaluate : Evaluator) (expr : Expr) (scope : Nat) {α : Type} (computation : Evaluator → Eval α)
    (store : Store) : Prop :=
  ∃ parts, Path evaluate expr scope store parts (computation evaluate store).2 ∧
    ∀ part, Asks computation evaluate store part ↔ part ∈ parts

namespace Walks

variable {evaluate : Evaluator} {expr : Expr} {scope : Nat} {α β : Type} {store : Store}

theorem still {step : Eval α} (still : store.Still (step store).2) :
    Walks evaluate expr scope (fun _ => step) store :=
  ⟨[], .still still, fun _ => ⟨fun asks => absurd asks not_asks_step, fun among => absurd among List.not_mem_nil⟩⟩

theorem operand {part : Expr} (below : part ∈ expr.operands) :
    Walks evaluate expr scope (fun evaluate => evaluate part scope) store := by
  refine ⟨_, .part (.operand below), fun part => ?_⟩
  rw [List.mem_singleton]
  constructor
  · exact eq_of_asks_evaluate
  · rintro rfl
    exact asks_evaluate

theorem enter (calls : expr.Calls) (bindings : Bindings) (body : Expr) :
    Walks evaluate expr scope (fun evaluate => Eval.create (·.addCall scope bindings) >>= evaluate body) store := by
  refine ⟨_, .part (.enter calls bindings body), fun part => ?_⟩
  rw [List.mem_singleton]
  constructor
  · exact eq_of_asks_enter
  · rintro rfl
    have made : Uniform (fun _ => True) fun _ => Eval.create (·.addCall scope bindings) := .create _
    exact .bind_right made rfl asks_evaluate

theorem bind {own : Halt → Prop} {first : Evaluator → Eval α} {next : α → Evaluator → Eval β}
    (uniform : Uniform own first) (walks : Walks evaluate expr scope first store)
    (behind : ∀ a middle, Walks evaluate expr scope (next a) middle) :
    Walks evaluate expr scope (fun evaluate => first evaluate >>= fun a => next a evaluate) store := by
  obtain ⟨earlier, path, asked⟩ := walks
  rw [Walks]
  cases found : first evaluate store with
  | mk result middle =>
    rw [found] at path
    cases result with
    | error halt =>
      rw [Eval.bind_of_error found]
      refine ⟨earlier, path, fun part => ?_⟩
      rw [← asked]
      refine ⟨fun asks => ?_, Asks.bind_left⟩
      obtain asks | ⟨a, _, goes, _⟩ := asks.of_bind uniform
      · exact asks
      · cases found.symm.trans goes
    | ok a =>
      rw [Eval.bind_of_ok found]
      obtain ⟨later, path', asked'⟩ := behind a middle
      refine ⟨earlier ++ later, path.append path', fun part => ?_⟩
      rw [List.mem_append, ← asked, ← asked']
      constructor
      · intro asks
        obtain asks | ⟨_, _, same, asks⟩ := asks.of_bind uniform
        · exact .inl asks
        · cases found.symm.trans same
          exact .inr asks
      · rintro (asks | asks)
        · exact asks.bind_left
        · exact .bind_right uniform found asks

end Walks

/-- A rule that prints nothing goes through the evaluations that it asks for. -/
theorem Plan.walks {expr : Expr} {scope : Nat} {α : Type} {computation : Evaluator → (Value → Eval String) → Eval α}
    (plan : Plan expr scope computation) (silent : ¬expr.Prints) (evaluate : Evaluator)
    {render : Value → Eval String} (writes : StopsDeep render) (quiet : Contract.Quiet render) (store : Store) :
    Walks evaluate expr scope (fun evaluate => computation evaluate render) store := by
  induction plan generalizing store with
  | own calm => exact .still (calm.still store)
  | operand below => exact .operand below
  | render shows value =>
    refine .still ?_
    rw [quiet]
    exact .refl store
  | write prints => exact absurd prints silent
  | enter calls bindings body => exact .enter calls bindings body
  | bind before behind ih ih' => exact .bind (before.uniform writes) (ih store) ih'

/-- A relation between stores that is kept by all that the rule of a node does in a scope. -/
structure Kept (evaluate : Evaluator) (expr : Expr) (scope : Nat) (rel : Store → Store → Prop) : Prop where
  trans : ∀ {first second third}, rel first second → rel second third → rel first third
  still : ∀ {before after : Store}, before.Still after → rel before after
  write : ∀ (before : Store) text, rel before (before.write scope text)
  part : ∀ {reached : Store} {part : Request}, Begins expr scope reached part → rel reached (part.answer evaluate).2

namespace Path

variable {evaluate : Evaluator} {expr : Expr} {scope : Nat} {before after : Store} {parts : List Request}

/-- What all steps keep holds from the start to the end, from the start to where a part begins, and from where it ends
to the end. -/
theorem relates (path : Path evaluate expr scope before parts after) {rel : Store → Store → Prop}
    (kept : Kept evaluate expr scope rel) :
    rel before after ∧ ∀ part ∈ parts, ∃ reached, Begins expr scope reached part ∧ rel before reached ∧
      rel (part.answer evaluate).2 after := by
  have refl (store : Store) : rel store store := kept.still (.refl store)
  induction path with
  | still still => exact ⟨kept.still still, List.forall_mem_nil _⟩
  | part begins => exact ⟨kept.part begins, List.forall_mem_singleton.mpr ⟨_, begins, refl _, refl _⟩⟩
  | append path path' ih ih' =>
    obtain ⟨onward, parts⟩ := ih
    obtain ⟨onward', parts'⟩ := ih'
    refine ⟨kept.trans onward onward', List.forall_mem_append.mpr ⟨fun part among => ?_, fun part among => ?_⟩⟩
    · obtain ⟨reached, begins, there, ends⟩ := parts part among
      exact ⟨reached, begins, there, kept.trans ends onward'⟩
    · obtain ⟨reached, begins, there, ends⟩ := parts' part among
      exact ⟨reached, begins, kept.trans onward there, ends⟩

end Path

/-- What is printed other than the word `none` is evaluated and then written out. -/
theorem printed_of_ne {shown : Expr} (word : ∀ mark, shown ≠ .none mark) (evaluate : Evaluator)
    (render : Value → Eval String) (scope : Nat) :
    printed evaluate render scope shown = (evaluate shown scope >>= render) := by
  cases shown with
  | none mark => exact absurd rfl (word mark)
  | _ => rfl

end Rule

/-- To give a fault its place changes nothing in the store. -/
theorem Eval.locate_snd {α : Type} (mark : Mark) (inner : Eval α) (store : Store) :
    (Eval.locate mark inner store).2 = (inner store).2 := by
  unfold Eval.locate
  split <;> simp_all

namespace Request

/-- The text that a node itself prints, if it is one that prints and gets so far. -/
def line? (depth : Nat) (request : Request) : Option String :=
  match request.expr with
  | .print _ shown newline =>
    match (Rule.printed (evalWithin depth) (showWithin depth) request.scope shown request.store).1 with
    | .ok text => some (if newline then text ++ "\n" else text)
    | .error _ => none
  | _ => none

theorem line?_of_not_prints {request : Request} (silent : ¬request.expr.Prints) (depth : Nat) :
    request.line? depth = none := by
  obtain ⟨expr, scope, store⟩ := request
  cases expr with
  | print => exact absurd trivial silent
  | _ => rfl

/-- What is printed is evaluated, if it is not the word `none`, and then only written out. -/
theorem printed_walks (mark : Mark) (shown : Expr) (newline : Bool) (scope : Nat) (store : Store) (depth : Nat) :
    Rule.Walks (evalWithin depth) (.print mark shown newline) scope
      (fun evaluate => Rule.printed evaluate (showWithin depth) scope shown) store := by
  by_cases word : ∀ mark, shown ≠ .none mark
  · simp only [Rule.printed_of_ne word]
    have asked : Rule.Uniform (fun _ => True) fun evaluate => evaluate shown scope := .ask shown scope
    refine .bind asked (.operand (List.mem_singleton_self shown)) fun value middle => .still ?_
    rw [Contract.showWithin_quiet]
    exact .refl middle
  · simp only [not_forall, not_not] at word
    obtain ⟨_, rfl⟩ := word
    exact .still (.refl store)

/-- How an evaluation goes: through the evaluations that its rule asks for, and then to its own text. -/
theorem sequence (request : Request) (depth : Nat) :
    ∃ parts last, Rule.Path (evalWithin depth) request.expr request.scope request.store parts last ∧
      (∀ part, request.Asks depth part ↔ part ∈ parts) ∧
      (request.answer (evalWithin (depth + 1))).2 =
        match request.line? depth with
        | some line => last.write request.scope line
        | none => last := by
  obtain ⟨expr, scope, store⟩ := request
  have ends : (answer ⟨expr, scope, store⟩ (evalWithin (depth + 1))).2 =
      (Rule.apply (evalWithin depth) (showWithin depth) scope expr store).2 := Eval.locate_snd ..
  rw [ends]
  by_cases prints : expr.Prints
  · cases expr with
    | print mark shown newline =>
      obtain ⟨parts, path, asked⟩ := printed_walks mark shown newline scope store depth
      have shows : (Expr.print mark shown newline).Shows := trivial
      have plan : Rule.Plan (.print mark shown newline) scope fun evaluate render =>
          Rule.printed evaluate render scope shown := Rule.printed_plan shows (List.mem_singleton_self shown)
      have uniform := plan.uniform (showWithin_stopsDeep depth)
      refine ⟨parts, _, path, fun part => Iff.trans ⟨fun asks => ?_, Rule.Asks.bind_left⟩ (asked part), ?_⟩
      · obtain asks | ⟨_, _, _, asks⟩ := asks.of_bind uniform
        · exact asks
        · exact absurd asks Rule.not_asks_step
      · change (Rule.print (evalWithin depth) (showWithin depth) scope shown newline store).2 = _
        rw [line?, Rule.print]
        dsimp only
        cases found : Rule.printed (evalWithin depth) (showWithin depth) scope shown store with
        | mk result after =>
          cases result with
          | error halt => rw [Eval.bind_of_error found]
          | ok text =>
            rw [Eval.bind_of_ok found]
            rfl
    | _ => exact prints.elim
  · obtain ⟨parts, path, asked⟩ := (Rule.apply_plan expr scope).walks prints (evalWithin depth)
      (showWithin_stopsDeep depth) (Contract.showWithin_quiet depth) store
    refine ⟨parts, _, path, asked, ?_⟩
    rw [line?_of_not_prints prints]

/-- What all steps of a rule keep holds from the start to the end, from the start to where something that is asked for
begins, and from where that ends to the end. -/
theorem relates (request : Request) {depth : Nat} {rel : Store → Store → Prop}
    (kept : Rule.Kept (evalWithin depth) request.expr request.scope rel) :
    rel request.store (request.answer (evalWithin (depth + 1))).2 ∧
      ∀ part, request.Asks depth part → ∃ reached, Rule.Begins request.expr request.scope reached part ∧
        rel request.store reached ∧
          rel (part.answer (evalWithin depth)).2 (request.answer (evalWithin (depth + 1))).2 := by
  obtain ⟨parts, last, path, asked, ends⟩ := request.sequence depth
  obtain ⟨onward, within⟩ := path.relates kept
  have finish : rel last (request.answer (evalWithin (depth + 1))).2 := by
    rw [ends]
    split
    · exact kept.write last _
    · exact kept.still (.refl last)
  refine ⟨kept.trans onward finish, fun part asks => ?_⟩
  obtain ⟨reached, begins, there, onward⟩ := within part ((asked part).mp asks)
  exact ⟨reached, begins, there, kept.trans onward finish⟩

theorem Asks.begins {request part : Request} {depth : Nat} (asks : request.Asks depth part) :
    ∃ reached, Rule.Begins request.expr request.scope reached part := by
  have kept : Rule.Kept (evalWithin depth) request.expr request.scope fun _ _ => True :=
    ⟨fun _ _ => trivial, fun _ => trivial, fun _ _ => trivial, fun _ => trivial⟩
  obtain ⟨reached, begins, _⟩ := (request.relates kept).2 part asks
  exact ⟨reached, begins⟩

end Request

/-- The evaluations that an evaluation to a depth comes to, itself included, each with the depth that is left to it. -/
inductive Visits : (depth : Nat) → Request → (left : Nat) → Request → Prop where
  | here (depth : Nat) (request : Request) : Visits depth request depth request
  | onward {depth left : Nat} {request part inner : Request} (asks : request.Asks depth part)
      (visits : Visits depth part left inner) : Visits (depth + 1) request left inner

/-- What an evaluation on the way asks for is on the way too. -/
theorem Visits.ask {depth left : Nat} {request inner part : Request} (visits : Visits depth request (left + 1) inner)
    (asks : inner.Asks left part) : Visits depth request left part := by
  generalize same : left + 1 = next at visits
  induction visits with
  | here =>
    subst same
    exact .onward asks (.here left part)
  | onward earlier _ ih => exact .onward earlier (ih asks same)

end Corvid
