import Corvid.Proofs.Eval.Faults
import Corvid.Proofs.Expr.Parts
import Corvid.Proofs.Store.Frames

/-!
What a rule does, step by step. It evaluates operands of its node in its own scope, writes values out, writes text, and
enters the body of a called function in a new scope; all other steps leave the frames of scopes and the output as they
are, and containers too unless the node stores into one, and never stop for want of depth. Whatever is to be known about
every rule can be derived from these few steps.
-/
namespace Corvid

namespace Expr

/-- The nodes that call a function. -/
def Calls : Expr → Prop
  | call .. => True
  | _ => False

/-- The nodes that print. -/
def Prints : Expr → Prop
  | print .. => True
  | _ => False

/-- The nodes that write values out. -/
def Shows : Expr → Prop
  | print .. | join _ .concat _ _ => True
  | _ => False

/-- The nodes that store into a container. -/
def Stores : Expr → Prop
  | store .. => True
  | _ => False

end Expr

/-- All containers of a store are still what they were; there may be new ones. -/
def Store.Retains (before after : Store) : Prop :=
  ∀ (handle : Nat) (container : Container), before.containers[handle]? = some container →
    after.containers[handle]? = some container

namespace Store.Retains

theorem of_same {before after : Store} (containers : after.containers = before.containers) : before.Retains after :=
  fun _ _ known => containers ▸ known

theorem refl (store : Store) : store.Retains store := of_same rfl

theorem allocate (store : Store) (container : Container) : store.Retains (store.allocate container).2 := by
  intro handle old known
  have bound := (Array.getElem?_eq_some_iff.mp known).1
  rw [Store.allocate, Array.getElem?_push, if_neg (Nat.ne_of_lt bound)]
  exact known

end Store.Retains

/-- Nothing has happened to frames and output from one store to another. -/
structure Store.Still (before after : Store) : Prop where
  frames : ∀ index : Nat, after.scopes[index]?.map Scope.frame = before.scopes[index]?.map Scope.frame
  sinks : after.sinks = before.sinks

namespace Store.Still

theorem of_same {before after : Store} (scopes : after.scopes = before.scopes) (sinks : after.sinks = before.sinks) :
    before.Still after :=
  ⟨fun index => by rw [scopes], sinks⟩

theorem refl (store : Store) : store.Still store := of_same rfl rfl

theorem bind (store : Store) (scope : Nat) (name : String) (value : Value) :
    store.Still (store.bind scope name value) :=
  ⟨store.frame_bind scope name value, rfl⟩

theorem size_eq {before after : Store} (still : before.Still after) : after.scopes.size = before.scopes.size := by
  have ends (index : Nat) : after.scopes.size ≤ index ↔ before.scopes.size ≤ index := by
    have same := still.frames index
    rw [← Array.getElem?_eq_none_iff, ← Array.getElem?_eq_none_iff, ← Option.map_eq_none_iff (f := Scope.frame), same,
      Option.map_eq_none_iff]
  exact Nat.le_antisymm ((ends _).mpr (Nat.le_refl _)) ((ends _).mp (Nat.le_refl _))

end Store.Still

namespace Rule

/-- A step that leaves frames and output as they are, and containers unless the node stores into one, and that stops
with nothing but what its node may stop with on its own account, and not for want of depth. -/
structure Calm (expr : Expr) {α : Type} (inner : Eval α) : Prop where
  still : ∀ store : Store, store.Still (inner store).2
  retains : ¬expr.Stores → ∀ store : Store, store.Retains (inner store).2
  stops : ∀ store halt after, inner store = (.error halt, after) → expr.Own halt ∧ halt ≠ .tooDeep

namespace Calm

variable {expr : Expr} {α : Type}

theorem pure (a : α) : Calm expr (Pure.pure a : Eval α) :=
  ⟨.refl, fun _ => .refl, fun _ _ _ stops => nomatch stops⟩

theorem fail {cause : Fault} (own : expr.Own (.fault cause .absent)) : Calm expr (Eval.fail cause : Eval α) :=
  ⟨.refl, fun _ => .refl, fun _ _ _ stops => by cases stops; exact ⟨own, Halt.noConfusion⟩⟩

theorem read (view : Store → α) : Calm expr (Eval.read view) :=
  ⟨.refl, fun _ => .refl, fun _ _ _ stops => nomatch stops⟩

theorem update {change : Store → Store} (still : ∀ store : Store, store.Still (change store))
    (retains : ¬expr.Stores → ∀ store : Store, store.Retains (change store)) : Calm expr (Eval.change change) :=
  ⟨still, retains, fun _ _ _ stops => nomatch stops⟩

theorem allocate (container : Container) : Calm expr (Eval.create (·.allocate container)) :=
  ⟨fun _ => .of_same rfl rfl, fun _ store => .allocate store container, fun _ _ _ stops => nomatch stops⟩

theorem drawTag : Calm expr Eval.drawTag :=
  ⟨fun _ => .of_same rfl rfl, fun _ _ => .of_same rfl, fun _ _ _ stops => nomatch stops⟩

theorem ofOutcome {joint : Joint} {result : Except Fault Value} (outcome : joint.Outcome result) (mark : Mark)
    (left right : Expr) : Calm (.join mark joint left right) (Eval.ofExcept result) := by
  cases outcome with
  | value => exact .pure _
  | @fault cause plain =>
    by_cases matched : joint.Matched
    · exact .fail (.plain _ (plain matched))
    · exact .fail (.unmatched mark left right matched cause)

theorem literal (mark : Mark) (kind : LiteralKind) (lexeme : String) :
    Calm (.literal mark kind lexeme) (Rule.literal kind lexeme) := by
  have outcome := literalValue_outcome kind lexeme
  unfold Rule.literal
  cases found : literalValue kind lexeme with
  | ok value => exact .pure value
  | error halt =>
    refine ⟨.refl, fun _ => .refl, fun _ _ _ stops => ?_⟩
    rw [found] at outcome
    cases stops
    exact ⟨.literal mark found, by cases outcome <;> exact Halt.noConfusion⟩

end Calm

/-- What the rule of a node does in a scope. -/
inductive Plan (expr : Expr) (scope : Nat) : {α : Type} → (Evaluator → (Value → Eval String) → Eval α) → Prop where
  | own {α : Type} {inner : Eval α} (calm : Calm expr inner) : Plan expr scope fun _ _ => inner
  | operand {part : Expr} (below : part ∈ expr.operands) : Plan expr scope fun evaluate _ => evaluate part scope
  | render (shows : expr.Shows) (value : Value) : Plan expr scope fun _ render => render value
  | write (prints : expr.Prints) (text : String) : Plan expr scope fun _ _ => Eval.change (·.write scope text)
  /-- The body of a called function is evaluated in a scope that is made for it. -/
  | enter (calls : expr.Calls) (bindings : Bindings) (body : Expr) :
      Plan expr scope fun evaluate _ => Eval.create (·.addCall scope bindings) >>= evaluate body
  | bind {α β : Type} {first : Evaluator → (Value → Eval String) → Eval α}
      {next : α → Evaluator → (Value → Eval String) → Eval β} (before : Plan expr scope first)
      (behind : ∀ a, Plan expr scope (next a)) :
      Plan expr scope fun evaluate render => first evaluate render >>= fun a => next a evaluate render

namespace Plan

variable {expr : Expr} {scope : Nat} {α : Type}

theorem pure (a : α) : Plan expr scope fun _ _ => (Pure.pure a : Eval α) := .own (.pure a)

theorem read (view : Store → α) : Plan expr scope fun _ _ => Eval.read view := .own (.read view)

theorem fail {cause : Fault} (plain : cause.Plain) : Plan expr scope fun _ _ => (Eval.fail cause : Eval α) :=
  .own (.fail (.plain expr plain))

theorem bound (name : String) (value : Value) : Plan expr scope fun _ _ => Eval.change (·.bind scope name value) :=
  .own (.update (fun store => .bind store scope name value) fun _ _ => .of_same rfl)

theorem stored (stores : expr.Stores) {change : Store → Store} (scopes : ∀ store, (change store).scopes = store.scopes)
    (sinks : ∀ store, (change store).sinks = store.sinks) : Plan expr scope fun _ _ => Eval.change change :=
  .own (.update (fun store => .of_same (scopes store) (sinks store)) fun other => absurd stores other)

end Plan

section Rules

variable {expr : Expr} {scope : Nat}

theorem evalAll_plan {exprs : List Expr} (below : ∀ part ∈ exprs, part ∈ expr.operands) :
    Plan expr scope fun evaluate _ => evalAll evaluate scope exprs := by
  induction exprs with
  | nil => exact .pure []
  | cons part rest ih =>
    obtain ⟨first, others⟩ := List.forall_mem_cons.mp below
    exact .bind (.operand first) fun _ => .bind (ih others) fun _ => .pure _

theorem evalBlock_plan {exprs : List Expr} (below : ∀ part ∈ exprs, part ∈ expr.operands) (last : Value) :
    Plan expr scope fun evaluate _ => evalBlock evaluate scope exprs last := by
  induction exprs generalizing last with
  | nil => exact .pure last
  | cons part rest ih =>
    obtain ⟨first, others⟩ := List.forall_mem_cons.mp below
    exact .bind (.operand first) (ih others)

theorem requireKey_plan (value : Value) : Plan expr scope fun _ _ => requireKey value := by
  unfold requireKey
  split
  · exact .pure _
  · exact .fail trivial

theorem requireIndex_plan (value : Value) : Plan expr scope fun _ _ => requireIndex value := by
  cases value with
  | int index => exact .pure index
  | _ => exact .fail trivial

theorem inBounds_plan (index : Int) (length : Nat) : Plan expr scope fun _ _ => inBounds index length := by
  unfold inBounds
  split
  · exact .pure _
  · exact .fail trivial

theorem evalPairs_plan {pairs : List (Expr × Expr)}
    (below : ∀ pair ∈ pairs, pair.1 ∈ expr.operands ∧ pair.2 ∈ expr.operands) (entries : Entries) :
    Plan expr scope fun evaluate _ => evalPairs evaluate scope pairs entries := by
  induction pairs generalizing entries with
  | nil => exact .pure entries
  | cons pair rest ih =>
    obtain ⟨⟨key, value⟩, others⟩ := List.forall_mem_cons.mp below
    exact .bind (.operand key) fun found => .bind (requireKey_plan found) fun _ =>
      .bind (.operand value) fun _ => ih others _

theorem name_plan (text : String) : Plan expr scope fun _ _ => name scope text := by
  refine .bind (.read _) fun found => ?_
  cases found with
  | some value => exact .pure value
  | none => exact .fail trivial

theorem subscript_plan {target index : Expr} (first : target ∈ expr.operands) (second : index ∈ expr.operands) :
    Plan expr scope fun evaluate _ => subscript evaluate scope target index := by
  refine .bind (.operand first) fun container => ?_
  cases container with
  | list handle =>
    refine .bind (.operand second) fun value => .bind (requireIndex_plan value) fun offset => ?_
    by_cases negative : offset < 0
    · simp only [if_pos negative]
      exact .fail trivial
    · simp only [if_neg negative]
      exact .bind (.read _) fun items => .bind (inBounds_plan offset _) fun position => .pure _
  | dict handle =>
    exact .bind (.operand second) fun value => .bind (requireKey_plan value) fun key =>
      .bind (.read _) fun entries => .pure _
  | _ => exact .fail trivial

theorem store_plan (stores : expr.Stores) {target index value : Expr} (first : target ∈ expr.operands)
    (second : index ∈ expr.operands) (third : value ∈ expr.operands) :
    Plan expr scope fun evaluate _ => Rule.store evaluate scope target index value := by
  refine .bind (.operand first) fun container => ?_
  cases container with
  | list handle =>
    exact .bind (.operand second) fun place => .bind (requireIndex_plan place) fun offset =>
      .bind (.operand third) fun _ => .bind (.read _) fun items => .bind (inBounds_plan offset _) fun position =>
        .bind (.stored stores (fun _ => rfl) fun _ => rfl) fun _ => .pure _
  | dict handle =>
    exact .bind (.operand second) fun place => .bind (requireKey_plan place) fun key =>
      .bind (.operand third) fun _ => .bind (.stored stores (fun _ => rfl) fun _ => rfl) fun _ => .pure _
  | _ => exact .fail trivial

theorem negate_plan {operand : Expr} (below : operand ∈ expr.operands) :
    Plan expr scope fun evaluate _ => negate evaluate scope operand := by
  refine .bind (.operand below) fun value => ?_
  cases value with
  | bool b => exact .pure _
  | _ => exact .fail trivial

theorem conditional_plan {condition yes no : Expr} (test : condition ∈ expr.operands) (first : yes ∈ expr.operands)
    (second : no ∈ expr.operands) : Plan expr scope fun evaluate _ => conditional evaluate scope condition yes no := by
  refine .bind (.operand test) fun value => ?_
  cases value with
  | bool truth =>
    cases truth with
    | true => exact .operand first
    | false => exact .operand second
  | _ => exact .fail trivial

theorem course_plan (source : Value) : Plan expr scope fun _ _ => course source := by
  cases source with
  | list | dict => exact .bind (.read _) fun _ => .pure _
  | range => exact .pure _
  | _ => exact .fail trivial

theorem turns_plan (text : String) {body : Expr} (below : body ∈ expr.operands) (through : Course) (left : Nat)
    (last : Value) : Plan expr scope fun evaluate _ => turns evaluate scope text body through left last := by
  induction left generalizing last with
  | zero => exact .pure last
  | succ left ih => exact .bind (.read _) fun item => .bind (.bound text item) fun _ => .bind (.operand below) ih

theorem loop_plan (text : String) {source body : Expr} (first : source ∈ expr.operands)
    (second : body ∈ expr.operands) : Plan expr scope fun evaluate _ => loop evaluate scope text source body :=
  .bind (.operand first) fun value => .bind (course_plan value) fun through =>
    turns_plan text second through through.count .none

theorem call_plan (calls : expr.Calls) (text : String) {arguments : List Expr}
    (below : ∀ part ∈ arguments, part ∈ expr.operands) :
    Plan expr scope fun evaluate _ => call evaluate scope text arguments := by
  refine .bind (name_plan text) fun value => ?_
  cases value with
  | function called parameters body =>
    by_cases differ : parameters.length ≠ arguments.length
    · simp only [if_pos differ]
      exact .fail trivial
    · simp only [if_neg differ]
      exact .bind (evalAll_plan below) fun values => .enter calls _ body
  | _ => exact .fail trivial

theorem printed_plan (shows : expr.Shows) {shown : Expr} (below : shown ∈ expr.operands) :
    Plan expr scope fun evaluate render => printed evaluate render scope shown := by
  cases shown with
  | none mark => exact .pure ""
  | _ => exact .bind (.operand below) (.render shows)

theorem print_plan (prints : expr.Prints) (shows : expr.Shows) {shown : Expr} (below : shown ∈ expr.operands)
    (newline : Bool) : Plan expr scope fun evaluate render => print evaluate render scope shown newline :=
  .bind (printed_plan shows below) fun _ => .bind (.write prints _) fun _ => .pure _

theorem combine_plan (mark : Mark) (joint : Joint) (left right : Expr) (a b : Value) :
    Plan (.join mark joint left right) scope fun _ render => combine render joint a b := by
  cases joint with
  | arithmetic op => exact .bind (.own .drawTag) fun fresh => .own (.ofOutcome (arithmetic_outcome op fresh a b) ..)
  | logical op => exact .own (.ofOutcome (logical_outcome op a b) ..)
  | equality comparator => exact .own (.ofOutcome (equality_outcome comparator a b) ..)
  | comparison comparator => exact .own (.ofOutcome (comparison_outcome comparator a b) ..)
  | concat =>
    have shows : (Expr.join mark .concat left right).Shows := trivial
    exact .bind (.render shows a) fun _ => .bind (.render shows b) fun _ => .pure _
  | range => exact .own (.ofOutcome (rangeBetween_outcome a b) ..)

end Rules

/-- The rule of every node has a plan. -/
theorem apply_plan (expr : Expr) (scope : Nat) :
    Plan expr scope fun evaluate render => apply evaluate render scope expr := by
  have parts : ∀ part ∈ expr.operands, part ∈ expr.operands := fun _ => id
  cases expr with
  | none mark => exact .pure _
  | literal mark kind lexeme => exact .own (.literal mark kind lexeme)
  | name mark text => exact name_plan text
  | assign mark text value =>
    simp only [Expr.operands, Expr.children, List.forall_mem_singleton] at parts
    exact .bind (.operand parts) fun value => .bind (.bound text value) fun _ => .pure _
  | list mark elements => exact .bind (evalAll_plan parts) fun _ => .bind (.own (.allocate _)) fun _ => .pure _
  | dict mark pairs =>
    have below (pair : Expr × Expr) (member : pair ∈ pairs) (part : Expr) (either : part ∈ [pair.1, pair.2]) :
        part ∈ (Expr.dict mark pairs).operands := List.mem_flatMap.mpr ⟨pair, member, either⟩
    refine .bind (evalPairs_plan (fun pair member => ⟨?_, ?_⟩) []) fun _ =>
      .bind (.own (.allocate _)) fun _ => .pure _
    · exact below pair member pair.1 (by simp)
    · exact below pair member pair.2 (by simp)
  | subscript mark target index =>
    exact subscript_plan (by simp [Expr.operands, Expr.children]) (by simp [Expr.operands, Expr.children])
  | store mark target index value =>
    have stores : (Expr.store mark target index value).Stores := trivial
    exact store_plan stores (by simp [Expr.operands, Expr.children]) (by simp [Expr.operands, Expr.children])
      (by simp [Expr.operands, Expr.children])
  | join mark joint left right =>
    obtain ⟨first, second⟩ : left ∈ (Expr.join mark joint left right).operands ∧
        right ∈ (Expr.join mark joint left right).operands := by simp [Expr.operands, Expr.children]
    exact .bind (.operand first) fun a => .bind (.operand second) fun b => combine_plan mark joint left right a b
  | negate mark operand => exact negate_plan (by simp [Expr.operands, Expr.children])
  | block mark body => exact evalBlock_plan parts .none
  | conditional mark condition yes no =>
    exact conditional_plan (by simp [Expr.operands, Expr.children]) (by simp [Expr.operands, Expr.children])
      (by simp [Expr.operands, Expr.children])
  | loop mark item source body =>
    exact loop_plan item (by simp [Expr.operands, Expr.children]) (by simp [Expr.operands, Expr.children])
  | function mark text parameters body => exact .bind (.bound text _) fun _ => .pure _
  | call mark text arguments =>
    have calls : (Expr.call mark text arguments).Calls := trivial
    exact call_plan calls text parts
  | print mark shown newline =>
    have prints : (Expr.print mark shown newline).Prints := trivial
    exact print_plan prints trivial (by simp [Expr.operands, Expr.children]) newline
  | unknown mark kind => exact .own (.fail (.unknown mark kind))

/-- A rule uses evaluation in no other way than by asking for it. -/
theorem Plan.uniform {expr : Expr} {scope : Nat} {α : Type}
    {computation : Evaluator → (Value → Eval String) → Eval α} (plan : Plan expr scope computation)
    {render : Value → Eval String} (writes : StopsDeep render) :
    Uniform expr.Own fun evaluate => computation evaluate render := by
  induction plan with
  | own calm => exact .step fun store halt after stops => (calm.stops store halt after stops).1
  | operand below => exact .ask _ scope
  | render shows value =>
    refine .step fun store halt after stops => ?_
    rw [writes value store halt after stops]
    exact .deep expr
  | write prints text => exact .update _
  | enter calls bindings body => exact .bind (.create _) fun inner => .ask body inner
  | bind before behind ih ih' => exact .bind ih ih'

/-- The rule of every node asks for evaluations and does nothing else with them. -/
theorem apply_uniform {render : Value → Eval String} (writes : StopsDeep render) (scope : Nat) (expr : Expr) :
    Uniform expr.Own fun evaluate => apply evaluate render scope expr :=
  (apply_plan expr scope).uniform writes

end Rule

end Corvid
