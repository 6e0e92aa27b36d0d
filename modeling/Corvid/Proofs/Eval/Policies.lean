import Corvid.Proofs.Eval.Origin
import Corvid.Proofs.Eval.Shared
import Corvid.Proofs.Store.Frames

/-!
When the policy does not matter. The two policies differ in what a function's body sees of its callers: all of them, or
nothing but the root. Where no body reads a name that some function binds, other than its own parameters, a name that is
read is bound in the scope of the body itself or in no scope but the root. Then both policies find the same values, and
a program runs alike under either.
-/
namespace Corvid

/-- A tree that is to be evaluated in a root of a store. -/
structure Program where
  tree : Expr
  store : Store
  root : Nat
  formed : store.WellFormed
  inside : root < store.scopes.size
  top : store.parentOf root = none

namespace Program

/-- The functions of a program: those that its tree declares, those that the root can get at when it begins, and those
that are declared inside others. -/
inductive Callable (program : Program) : List String → Expr → Prop where
  | declared {mark : Mark} {name : String} {parameters : List String} {body : Expr}
      (within : (Expr.function mark name parameters body).Within program.tree) : Callable program parameters body
  | known {name : String} {parameters : List String} {body : Expr}
      (reached : program.store.Reaches program.root (.function name parameters body)) :
      Callable program parameters body
  | nested {mark : Mark} {name : String} {parameters outer : List String} {body whole : Expr}
      (callable : Callable program outer whole) (within : (Expr.function mark name parameters body).Within whole) :
      Callable program parameters body

/-- The names that functions bind: their parameters, and what the nodes of their bodies bind. -/
def Local (program : Program) (name : String) : Prop :=
  ∃ parameters body, program.Callable parameters body ∧
    (name ∈ parameters ∨ ∃ node : Expr, node.Within body ∧ node.binds? = some name)

/-- A body reads its own parameters and names that no function binds. The bodies of functions that it declares are
taken on their own. -/
def Clear (program : Program) : Prop :=
  ∀ parameters body, program.Callable parameters body → ∀ node : Expr, node.Level body →
    ∀ name, node.reads? = some name → name ∈ parameters ∨ ¬program.Local name

/-- A scope that was made for a call. -/
def New (program : Program) (scope : Nat) : Prop := program.store.scopes.size ≤ scope

/-- The scopes that evaluation has to do with. -/
def Uses (program : Program) (scope : Nat) : Prop := scope = program.root ∨ program.New scope

variable {program : Program}

theorem New.root_lt {scope : Nat} (new : program.New scope) : program.root < scope :=
  Nat.lt_of_lt_of_le program.inside new

/-! The scopes of one run -/

/-- The frames of a run under a policy. The scope of a call is inside the root or, under the dynamic policy, inside the
scope of another call. -/
structure Nested (program : Program) (policy : Scoping) (store : Store) : Prop where
  grown : program.store.scopes.size ≤ store.scopes.size
  top : store.parentOf program.root = none
  scoping : store.scopingOf program.root = policy
  sink : store.sinkOf program.root = program.store.sinkOf program.root
  calls : ∀ (index : Nat) (found : Scope), program.New index → store.scopes[index]? = some found →
    found.scoping = policy ∧ found.sink = program.store.sinkOf program.root ∧
      ∃ outer, found.parent = some outer ∧ outer < index ∧
        (outer = program.root ∨ policy = .dynamic ∧ program.New outer)

namespace Nested

variable {policy : Scoping} {store : Store} (nested : program.Nested policy store)

include nested

theorem exists_call {scope : Nat} (new : program.New scope) (inside : scope < store.scopes.size) :
    ∃ found outer, store.scopes[scope]? = some found ∧ found.scoping = policy ∧
      found.sink = program.store.sinkOf program.root ∧ found.parent = some outer ∧ outer < scope ∧
      (outer = program.root ∨ policy = .dynamic ∧ program.New outer) := by
  have there : store.scopes[scope]? = some store.scopes[scope] := Array.getElem?_eq_getElem inside
  obtain ⟨scoping, sink, outer, outward, older, place⟩ := nested.calls scope _ new there
  exact ⟨_, outer, there, scoping, sink, outward, older, place⟩

theorem scopingOf_eq {scope : Nat} (uses : program.Uses scope) (inside : scope < store.scopes.size) :
    store.scopingOf scope = policy := by
  obtain rfl | new := uses
  · exact nested.scoping
  · obtain ⟨found, _, there, scoping, _⟩ := nested.exists_call new inside
    rw [Store.scopingOf, there]
    exact scoping

theorem sinkOf_eq {scope : Nat} (uses : program.Uses scope) (inside : scope < store.scopes.size) :
    store.sinkOf scope = program.store.sinkOf program.root := by
  obtain rfl | new := uses
  · exact nested.sink
  · obtain ⟨found, _, there, _, sink, _⟩ := nested.exists_call new inside
    rw [Store.sinkOf, there]
    exact sink

/-- Where every function sees nothing but the root, the way outward leads there at once. -/
theorem root_eq {scope : Nat} (uses : program.Uses scope) (inside : scope < store.scopes.size)
    (everywhere : policy = .global) : store.root scope = program.root := by
  obtain rfl | new := uses
  · exact Store.root_of_top nested.top
  · obtain ⟨found, outer, there, _, _, outward, _, place⟩ := nested.exists_call new inside
    obtain rfl | ⟨dynamic, _⟩ := place
    · exact Store.root_of_child there outward nested.top
    · cases everywhere.symm.trans dynamic

/-- A name that no call has bound is looked up in the root. -/
theorem lookup_eq_root {name : String}
    (unbound : ∀ index, program.New index → (store.bindingsOf index).find? name = none) {scope : Nat}
    (new : program.New scope) (inside : scope < store.scopes.size) :
    store.lookup scope name = (store.bindingsOf program.root).find? name := by
  have general (steps scope : Nat) (enough : scope < steps) (new : program.New scope)
      (inside : scope < store.scopes.size) :
      Store.findFrom store.scopes name steps scope = (store.bindingsOf program.root).find? name := by
    induction steps generalizing scope with
    | zero => contradiction
    | succ steps ih =>
      obtain ⟨found, outer, there, _, _, outward, older, place⟩ := nested.exists_call new inside
      have missing := unbound scope new
      rw [Store.bindingsOf, there] at missing
      rw [Store.findFrom, there]
      dsimp only at missing ⊢
      rw [missing, outward]
      obtain rfl | ⟨_, new⟩ := place
      · exact Store.findFrom_of_top nested.top name (by omega)
      · exact ih outer (by omega) new (by omega)
  exact general (scope + 1) scope (Nat.lt_succ_self scope) new inside

/-- Frames are all that matters here. -/
theorem of_frames {after : Store}
    (same : ∀ index : Nat, after.scopes[index]?.map Scope.frame = store.scopes[index]?.map Scope.frame)
    (size : after.scopes.size = store.scopes.size) : program.Nested policy after where
  grown := size ▸ nested.grown
  top := (Store.parentOf_eq_of_frame (same _)).trans nested.top
  scoping := (Store.scopingOf_eq_of_frame (same _)).trans nested.scoping
  sink := (Store.sinkOf_eq_of_frame (same _)).trans nested.sink
  calls index found new there := by
    have frame := same index
    rw [there, Option.map_some, eq_comm, Option.map_eq_some_iff] at frame
    obtain ⟨earlier, known, frame⟩ := frame
    obtain ⟨parent, sink, scoping⟩ : earlier.parent = found.parent ∧ earlier.sink = found.sink ∧
        earlier.scoping = found.scoping := by
      simpa [Scope.frame] using frame
    rw [← parent, ← sink, ← scoping]
    exact nested.calls index earlier new known

theorem bind (scope : Nat) (name : String) (value : Value) : program.Nested policy (store.bind scope name value) :=
  nested.of_frames (store.frame_bind scope name value) (by simp [Store.bind, Store.updateScope])

/-- A new scope inside one that is used already. -/
theorem push {scope : Scope} (scoping : scope.scoping = policy) (sink : scope.sink = program.store.sinkOf program.root)
    {outer : Nat} (outward : scope.parent = some outer) (inside : outer < store.scopes.size)
    (place : outer = program.root ∨ policy = .dynamic ∧ program.New outer) :
    program.Nested policy (store.addScope scope).2 := by
  have old : program.root ≠ store.scopes.size := Nat.ne_of_lt (Nat.lt_of_lt_of_le program.inside nested.grown)
  have root : (store.addScope scope).2.scopes[program.root]? = store.scopes[program.root]? := by
    rw [Store.addScope, Array.getElem?_push, if_neg old]
  have frame := congrArg (Option.map Scope.frame) root
  refine ⟨?_, ?_, ?_, ?_, ?_⟩
  · rw [Store.addScope, Array.size_push]
    exact Nat.le_succ_of_le nested.grown
  · exact (Store.parentOf_eq_of_frame frame).trans nested.top
  · exact (Store.scopingOf_eq_of_frame frame).trans nested.scoping
  · exact (Store.sinkOf_eq_of_frame frame).trans nested.sink
  · intro index found new there
    obtain earlier | ⟨rfl, rfl⟩ := Store.scopes_addScope there
    · exact nested.calls index found new earlier
    · exact ⟨scoping, sink, outer, outward, inside, place⟩

/-- Under either policy a call adds a scope of this kind, with the arguments in it. -/
theorem call {caller : Nat} (uses : program.Uses caller) (inside : caller < store.scopes.size) (bindings : Bindings) :
    ∃ scope : Scope, store.addCall caller bindings = store.addScope scope ∧ scope.bindings = bindings ∧
      program.Nested policy (store.addScope scope).2 := by
  have scoping := nested.scopingOf_eq uses inside
  have sink := nested.sinkOf_eq uses inside
  cases policy with
  | dynamic =>
    refine ⟨_, Store.addCall_of_dynamic scoping bindings, rfl, ?_⟩
    exact nested.push rfl sink rfl inside (uses.imp_right (And.intro rfl))
  | global =>
    have older : program.root < store.scopes.size := Nat.lt_of_lt_of_le program.inside nested.grown
    refine ⟨_, Store.addCall_of_global scoping bindings, rfl, ?_⟩
    rw [nested.root_eq uses inside rfl]
    exact nested.push nested.scoping nested.sink rfl older (.inl rfl)

end Nested

/-! What is bound -/

/-- What is known of two runs of a program: how many scopes there are, which containers the root and the calls can get
at, and names that calls have bound in their own scopes. -/
structure World where
  size : Nat
  known : Nat → Prop
  bound : Nat → String → Prop

structure World.Later (before after : World) : Prop where
  size : before.size ≤ after.size
  known : ∀ handle, before.known handle → after.known handle
  bound : ∀ scope name, before.bound scope name → after.bound scope name

theorem World.Later.refl (world : World) : world.Later world := ⟨Nat.le_refl _, fun _ => id, fun _ _ => id⟩

theorem World.Later.trans {first second third : World} (later : first.Later second) (further : second.Later third) :
    first.Later third where
  size := Nat.le_trans later.size further.size
  known handle there := further.known handle (later.known handle there)
  bound scope name there := further.bound scope name (later.bound scope name there)

/-- One more container. -/
def World.allocate (world : World) (handle : Nat) : World where
  size := world.size
  known other := world.known other ∨ other = handle
  bound := world.bound

theorem World.later_allocate (world : World) (handle : Nat) : world.Later (world.allocate handle) :=
  ⟨Nat.le_refl _, fun _ => .inl, fun _ _ => id⟩

/-- One more scope, with the parameters of a function bound in it. -/
def World.call (world : World) (parameters : List String) : World where
  size := world.size + 1
  known := world.known
  bound scope name := world.bound scope name ∨ scope = world.size ∧ name ∈ parameters

theorem World.later_call (world : World) (parameters : List String) : world.Later (world.call parameters) :=
  ⟨Nat.le_succ _, fun _ => id, fun _ _ => .inl⟩

/-- Calls bind local names only, and values refer only to what the program can get at. -/
structure Holds (program : Program) (world : World) (store : Store) : Prop where
  own : ∀ scope name, world.bound scope name → ((store.bindingsOf scope).find? name).isSome
  locals : ∀ scope, program.New scope → ∀ name, ((store.bindingsOf scope).find? name).isSome → program.Local name
  among : ∀ scope, program.Uses scope → ∀ pair ∈ store.bindingsOf scope,
    pair.2.Among world.known program.Callable

namespace Holds

variable {world : World} {store : Store} (holds : program.Holds world store)

include holds

/-- More containers may be known. -/
theorem more {known : Nat → Prop} (more : ∀ handle, world.known handle → known handle) :
    program.Holds { world with known } store where
  own := holds.own
  locals := holds.locals
  among scope uses pair member := (holds.among scope uses pair member).mono more

theorem of_scopes {after : Store} (scopes : after.scopes = store.scopes) : program.Holds world after := by
  have same (index : Nat) : after.bindingsOf index = store.bindingsOf index := by
    rw [Store.bindingsOf, Store.bindingsOf, scopes]
  refine ⟨?_, ?_, ?_⟩ <;> simp only [same]
  · exact holds.own
  · exact holds.locals
  · exact holds.among

theorem bind {scope : Nat} (inside : scope < store.scopes.size) {name : String} {value : Value}
    (bindable : program.New scope → program.Local name) (among : value.Among world.known program.Callable) :
    program.Holds world (store.bind scope name value) where
  own index other bound := by
    have before := holds.own index other bound
    rw [Store.bindingsOf_bind inside]
    split
    · next same => exact (Bindings.isSome_find?_set _ name other value).mpr (.inr (same ▸ before))
    · exact before
  locals index new other found := by
    rw [Store.bindingsOf_bind inside] at found
    split at found
    · next same =>
      subst same
      obtain rfl | before := (Bindings.isSome_find?_set _ name other value).mp found
      · exact bindable new
      · exact holds.locals index new other before
    · exact holds.locals index new other found
  among index uses pair member := by
    obtain before | same := Store.mem_bindingsOf_bind member
    · exact holds.among index uses pair before
    · rwa [same]

/-- The scope of a call has the function's parameters bound in it and nothing else. -/
theorem push {parameters : List String} {body : Expr} (callable : program.Callable parameters body)
    {values : List Value} (among : ∀ value ∈ values, value.Among world.known program.Callable)
    (fits : parameters.length = values.length) {scope : Scope}
    (bindings : scope.bindings = Bindings.ofPairs (parameters.zip values)) (size : store.scopes.size = world.size) :
    program.Holds (world.call parameters) (store.addScope scope).2 := by
  have named (name : String) : (scope.bindings.find? name).isSome ↔ name ∈ parameters := by
    rw [bindings, Bindings.isSome_find?_ofPairs, List.map_fst_zip (Nat.le_of_eq fits)]
  refine ⟨?_, ?_, ?_⟩
  · intro index name bound
    rw [Store.bindingsOf_addScope]
    obtain before | ⟨same, member⟩ := bound
    · have known := holds.own index name before
      split
      · next same =>
        rw [same, Store.bindingsOf, Array.getElem?_eq_none (Nat.le_refl _)] at known
        cases known
      · exact known
    · rw [if_pos (same.trans size.symm)]
      exact (named name).mpr member
  · intro index new name found
    rw [Store.bindingsOf_addScope] at found
    split at found
    · exact ⟨parameters, body, callable, .inl ((named name).mp found)⟩
    · exact holds.locals index new name found
  · intro index uses pair member
    rw [Store.bindingsOf_addScope] at member
    split at member
    · rw [bindings] at member
      obtain ⟨given, there, same⟩ := Bindings.mem_ofPairs member
      rw [same]
      exact among given.2 (List.of_mem_zip there).2
    · exact holds.among index uses pair member

end Holds

/-- What is evaluated where: nodes of the tree in the root, and nodes of a body in the scope of a call. -/
inductive Admits (program : Program) (world : World) : Expr → Nat → Prop where
  | tree {node : Expr} (within : node.Within program.tree) : Admits program world node program.root
  | body {parameters : List String} {body node : Expr} {scope : Nat} (callable : program.Callable parameters body)
      (level : node.Level body) (new : program.New scope) (inside : scope < world.size)
      (own : ∀ name ∈ parameters, world.bound scope name) : Admits program world node scope

namespace Admits

variable {world : World} {node : Expr} {scope : Nat} (admits : program.Admits world node scope)

include admits

theorem uses : program.Uses scope := by
  cases admits with
  | tree within => exact .inl rfl
  | body callable level new => exact .inr new

theorem later {world' : World} (later : world.Later world') : program.Admits world' node scope := by
  cases admits with
  | tree within => exact .tree within
  | body callable level new inside own =>
    refine .body callable level new (Nat.lt_of_lt_of_le inside later.size) ?_
    exact fun name member => later.bound scope name (own name member)

theorem operand {part : Expr} (below : part ∈ node.operands) : program.Admits world part scope := by
  cases admits with
  | tree within => exact .tree (within.child (Expr.children_of_operands below))
  | body callable level new inside own => exact .body callable (level.operand below) new inside own

/-- Whatever a node of a body binds is a local name. -/
theorem bindable {name : String} (binds : node.binds? = some name) (new : program.New scope) : program.Local name := by
  cases admits with
  | tree within => exact absurd new.root_lt (Nat.lt_irrefl _)
  | body callable level => exact ⟨_, _, callable, .inr ⟨node, level.within, binds⟩⟩

/-- What is read is bound in one place, whichever way the search goes. -/
theorem exists_place (clear : program.Clear) {store : Store} (holds : program.Holds world store) {name : String}
    (reads : node.reads? = some name) : ∃ place, program.Uses place ∧
      ∀ {policy : Scoping} {run : Store}, program.Nested policy run → scope < run.scopes.size →
        (∀ index, run.bindingsOf index = store.bindingsOf index) →
        run.lookup scope name = (store.bindingsOf place).find? name := by
  cases admits with
  | tree within =>
    refine ⟨program.root, .inl rfl, fun nested _ same => ?_⟩
    rw [Store.lookup_of_top nested.top, same]
  | body callable level new inside own =>
    obtain member | free := clear _ _ callable node level name reads
    · refine ⟨scope, .inr new, fun nested _ same => ?_⟩
      have bound := holds.own scope name (own name member)
      rw [Store.lookup_of_bound (same scope ▸ bound), same]
    · refine ⟨program.root, .inl rfl, fun nested inside same => ?_⟩
      have unbound (index : Nat) (new : program.New index) : (store.bindingsOf index).find? name = none := by
        apply Option.not_isSome_iff_eq_none.mp
        exact fun found => free (holds.locals index new name found)
      rw [nested.lookup_eq_root (fun index new => same index ▸ unbound index new) new inside, same]

end Admits

/-! Two runs -/

/-- A run under the dynamic policy and one under the global policy. All variables are the same. -/
structure Alongside (program : Program) (world : World) (store store' : Store) : Prop where
  shares : Store.Shares world.known program.Callable store store'
  sinks : store'.sinks = store.sinks
  nested : program.Nested .dynamic store
  nested' : program.Nested .global store'
  size_eq : store.scopes.size = world.size
  size_eq' : store'.scopes.size = world.size
  bindings : ∀ index, store'.bindingsOf index = store.bindingsOf index
  holds : program.Holds world store

namespace Alongside

variable {world : World} {store store' : Store} (alongside : program.Alongside world store store')

include alongside

theorem inside {node : Expr} {scope : Nat} (admits : program.Admits world node scope) :
    scope < store.scopes.size ∧ scope < store'.scopes.size := by
  rw [alongside.size_eq, alongside.size_eq', and_self]
  cases admits with
  | tree within => exact Nat.lt_of_lt_of_le program.inside (alongside.size_eq ▸ alongside.nested.grown)
  | body callable level new inside => exact inside

theorem lookup_alike (clear : program.Clear) {node : Expr} {scope : Nat} (admits : program.Admits world node scope)
    {name : String} (reads : node.reads? = some name) :
    Option.Rel (Value.Alike (.diagonal world.known program.Callable)) (store.lookup scope name)
      (store'.lookup scope name) := by
  obtain ⟨inside, inside'⟩ := alongside.inside admits
  obtain ⟨place, uses, found⟩ := admits.exists_place clear alongside.holds reads
  rw [found alongside.nested inside fun _ => rfl, found alongside.nested' inside' alongside.bindings]
  cases bound : (store.bindingsOf place).find? name with
  | none => exact .none
  | some value =>
    obtain ⟨pair, member, rfl⟩ := Bindings.find?_mem bound
    exact .some (Value.alike_diagonal_iff.mpr ⟨rfl, alongside.holds.among place uses pair member⟩)

theorem bind {node : Expr} {scope : Nat} (admits : program.Admits world node scope) {name : String}
    (binds : node.binds? = some name) {value : Value} (among : value.Among world.known program.Callable) :
    program.Alongside world (store.bind scope name value) (store'.bind scope name value) := by
  obtain ⟨inside, inside'⟩ := alongside.inside admits
  refine ⟨?_, alongside.sinks, alongside.nested.bind scope name value, alongside.nested'.bind scope name value, ?_, ?_,
    ?_, ?_⟩
  · exact alongside.shares.of_same rfl rfl alongside.shares.nans
  · simp [Store.bind, Store.updateScope, alongside.size_eq]
  · simp [Store.bind, Store.updateScope, alongside.size_eq']
  · intro index
    rw [Store.bindingsOf_bind inside, Store.bindingsOf_bind inside', alongside.bindings, alongside.bindings]
  · exact alongside.holds.bind inside (admits.bindable binds) among

/-- What leaves the scopes as they are. -/
theorem of_scopes {known : Nat → Prop} (more : ∀ handle, world.known handle → known handle) {after after' : Store}
    (scopes : after.scopes = store.scopes) (scopes' : after'.scopes = store'.scopes)
    (shares : Store.Shares known program.Callable after after') (sinks : after'.sinks = after.sinks) :
    program.Alongside { world with known } after after' where
  shares := shares
  sinks := sinks
  nested := alongside.nested.of_frames (fun _ => by rw [scopes]) (by rw [scopes])
  nested' := alongside.nested'.of_frames (fun _ => by rw [scopes']) (by rw [scopes'])
  size_eq := scopes ▸ alongside.size_eq
  size_eq' := scopes' ▸ alongside.size_eq'
  bindings index := by
    have same := alongside.bindings index
    rw [Store.bindingsOf, Store.bindingsOf] at same ⊢
    rw [scopes, scopes', same]
  holds := (alongside.holds.more more).of_scopes scopes

theorem write {node : Expr} {scope : Nat} (admits : program.Admits world node scope) (text : String) :
    program.Alongside world (store.write scope text) (store'.write scope text) := by
  obtain ⟨inside, inside'⟩ := alongside.inside admits
  have sink := alongside.nested.sinkOf_eq admits.uses inside
  have sink' := alongside.nested'.sinkOf_eq admits.uses inside'
  refine alongside.of_scopes (fun _ => id) rfl rfl ?_ ?_
  · exact alongside.shares.of_same rfl rfl alongside.shares.nans
  · rw [Store.write, Store.write, sink, sink', Store.append, Store.append, alongside.sinks]

theorem call {node : Expr} {scope : Nat} (admits : program.Admits world node scope) {parameters : List String}
    {body : Expr} (callable : program.Callable parameters body) {values : List Value}
    (among : ∀ value ∈ values, value.Among world.known program.Callable) (fits : parameters.length = values.length) :
    let start := store.addCall scope (Bindings.ofPairs (parameters.zip values))
    let start' := store'.addCall scope (Bindings.ofPairs (parameters.zip values))
    program.Alongside (world.call parameters) start.2 start'.2 ∧ start'.1 = start.1 ∧
      program.Admits (world.call parameters) body start.1 := by
  intro start start'
  obtain ⟨inside, inside'⟩ := alongside.inside admits
  obtain ⟨made, added, bindings, nested⟩ := alongside.nested.call admits.uses inside
    (Bindings.ofPairs (parameters.zip values))
  obtain ⟨made', added', bindings', nested'⟩ := alongside.nested'.call admits.uses inside'
    (Bindings.ofPairs (parameters.zip values))
  rw [show start = store.addScope made from added, show start' = store'.addScope made' from added']
  have size : store'.scopes.size = store.scopes.size := alongside.size_eq'.trans alongside.size_eq.symm
  have holds := alongside.holds.push callable among fits bindings alongside.size_eq
  refine ⟨⟨?_, alongside.sinks, nested, nested', ?_, ?_, ?_, holds⟩, size, ?_⟩
  · exact alongside.shares.of_same rfl rfl alongside.shares.nans
  · rw [Store.addScope, Array.size_push, alongside.size_eq, World.call]
  · rw [Store.addScope, Array.size_push, alongside.size_eq', World.call]
  · intro index
    rw [Store.bindingsOf_addScope, Store.bindingsOf_addScope, size, bindings, bindings', alongside.bindings]
  · refine .body callable .refl alongside.nested.grown ?_ fun name member => .inr ⟨alongside.size_eq, member⟩
    rw [Store.addScope, alongside.size_eq]
    exact Nat.lt_succ_self world.size

end Alongside

/-- The two policies, side by side. -/
def simulation (program : Program) (clear : program.Clear) : Simulation where
  World := World
  later := World.Later
  pairing world := .diagonal world.known program.Callable
  stores := program.Alongside
  admits world node scope scope' := scope' = scope ∧ program.Admits world node scope
  excused := False
  refl := .refl
  trans := .trans
  extended later := Pairing.diagonal_extends later.known
  kept later admitted := ⟨admitted.1, admitted.2.later later⟩
  operand admitted below := ⟨admitted.1, admitted.2.operand below⟩
  declared := by
    rintro world mark name parameters body scope scope' ⟨rfl, admits⟩
    cases admits with
    | tree within => exact .declared within
    | body callable level => exact .nested callable level.within
  lookup := by
    rintro world node scope scope' store store' name alongside ⟨rfl, admits⟩ reads
    exact alongside.lookup_alike clear admits reads
  items alongside paired := alongside.shares.items_alike paired
  entries alongside paired := alongside.shares.entries_alike paired
  bind := by
    rintro world node scope scope' store store' name value value' alongside ⟨rfl, admits⟩ binds alike
    obtain ⟨rfl, among⟩ := Value.alike_diagonal_iff.mp alike
    exact ⟨world, .refl world, alongside.bind admits binds among⟩
  allocate := by
    intro world store store' container container' alongside alike
    have later := world.later_allocate store.containers.size
    refine ⟨_, later, alongside.of_scopes later.known rfl rfl ?_ alongside.sinks, ?_, .inr rfl⟩
    · exact alongside.shares.allocate (fun _ => Iff.rfl) alike
    · simp only [Store.allocate, alongside.shares.containers]
  setItem := by
    intro world _ _ _ _ _ _ store store' handle handle' index value value' alongside _ paired alike
    refine ⟨world, .refl world, alongside.of_scopes (fun _ => id) rfl rfl ?_ alongside.sinks⟩
    exact alongside.shares.setItem paired alike
  setEntry := by
    intro world _ _ _ _ _ _ store store' handle handle' key key' value value' alongside _ paired same alike
    refine ⟨world, .refl world, alongside.of_scopes (fun _ => id) rfl rfl ?_ alongside.sinks⟩
    exact alongside.shares.setEntry paired same alike
  write := by
    rintro world _ _ _ scope scope' store store' text alongside ⟨rfl, admits⟩
    exact ⟨world, .refl world, alongside.write admits text⟩
  draw := by
    intro world store store' alongside
    refine ⟨world, .refl world, alongside.of_scopes (fun _ => id) rfl rfl ?_ alongside.sinks, ?_⟩
    · exact alongside.shares.of_same rfl rfl (congrArg Nat.succ alongside.shares.nans)
    · exact alongside.shares.nans.symm
  call := by
    rintro world _ _ _ scope scope' store store' parameters body values values' alongside ⟨rfl, admits⟩ callable
      alikes fits
    obtain ⟨rfl, among⟩ := all_alike_diagonal_iff.mp alikes
    exact ⟨_, world.later_call parameters, alongside.call admits callable among fits⟩

/-! The beginning -/

/-- A container that the root can get at. -/
def Known (program : Program) (handle : Nat) : Prop :=
  program.store.Reaches program.root (.list handle) ∨ program.store.Reaches program.root (.dict handle)

/-- What is known at the beginning. -/
def origin (program : Program) : World where
  size := program.store.scopes.size
  known := program.Known
  bound _ _ := False

theorem among_of_reaches {value : Value} (reached : program.store.Reaches program.root value) :
    value.Among program.Known program.Callable := by
  cases value with
  | list handle => exact .inl reached
  | dict handle => exact .inr reached
  | function name parameters body => exact .known reached
  | _ => trivial

/-- What is in a container that the root can get at, the root can get at too. A handle of a list is none of a
dictionary. -/
theorem shares_origin (program : Program) {store store' : Store}
    (containers : store.containers = program.store.containers)
    (containers' : store'.containers = program.store.containers) (nans : store'.nans = store.nans) :
    Store.Shares program.Known program.Callable store store' := by
  refine ⟨containers'.trans containers.symm, nans, ?_, ?_⟩
  · intro handle known item member
    rw [Store.items, containers] at member
    obtain list | dict := known
    · exact among_of_reaches (.item list member)
    · obtain ⟨entries, there⟩ := program.formed.reaches dict
      rw [there] at member
      cases member
  · intro handle known entry member
    rw [Store.entries, containers] at member
    obtain list | dict := known
    · obtain ⟨items, there⟩ := program.formed.reaches list
      rw [there] at member
      cases member
    · exact among_of_reaches (.entry dict member)

theorem unbound_of_new {scope : Nat} (new : program.New scope) : program.store.bindingsOf scope = [] := by
  rw [Store.bindingsOf, Array.getElem?_eq_none new]

theorem nested_origin (program : Program) (policy : Scoping) :
    program.Nested policy (program.store.setScoping program.root policy) where
  grown := by simp
  top := by simp [program.top]
  scoping := Store.scopingOf_setScoping program.inside policy
  sink := by simp
  calls index found new there := by
    rw [Store.getElem?_setScoping, Array.getElem?_eq_none new] at there
    cases there

theorem holds_origin (program : Program) (policy : Scoping) :
    program.Holds program.origin (program.store.setScoping program.root policy) where
  own _ _ := False.elim
  locals scope new name found := by
    rw [Store.bindingsOf_setScoping, unbound_of_new new] at found
    cases found
  among scope uses pair member := by
    rw [Store.bindingsOf_setScoping] at member
    obtain rfl | new := uses
    · exact among_of_reaches (.bound .refl member)
    · rw [unbound_of_new new] at member
      cases member

theorem alongside_origin (program : Program) :
    program.Alongside program.origin (program.store.setScoping program.root .dynamic)
      (program.store.setScoping program.root .global) where
  shares := program.shares_origin rfl rfl rfl
  sinks := rfl
  nested := program.nested_origin .dynamic
  nested' := program.nested_origin .global
  size_eq := Store.size_setScoping _ _ _
  size_eq' := Store.size_setScoping _ _ _
  bindings index := by rw [Store.bindingsOf_setScoping, Store.bindingsOf_setScoping]
  holds := program.holds_origin .dynamic

end Program

/-- If the bodies of all functions read nothing but their own parameters and names that no function binds, then a
program has the same result under both policies, be it a value or an error, and leaves the same output, the same
variables in the root and the same containers. -/
theorem evalWithin_same_under_policies (program : Program) (clear : program.Clear) (depth : Nat) :
    let dynamic := evalWithin depth program.tree program.root (program.store.setScoping program.root .dynamic)
    let everywhere := evalWithin depth program.tree program.root (program.store.setScoping program.root .global)
    everywhere.1 = dynamic.1 ∧ everywhere.2.sinks = dynamic.2.sinks ∧
      everywhere.2.bindingsOf program.root = dynamic.2.bindingsOf program.root ∧
      everywhere.2.containers = dynamic.2.containers := by
  intro dynamic everywhere
  have admitted : (program.simulation clear).admits program.origin program.tree program.root program.root :=
    ⟨rfl, .tree .refl⟩
  obtain ⟨world, _, related, agree⟩ := Simulation.evalWithin_agree id depth admitted program.alongside_origin
  have alongside : program.Alongside world dynamic.2 everywhere.2 := related
  have result : dynamic.1 = everywhere.1 := (agree.mono fun alike => (Value.alike_diagonal_iff.mp alike).1).eq
  exact ⟨result.symm, alongside.sinks, alongside.bindings program.root, alongside.shares.containers⟩

/-- A function that is bound in the root calls one that the program declares, which reads a variable of the root. -/
theorem evalWithin_same_under_policies_nested :
    let called := Expr.list .absent [.name .absent "q", .name .absent "x"]
    let calling := Expr.call .absent "g" [.name .absent "p"]
    let tree := Expr.block .absent [.function .absent "g" ["q"] called, .call .absent "f" [.name .absent "x"]]
    let bindings := [("x", Value.text "a"), ("f", .function "f" ["p"] calling)]
    let store := (Store.empty.addRoot bindings Store.standardSink .dynamic).2
    ∃ program : Program, program.tree = tree ∧ program.store = store ∧ program.root = 0 ∧ program.Clear ∧
      (evalWithin 9 tree 0 (store.setScoping 0 .dynamic)).1 = .ok (.list 0) ∧
      (evalWithin 9 tree 0 (store.setScoping 0 .global)).1 = .ok (.list 0) := by
  intro called calling tree bindings store
  have fine : ∀ binding ∈ bindings, binding.2.WellFormed Store.empty := by simp [bindings, Value.WellFormed]
  let program : Program :=
    ⟨tree, store, 0, (Store.addRoot_keeps Store.empty_wellFormed fine _ _).1, by decide, rfl⟩
  have reached (value : Value) (reached : store.Reaches 0 value) :
      value = .text "a" ∨ value = .function "f" ["p"] calling := by
    induction reached with
    | @bound outer name value around member =>
      obtain rfl : outer = 0 := by
        obtain same | ⟨inner, ⟨scope, there, outward⟩, _⟩ := Relation.ReflTransGen.cases_head around
        · exact same.symm
        · cases there
          cases outward
      have named : (name, value) ∈ bindings := member
      simp only [bindings, List.mem_cons, Prod.mk.injEq, List.not_mem_nil, or_false] at named
      exact named.imp And.right And.right
    | item _ _ ih | entry _ _ ih => simp at ih
  have in_called {node : Expr} (within : node.Within called) :
      node = called ∨ node = .name .absent "q" ∨ node = .name .absent "x" := by
    have closed : ∀ whole ∈ [called, .name .absent "q", .name .absent "x"], ∀ part ∈ whole.children,
        part ∈ [called, .name .absent "q", .name .absent "x"] := by simp [called, Expr.children]
    simpa using within.mem_of_closed closed List.mem_cons_self
  have in_calling {node : Expr} (within : node.Within calling) : node = calling ∨ node = .name .absent "p" := by
    have closed : ∀ whole ∈ [calling, .name .absent "p"], ∀ part ∈ whole.children,
        part ∈ [calling, .name .absent "p"] := by simp [calling, Expr.children]
    simpa using within.mem_of_closed closed List.mem_cons_self
  have in_tree {node : Expr} (within : node.Within tree) :
      node ∈ [tree, .function .absent "g" ["q"] called, called, .name .absent "q", .name .absent "x",
        .call .absent "f" [.name .absent "x"]] :=
    within.mem_of_closed (by simp [tree, called, Expr.children]) List.mem_cons_self
  have functions {parameters : List String} {body : Expr} (callable : program.Callable parameters body) :
      parameters = ["q"] ∧ body = called ∨ parameters = ["p"] ∧ body = calling := by
    induction callable with
    | declared within =>
      have declared := in_tree within
      simp only [tree, called, List.mem_cons, reduceCtorEq, Expr.function.injEq, List.not_mem_nil, false_or, or_false]
        at declared
      exact .inl declared.2.2
    | known there =>
      have known := reached _ there
      simp only [reduceCtorEq, Value.function.injEq, false_or] at known
      exact .inr known.2
    | nested _ within ih =>
      obtain ⟨_, rfl⟩ | ⟨_, rfl⟩ := ih
      · simpa [called] using in_called within
      · simpa [calling] using in_calling within
  have locals (name : String) (bound : program.Local name) : name = "q" ∨ name = "p" := by
    obtain ⟨parameters, body, callable, place⟩ := bound
    obtain ⟨rfl, rfl⟩ | ⟨rfl, rfl⟩ := functions callable
    · obtain member | ⟨node, within, binds⟩ := place
      · exact .inl (List.mem_singleton.mp member)
      · obtain rfl | rfl | rfl := in_called within <;> cases binds
    · obtain member | ⟨node, within, binds⟩ := place
      · exact .inr (List.mem_singleton.mp member)
      · obtain rfl | rfl := in_calling within <;> cases binds
  have clear : program.Clear := by
    intro parameters body callable node level name reads
    obtain ⟨rfl, rfl⟩ | ⟨rfl, rfl⟩ := functions callable
    · obtain rfl | rfl | rfl := in_called level.within <;> cases reads
      · exact .inl (by decide)
      · exact .inr fun bound => absurd (locals _ bound) (by decide)
    · obtain rfl | rfl := in_calling level.within <;> cases reads
      · exact .inr fun bound => absurd (locals _ bound) (by decide)
      · exact .inl (by decide)
  have result : (evalWithin 9 tree 0 (store.setScoping 0 .dynamic)).1 = .ok (.list 0) := rfl
  exact ⟨program, rfl, rfl, rfl, clear, result, (evalWithin_same_under_policies program clear 9).1.trans result⟩

end Corvid
