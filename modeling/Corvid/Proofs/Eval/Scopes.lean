import Corvid.Proofs.Eval.Contract

/-!
Which variables evaluation writes. Assignments, loops and declarations bind names in the scope that they are
evaluated in, and a function's body is evaluated in a scope made for that call. So an evaluation changes the bindings
of no scope but its own among those that were there before it, whatever functions it calls and however it ends.
-/
namespace Corvid

/-- What may become of a scope: names are bound in it or get other values, all else stays. -/
structure Scope.Extends (before after : Scope) : Prop where
  parent : after.parent = before.parent
  sink : after.sink = before.sink
  scoping : after.scoping = before.scoping
  bound : ∀ name, (before.bindings.find? name).isSome → (after.bindings.find? name).isSome

theorem Scope.Extends.refl (scope : Scope) : scope.Extends scope := ⟨rfl, rfl, rfl, fun _ => id⟩

theorem Scope.Extends.trans {first second third : Scope} (extends_first : first.Extends second)
    (extends_second : second.Extends third) : first.Extends third where
  parent := extends_second.parent.trans extends_first.parent
  sink := extends_second.sink.trans extends_first.sink
  scoping := extends_second.scoping.trans extends_first.scoping
  bound := fun name known => extends_second.bound name (extends_first.bound name known)

/-- The scopes of one store in another, in which variables of a single scope may have been written. -/
def Store.WritesIn (scope : Nat) (before after : Store) : Prop :=
  ∀ (index : Nat) (found : Scope), before.scopes[index]? = some found →
    ∃ later, after.scopes[index]? = some later ∧ found.Extends later ∧ (index ≠ scope → later = found)

namespace Store.WritesIn

theorem of_same (scope : Nat) {before after : Store} (same : after.scopes = before.scopes) :
    WritesIn scope before after := by
  intro index found known
  rw [same]
  exact ⟨found, known, .refl found, fun _ => rfl⟩

theorem trans {scope : Nat} {first second third : Store} (writes : WritesIn scope first second)
    (writes' : WritesIn scope second third) : WritesIn scope first third := by
  intro index found known
  obtain ⟨middle, there, extended, apart⟩ := writes index found known
  obtain ⟨later, there', extended', apart'⟩ := writes' index middle there
  exact ⟨later, there', extended.trans extended', fun other => (apart' other).trans (apart other)⟩

theorem bind (store : Store) (scope : Nat) (name : String) (value : Value) :
    WritesIn scope store (store.bind scope name value) := by
  intro index found known
  rw [Store.bind, updateScope, Array.getElem?_modify, known]
  by_cases same : scope = index
  · rw [if_pos same]
    have extended : found.Extends { found with bindings := found.bindings.set name value } :=
      ⟨rfl, rfl, rfl, fun other known => (Bindings.isSome_find?_set _ name other value).mpr (.inr known)⟩
    exact ⟨_, rfl, extended, fun differs => absurd same.symm differs⟩
  · rw [if_neg same]
    exact ⟨found, rfl, .refl found, fun _ => rfl⟩

/-- What is written in the scope of a call is written in no scope that was there before. -/
theorem of_call {store after : Store} {scope : Nat} {bindings : Bindings}
    (writes : WritesIn (store.addCall scope bindings).1 (store.addCall scope bindings).2 after) :
    WritesIn scope store after := by
  intro index found known
  obtain ⟨bound, _⟩ := Array.getElem?_eq_some_iff.mp known
  have still : (store.addCall scope bindings).2.scopes[index]? = some found ∧
      index ≠ (store.addCall scope bindings).1 := by
    unfold addCall
    split <;> simp [addChild, addNested, addScope, Array.getElem?_push, known, Nat.ne_of_lt bound]
  -- the scope of the call is not among those of before, not even if the caller's own index is asked for
  obtain ⟨later, there, extended, apart⟩ := writes index found still.1
  exact ⟨later, there, extended, fun _ => apart still.2⟩

end Store.WritesIn

/-- The contract to write variables in one's own scope only. -/
def scopeContract : Contract where
  node := fun _ => True
  inside := fun _ => True
  sound := fun _ => True
  good := fun _ _ => True
  evolves := Store.WritesIn
  refl := fun scope _ => .of_same scope rfl
  trans := .trans
  mono := fun _ _ => trivial
  part := fun _ _ => trivial
  atom := fun _ => trivial
  declared := fun _ => trivial
  callable := fun _ => trivial
  lookup := fun _ _ _ => trivial
  items := fun _ _ _ => trivial
  entries := fun _ _ _ => trivial
  listed := fun _ _ => trivial
  dicted := fun _ _ => trivial
  change := by
    intro scope store after _ _ change
    refine ⟨?_, trivial⟩
    cases change with
    | bind name => exact .bind store scope name _
    | _ => exact .of_same scope rfl
  call := fun _ _ _ => ⟨trivial, trivial, fun _ => .of_call⟩

/-- Evaluation to any depth, however it ends and under either policy, leaves every scope that was there with its
parent, sink and policy, takes no name from it, and leaves all but its own scope with the very bindings they had. -/
theorem evalWithin_writes_own_scope (depth : Nat) (expr : Expr) (scope : Nat) (store : Store) {index : Nat}
    {found : Scope} (known : store.scopes[index]? = some found) :
    ∃ later, (evalWithin depth expr scope store).2.scopes[index]? = some later ∧ later.parent = found.parent ∧
      later.sink = found.sink ∧ later.scoping = found.scoping ∧
      (∀ name, (found.bindings.find? name).isSome → (later.bindings.find? name).isSome) ∧
      (index ≠ scope → later.bindings = found.bindings) := by
  have admitted : scopeContract.Admits ⟨expr, scope, store⟩ := ⟨trivial, trivial, trivial⟩
  have writes : Store.WritesIn scope store (evalWithin depth expr scope store).2 :=
    (scopeContract.evalWithin_meets depth expr scope store admitted).1
  obtain ⟨later, there, extended, apart⟩ := writes index found known
  refine ⟨later, there, extended.parent, extended.sink, extended.scoping, extended.bound, fun other => ?_⟩
  rw [apart other]

/-- A function that assigns to a name of the scope around the caller, called in a block that fails afterwards. -/
theorem evalWithin_writes_own_scope_call :
    let body := Expr.assign .absent "x" (.literal .absent .int "2")
    let outer : Scope := ⟨[("x", .int 1), ("f", .function "f" [] body)], none, Store.standardSink, .dynamic⟩
    let start := ((Store.empty.addScope outer).2.addChild 0 [("x", .int 5)]).2
    let expr := Expr.block .absent [.call .absent "f" [], .name .absent "y"]
    let after := (evalWithin 5 expr 1 start).2
    start.scopes[0]? = some outer ∧ (evalWithin 5 expr 1 start).1 = .error (.fault (.unbound "y") .absent) ∧
      ∃ later, after.scopes[0]? = some later ∧ later.bindings = [("x", .int 1), ("f", .function "f" [] body)] := by
  intro body outer start expr after
  have known : start.scopes[0]? = some outer := rfl
  have stops : (evalWithin 5 expr 1 start).1 = .error (.fault (.unbound "y") .absent) := rfl
  obtain ⟨later, there, _, _, _, _, apart⟩ := evalWithin_writes_own_scope 5 expr 1 start known
  exact ⟨known, stops, later, there, apart (by decide)⟩

end Corvid
