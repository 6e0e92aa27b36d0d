import Corvid.Eval.Rules
import Corvid.Proofs.Store.Frames

/-!
The forest of scopes. Whatever sequence of operations made the scopes, every scope is inside an older one or a root, and
no operation moves a scope. A name that is bound in a scope is seen from the scopes whose way outward comes there before
it comes to another scope that binds the name, and nothing else changes for any scope; the root of a scope stays what it
was when the scope was made.
-/
namespace Corvid

namespace Store

variable {store after : Store}

/-- One operation on scopes: a scope is made, on its own, inside another one or for a call, a name is bound in one, or
its policy is set. -/
inductive ScopeStep (store : Store) : Store → Prop where
  | root (bindings : Bindings) (sink : Nat) (scoping : Scoping) :
      ScopeStep store (store.addRoot bindings sink scoping).2
  | nested (parent : Nat) (inside : parent < store.scopes.size) (bindings : Bindings) (sink : Option Nat)
      (scoping : Option Scoping) : ScopeStep store (store.addNested parent bindings sink scoping).2
  | child (parent : Nat) (inside : parent < store.scopes.size) (bindings : Bindings) :
      ScopeStep store (store.addChild parent bindings).2
  | call (caller : Nat) (inside : caller < store.scopes.size) (bindings : Bindings) :
      ScopeStep store (store.addCall caller bindings).2
  | bind (scope : Nat) (inside : scope < store.scopes.size) (name : String) (value : Value) :
      ScopeStep store (store.bind scope name value)
  | policy (scope : Nat) (inside : scope < store.scopes.size) (scoping : Scoping) :
      ScopeStep store (store.setScoping scope scoping)

/-- The way outward from a scope comes to another one before it comes to a third one that binds the name. -/
inductive Sees (store : Store) (name : String) : Nat → Nat → Prop where
  | here (scope : Nat) : Sees store name scope scope
  | outward {inner parent scope : Nat} (unbound : (store.bindingsOf inner).find? name = none)
      (around : store.Parent inner parent) (further : Sees store name parent scope) : Sees store name inner scope

theorem parent_iff {inner outer : Nat} : store.Parent inner outer ↔ store.parentOf inner = some outer := by
  unfold Parent parentOf
  cases store.scopes[inner]? with
  | none => simp
  | some scope => simp

/-! The way outward in an ordered store -/

namespace Ordered

/-- A search from a scope takes no more steps than there are older scopes. -/
theorem findFrom_eq (ordered : store.Ordered) (name : String) {steps scope : Nat} (enough : scope < steps) :
    findFrom store.scopes name steps scope = store.lookup scope name := by
  induction scope using Nat.strongRecOn generalizing steps with
  | ind scope ih =>
    obtain ⟨more, rfl⟩ := Nat.exists_eq_add_of_lt enough
    rw [lookup, findFrom, findFrom]
    cases there : store.scopes[scope]? with
    | none => rfl
    | some found =>
      dsimp only
      cases found.bindings.find? name with
      | some value => rfl
      | none =>
        cases outward : found.parent with
        | none => rfl
        | some parent =>
          have older := ordered scope parent ⟨found, there, outward⟩
          exact (ih parent older (by omega)).trans (ih parent older older).symm

/-- A name stands for what the scope itself binds it to, or else for what it stands for in the scope around. -/
theorem lookup_eq (ordered : store.Ordered) (scope : Nat) (name : String) : store.lookup scope name =
    ((store.bindingsOf scope).find? name).or ((store.parentOf scope).bind fun parent => store.lookup parent name) := by
  rw [lookup, findFrom, bindingsOf, parentOf]
  cases there : store.scopes[scope]? with
  | none => rfl
  | some found =>
    dsimp only
    cases found.bindings.find? name with
    | some value => rfl
    | none =>
      cases outward : found.parent with
      | none => rfl
      | some parent => exact ordered.findFrom_eq name (ordered scope parent ⟨found, there, outward⟩)

theorem rootFrom_eq (ordered : store.Ordered) {steps scope : Nat} (enough : scope < steps) :
    rootFrom store.scopes steps scope = store.root scope := by
  induction scope using Nat.strongRecOn generalizing steps with
  | ind scope ih =>
    obtain ⟨more, rfl⟩ := Nat.exists_eq_add_of_lt enough
    rw [root, rootFrom, rootFrom]
    cases there : store.scopes[scope]? with
    | none => rfl
    | some found =>
      dsimp only
      cases outward : found.parent with
      | none => rfl
      | some parent =>
        have older := ordered scope parent ⟨found, there, outward⟩
        exact (ih parent older (by omega)).trans (ih parent older older).symm

theorem root_eq (ordered : store.Ordered) (scope : Nat) :
    store.root scope = (store.parentOf scope).elim scope store.root := by
  rw [root, rootFrom, parentOf]
  cases there : store.scopes[scope]? with
  | none => rfl
  | some found =>
    dsimp only
    cases outward : found.parent with
    | none => rfl
    | some parent => exact ordered.rootFrom_eq (ordered scope parent ⟨found, there, outward⟩)

/-- Where the ways outward are the same, so are the roots. -/
theorem root_congr (ordered : store.Ordered) (ordered' : after.Ordered)
    (same : ∀ index < store.scopes.size, after.parentOf index = store.parentOf index) {scope : Nat}
    (inside : scope < store.scopes.size) : after.root scope = store.root scope := by
  induction scope using Nat.strongRecOn with
  | ind scope ih =>
    rw [ordered.root_eq, ordered'.root_eq, same scope inside]
    cases outward : store.parentOf scope with
    | none => rfl
    | some parent =>
      have older := ordered scope parent (parent_iff.mpr outward)
      exact ih parent older (older.trans inside)

end Ordered

/-! What one operation keeps -/

theorem parentOf_bind (store : Store) (scope : Nat) (name : String) (value : Value) (index : Nat) :
    (store.bind scope name value).parentOf index = store.parentOf index :=
  parentOf_eq_of_frame (store.frame_bind scope name value index)

theorem parentOf_addScope (store : Store) (scope : Scope) (index : Nat) : (store.addScope scope).2.parentOf index =
    if index = store.scopes.size then scope.parent else store.parentOf index := by
  rw [parentOf, addScope, Array.getElem?_push]
  by_cases same : index = store.scopes.size
  · rw [if_pos same, if_pos same]
  · rw [if_neg same, if_neg same]
    rfl

/-- What no operation on scopes takes back: scopes stay where they are, and no scope is inside a newer one. -/
structure Extends (store after : Store) : Prop where
  ordered : after.Ordered
  size : store.scopes.size ≤ after.scopes.size
  parent : ∀ index < store.scopes.size, after.parentOf index = store.parentOf index

theorem Extends.of_parents (ordered : store.Ordered) (size : after.scopes.size = store.scopes.size)
    (same : ∀ index, after.parentOf index = store.parentOf index) : store.Extends after where
  ordered := by
    intro inner outer parent
    rw [parent_iff, same, ← parent_iff] at parent
    exact ordered inner outer parent
  size := size.ge
  parent := fun index _ => same index

theorem Extends.addScope (ordered : store.Ordered) {scope : Scope}
    (older : ∀ parent, scope.parent = some parent → parent < store.scopes.size) :
    store.Extends (store.addScope scope).2 where
  ordered := by
    intro inner outer parent
    rw [parent_iff, parentOf_addScope] at parent
    split at parent
    · next new => exact new ▸ older outer parent
    · exact ordered inner outer (parent_iff.mpr parent)
  size := by simp [Store.addScope]
  parent := by
    intro index inside
    rw [parentOf_addScope, if_neg inside.ne]

theorem ScopeStep.extended (step : store.ScopeStep after) (ordered : store.Ordered) : store.Extends after := by
  cases step with
  | root => exact .addScope ordered fun _ alone => by cases alone
  | nested _ inside | child _ inside =>
    apply Extends.addScope ordered
    rintro outer ⟨⟩
    exact inside
  | call caller inside bindings =>
    -- the new scope is inside the caller's or inside the caller's root, which is no newer
    obtain ⟨scope, same, _, around⟩ := addCall_eq store caller bindings
    rw [same]
    apply Extends.addScope ordered
    intro parent outward
    obtain caller | root := around
    · rw [caller] at outward
      cases outward
      exact inside
    · rw [root] at outward
      cases outward
      exact (ordered.rootFrom_le _ _).trans_lt inside
  | bind => exact .of_parents ordered (by simp [Store.bind, updateScope]) fun _ => parentOf_bind ..
  | policy => exact .of_parents ordered (size_setScoping ..) fun _ => parentOf_setScoping ..

/-- What any sequence of operations keeps. -/
theorem extends_of_steps (steps : Relation.ReflTransGen ScopeStep store after) (ordered : store.Ordered) :
    store.Extends after := by
  induction steps with
  | refl => exact .of_parents ordered rfl fun _ => rfl
  | tail _ step ih =>
    have once := step.extended ih.ordered
    refine ⟨once.ordered, ih.size.trans once.size, fun index inside => ?_⟩
    rw [once.parent index (inside.trans_le ih.size), ih.parent index inside]

/-! What binding a name changes -/

section Binding

variable {scope : Nat} {name : String}

theorem Ordered.bind (ordered : store.Ordered) (scope : Nat) (name : String) (value : Value) :
    (store.bind scope name value).Ordered :=
  (Extends.of_parents ordered (by simp [Store.bind, updateScope]) fun _ => parentOf_bind ..).ordered

theorem lookup_bind_here (inside : scope < store.scopes.size) (value : Value) :
    (store.bind scope name value).lookup scope name = some value := by
  have bound : ((store.bind scope name value).bindingsOf scope).find? name = some value := by
    rw [bindingsOf_bind inside, if_pos rfl, Bindings.find?_set, if_pos rfl]
  rw [lookup_of_bound (Option.isSome_of_eq_some bound), bound]

theorem lookup_bind_of_sees (ordered : store.Ordered) (inside : scope < store.scopes.size) (value : Value) {inner : Nat}
    (sees : store.Sees name inner scope) : (store.bind scope name value).lookup inner name = some value := by
  induction sees with
  | here scope => exact lookup_bind_here inside value
  | @outward inner parent scope unbound around _ ih =>
    by_cases same : inner = scope
    · rw [same]
      exact lookup_bind_here inside value
    · rw [(ordered.bind scope name value).lookup_eq, bindingsOf_bind inside, if_neg same, unbound, parentOf_bind,
        parent_iff.mp around]
      exact ih inside

/-- Whoever does not see the scope sees no change, and nobody sees one in another name. -/
theorem lookup_bind_of_not (ordered : store.Ordered) (inside : scope < store.scopes.size) (value : Value) {other : String}
    {inner : Nat} (hidden : ¬(other = name ∧ store.Sees name inner scope)) :
    (store.bind scope name value).lookup inner other = store.lookup inner other := by
  induction inner using Nat.strongRecOn with
  | ind inner ih =>
    have own : ((store.bind scope name value).bindingsOf inner).find? other = (store.bindingsOf inner).find? other := by
      rw [bindingsOf_bind inside]
      split
      · next same =>
        subst same
        have differs : other ≠ name := fun equal => hidden ⟨equal, .here inner⟩
        rw [Bindings.find?_set, if_neg differs]
      · rfl
    rw [(ordered.bind scope name value).lookup_eq, ordered.lookup_eq, own, parentOf_bind]
    cases bound : (store.bindingsOf inner).find? other with
    | some known => rfl
    | none =>
      cases outward : store.parentOf inner with
      | none => rfl
      | some parent =>
        have around := parent_iff.mpr outward
        apply ih parent (ordered inner parent around)
        rintro ⟨rfl, further⟩
        exact hidden ⟨rfl, .outward bound around further⟩

end Binding

/-- A store without scopes is ordered, so whatever is made from it is. -/
theorem ordered_of_steps {bare : Store} (nothing : bare.scopes = #[])
    (built : Relation.ReflTransGen ScopeStep bare store) : store.Ordered := by
  refine (extends_of_steps built fun inner outer parent => ?_).ordered
  obtain ⟨scope, found, _⟩ := parent
  rw [nothing] at found
  cases found

end Store

/-- Looking a name up gives its value, or the fault that names it. -/
theorem Rule.name_fst (scope : Nat) (name : String) (store : Store) : (Rule.name scope name store).1 =
    (store.lookup scope name).elim (.error (.fault (.unbound name) .absent)) .ok := by
  dsimp only [Rule.name, Bind.bind, Eval.bind, Eval.read]
  cases store.lookup scope name <;> rfl

/-- Binding a name in any forest of scopes, whatever operations made it: the value is found from every scope whose way
outward comes to the scope of the binding before another one that binds the name, and all other names in all scopes, and
this name in all other scopes, give the same value or the same fault as before. Whatever operations follow, the root of a
scope stays what it was: the scope around it that is inside no other. -/
theorem bind_shadows {bare store : Store} (nothing : bare.scopes = #[])
    (built : Relation.ReflTransGen Store.ScopeStep bare store) :
    (∀ (scope : Nat) (name : String) (value : Value), scope < store.scopes.size →
      (∀ inner, store.Sees name inner scope →
        (Rule.name inner name (store.bind scope name value)).1 = .ok value) ∧
      ∀ (inner : Nat) (other : String), ¬(other = name ∧ store.Sees name inner scope) →
        (Rule.name inner other (store.bind scope name value)).1 = (Rule.name inner other store).1) ∧
    ∀ (later : Store) (scope : Nat), Relation.ReflTransGen Store.ScopeStep store later → scope < store.scopes.size →
      later.root scope = store.root scope ∧ Relation.ReflTransGen store.Parent scope (store.root scope) ∧
        ∀ outer, ¬store.Parent (store.root scope) outer := by
  have ordered := Store.ordered_of_steps nothing built
  refine ⟨fun scope name value inside => ⟨fun inner sees => ?_, fun inner other hidden => ?_⟩,
    fun later scope steps inside => ?_⟩
  · rw [Rule.name_fst, Store.lookup_bind_of_sees ordered inside value sees]
    rfl
  · rw [Rule.name_fst, Rule.name_fst, Store.lookup_bind_of_not ordered inside value hidden]
  · have kept := Store.extends_of_steps steps ordered
    exact ⟨ordered.root_congr kept.ordered kept.parent inside, ordered.root_spec scope⟩

/-- Two calls from one scope, the first under the dynamic policy and the second under the global one, and then a name
bound in the root: it is found from the second call, and the first one keeps its parameter. -/
theorem bind_shadows_calls :
    let start := ((Store.empty.addRoot [("x", .int 1)] Store.standardSink .dynamic).2.addChild 0 []).2
    let store := (((start.addCall 1 [("x", .int 2)]).2.setScoping 1 .global).addCall 1 []).2
    let after := store.bind 0 "x" (.int 5)
    store.parentOf 2 = some 1 ∧ store.parentOf 3 = some 0 ∧ (Rule.name 3 "x" after).1 = .ok (.int 5) ∧
      (Rule.name 2 "x" after).1 = (Rule.name 2 "x" store).1 ∧ after.root 2 = store.root 2 := by
  intro start store after
  have built : Relation.ReflTransGen Store.ScopeStep .empty store := by
    apply Relation.ReflTransGen.head (.root [("x", .int 1)] Store.standardSink .dynamic)
    apply Relation.ReflTransGen.head (.child 0 (by decide) [])
    apply Relation.ReflTransGen.head (.call 1 (by decide) [("x", .int 2)])
    apply Relation.ReflTransGen.head (.policy 1 (by decide) .global)
    exact .single (.call 1 (by decide) [])
  obtain ⟨binds, roots⟩ := bind_shadows rfl built
  obtain ⟨found, same⟩ := binds 0 "x" (.int 5) (by decide)
  refine ⟨rfl, rfl, found 3 (.outward rfl ⟨_, rfl, rfl⟩ (.here 0)), same 2 "x" ?_,
    (roots after 2 (.single (.bind 0 (by decide) "x" (.int 5))) (by decide)).1⟩
  rintro ⟨_, sees⟩
  cases sees with
  | outward unbound => cases unbound

end Corvid
