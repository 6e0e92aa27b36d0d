import Corvid.Proofs.Store.Change

/-!
The frames of a store: what its scopes are apart from their variables. They alone say where the way outward goes, where
text is written and where the body of a function is evaluated. Binding a name changes no frame, another policy for a
scope changes no variable, and a new scope changes neither for the others.
-/
namespace Corvid

/-- What a scope is apart from its variables. -/
def Scope.frame (scope : Scope) : Option Nat × Nat × Scoping := (scope.parent, scope.sink, scope.scoping)

namespace Store

section Frames

variable {store store' : Store} {scope : Nat}

theorem parentOf_eq_of_frame (same : store'.scopes[scope]?.map Scope.frame = store.scopes[scope]?.map Scope.frame) :
    store'.parentOf scope = store.parentOf scope := by
  have views (store : Store) : store.parentOf scope = (store.scopes[scope]?.map Scope.frame).elim none (·.1) := by
    unfold parentOf
    cases store.scopes[scope]? <;> rfl
  rw [views, views, same]

theorem sinkOf_eq_of_frame (same : store'.scopes[scope]?.map Scope.frame = store.scopes[scope]?.map Scope.frame) :
    store'.sinkOf scope = store.sinkOf scope := by
  have views (store : Store) :
      store.sinkOf scope = (store.scopes[scope]?.map Scope.frame).elim standardSink (·.2.1) := by
    unfold sinkOf
    cases store.scopes[scope]? <;> rfl
  rw [views, views, same]

theorem scopingOf_eq_of_frame (same : store'.scopes[scope]?.map Scope.frame = store.scopes[scope]?.map Scope.frame) :
    store'.scopingOf scope = store.scopingOf scope := by
  have views (store : Store) :
      store.scopingOf scope = (store.scopes[scope]?.map Scope.frame).elim .dynamic (·.2.2) := by
    unfold scopingOf
    cases store.scopes[scope]? <;> rfl
  rw [views, views, same]

/-- The way outward depends on frames alone. -/
theorem root_eq_of_frames
    (same : ∀ index : Nat, store'.scopes[index]?.map Scope.frame = store.scopes[index]?.map Scope.frame) (scope : Nat) :
    store'.root scope = store.root scope := by
  have general (steps scope : Nat) : rootFrom store'.scopes steps scope = rootFrom store.scopes steps scope := by
    induction steps generalizing scope with
    | zero => rfl
    | succ steps ih =>
      have here := same scope
      rw [rootFrom, rootFrom]
      cases found' : store'.scopes[scope]? with
      | none =>
        rw [found', Option.map_none, eq_comm, Option.map_eq_none_iff] at here
        rw [here]
      | some later =>
        rw [found', Option.map_some, eq_comm, Option.map_eq_some_iff] at here
        obtain ⟨found, known, frame⟩ := here
        have outward : found.parent = later.parent := congrArg Prod.fst frame
        simp only [known, outward, ih]
  exact general (scope + 1) scope

end Frames

/-! What operations do to frames and variables -/

theorem frame_bind (store : Store) (scope : Nat) (name : String) (value : Value) (index : Nat) :
    (store.bind scope name value).scopes[index]?.map Scope.frame = store.scopes[index]?.map Scope.frame := by
  rw [bind, updateScope, Array.getElem?_modify]
  split
  · rw [Option.map_map]
    rfl
  · rfl

theorem bindingsOf_bind {store : Store} {scope : Nat} (inside : scope < store.scopes.size) (name : String)
    (value : Value) (index : Nat) : (store.bind scope name value).bindingsOf index =
      if index = scope then (store.bindingsOf scope).set name value else store.bindingsOf index := by
  rw [bindingsOf, bind, updateScope, Array.getElem?_modify]
  by_cases same : index = scope
  · rw [if_pos same, if_pos same.symm, same, bindingsOf, Array.getElem?_eq_getElem inside]
    rfl
  · rw [if_neg same, if_neg (Ne.symm same)]
    rfl

theorem bindingsOf_addScope (store : Store) (scope : Scope) (index : Nat) : (store.addScope scope).2.bindingsOf index =
    if index = store.scopes.size then scope.bindings else store.bindingsOf index := by
  rw [bindingsOf, addScope, Array.getElem?_push]
  by_cases same : index = store.scopes.size
  · rw [if_pos same, if_pos same]
  · rw [if_neg same, if_neg same]
    rfl

section Policies

variable (store : Store) (scope : Nat) (scoping : Scoping) (index : Nat)

theorem getElem?_setScoping : (store.setScoping scope scoping).scopes[index]? =
    store.scopes[index]?.map fun found => if scope = index then { found with scoping } else found := by
  rw [setScoping, updateScope, Array.getElem?_modify]
  split
  · rfl
  · exact Option.map_id'.symm

@[simp] theorem parentOf_setScoping : (store.setScoping scope scoping).parentOf index = store.parentOf index := by
  rw [parentOf, parentOf, getElem?_setScoping]
  cases store.scopes[index]? with
  | none => rfl
  | some found => simp only [Option.map_some, apply_ite Scope.parent, ite_self]

@[simp] theorem sinkOf_setScoping : (store.setScoping scope scoping).sinkOf index = store.sinkOf index := by
  rw [sinkOf, sinkOf, getElem?_setScoping]
  cases store.scopes[index]? with
  | none => rfl
  | some found => simp only [Option.map_some, apply_ite Scope.sink, ite_self]

@[simp] theorem bindingsOf_setScoping :
    (store.setScoping scope scoping).bindingsOf index = store.bindingsOf index := by
  rw [bindingsOf, bindingsOf, getElem?_setScoping]
  cases store.scopes[index]? with
  | none => rfl
  | some found => simp only [Option.map_some, apply_ite Scope.bindings, ite_self]

@[simp] theorem size_setScoping : (store.setScoping scope scoping).scopes.size = store.scopes.size := by
  rw [setScoping, updateScope, Array.size_modify]

theorem scopingOf_setScoping {store : Store} {scope : Nat} (inside : scope < store.scopes.size) (scoping : Scoping) :
    (store.setScoping scope scoping).scopingOf scope = scoping := by
  rw [scopingOf, getElem?_setScoping, Array.getElem?_eq_getElem inside, Option.map_some, if_pos rfl]

end Policies

end Store

end Corvid
