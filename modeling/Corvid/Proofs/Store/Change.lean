import Corvid.Proofs.Store.WellFormed

/-!
The changes that evaluation makes to a store, and what each of them can do to what the store holds: a value that is
bound, an item or an entry after a change was there before or is good.
-/
namespace Corvid

/-- The changes that a rule makes to a store on its own, all with values that are good there. -/
inductive Change (good : Store → Value → Prop) (scope : Nat) (store : Store) : Store → Prop where
  | bind (name : String) {value : Value} (fine : good store value) :
      Change good scope store (store.bind scope name value)
  | list {items : List Value} (fine : ∀ item ∈ items, good store item) :
      Change good scope store (store.allocate (.list items)).2
  | dict {entries : Entries} (fine : ∀ entry ∈ entries, good store entry.2) :
      Change good scope store (store.allocate (.dict entries)).2
  | setItem {handle index : Nat} {value : Value} (held : good store (.list handle))
      (inside : index < (store.items handle).length) (fine : good store value) :
      Change good scope store (store.setItem handle index value)
  | setEntry {handle : Nat} (key : Key) {value : Value} (held : good store (.dict handle))
      (fine : good store value) : Change good scope store (store.setEntry handle key value)
  | write (text : String) : Change good scope store (store.write scope text)
  | draw : Change good scope store { store with nans := store.nans + 1 }

/-- The items of a container that is a list. -/
def Container.items : Container → List Value
  | .list items => items
  | .dict _ => []

/-- The entries of a container that is a dictionary. -/
def Container.entries : Container → Entries
  | .list _ => []
  | .dict entries => entries

namespace Store

variable {store : Store}

/-- One side of the container at a handle; nothing for a handle of no container. -/
def side {α : Type} (view : Container → List α) (store : Store) (handle : Nat) : List α :=
  (store.containers[handle]?).elim [] view

theorem items_eq_side (store : Store) (handle : Nat) : store.items handle = store.side Container.items handle := by
  unfold Store.items side
  cases store.containers[handle]? with
  | none => rfl
  | some container => cases container <;> rfl

theorem entries_eq_side (store : Store) (handle : Nat) :
    store.entries handle = store.side Container.entries handle := by
  unfold Store.entries side
  cases store.containers[handle]? with
  | none => rfl
  | some container => cases container <;> rfl

theorem mem_side_allocate {α : Type} {view : Container → List α} {container : Container} {handle : Nat} {member : α}
    (there : member ∈ (store.allocate container).2.side view handle) :
    member ∈ store.side view handle ∨ member ∈ view container := by
  rw [side, allocate, Array.getElem?_push] at there
  split at there
  · exact .inr there
  · exact .inl there

theorem mem_side_setContainer {α : Type} {view : Container → List α} {container : Container} {handle other : Nat}
    {member : α} (there : member ∈ (store.setContainer handle container).side view other) :
    member ∈ store.side view other ∨ other = handle ∧ member ∈ view container := by
  rw [side, setContainer_get?] at there
  split at there
  · next same =>
    cases found : store.containers[other]? with
    | none =>
      rw [found] at there
      cases there
    | some old =>
      rw [found] at there
      exact .inr ⟨same.symm, there⟩
  · exact .inl there

theorem mem_items_setItem {handle index other : Nat} {value item : Value}
    (member : item ∈ (store.setItem handle index value).items other) : item ∈ store.items other ∨ item = value := by
  rw [items_eq_side] at member ⊢
  obtain earlier | ⟨rfl, later⟩ := mem_side_setContainer member
  · exact .inl earlier
  · rw [← items_eq_side]
    exact List.mem_or_eq_of_mem_set later

theorem mem_entries_setItem {handle index other : Nat} {value : Value} {entry : Key × Value}
    (member : entry ∈ (store.setItem handle index value).entries other) : entry ∈ store.entries other := by
  rw [entries_eq_side] at member ⊢
  exact (mem_side_setContainer member).resolve_right fun ⟨_, never⟩ => List.not_mem_nil never

theorem mem_entries_setEntry {handle other : Nat} {key : Key} {value : Value} {entry : Key × Value}
    (member : entry ∈ (store.setEntry handle key value).entries other) :
    entry ∈ store.entries other ∨ entry.2 = value := by
  rw [entries_eq_side] at member ⊢
  obtain earlier | ⟨rfl, later⟩ := mem_side_setContainer member
  · exact .inl earlier
  · rw [← entries_eq_side]
    exact (Entries.mem_set later).imp_right And.left

theorem mem_items_setEntry {handle other : Nat} {key : Key} {value item : Value}
    (member : item ∈ (store.setEntry handle key value).items other) : item ∈ store.items other := by
  rw [items_eq_side] at member ⊢
  exact (mem_side_setContainer member).resolve_right fun ⟨_, never⟩ => List.not_mem_nil never

theorem mem_bindingsOf_bind {scope other : Nat} {name : String} {value : Value} {pair : String × Value}
    (member : pair ∈ (store.bind scope name value).bindingsOf other) :
    pair ∈ store.bindingsOf other ∨ pair.2 = value := by
  unfold bindingsOf at member ⊢
  rw [bind, updateScope, Array.getElem?_modify] at member
  cases found : store.scopes[other]? with
  | none => simp [found] at member
  | some known =>
    rw [found] at member
    by_cases same : scope = other
    · rw [if_pos same] at member
      exact Bindings.mem_set member
    · rw [if_neg same] at member
      exact .inl member

theorem scopes_addScope {scope found : Scope} {index : Nat}
    (there : (store.addScope scope).2.scopes[index]? = some found) :
    store.scopes[index]? = some found ∨ index = store.scopes.size ∧ found = scope := by
  rw [addScope, Array.getElem?_push] at there
  split at there
  · next fresh =>
    cases there
    exact .inr ⟨fresh, rfl⟩
  · exact .inl there

theorem addCall_of_dynamic {caller : Nat} (dynamic : store.scopingOf caller = .dynamic) (bindings : Bindings) :
    store.addCall caller bindings = store.addScope ⟨bindings, some caller, store.sinkOf caller, .dynamic⟩ := by
  rw [addCall, dynamic, addChild, addNested, dynamic]
  rfl

theorem addCall_of_global {caller : Nat} (everywhere : store.scopingOf caller = .global) (bindings : Bindings) :
    store.addCall caller bindings = store.addScope
      ⟨bindings, some (store.root caller), store.sinkOf (store.root caller), store.scopingOf (store.root caller)⟩ := by
  rw [addCall, everywhere]
  rfl

/-- A function's body is called in a new scope inside the caller's or inside its root. -/
theorem addCall_eq (store : Store) (caller : Nat) (bindings : Bindings) :
    ∃ scope, store.addCall caller bindings = store.addScope scope ∧ scope.bindings = bindings ∧
      (scope.parent = some caller ∨ scope.parent = some (store.root caller)) := by
  unfold addCall
  split
  · exact ⟨_, rfl, rfl, .inl rfl⟩
  · exact ⟨_, rfl, rfl, .inr rfl⟩

end Store

namespace Change

variable {good : Store → Value → Prop} {scope : Nat} {store after : Store}

theorem bindings (change : Change good scope store after) {other : Nat} {pair : String × Value}
    (member : pair ∈ after.bindingsOf other) : pair ∈ store.bindingsOf other ∨ good store pair.2 := by
  cases change with
  | bind name fine =>
    apply (Store.mem_bindingsOf_bind member).imp_right
    intro same
    rwa [same]
  | _ => exact .inl member

theorem items (change : Change good scope store after) {handle : Nat} {item : Value}
    (member : item ∈ after.items handle) : item ∈ store.items handle ∨ good store item := by
  cases change with
  | list fine =>
    rw [Store.items_eq_side] at member ⊢
    exact (Store.mem_side_allocate member).imp_right (fine item)
  | dict fine =>
    rw [Store.items_eq_side] at member ⊢
    exact .inl ((Store.mem_side_allocate member).resolve_right List.not_mem_nil)
  | setItem held inside fine =>
    apply (Store.mem_items_setItem member).imp_right
    intro same
    rwa [same]
  | setEntry key held fine => exact .inl (Store.mem_items_setEntry member)
  | _ => exact .inl member

theorem entries (change : Change good scope store after) {handle : Nat} {entry : Key × Value}
    (member : entry ∈ after.entries handle) : entry ∈ store.entries handle ∨ good store entry.2 := by
  cases change with
  | list fine =>
    rw [Store.entries_eq_side] at member ⊢
    exact .inl ((Store.mem_side_allocate member).resolve_right List.not_mem_nil)
  | dict fine =>
    rw [Store.entries_eq_side] at member ⊢
    exact (Store.mem_side_allocate member).imp_right (fine entry)
  | setItem held inside fine => exact .inl (Store.mem_entries_setItem member)
  | setEntry key held fine =>
    apply (Store.mem_entries_setEntry member).imp_right
    intro same
    rwa [same]
  | _ => exact .inl member

/-- No change removes a container or a scope. -/
theorem sizes (change : Change good scope store after) :
    store.containers.size ≤ after.containers.size ∧ store.scopes.size ≤ after.scopes.size := by
  cases change <;> simp [Store.bind, Store.updateScope, Store.allocate, Store.setItem, Store.setEntry,
    Store.setContainer, Store.write, Store.append]

/-- No change moves a scope. -/
theorem parent (change : Change good scope store after) {inner outer : Nat} (parent : after.Parent inner outer) :
    store.Parent inner outer := by
  cases change with
  | bind name fine =>
    obtain ⟨found, there, outward⟩ := parent
    rw [Store.bind, Store.updateScope, Array.getElem?_modify] at there
    split at there
    · obtain ⟨known, before, rfl⟩ := Option.map_eq_some_iff.mp there
      exact ⟨known, before, outward⟩
    · exact ⟨found, there, outward⟩
  | _ => exact parent

end Change

end Corvid
