import Corvid.Proofs.Eval.Contract

/-!
How containers and output grow. Evaluation replaces items of lists and adds keys to dictionaries, and writes behind
what is written; it does nothing else to a container or a sink. That a list keeps its length is what keeps a loop
over it within bounds, whatever the body does to the list.
-/
namespace Corvid

/-- A value whose handle, if it has one, refers to a container of its kind. -/
def Value.Linked (store : Store) : Value → Prop
  | .list handle => store.IsList handle
  | .dict handle => store.IsDict handle
  | _ => True

/-- What may become of a container. -/
inductive Container.Evolves : Container → Container → Prop where
  | list {items later : List Value} (length : later.length = items.length) : Evolves (.list items) (.list later)
  | dict {entries later : Entries} (keys : entries.map Prod.fst <+: later.map Prod.fst) :
      Evolves (.dict entries) (.dict later)

theorem Container.Evolves.refl (container : Container) : container.Evolves container := by
  cases container with
  | list items => exact .list rfl
  | dict entries => exact .dict (List.prefix_refl _)

theorem Container.Evolves.trans {first second third : Container} (evolves : first.Evolves second)
    (evolves' : second.Evolves third) : first.Evolves third := by
  cases evolves with
  | list length =>
    cases evolves' with
    | list length' => exact .list (length'.trans length)
  | dict keys =>
    cases evolves' with
    | dict keys' => exact .dict (keys.trans keys')

/-- A new key is put behind all others. -/
theorem Entries.keys_set (entries : Entries) (key : Key) (value : Value) :
    entries.map Prod.fst <+: (entries.set key value).map Prod.fst := by
  induction entries with
  | nil => exact List.nil_prefix
  | cons first rest ih =>
    rw [Entries.set]
    split
    · exact List.prefix_refl _
    · exact (List.prefix_cons_inj first.1).mpr ih

namespace Store

/-- Every handle that a store holds refers to a container of its kind. -/
structure Linked (store : Store) : Prop where
  bindings : ∀ scope, ∀ binding ∈ store.bindingsOf scope, binding.2.Linked store
  items : ∀ handle, ∀ item ∈ store.items handle, item.Linked store
  entries : ∀ handle, ∀ entry ∈ store.entries handle, entry.2.Linked store

/-- What may become of the containers and of the output of a store. -/
structure Evolves (before after : Store) : Prop where
  containers : ∀ (handle : Nat) (container : Container), before.containers[handle]? = some container →
    ∃ later, after.containers[handle]? = some later ∧ container.Evolves later
  sinks : ∀ (sink : Nat) (text : String), before.sinks[sink]? = some text →
    ∃ more, after.sinks[sink]? = some (text ++ more)

namespace Evolves

theorem of_same {before after : Store} (containers : after.containers = before.containers)
    (sinks : after.sinks = before.sinks) : before.Evolves after where
  containers handle container known := ⟨container, containers ▸ known, .refl container⟩
  sinks sink text known := ⟨"", by rw [sinks, known, String.append_empty]⟩

theorem trans {first second third : Store} (evolves : first.Evolves second) (evolves' : second.Evolves third) :
    first.Evolves third where
  containers handle container known := by
    obtain ⟨middle, there, change⟩ := evolves.containers handle container known
    obtain ⟨later, there', change'⟩ := evolves'.containers handle middle there
    exact ⟨later, there', change.trans change'⟩
  sinks sink text known := by
    obtain ⟨more, there⟩ := evolves.sinks sink text known
    obtain ⟨most, there'⟩ := evolves'.sinks sink (text ++ more) there
    exact ⟨more ++ most, by rw [there', String.append_assoc]⟩

theorem of_allocate (store : Store) (container : Container) : store.Evolves (store.allocate container).2 where
  containers handle old known := ⟨old, Retains.allocate store container handle old known, .refl old⟩
  sinks sink text known := ⟨"", by rw [String.append_empty]; exact known⟩

/-- A container in the place of one that it may come from. -/
theorem of_setContainer {store : Store} {handle : Nat} {old container : Container}
    (known : store.containers[handle]? = some old) (change : old.Evolves container) :
    store.Evolves (store.setContainer handle container) where
  containers other found there := by
    rw [setContainer_get?, there]
    split
    · next same =>
      subst same
      rw [known] at there
      cases there
      exact ⟨container, rfl, change⟩
    · exact ⟨found, rfl, .refl found⟩
  sinks sink text known := ⟨"", by rw [String.append_empty]; exact known⟩

theorem of_write (store : Store) (scope : Nat) (text : String) : store.Evolves (store.write scope text) where
  containers handle container known := ⟨container, known, .refl container⟩
  sinks sink old known := by
    rw [write, append, Array.getElem?_modify, known]
    split
    · exact ⟨text, rfl⟩
    · exact ⟨"", by rw [String.append_empty]⟩

theorem of_change {scope : Nat} {store after : Store}
    (change : Change (fun store value => value.Linked store) scope store after) : store.Evolves after := by
  cases change with
  | bind name fine => exact .of_same rfl rfl
  | list fine => exact .of_allocate store _
  | dict fine => exact .of_allocate store _
  | setItem held inside fine =>
    obtain ⟨items, known⟩ := held
    apply of_setContainer known
    rw [Store.items, known]
    exact .list List.length_set
  | setEntry key held fine =>
    obtain ⟨entries, known⟩ := held
    apply of_setContainer known
    rw [Store.entries, known]
    exact .dict (Entries.keys_set entries key _)
  | write text => exact .of_write store scope text
  | draw => exact .of_same rfl rfl

end Evolves

end Store

/-- Containers keep their kind, so handles go on referring to them. -/
theorem Value.Linked.mono {before after : Store} (evolves : before.Evolves after) {value : Value}
    (linked : value.Linked before) : value.Linked after := by
  cases value with
  | list handle =>
    obtain ⟨items, known⟩ := linked
    obtain ⟨_, there, change⟩ := evolves.containers handle _ known
    cases change with
    | list length => exact ⟨_, there⟩
  | dict handle =>
    obtain ⟨entries, known⟩ := linked
    obtain ⟨_, there, change⟩ := evolves.containers handle _ known
    cases change with
    | dict keys => exact ⟨_, there⟩
  | _ => trivial

namespace Store.Linked

theorem empty : Store.empty.Linked where
  bindings scope binding member := by simp [bindingsOf, Store.empty] at member
  items handle item member := by simp [Store.items, Store.empty] at member
  entries handle entry member := by simp [Store.entries, Store.empty] at member

theorem of_change {scope : Nat} {store after : Store} (linked : store.Linked)
    (change : Change (fun store value => value.Linked store) scope store after) : after.Linked := by
  have evolves := Evolves.of_change change
  constructor
  · intro scope binding member
    obtain earlier | fine := change.bindings member
    · exact (linked.bindings scope binding earlier).mono evolves
    · exact fine.mono evolves
  · intro handle item member
    obtain earlier | fine := change.items member
    · exact (linked.items handle item earlier).mono evolves
    · exact fine.mono evolves
  · intro handle entry member
    obtain earlier | fine := change.entries member
    · exact (linked.entries handle entry earlier).mono evolves
    · exact fine.mono evolves

theorem addScope {store : Store} (linked : store.Linked) {scope : Scope}
    (fine : ∀ binding ∈ scope.bindings, binding.2.Linked store) : (store.addScope scope).2.Linked where
  bindings index binding member := by
    rw [bindingsOf] at member
    split at member
    · next found there =>
      obtain earlier | ⟨_, rfl⟩ := scopes_addScope there
      · refine linked.bindings index binding ?_
        rwa [bindingsOf, earlier]
      · exact fine binding member
    · cases member
  items := linked.items
  entries := linked.entries

end Store.Linked

/-- The contract to grow: containers keep their kind and sinks their text. -/
def growthContract : Contract where
  node := fun _ => True
  inside := fun _ => True
  sound := Store.Linked
  good := fun store value => value.Linked store
  evolves := fun _ => Store.Evolves
  refl := fun _ _ => .of_same rfl rfl
  trans := .trans
  mono := fun evolves linked => linked.mono evolves
  part := fun _ _ => trivial
  atom := by
    intro store value atomic
    cases value with
    | list | dict => exact atomic.elim
    | _ => trivial
  declared := fun _ => trivial
  callable := fun _ => trivial
  lookup := by
    intro store scope name value linked _ found
    obtain ⟨outer, _, binding, member, rfl⟩ := Store.lookup_bound found
    exact linked.bindings outer binding member
  items := fun linked _ member => linked.items _ _ member
  entries := fun linked _ member => linked.entries _ _ member
  listed := fun items _ => ⟨items, Store.allocate_handle _ _⟩
  dicted := fun entries _ => ⟨entries, Store.allocate_handle _ _⟩
  change := fun linked _ change => ⟨.of_change change, linked.of_change change⟩
  call := by
    intro scope store bindings linked _ fine
    obtain ⟨inner, same, rfl, _⟩ := store.addCall_eq scope bindings
    rw [same]
    exact ⟨trivial, linked.addScope fine, fun after evolves => ⟨evolves.containers, evolves.sinks⟩⟩

/-- Evaluation to any depth of any tree, however it ends: every list stays a list of the same length, every dictionary
stays one and gets new keys only behind those it has, and the text in every sink stays at the start of what is there
afterwards. Handles go on referring to containers of their kind. -/
theorem evalWithin_grows (depth : Nat) (expr : Expr) (scope : Nat) {store : Store} (linked : store.Linked) :
    let after := (evalWithin depth expr scope store).2
    (∀ (handle : Nat) items, store.containers[handle]? = some (.list items) →
      ∃ later, after.containers[handle]? = some (.list later) ∧ later.length = items.length) ∧
    (∀ (handle : Nat) entries, store.containers[handle]? = some (.dict entries) →
      ∃ later, after.containers[handle]? = some (.dict later) ∧ entries.map Prod.fst <+: later.map Prod.fst) ∧
    (∀ (sink : Nat) text, store.sinks[sink]? = some text → ∃ more, after.sinks[sink]? = some (text ++ more)) ∧
    after.Linked := by
  have admitted : growthContract.Admits ⟨expr, scope, store⟩ := ⟨trivial, trivial, linked⟩
  obtain ⟨evolves, linked', _⟩ := growthContract.evalWithin_meets depth expr scope store admitted
  obtain ⟨containers, sinks⟩ : store.Evolves (evalWithin depth expr scope store).2 := evolves
  refine ⟨fun handle items known => ?_, fun handle entries known => ?_, sinks, linked'⟩
  · obtain ⟨_, there, change⟩ := containers handle _ known
    cases change with
    | list length => exact ⟨_, there, length⟩
  · obtain ⟨_, there, change⟩ := containers handle _ known
    cases change with
    | dict keys => exact ⟨_, there, keys⟩

/-- A loop over a list that stores into that list and into a dictionary, prints, and fails in its first turn. -/
theorem evalWithin_grows_loop :
    let lists := (Store.empty.allocate (.list [.int 1, .int 2])).2
    let start := ((lists.allocate (.dict [(.text "a", .list 0)])).2.addRoot
      [("xs", .list 0), ("d", .dict 1)] Store.standardSink .dynamic).2
    let body := Expr.block .absent
      [.store .absent (.name .absent "xs") (.literal .absent .int "1") (.name .absent "x"),
        .store .absent (.name .absent "d") (.literal .absent .string "\"b\"") (.name .absent "xs"),
        .print .absent (.name .absent "x") true,
        .store .absent (.name .absent "xs") (.literal .absent .int "2") (.name .absent "x")]
    let expr := Expr.loop .absent "x" (.name .absent "xs") body
    let after := (evalWithin 6 expr 0 start).2
    start.Linked ∧ (evalWithin 6 expr 0 start).1 = .error (.fault (.outOfBounds 2 2) .absent) ∧
      (∃ later, after.containers[0]? = some (.list later) ∧ later.length = 2) ∧
      (∃ later, after.containers[1]? = some (.dict later) ∧ [.text "a"] <+: later.map Prod.fst) ∧
      (∃ more, after.sinks[0]? = some ("" ++ more)) ∧ after.Linked := by
  intro lists start body expr after
  have lists_linked : lists.Linked := by
    have number : ∀ item ∈ [Value.int 1, .int 2], item.Linked Store.empty := by simp [Value.Linked]
    exact Store.Linked.empty.of_change (Change.list number : Change _ 0 _ _)
  have list_known : Value.Linked lists (.list 0) := ⟨_, rfl⟩
  have dicts_linked : (lists.allocate (.dict [(.text "a", .list 0)])).2.Linked := by
    have entry : ∀ entry ∈ [(Key.text "a", Value.list 0)], entry.2.Linked lists := by simpa using list_known
    exact lists_linked.of_change (Change.dict entry : Change _ 0 _ _)
  have linked : start.Linked := by
    apply dicts_linked.addScope
    simp only [List.forall_mem_cons, List.not_mem_nil, false_implies, implies_true, and_true]
    exact ⟨⟨_, rfl⟩, ⟨_, rfl⟩⟩
  have stops : (evalWithin 6 expr 0 start).1 = .error (.fault (.outOfBounds 2 2) .absent) := rfl
  obtain ⟨kept_lists, kept_dicts, kept_sinks, linked'⟩ := evalWithin_grows 6 expr 0 linked
  exact ⟨linked, stops, kept_lists 0 _ rfl, kept_dicts 1 _ rfl, kept_sinks 0 _ rfl, linked'⟩

end Corvid
