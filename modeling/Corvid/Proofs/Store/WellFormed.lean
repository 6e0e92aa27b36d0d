import Corvid.Proofs.Number.Single
import Corvid.Integer
import Corvid.Store
import Mathlib.Logic.Relation

/-!
Well-formed stores: every whole number is in range, every float in single precision, every handle refers to a
container of its kind, no dictionary has two equal keys, and every scope's parent is an older scope. All operations
on stores keep this, and none removes a container or a scope or changes the kind of a container.
-/
namespace Corvid

namespace Store

def IsList (store : Store) (handle : Nat) : Prop := ∃ items, store.containers[handle]? = some (.list items)

def IsDict (store : Store) (handle : Nat) : Prop := ∃ entries, store.containers[handle]? = some (.dict entries)

end Store

/-- A value that a store can hold: its numbers are in range and its handles refer to containers. -/
def Value.WellFormed (store : Store) : Value → Prop
  | .int n => Integer.least ≤ n ∧ n ≤ Integer.greatest
  | .float number => number.IsSingle
  | .range first last => (Integer.least ≤ first ∧ first ≤ Integer.greatest) ∧
      Integer.least ≤ last ∧ last ≤ Integer.greatest
  | .list handle => store.IsList handle
  | .dict handle => store.IsDict handle
  | _ => True

def Container.WellFormed (store : Store) : Container → Prop
  | .list items => ∀ item ∈ items, item.WellFormed store
  | .dict entries => (entries.Pairwise fun earlier later => earlier.1.same later.1 = false) ∧
      ∀ entry ∈ entries, entry.1.toValue.WellFormed store ∧ entry.2.WellFormed store

def Scope.WellFormed (store : Store) (index : Nat) (scope : Scope) : Prop :=
  (∀ binding ∈ scope.bindings, binding.2.WellFormed store) ∧ ∀ parent, scope.parent = some parent → parent < index

namespace Store

/-- Scopes are numbered in the order in which they are made, so a parent has a smaller number. -/
structure WellFormed (store : Store) : Prop where
  containers : ∀ (handle : Nat) (container : Container), store.containers[handle]? = some container →
    container.WellFormed store
  scopes : ∀ (index : Nat) (scope : Scope), store.scopes[index]? = some scope → scope.WellFormed store index

/-- What no operation takes back. -/
structure Grows (before after : Store) : Prop where
  lists : ∀ handle, before.IsList handle → after.IsList handle
  dicts : ∀ handle, before.IsDict handle → after.IsDict handle
  scopes : before.scopes.size ≤ after.scopes.size

theorem Grows.refl (store : Store) : store.Grows store := ⟨fun _ => id, fun _ => id, Nat.le_refl _⟩

theorem Grows.trans {first second third : Store} (grows : first.Grows second) (grows' : second.Grows third) :
    first.Grows third :=
  ⟨fun handle => grows'.lists handle ∘ grows.lists handle, fun handle => grows'.dicts handle ∘ grows.dicts handle,
    Nat.le_trans grows.scopes grows'.scopes⟩

/-- A scope that is there stays there. -/
theorem Grows.inside {before after : Store} (grows : before.Grows after) {scope : Nat}
    (inside : scope < before.scopes.size) : scope < after.scopes.size :=
  Nat.lt_of_lt_of_le inside grows.scopes

end Store

theorem Value.WellFormed.mono {before after : Store} (grows : before.Grows after) {value : Value}
    (formed : value.WellFormed before) : value.WellFormed after := by
  cases value with
  | list handle => exact grows.lists handle formed
  | dict handle => exact grows.dicts handle formed
  | _ => exact formed

theorem Container.WellFormed.mono {before after : Store} (grows : before.Grows after) {container : Container}
    (formed : container.WellFormed before) : container.WellFormed after := by
  cases container with
  | list items => exact fun item member => (formed item member).mono grows
  | dict entries =>
    exact ⟨formed.1, fun entry member =>
      ⟨(formed.2 entry member).1.mono grows, (formed.2 entry member).2.mono grows⟩⟩

theorem Scope.WellFormed.mono {before after : Store} (grows : before.Grows after) {index : Nat} {scope : Scope}
    (formed : scope.WellFormed before index) : scope.WellFormed after index :=
  ⟨fun binding member => (formed.1 binding member).mono grows, formed.2⟩

/-! Entries and bindings -/

theorem Bindings.mem_set {bindings : Bindings} {name : String} {value : Value} {pair : String × Value}
    (member : pair ∈ bindings.set name value) : pair ∈ bindings ∨ pair.2 = value := by
  induction bindings with
  | nil =>
    rw [Bindings.set, List.mem_singleton] at member
    exact .inr (congrArg Prod.snd member)
  | cons first rest ih =>
    rw [Bindings.set] at member
    split at member
    · obtain same | later := List.mem_cons.mp member
      · exact .inr (congrArg Prod.snd same)
      · exact .inl (List.mem_cons_of_mem _ later)
    · obtain same | later := List.mem_cons.mp member
      · exact .inl (List.mem_cons.mpr (.inl same))
      · exact (ih later).imp_left (List.mem_cons_of_mem _)

theorem Bindings.mem_ofPairs {pairs : List (String × Value)} {pair : String × Value}
    (member : pair ∈ Bindings.ofPairs pairs) : ∃ given ∈ pairs, pair.2 = given.2 := by
  have general (bindings : Bindings) (member : pair ∈ pairs.foldl (fun b p => Bindings.set b p.1 p.2) bindings) :
      pair ∈ bindings ∨ ∃ given ∈ pairs, pair.2 = given.2 := by
    clear * - member
    induction pairs generalizing bindings with
    | nil => exact .inl member
    | cons first rest ih =>
      obtain earlier | ⟨given, known, same⟩ := ih _ member
      · exact (Bindings.mem_set earlier).imp_right fun same => ⟨first, List.mem_cons_self, same⟩
      · exact .inr ⟨given, List.mem_cons_of_mem _ known, same⟩
  exact (general [] member).resolve_left (List.not_mem_nil)

theorem Bindings.find?_set (bindings : Bindings) (name other : String) (value : Value) :
    (bindings.set name value).find? other = if other = name then some value else bindings.find? other := by
  induction bindings with
  | nil => simp [Bindings.set, Bindings.find?, eq_comm]
  | cons first rest ih =>
    obtain ⟨known, old⟩ := first
    rw [Bindings.set]
    split
    · next same =>
      subst same
      simp only [Bindings.find?, eq_comm (a := other)]
      split <;> rfl
    · next differs =>
      simp only [Bindings.find?, ih]
      split
      · next same =>
        subst same
        rw [if_neg differs]
      · rfl

/-- Setting a name binds it and unbinds no other. -/
theorem Bindings.isSome_find?_set (bindings : Bindings) (name other : String) (value : Value) :
    ((bindings.set name value).find? other).isSome ↔ name = other ∨ (bindings.find? other).isSome := by
  rw [Bindings.find?_set]
  split
  · next same => exact iff_of_true rfl (.inl same.symm)
  · next differs => exact (or_iff_right fun same => differs same.symm).symm

theorem Bindings.isSome_find?_ofPairs (pairs : List (String × Value)) (name : String) :
    ((Bindings.ofPairs pairs).find? name).isSome ↔ name ∈ pairs.map Prod.fst := by
  have general (bindings : Bindings) :
      ((pairs.foldl (fun b p => Bindings.set b p.1 p.2) bindings).find? name).isSome ↔
        (bindings.find? name).isSome ∨ name ∈ pairs.map Prod.fst := by
    induction pairs generalizing bindings with
    | nil => simp
    | cons first rest ih =>
      rw [List.foldl_cons, ih, Bindings.isSome_find?_set, List.map_cons, List.mem_cons, eq_comm, or_assoc, or_left_comm]
  simpa [Bindings.ofPairs, Bindings.find?] using general []

theorem Bindings.find?_mem {bindings : Bindings} {name : String} {value : Value}
    (found : bindings.find? name = some value) : ∃ pair ∈ bindings, pair.2 = value := by
  induction bindings with
  | nil => cases found
  | cons first rest ih =>
    rw [Bindings.find?] at found
    split at found
    · cases found
      exact ⟨first, List.mem_cons_self, rfl⟩
    · obtain ⟨pair, member, same⟩ := ih found
      exact ⟨pair, List.mem_cons_of_mem _ member, same⟩

theorem Entries.find?_mem {entries : Entries} {key : Key} {value : Value}
    (found : entries.find? key = some value) : ∃ entry ∈ entries, entry.2 = value := by
  induction entries with
  | nil => cases found
  | cons first rest ih =>
    rw [Entries.find?] at found
    split at found
    · cases found
      exact ⟨first, List.mem_cons_self, rfl⟩
    · obtain ⟨entry, member, same⟩ := ih found
      exact ⟨entry, List.mem_cons_of_mem _ member, same⟩

/-- Keys of entries after one has been set: those that were there, or the new one. -/
theorem Entries.mem_set {entries : Entries} {key : Key} {value : Value} {entry : Key × Value}
    (member : entry ∈ entries.set key value) :
    entry ∈ entries ∨ entry.2 = value ∧ (entry.1 = key ∨ ∃ known ∈ entries, known.1 = entry.1) := by
  induction entries with
  | nil =>
    rw [Entries.set, List.mem_singleton] at member
    exact .inr ⟨congrArg Prod.snd member, .inl (congrArg Prod.fst member)⟩
  | cons first rest ih =>
    rw [Entries.set] at member
    split at member
    · obtain same | later := List.mem_cons.mp member
      · exact .inr ⟨congrArg Prod.snd same, .inr ⟨first, List.mem_cons_self, (congrArg Prod.fst same).symm⟩⟩
      · exact .inl (List.mem_cons_of_mem _ later)
    · obtain same | later := List.mem_cons.mp member
      · exact .inl (List.mem_cons.mpr (.inl same))
      · obtain earlier | ⟨stored, origin⟩ := ih later
        · exact .inl (List.mem_cons_of_mem _ earlier)
        · exact .inr ⟨stored, origin.imp_right fun ⟨known, member, same⟩ =>
            ⟨known, List.mem_cons_of_mem _ member, same⟩⟩

/-- Setting an entry never makes two equal keys. -/
theorem Entries.set_distinct {entries : Entries} {key : Key} {value : Value}
    (distinct : entries.Pairwise fun earlier later => earlier.1.same later.1 = false) :
    (entries.set key value).Pairwise fun earlier later => earlier.1.same later.1 = false := by
  induction entries with
  | nil => exact List.pairwise_singleton ..
  | cons first rest ih =>
    obtain ⟨apart, distinct⟩ := List.pairwise_cons.mp distinct
    rw [Entries.set]
    split
    · exact List.pairwise_cons.mpr ⟨apart, distinct⟩
    · next differs =>
      refine List.pairwise_cons.mpr ⟨fun later member => ?_, ih distinct⟩
      obtain known | ⟨_, rfl | ⟨known, member, same⟩⟩ := Entries.mem_set member
      · exact apart later known
      · simpa using differs
      · rw [← same]
        exact apart known member

theorem Entries.set_wellFormed {store : Store} {entries : Entries} {key : Key} {value : Value}
    (formed : Container.WellFormed store (.dict entries)) (key_fine : key.toValue.WellFormed store)
    (fine : value.WellFormed store) : Container.WellFormed store (.dict (entries.set key value)) := by
  refine ⟨Entries.set_distinct formed.1, fun entry member => ?_⟩
  obtain known | ⟨stored, origin⟩ := Entries.mem_set member
  · exact formed.2 entry known
  · refine ⟨?_, stored ▸ fine⟩
    obtain same | ⟨known, member, same⟩ := origin
    · exact same ▸ key_fine
    · exact same ▸ (formed.2 known member).1

/-! Operations -/

namespace Store

variable {store : Store}

/-- A store that has grown is well formed if its containers and scopes are those of before or well formed
themselves. -/
theorem WellFormed.of_grows {before after : Store} (formed : before.WellFormed) (grows : before.Grows after)
    (containers : ∀ (handle : Nat) (container : Container), after.containers[handle]? = some container →
      before.containers[handle]? = some container ∨ container.WellFormed after)
    (scopes : ∀ (index : Nat) (scope : Scope), after.scopes[index]? = some scope →
      before.scopes[index]? = some scope ∨ scope.WellFormed after index) : after.WellFormed where
  containers handle container found := (containers handle container found).elim
    (fun known => (formed.containers handle container known).mono grows) id
  scopes index scope found := (scopes index scope found).elim
    (fun known => (formed.scopes index scope known).mono grows) id

/-- The two promises of every operation. -/
def Keeps (before after : Store) : Prop := after.WellFormed ∧ before.Grows after

theorem keeps_of_same (formed : store.WellFormed) {after : Store} (containers : after.containers = store.containers)
    (scopes : after.scopes = store.scopes) : store.Keeps after := by
  have grows : store.Grows after := by
    refine ⟨fun handle => ?_, fun handle => ?_, ?_⟩
    · rw [IsList, IsList, containers]
      exact id
    · rw [IsDict, IsDict, containers]
      exact id
    · rw [scopes]
  exact ⟨formed.of_grows grows (fun handle container found => .inl (containers ▸ found))
    (fun index scope found => .inl (scopes ▸ found)), grows⟩

theorem allocate_grows (store : Store) (container : Container) : store.Grows (store.allocate container).2 := by
  have keeps (handle : Nat) (known : Container) (found : store.containers[handle]? = some known) :
      (store.allocate container).2.containers[handle]? = some known := by
    have bound := (Array.getElem?_eq_some_iff.mp found).1
    rw [allocate, Array.getElem?_push_lt bound]
    exact congrArg some (Array.getElem?_eq_some_iff.mp found).2
  exact ⟨fun handle ⟨items, found⟩ => ⟨items, keeps handle _ found⟩,
    fun handle ⟨entries, found⟩ => ⟨entries, keeps handle _ found⟩, Nat.le_refl _⟩

theorem allocate_keeps (formed : store.WellFormed) {container : Container} (fine : container.WellFormed store) :
    store.Keeps (store.allocate container).2 := by
  have grows := store.allocate_grows container
  refine ⟨formed.of_grows grows (fun handle known found => ?_) (fun index scope found => .inl found), grows⟩
  rw [allocate, Array.getElem?_push] at found
  split at found
  · cases found
    exact .inr (fine.mono grows)
  · exact .inl found

theorem allocate_handle (store : Store) (container : Container) :
    (store.allocate container).2.containers[(store.allocate container).1]? = some container := by
  simp [allocate]

theorem setContainer_get? (store : Store) (handle other : Nat) (container : Container) :
    (store.setContainer handle container).containers[other]? =
      if handle = other then store.containers[other]?.map fun _ => container else store.containers[other]? := by
  rw [setContainer, Array.getElem?_setIfInBounds]
  split
  · next same =>
    subst same
    split
    · next bound => simp [bound]
    · next bound => simp [Nat.not_lt.mp bound]
  · rfl

theorem setItem_keeps (formed : store.WellFormed) {handle : Nat} (list : store.IsList handle) (index : Nat)
    {value : Value} (fine : value.WellFormed store) : store.Keeps (store.setItem handle index value) := by
  obtain ⟨items, found⟩ := list
  have current : store.items handle = items := by
    rw [Store.items, found]
  have grows : store.Grows (store.setItem handle index value) := by
    refine ⟨fun other ⟨known, there⟩ => ?_, fun other ⟨known, there⟩ => ?_, Nat.le_refl _⟩
    · rw [IsList, setItem, setContainer_get?, there]
      split
      · exact ⟨_, rfl⟩
      · exact ⟨known, rfl⟩
    · rw [IsDict, setItem, setContainer_get?, there]
      split
      · next same =>
        rw [← same, found] at there
        cases there
      · exact ⟨known, rfl⟩
  refine ⟨formed.of_grows grows (fun other container there => ?_) (fun index scope there => .inl there), grows⟩
  rw [setItem, setContainer_get?] at there
  split at there
  · next same =>
    rw [← same, found, current] at there
    cases there
    refine .inr fun item member => ?_
    obtain known | rfl := List.mem_or_eq_of_mem_set member
    · exact (formed.containers handle _ found item known).mono grows
    · exact fine.mono grows
  · exact .inl there

theorem setEntry_keeps (formed : store.WellFormed) {handle : Nat} (dict : store.IsDict handle) {key : Key}
    {value : Value} (key_fine : key.toValue.WellFormed store) (fine : value.WellFormed store) :
    store.Keeps (store.setEntry handle key value) := by
  obtain ⟨entries, found⟩ := dict
  have current : store.entries handle = entries := by
    rw [Store.entries, found]
  have grows : store.Grows (store.setEntry handle key value) := by
    refine ⟨fun other ⟨known, there⟩ => ?_, fun other ⟨known, there⟩ => ?_, Nat.le_refl _⟩
    · rw [IsList, setEntry, setContainer_get?, there]
      split
      · next same =>
        rw [← same, found] at there
        cases there
      · exact ⟨known, rfl⟩
    · rw [IsDict, setEntry, setContainer_get?, there]
      split
      · exact ⟨_, rfl⟩
      · exact ⟨known, rfl⟩
  refine ⟨formed.of_grows grows (fun other container there => ?_) (fun index scope there => .inl there), grows⟩
  rw [setEntry, setContainer_get?] at there
  split at there
  · next same =>
    rw [← same, found, current] at there
    cases there
    have before := formed.containers handle _ found
    exact .inr (Container.WellFormed.mono grows (Entries.set_wellFormed before key_fine fine))
  · exact .inl there

/-! Scopes -/

theorem bind_keeps (formed : store.WellFormed) (scope : Nat) (name : String) {value : Value}
    (fine : value.WellFormed store) : store.Keeps (store.bind scope name value) := by
  have grows : store.Grows (store.bind scope name value) :=
    ⟨fun _ => id, fun _ => id, by simp [bind, updateScope]⟩
  refine ⟨formed.of_grows grows (fun handle container found => .inl found) (fun index found there => ?_), grows⟩
  rw [bind, updateScope, Array.getElem?_modify] at there
  split at there
  · obtain ⟨known, before, rfl⟩ := Option.map_eq_some_iff.mp there
    obtain ⟨bindings, parents⟩ := formed.scopes index known before
    refine .inr ⟨fun pair member => ?_, parents⟩
    obtain earlier | same := Bindings.mem_set member
    · exact bindings pair earlier
    · rw [same]
      exact fine
  · exact .inl there

theorem write_keeps (formed : store.WellFormed) (scope : Nat) (text : String) :
    store.Keeps (store.write scope text) :=
  keeps_of_same formed rfl rfl

/-- The scope directly around another. -/
def Parent (store : Store) (inner outer : Nat) : Prop :=
  ∃ scope, store.scopes[inner]? = some scope ∧ scope.parent = some outer

/-- Whatever is around a scope is older. -/
def Ordered (store : Store) : Prop := ∀ inner outer, store.Parent inner outer → outer < inner

theorem WellFormed.ordered (formed : store.WellFormed) : store.Ordered := by
  rintro inner outer ⟨scope, found, outward⟩
  exact (formed.scopes inner scope found).2 outer outward

/-- The way to the root leads to older scopes. -/
theorem Ordered.rootFrom_le (ordered : store.Ordered) (steps scope : Nat) :
    rootFrom store.scopes steps scope ≤ scope := by
  induction steps generalizing scope with
  | zero => exact Nat.le_refl _
  | succ steps ih =>
    rw [rootFrom]
    split
    · exact Nat.le_refl _
    · next found there =>
      split
      · exact Nat.le_refl _
      · next parent outer => exact Nat.le_trans (ih parent) (Nat.le_of_lt (ordered _ _ ⟨found, there, outer⟩))

theorem addScope_keeps (formed : store.WellFormed) {scope : Scope}
    (fine : scope.WellFormed store store.scopes.size) : store.Keeps (store.addScope scope).2 := by
  have grows : store.Grows (store.addScope scope).2 :=
    ⟨fun _ => id, fun _ => id, by simp [addScope]⟩
  refine ⟨formed.of_grows grows (fun handle container found => .inl found) (fun index known found => ?_), grows⟩
  rw [addScope, Array.getElem?_push] at found
  split at found
  · next same =>
    cases found
    exact .inr (same ▸ fine)
  · exact .inl found

theorem empty_wellFormed : empty.WellFormed :=
  ⟨fun handle container found => by simp [empty] at found, fun index scope found => by simp [empty] at found⟩

theorem addRoot_keeps (formed : store.WellFormed) {bindings : Bindings}
    (fine : ∀ binding ∈ bindings, binding.2.WellFormed store) (sink : Nat) (scoping : Scoping) :
    store.Keeps (store.addRoot bindings sink scoping).2 :=
  addScope_keeps formed ⟨fine, fun _ same => nomatch same⟩

theorem addCall_keeps (formed : store.WellFormed) {caller : Nat} (inside : caller < store.scopes.size)
    {bindings : Bindings} (fine : ∀ binding ∈ bindings, binding.2.WellFormed store) :
    store.Keeps (store.addCall caller bindings).2 := by
  rw [addCall]
  split
  · exact addScope_keeps formed ⟨fine, fun parent same => by cases same; exact inside⟩
  · refine addScope_keeps formed ⟨fine, fun parent same => ?_⟩
    cases same
    exact Nat.lt_of_le_of_lt (formed.ordered.rootFrom_le _ caller) inside

theorem addCall_scope (store : Store) (caller : Nat) (bindings : Bindings) :
    (store.addCall caller bindings).1 < (store.addCall caller bindings).2.scopes.size := by
  rw [addCall]
  split <;> simp [addChild, addNested, addScope]

/-! Reading -/

theorem items_wellFormed (formed : store.WellFormed) {handle : Nat} {item : Value}
    (member : item ∈ store.items handle) : item.WellFormed store := by
  rw [Store.items] at member
  split at member
  · next items found => exact formed.containers handle _ found item member
  · cases member

theorem entries_wellFormed (formed : store.WellFormed) {handle : Nat} {entry : Key × Value}
    (member : entry ∈ store.entries handle) :
    entry.1.toValue.WellFormed store ∧ entry.2.WellFormed store := by
  rw [Store.entries] at member
  split at member
  · next entries found => exact (formed.containers handle _ found).2 entry member
  · cases member

/-! The way outward -/

/-- The root of a scope is on the way outward. -/
theorem root_around (store : Store) (scope : Nat) : Relation.ReflTransGen store.Parent scope (store.root scope) := by
  have general (steps scope : Nat) :
      Relation.ReflTransGen store.Parent scope (rootFrom store.scopes steps scope) := by
    induction steps generalizing scope with
    | zero => exact .refl
    | succ steps ih =>
      rw [rootFrom]
      split
      · exact .refl
      · next found there =>
        split
        · exact .refl
        · next parent outward => exact .head ⟨found, there, outward⟩ (ih parent)
  exact general (scope + 1) scope

/-- What a name stands for is bound on the way outward. -/
theorem lookup_bound {scope : Nat} {name : String} {value : Value} (found : store.lookup scope name = some value) :
    ∃ outer, Relation.ReflTransGen store.Parent scope outer ∧ ∃ pair ∈ store.bindingsOf outer, pair.2 = value := by
  have general (steps scope : Nat) (found : findFrom store.scopes name steps scope = some value) :
      ∃ outer, Relation.ReflTransGen store.Parent scope outer ∧ ∃ pair ∈ store.bindingsOf outer, pair.2 = value := by
    induction steps generalizing scope with
    | zero => cases found
    | succ steps ih =>
      rw [findFrom] at found
      split at found
      · cases found
      · next known there =>
        split at found
        · next bound =>
          cases found
          refine ⟨scope, .refl, ?_⟩
          rw [bindingsOf, there]
          exact Bindings.find?_mem bound
        · split at found
          · cases found
          · next parent outward =>
            obtain ⟨outer, around, bound⟩ := ih parent found
            exact ⟨outer, .head ⟨known, there, outward⟩ around, bound⟩
  exact general (scope + 1) scope found

theorem lookup_wellFormed (formed : store.WellFormed) {scope : Nat} {name : String} {value : Value}
    (found : store.lookup scope name = some value) : value.WellFormed store := by
  obtain ⟨outer, _, pair, member, rfl⟩ := lookup_bound found
  rw [bindingsOf] at member
  split at member
  · next known there => exact (formed.scopes outer known there).1 pair member
  · cases member

theorem WellFormed.parent_exists (formed : store.WellFormed) {inner outer : Nat}
    (parent : store.Parent inner outer) : outer < store.scopes.size := by
  have older := formed.ordered _ _ parent
  obtain ⟨scope, found, _⟩ := parent
  exact Nat.lt_trans older (Array.getElem?_eq_some_iff.mp found).1

/-- No scope is around itself. -/
theorem WellFormed.acyclic (formed : store.WellFormed) (scope : Nat) :
    ¬Relation.TransGen store.Parent scope scope := by
  have older {inner outer : Nat} (outward : Relation.TransGen store.Parent inner outer) : outer < inner := by
    induction outward with
    | single parent => exact formed.ordered _ _ parent
    | tail _ parent ih => exact Nat.lt_trans (formed.ordered _ _ parent) ih
  exact fun cycle => Nat.lt_irrefl _ (older cycle)

/-- The root is reached: it is around the scope, and nothing is around it. -/
theorem Ordered.root_spec (ordered : store.Ordered) (scope : Nat) :
    Relation.ReflTransGen store.Parent scope (store.root scope) ∧
      ∀ outer, ¬store.Parent (store.root scope) outer := by
  have general (steps scope : Nat) (enough : scope < steps) :
      Relation.ReflTransGen store.Parent scope (rootFrom store.scopes steps scope) ∧
        ∀ outer, ¬store.Parent (rootFrom store.scopes steps scope) outer := by
    induction steps generalizing scope with
    | zero => contradiction
    | succ steps ih =>
      rw [rootFrom]
      split
      · next missing =>
        refine ⟨.refl, fun outer ⟨found, there, _⟩ => ?_⟩
        rw [missing] at there
        cases there
      · next found there =>
        split
        · next none =>
          refine ⟨.refl, fun outer ⟨known, again, outward⟩ => ?_⟩
          rw [there] at again
          cases again
          rw [none] at outward
          cases outward
        · next parent outward =>
          have step : store.Parent scope parent := ⟨found, there, outward⟩
          obtain ⟨reaches, ends⟩ := ih parent (by have := ordered _ _ step; omega)
          exact ⟨.head step reaches, ends⟩
  exact general (scope + 1) scope (Nat.lt_succ_self _)

theorem WellFormed.root_spec (formed : store.WellFormed) (scope : Nat) :
    Relation.ReflTransGen store.Parent scope (store.root scope) ∧
      ∀ outer, ¬store.Parent (store.root scope) outer :=
  formed.ordered.root_spec scope

/-- A search that finds nothing has gone through every scope around its start. -/
theorem WellFormed.lookup_eq_none (formed : store.WellFormed) {scope : Nat} {name : String}
    (missing : store.lookup scope name = none) {outer : Nat}
    (around : Relation.ReflTransGen store.Parent scope outer) : (store.bindingsOf outer).find? name = none := by
  have general (steps scope : Nat) (enough : scope < steps) (missing : findFrom store.scopes name steps scope = none)
      (around : Relation.ReflTransGen store.Parent scope outer) : (store.bindingsOf outer).find? name = none := by
    induction steps generalizing scope with
    | zero => contradiction
    | succ steps ih =>
      rw [findFrom] at missing
      obtain same | ⟨parent, step, further⟩ := Relation.ReflTransGen.cases_head around
      · subst same
        rw [bindingsOf]
        split at missing
        · next absent => rw [absent]; rfl
        · next found there =>
          rw [there]
          split at missing
          · cases missing
          · next unbound => exact unbound
      · have older := formed.ordered _ _ step
        obtain ⟨found, there, outward⟩ := step
        rw [there] at missing
        simp only at missing
        split at missing
        · cases missing
        · rw [outward] at missing
          exact ih parent (by omega) missing further
  exact general (scope + 1) scope (Nat.lt_succ_self _) missing around

/-- A name that is bound in a scope itself is not looked up elsewhere. -/
theorem lookup_of_bound {scope : Nat} {name : String} (bound : ((store.bindingsOf scope).find? name).isSome) :
    store.lookup scope name = (store.bindingsOf scope).find? name := by
  rw [bindingsOf] at bound ⊢
  rw [lookup, findFrom]
  cases there : store.scopes[scope]? with
  | none => rfl
  | some found =>
    rw [there] at bound
    obtain ⟨value, known⟩ := Option.isSome_iff_exists.mp bound
    dsimp only at known ⊢
    rw [known]

/-! Scopes directly inside a root -/

section Roots

variable {scope root : Nat} {found : Scope}

theorem findFrom_of_top (top : store.parentOf root = none) (name : String) {steps : Nat} (some_step : 0 < steps) :
    findFrom store.scopes name steps root = (store.bindingsOf root).find? name := by
  obtain ⟨steps, rfl⟩ := Nat.exists_eq_add_of_lt some_step
  rw [findFrom, bindingsOf]
  rw [parentOf] at top
  cases there : store.scopes[root]? with
  | none => rfl
  | some found =>
    rw [there] at top
    dsimp only at top ⊢
    rw [top]
    cases found.bindings.find? name <;> rfl

theorem lookup_of_top (top : store.parentOf root = none) (name : String) :
    store.lookup root name = (store.bindingsOf root).find? name :=
  findFrom_of_top top name (Nat.succ_pos root)

theorem lookup_of_child (there : store.scopes[scope]? = some found) (outward : found.parent = some root)
    (top : store.parentOf root = none) (older : root < scope) (name : String) :
    store.lookup scope name = (found.bindings.find? name).or ((store.bindingsOf root).find? name) := by
  rw [lookup, findFrom, there]
  dsimp only
  rw [outward]
  cases found.bindings.find? name with
  | some value => rfl
  | none => exact findFrom_of_top top name (Nat.zero_lt_of_lt older)

theorem rootFrom_of_top (top : store.parentOf root = none) (steps : Nat) : rootFrom store.scopes steps root = root := by
  cases steps with
  | zero => rfl
  | succ steps =>
    rw [parentOf] at top
    rw [rootFrom]
    cases there : store.scopes[root]? with
    | none => rfl
    | some found =>
      rw [there] at top
      dsimp only at top ⊢
      rw [top]

theorem root_of_top (top : store.parentOf root = none) : store.root root = root := rootFrom_of_top top _

theorem root_of_child (there : store.scopes[scope]? = some found) (outward : found.parent = some root)
    (top : store.parentOf root = none) : store.root scope = root := by
  rw [Store.root, rootFrom, there]
  dsimp only
  rw [outward]
  exact rootFrom_of_top top scope

end Roots

end Store

end Corvid
