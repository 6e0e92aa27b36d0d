import Corvid.Proofs.Eval.Simulation
import Corvid.Proofs.Store.Change

/-!
Two runs that begin in different stores and never see what was there before. From some place on, each of the stores
has the containers, scopes and NaNs that its run has made. Both runs make theirs in step, so those of the one are
those of the other counted from another number, and nothing in them refers to anything older.
-/
namespace Corvid

/-- Two arrays that correspond from given places on. -/
structure Aligned {α : Type} (rel : Nat → α → α → Prop) (start start' count : Nat) (entries entries' : Array α) :
    Prop where
  size : entries.size = start + count
  size' : entries'.size = start' + count
  get : ∀ k, Option.Rel (rel k) entries[start + k]? entries'[start' + k]?

namespace Aligned

variable {α : Type} {rel : Nat → α → α → Prop} {start start' count : Nat} {entries entries' : Array α}

theorem push (aligned : Aligned rel start start' count entries entries') {entry entry' : α}
    (related : rel count entry entry') :
    Aligned rel start start' (count + 1) (entries.push entry) (entries'.push entry') where
  size := by rw [Array.size_push, aligned.size, Nat.add_assoc]
  size' := by rw [Array.size_push, aligned.size', Nat.add_assoc]
  get k := by
    have last : start + k = start + count ↔ start' + k = start' + count := by omega
    rw [Array.getElem?_push, Array.getElem?_push, aligned.size, aligned.size']
    by_cases same : start + k = start + count
    · obtain rfl : k = count := by omega
      rw [if_pos rfl, if_pos rfl]
      exact .some related
    · rw [if_neg same, if_neg (fun same' => same (last.mpr same'))]
      exact aligned.get k

theorem modify (aligned : Aligned rel start start' count entries entries') (place : Nat) {change change' : α → α}
    (kept : ∀ {entry entry'}, rel place entry entry' → rel place (change entry) (change' entry')) :
    Aligned rel start start' count (entries.modify (start + place) change)
      (entries'.modify (start' + place) change') where
  size := by rw [Array.size_modify, aligned.size]
  size' := by rw [Array.size_modify, aligned.size']
  get k := by
    rw [Array.getElem?_modify, Array.getElem?_modify]
    have related := aligned.get k
    by_cases same : place = k
    · subst same
      rw [if_pos rfl, if_pos rfl]
      generalize entries[start + place]? = entry, entries'[start' + place]? = entry' at related
      cases related with
      | none => exact .none
      | some related => exact .some (kept related)
    · rw [if_neg (by omega), if_neg (by omega)]
      exact related

theorem set (aligned : Aligned rel start start' count entries entries') (place : Nat) {entry entry' : α}
    (related : rel place entry entry') :
    Aligned rel start start' count (entries.setIfInBounds (start + place) entry)
      (entries'.setIfInBounds (start' + place) entry') where
  size := by rw [Array.size_setIfInBounds, aligned.size]
  size' := by rw [Array.size_setIfInBounds, aligned.size']
  get k := by
    rw [Array.getElem?_setIfInBounds, Array.getElem?_setIfInBounds, aligned.size, aligned.size']
    by_cases same : place = k
    · subst same
      rw [if_pos rfl, if_pos rfl]
      by_cases inside : place < count
      · rw [if_pos (by omega), if_pos (by omega)]
        exact .some related
      · rw [if_neg (by omega), if_neg (by omega)]
        exact .none
    · rw [if_neg (by omega), if_neg (by omega)]
      exact aligned.get k

end Aligned

/-! Bindings -/

/-- The same names with values that correspond. -/
abbrev Bindings.Alike (pairing : Pairing) : Bindings → Bindings → Prop :=
  List.Forall₂ fun binding binding' => binding.1 = binding'.1 ∧ binding.2.Alike pairing binding'.2

namespace Bindings.Alike

variable {pairing : Pairing} {bindings bindings' : Bindings} {value value' : Value}

theorem find? (alike : bindings.Alike pairing bindings') (name : String) :
    Option.Rel (Value.Alike pairing) (bindings.find? name) (bindings'.find? name) := by
  induction alike with
  | nil => exact .none
  | cons first _ ih =>
    rw [Bindings.find?, Bindings.find?, first.1]
    split
    · exact .some first.2
    · exact ih

theorem set (alike : bindings.Alike pairing bindings') (name : String) (fine : value.Alike pairing value') :
    (bindings.set name value).Alike pairing (bindings'.set name value') := by
  induction alike with
  | nil => exact .cons ⟨rfl, fine⟩ .nil
  | cons first rest ih =>
    rw [Bindings.set, Bindings.set, first.1]
    split
    · exact .cons ⟨rfl, fine⟩ rest
    · exact .cons ⟨rfl, first.2⟩ ih

theorem ofPairs (parameters : List String) {values values' : List Value}
    (alikes : List.Forall₂ (Value.Alike pairing) values values') :
    (Bindings.ofPairs (parameters.zip values)).Alike pairing (Bindings.ofPairs (parameters.zip values')) := by
  have pairs : Bindings.Alike pairing (parameters.zip values) (parameters.zip values') := by
    induction alikes generalizing parameters with
    | nil => simp
    | cons first _ ih =>
      cases parameters with
      | nil => exact .nil
      | cons name names => exact .cons ⟨rfl, first⟩ (ih names)
  have general {pairs pairs' made made' : Bindings} (alike : pairs.Alike pairing pairs')
      (start : made.Alike pairing made') :
      Bindings.Alike pairing (pairs.foldl (fun bindings pair => bindings.set pair.1 pair.2) made)
        (pairs'.foldl (fun bindings pair => bindings.set pair.1 pair.2) made') := by
    induction alike generalizing made made' with
    | nil => exact start
    | cons first _ ih =>
      rw [List.foldl_cons, List.foldl_cons, first.1]
      exact ih (start.set _ first.2)
  exact general pairs .nil

end Bindings.Alike

/-- Another item at one place. -/
theorem set_alike {pairing : Pairing} {items items' : List Value} {value value' : Value}
    (alike : List.Forall₂ (Value.Alike pairing) items items') (index : Nat) (fine : value.Alike pairing value') :
    List.Forall₂ (Value.Alike pairing) (items.set index value) (items'.set index value') := by
  induction alike generalizing index with
  | nil => exact .nil
  | cons first rest ih =>
    cases index with
    | zero => exact .cons fine rest
    | succ index => exact .cons first (ih index)

/-! Stores -/

section Containers

variable {pairing : Pairing} {store store' : Store} {handle handle' : Nat}

theorem Store.items_alike_of_container
    (related : Option.Rel (Container.Alike pairing) store.containers[handle]? store'.containers[handle']?) :
    List.Forall₂ (Value.Alike pairing) (store.items handle) (store'.items handle') := by
  unfold Store.items
  generalize store.containers[handle]? = held, store'.containers[handle']? = held' at related
  cases related with
  | none => exact .nil
  | some alike =>
    cases alike with
    | list alikes => exact alikes
    | dict _ => exact .nil

theorem Store.entries_alike_of_container
    (related : Option.Rel (Container.Alike pairing) store.containers[handle]? store'.containers[handle']?) :
    (store.entries handle).Alike pairing (store'.entries handle') := by
  unfold Store.entries
  generalize store.containers[handle]? = held, store'.containers[handle']? = held' at related
  cases related with
  | none => exact .nil
  | some alike =>
    cases alike with
    | list _ => exact .nil
    | dict alikes => exact alikes

end Containers

/-- Where the part of a store begins that a run has made, the sink it writes to and what was there before. -/
structure Base where
  containers : Nat
  scopes : Nat
  tags : Nat
  sink : Nat
  text : String

/-- What corresponds if both runs count from their own base. -/
def Base.pairing (base base' : Base) : Pairing where
  handles handle handle' := ∃ k, handle = base.containers + k ∧ handle' = base'.containers + k
  tags tag tag' := ∃ k, tag = base.tags + k ∧ tag' = base'.tags + k
  functions _ _ := True
  tags_iff := by
    rintro _ _ _ _ ⟨k, rfl, rfl⟩ ⟨l, rfl, rfl⟩
    omega

/-- Scopes that correspond: their variables do, and so do their parents, which are older. -/
structure Scope.Alike (base base' : Base) (place : Nat) (found found' : Scope) : Prop where
  bindings : found.bindings.Alike (base.pairing base') found'.bindings
  parent : Option.Rel (fun parent parent' => ∃ k < place, parent = base.scopes + k ∧ parent' = base'.scopes + k)
    found.parent found'.parent
  sink : found.sink = base.sink
  sink' : found'.sink = base'.sink
  scoping : found'.scoping = found.scoping

/-- What two runs have made in step. -/
structure Store.Lockstep (base base' : Base) (count : Nat) (store store' : Store) : Prop where
  containers : ∃ made, Aligned (fun _ => Container.Alike (base.pairing base')) base.containers base'.containers made
    store.containers store'.containers
  scopes : Aligned (Scope.Alike base base') base.scopes base'.scopes count store.scopes store'.scopes
  tags : ∃ drawn, store.nans = base.tags + drawn ∧ store'.nans = base'.tags + drawn
  written : ∃ more, store.sinks[base.sink]? = some (base.text ++ more) ∧
    store'.sinks[base'.sink]? = some (base'.text ++ more)

namespace Store.Lockstep

variable {base base' : Base} {count : Nat} {store store' : Store}

/-- Scopes that are there are there in both stores. -/
theorem exists_scope (steps : Lockstep base base' count store store') {place : Nat} (inside : place < count) :
    ∃ found found', store.scopes[base.scopes + place]? = some found ∧
      store'.scopes[base'.scopes + place]? = some found' ∧ found.Alike base base' place found' := by
  have related := steps.scopes.get place
  have bound : base.scopes + place < store.scopes.size := by rw [steps.scopes.size]; omega
  rw [Array.getElem?_eq_getElem bound] at related ⊢
  generalize store'.scopes[base'.scopes + place]? = other at related
  cases related with
  | some alike => exact ⟨_, _, rfl, rfl, alike⟩

/-- A name has corresponding values, however many steps outward are allowed beyond those that there are. -/
theorem findFrom_alike (lockstep : Lockstep base base' count store store') (name : String) {place steps steps' : Nat}
    (enough : place < steps) (enough' : place < steps') :
    Option.Rel (Value.Alike (base.pairing base')) (findFrom store.scopes name steps (base.scopes + place))
      (findFrom store'.scopes name steps' (base'.scopes + place)) := by
  induction place using Nat.strongRecOn generalizing steps steps' with
  | ind place ih =>
    cases steps with
    | zero => omega
    | succ steps =>
      cases steps' with
      | zero => omega
      | succ steps' =>
        have related := lockstep.scopes.get place
        unfold findFrom
        generalize store.scopes[base.scopes + place]? = found, store'.scopes[base'.scopes + place]? = found' at related
        cases related with
        | none => exact .none
        | @some found found' alike =>
          have bound := alike.bindings.find? name
          have outward := alike.parent
          dsimp only
          generalize found.bindings.find? name = value, found'.bindings.find? name = value' at bound
          cases bound with
          | some fine => exact .some fine
          | none =>
            generalize found.parent = parent, found'.parent = parent' at outward
            cases outward with
            | none => exact .none
            | some older =>
              obtain ⟨k, less, rfl, rfl⟩ := older
              exact ih k less (by omega) (by omega)

theorem lookup_alike (lockstep : Lockstep base base' count store store') (place : Nat) (name : String) :
    Option.Rel (Value.Alike (base.pairing base')) (store.lookup (base.scopes + place) name)
      (store'.lookup (base'.scopes + place) name) :=
  lockstep.findFrom_alike name (by omega) (by omega)

/-- The root around a scope is at the same place in both stores. -/
theorem exists_rootFrom (lockstep : Lockstep base base' count store store') {place steps steps' : Nat}
    (enough : place < steps) (enough' : place < steps') :
    ∃ k ≤ place, rootFrom store.scopes steps (base.scopes + place) = base.scopes + k ∧
      rootFrom store'.scopes steps' (base'.scopes + place) = base'.scopes + k := by
  induction place using Nat.strongRecOn generalizing steps steps' with
  | ind place ih =>
    cases steps with
    | zero => omega
    | succ steps =>
      cases steps' with
      | zero => omega
      | succ steps' =>
        have related := lockstep.scopes.get place
        unfold rootFrom
        generalize store.scopes[base.scopes + place]? = found, store'.scopes[base'.scopes + place]? = found' at related
        cases related with
        | none => exact ⟨place, Nat.le_refl _, rfl, rfl⟩
        | @some found found' alike =>
          have outward := alike.parent
          dsimp only
          generalize found.parent = parent, found'.parent = parent' at outward
          cases outward with
          | none => exact ⟨place, Nat.le_refl _, rfl, rfl⟩
          | some older =>
            obtain ⟨k, less, rfl, rfl⟩ := older
            have outer : ∃ top ≤ k, rootFrom store.scopes steps (base.scopes + k) = base.scopes + top ∧
                rootFrom store'.scopes steps' (base'.scopes + k) = base'.scopes + top :=
              ih k less (by omega) (by omega)
            obtain ⟨top, within, root, root'⟩ := outer
            exact ⟨top, by omega, root, root'⟩

/-- What a handle refers to is alike in both stores. -/
theorem container_alike (lockstep : Lockstep base base' count store store') (k : Nat) :
    Option.Rel (Container.Alike (base.pairing base')) store.containers[base.containers + k]?
      store'.containers[base'.containers + k]? := by
  obtain ⟨_, aligned⟩ := lockstep.containers
  exact aligned.get k

theorem items_alike (lockstep : Lockstep base base' count store store') (k : Nat) :
    List.Forall₂ (Value.Alike (base.pairing base')) (store.items (base.containers + k))
      (store'.items (base'.containers + k)) :=
  items_alike_of_container (lockstep.container_alike k)

theorem entries_alike (lockstep : Lockstep base base' count store store') (k : Nat) :
    (store.entries (base.containers + k)).Alike (base.pairing base') (store'.entries (base'.containers + k)) :=
  entries_alike_of_container (lockstep.container_alike k)

theorem updateScope (lockstep : Lockstep base base' count store store') (place : Nat) {change change' : Scope → Scope}
    (kept : ∀ {found found'}, found.Alike base base' place found' →
      (change found).Alike base base' place (change' found')) :
    Lockstep base base' count (store.updateScope (base.scopes + place) change)
      (store'.updateScope (base'.scopes + place) change') where
  containers := lockstep.containers
  scopes := lockstep.scopes.modify place kept
  tags := lockstep.tags
  written := lockstep.written

theorem bind (lockstep : Lockstep base base' count store store') (place : Nat) (name : String) {value value' : Value}
    (alike : value.Alike (base.pairing base') value') :
    Lockstep base base' count (store.bind (base.scopes + place) name value)
      (store'.bind (base'.scopes + place) name value') := by
  apply lockstep.updateScope
  intro found found' known
  exact ⟨known.bindings.set name alike, known.parent, known.sink, known.sink', known.scoping⟩

theorem setScoping (lockstep : Lockstep base base' count store store') (place : Nat) (scoping : Scoping) :
    Lockstep base base' count (store.setScoping (base.scopes + place) scoping)
      (store'.setScoping (base'.scopes + place) scoping) := by
  apply lockstep.updateScope
  intro found found' known
  exact ⟨known.bindings, known.parent, known.sink, known.sink', rfl⟩

theorem addScope (lockstep : Lockstep base base' count store store') {scope scope' : Scope}
    (alike : scope.Alike base base' count scope') :
    Lockstep base base' (count + 1) (store.addScope scope).2 (store'.addScope scope').2 where
  containers := lockstep.containers
  scopes := lockstep.scopes.push alike
  tags := lockstep.tags
  written := lockstep.written

theorem append (lockstep : Lockstep base base' count store store') (text : String) :
    Lockstep base base' count (store.append base.sink text) (store'.append base'.sink text) where
  containers := lockstep.containers
  scopes := lockstep.scopes
  tags := lockstep.tags
  written := by
    obtain ⟨more, there, there'⟩ := lockstep.written
    refine ⟨more ++ text, ?_, ?_⟩
    · simp [Store.append, Array.getElem?_modify, there, String.append_assoc]
    · simp [Store.append, Array.getElem?_modify, there', String.append_assoc]

theorem setContainer (lockstep : Lockstep base base' count store store') (k : Nat) {container container' : Container}
    (alike : container.Alike (base.pairing base') container') :
    Lockstep base base' count (store.setContainer (base.containers + k) container)
      (store'.setContainer (base'.containers + k) container') where
  containers := by
    obtain ⟨made, aligned⟩ := lockstep.containers
    exact ⟨made, aligned.set k alike⟩
  scopes := lockstep.scopes
  tags := lockstep.tags
  written := lockstep.written

/-- A body is called in a new scope at the same place in both stores. -/
theorem addCall (lockstep : Lockstep base base' count store store') {place : Nat} (inside : place < count)
    {bindings bindings' : Bindings} (alike : bindings.Alike (base.pairing base') bindings') :
    Lockstep base base' (count + 1) (store.addCall (base.scopes + place) bindings).2
        (store'.addCall (base'.scopes + place) bindings').2 ∧
      (store.addCall (base.scopes + place) bindings).1 = base.scopes + count ∧
      (store'.addCall (base'.scopes + place) bindings').1 = base'.scopes + count := by
  have inner (k : Nat) (within : k < count) : ∃ scoping,
      store.scopingOf (base.scopes + k) = scoping ∧ store'.scopingOf (base'.scopes + k) = scoping ∧
      Scope.Alike base base' count ⟨bindings, some (base.scopes + k), store.sinkOf (base.scopes + k), scoping⟩
        ⟨bindings', some (base'.scopes + k), store'.sinkOf (base'.scopes + k), scoping⟩ := by
    obtain ⟨found, found', known, known', related⟩ := lockstep.exists_scope within
    refine ⟨found.scoping, by rw [scopingOf, known], ?_, ?_⟩
    · rw [scopingOf, known']
      exact related.scoping
    rw [sinkOf, sinkOf, known, known']
    exact ⟨alike, .some ⟨k, within, rfl, rfl⟩, related.sink, related.sink', rfl⟩
  obtain ⟨scoping, known, known', child⟩ := inner place inside
  have sizes := lockstep.scopes.size
  have sizes' := lockstep.scopes.size'
  cases scoping with
  | dynamic =>
    rw [addCall_of_dynamic known, addCall_of_dynamic known']
    exact ⟨lockstep.addScope child, sizes, sizes'⟩
  | global =>
    obtain ⟨top, within, root, root'⟩ := lockstep.exists_rootFrom
      (Nat.lt_succ_of_le (Nat.le_add_left place base.scopes)) (Nat.lt_succ_of_le (Nat.le_add_left place base'.scopes))
    obtain ⟨scoping, above, above', child⟩ := inner top (by omega)
    rw [addCall_of_global known, addCall_of_global known', Store.root, Store.root, root, root', above, above']
    exact ⟨lockstep.addScope child, sizes, sizes'⟩

end Store.Lockstep

/-- Evaluation in scopes that both runs have made, at the same place. -/
def Base.simulation (base base' : Base) : Simulation where
  World := Nat
  later := (· ≤ ·)
  pairing _ := base.pairing base'
  stores := Store.Lockstep base base'
  admits count _ scope scope' := ∃ place < count, scope = base.scopes + place ∧ scope' = base'.scopes + place
  excused := False
  refl := Nat.le_refl
  trans := Nat.le_trans
  extended _ := ⟨id, id, id⟩
  kept := by
    rintro count count' _ _ _ later ⟨place, inside, places⟩
    exact ⟨place, Nat.lt_of_lt_of_le inside later, places⟩
  operand admitted _ := admitted
  declared _ := trivial
  lookup := by
    rintro count _ _ _ store store' name lockstep ⟨place, _, rfl, rfl⟩ _
    exact lockstep.lookup_alike place name
  items := by
    rintro count store store' _ _ lockstep ⟨k, rfl, rfl⟩
    exact lockstep.items_alike k
  entries := by
    rintro count store store' _ _ lockstep ⟨k, rfl, rfl⟩
    exact lockstep.entries_alike k
  bind := by
    rintro count _ _ _ store store' name value value' lockstep ⟨place, _, rfl, rfl⟩ _ alike
    exact ⟨count, Nat.le_refl _, lockstep.bind place name alike⟩
  allocate := by
    intro count store store' container container' lockstep alike
    obtain ⟨made, aligned⟩ := lockstep.containers
    refine ⟨count, Nat.le_refl _, { lockstep with containers := ⟨made + 1, aligned.push alike⟩ }, ?_⟩
    exact ⟨made, aligned.size, aligned.size'⟩
  setItem := by
    rintro count _ _ _ _ _ _ store store' _ _ index value value' lockstep _ ⟨k, rfl, rfl⟩ alike
    exact ⟨count, Nat.le_refl _, lockstep.setContainer k (.list (set_alike (lockstep.items_alike k) index alike))⟩
  setEntry := by
    rintro count _ _ _ _ _ _ store store' _ _ key key' value value' lockstep _ ⟨k, rfl, rfl⟩ same alike
    exact ⟨count, Nat.le_refl _, lockstep.setContainer k (.dict ((lockstep.entries_alike k).set same alike))⟩
  write := by
    rintro count _ _ _ _ _ store store' text lockstep ⟨place, inside, rfl, rfl⟩
    obtain ⟨found, found', known, known', alike⟩ := lockstep.exists_scope inside
    refine ⟨count, Nat.le_refl _, ?_⟩
    have sink : store.sinkOf (base.scopes + place) = base.sink := by
      rw [Store.sinkOf, known]
      exact alike.sink
    have sink' : store'.sinkOf (base'.scopes + place) = base'.sink := by
      rw [Store.sinkOf, known']
      exact alike.sink'
    rw [Store.write, Store.write, sink, sink']
    exact lockstep.append text
  draw := by
    intro count store store' lockstep
    obtain ⟨drawn, tags, tags'⟩ := lockstep.tags
    refine ⟨count, Nat.le_refl _, { lockstep with tags := ⟨drawn + 1, ?_, ?_⟩ }, drawn, tags, tags'⟩
    · exact congrArg Nat.succ tags
    · exact congrArg Nat.succ tags'
  call := by
    rintro count _ _ _ _ _ store store' parameters body values values' lockstep ⟨place, inside, rfl, rfl⟩ _ alikes _
    obtain ⟨longer, new, new'⟩ := lockstep.addCall inside (Bindings.Alike.ofPairs parameters alikes)
    exact ⟨count + 1, Nat.le_succ count, longer, count, Nat.lt_succ_self count, new, new'⟩

end Corvid
