import Corvid.Parser
import Corvid.Proofs.Eval.Contract
import Mathlib.Data.Set.Insert

/-!
Where the nodes come from that an evaluation goes through. A function that a scope can get at is kept as its body,
and the body is evaluated when the function is called. If all these functions were declared by parsed texts, then
every node that a parsed text makes evaluation go through is a node of that text or of one of those, and so are all
functions that the scope can get at afterwards.
-/
namespace Corvid

/-- A node of the tree that one of some texts stands for. -/
def Expr.Sourced (texts : Set String) (node : Expr) : Prop :=
  ∃ text ∈ texts, ∃ tree, Parser.parse text = .ok tree ∧ node.Within tree

theorem Expr.Sourced.mono {texts more : Set String} (fewer : texts ⊆ more) {node : Expr}
    (sourced : node.Sourced texts) : node.Sourced more := by
  obtain ⟨text, known, tree, reads, within⟩ := sourced
  exact ⟨text, fewer known, tree, reads, within⟩

namespace Store

/-- The values that a scope can get at: those bound on its way outward, and all that is in lists and dictionaries that
it can get at. -/
inductive Reaches (store : Store) (scope : Nat) : Value → Prop where
  | bound {outer : Nat} {name : String} {value : Value} (around : Relation.ReflTransGen store.Parent scope outer)
      (member : (name, value) ∈ store.bindingsOf outer) : Reaches store scope value
  | item {handle : Nat} {value : Value} (list : Reaches store scope (.list handle))
      (member : value ∈ store.items handle) : Reaches store scope value
  | entry {handle : Nat} {key : Key} {value : Value} (dict : Reaches store scope (.dict handle))
      (member : (key, value) ∈ store.entries handle) : Reaches store scope value

theorem WellFormed.reaches {store : Store} (formed : store.WellFormed) {scope : Nat} {value : Value}
    (reached : store.Reaches scope value) : value.WellFormed store := by
  induction reached with
  | bound around member =>
    rw [bindingsOf] at member
    split at member
    · next found there => exact (formed.scopes _ found there).1 _ member
    · cases member
  | item _ member => exact items_wellFormed formed member
  | entry _ member => exact (entries_wellFormed formed member).2

/-- Every function that a scope can get at was declared by one of some texts. -/
def DeclaredBy (texts : Set String) (store : Store) (scope : Nat) : Prop :=
  ∀ name parameters body, store.Reaches scope (.function name parameters body) →
    ∃ mark, (Expr.function mark name parameters body).Sourced texts

/-- In the first scope of a store there is no function yet. -/
theorem addRoot_declaredBy (texts : Set String) (sink : Nat) (scoping : Scoping) :
    (empty.addRoot [] sink scoping).2.DeclaredBy texts 0 := by
  have unbound (scope : Nat) : (empty.addRoot [] sink scoping).2.bindingsOf scope = [] := by
    unfold bindingsOf
    split
    · next found there =>
      obtain earlier | ⟨_, rfl⟩ := scopes_addScope there
      · cases earlier
      · rfl
    · rfl
  intro name parameters body reached
  exfalso
  generalize Value.function name parameters body = value at reached
  induction reached with
  | bound _ member => simp [unbound] at member
  | item _ _ ih => exact ih
  | entry _ _ ih => exact ih

end Store

/-- The part of a store that evaluation in a scope has to do with, seen from the store it started in: what that scope
could get at then, and all that is new. -/
structure Region where
  texts : Set String
  origin : Store
  scope : Nat

namespace Region

variable (region : Region)

def Inside (index : Nat) : Prop :=
  Relation.ReflTransGen region.origin.Parent region.scope index ∨ region.origin.scopes.size ≤ index

/-- Functions that were declared by the texts, and containers that could be got at or are new. -/
def Good : Value → Prop
  | .function name parameters body => ∃ mark, (Expr.function mark name parameters body).Sourced region.texts
  | .list handle => region.origin.Reaches region.scope (.list handle) ∨ region.origin.containers.size ≤ handle
  | .dict handle => region.origin.Reaches region.scope (.dict handle) ∨ region.origin.containers.size ≤ handle
  | _ => True

/-- A store in which one gets from the region to nothing but the region. -/
structure Sound (store : Store) : Prop where
  containers_size : region.origin.containers.size ≤ store.containers.size
  scopes_size : region.origin.scopes.size ≤ store.scopes.size
  bindings : ∀ index, region.Inside index → ∀ binding ∈ store.bindingsOf index, region.Good binding.2
  parents : ∀ inner outer, region.Inside inner → store.Parent inner outer → region.Inside outer
  items : ∀ handle, region.Good (.list handle) → ∀ item ∈ store.items handle, region.Good item
  entries : ∀ handle, region.Good (.dict handle) → ∀ entry ∈ store.entries handle, region.Good entry.2

variable {region}

theorem good_of_atomic {value : Value} (atomic : value.Atomic) : region.Good value := by
  cases value with
  | list | dict | function => exact atomic.elim
  | _ => trivial

theorem inside_scope : region.Inside region.scope := .inl .refl

theorem good_of_reaches (declared : region.origin.DeclaredBy region.texts region.scope) {value : Value}
    (reached : region.origin.Reaches region.scope value) : region.Good value := by
  cases value with
  | function name parameters body => exact declared name parameters body reached
  | list handle => exact .inl reached
  | dict handle => exact .inl reached
  | _ => trivial

/-- In the store that an evaluation starts in, nothing is new. -/
theorem sound_origin (declared : region.origin.DeclaredBy region.texts region.scope) :
    region.Sound region.origin where
  containers_size := Nat.le_refl _
  scopes_size := Nat.le_refl _
  bindings index inside binding member := by
    obtain around | new := inside
    · exact good_of_reaches declared (.bound around member)
    · simp [Store.bindingsOf, new] at member
  parents inner outer inside parent := by
    obtain around | new := inside
    · exact .inl (around.tail parent)
    · obtain ⟨found, there, _⟩ := parent
      simp [new] at there
  items handle good item member := by
    obtain reached | new := good
    · exact good_of_reaches declared (.item reached member)
    · simp [Store.items, new] at member
  entries handle good entry member := by
    obtain reached | new := good
    · exact good_of_reaches declared (.entry reached member)
    · simp [Store.entries, new] at member

namespace Sound

variable {store : Store} (sound : region.Sound store)

include sound

theorem around {inner outer : Nat} (inside : region.Inside inner)
    (around : Relation.ReflTransGen store.Parent inner outer) : region.Inside outer := by
  induction around with
  | refl => exact inside
  | tail _ parent ih => exact sound.parents _ _ ih parent

theorem good_of_reaches {scope : Nat} (inside : region.Inside scope) {value : Value}
    (reached : store.Reaches scope value) : region.Good value := by
  induction reached with
  | bound around member => exact sound.bindings _ (sound.around inside around) _ member
  | item _ member ih => exact sound.items _ ih _ member
  | entry _ member ih => exact sound.entries _ ih _ member

theorem of_change {scope : Nat} {after : Store} (change : Change (fun _ => region.Good) scope store after) :
    region.Sound after where
  containers_size := Nat.le_trans sound.containers_size change.sizes.1
  scopes_size := Nat.le_trans sound.scopes_size change.sizes.2
  bindings index inside binding member := (change.bindings member).elim (sound.bindings index inside binding) id
  parents inner outer inside parent := sound.parents inner outer inside (change.parent parent)
  items handle good item member := (change.items member).elim (sound.items handle good item) id
  entries handle good entry member := (change.entries member).elim (sound.entries handle good entry) id

theorem of_call {scope : Nat} (inside : region.Inside scope) {bindings : Bindings}
    (fine : ∀ binding ∈ bindings, region.Good binding.2) :
    region.Inside (store.addCall scope bindings).1 ∧ region.Sound (store.addCall scope bindings).2 := by
  obtain ⟨inner, same, rfl, outward⟩ := store.addCall_eq scope bindings
  rw [same]
  refine ⟨.inr sound.scopes_size, sound.containers_size, ?_, ?_, ?_, sound.items, sound.entries⟩
  · exact Nat.le_trans sound.scopes_size (by simp [Store.addScope])
  · intro index inside binding member
    rw [Store.bindingsOf] at member
    split at member
    · next found there =>
      obtain earlier | ⟨_, rfl⟩ := Store.scopes_addScope there
      · refine sound.bindings index inside binding ?_
        rwa [Store.bindingsOf, earlier]
      · exact fine binding member
    · cases member
  · rintro index outer inside' ⟨found, there, parent⟩
    obtain earlier | ⟨_, rfl⟩ := Store.scopes_addScope there
    · exact sound.parents index outer inside' ⟨found, earlier, parent⟩
    -- the new scope is inside the caller's or inside its root, which is on the caller's way outward
    · obtain caller | root := outward
      · rw [parent] at caller
        cases caller
        exact inside
      · rw [parent] at root
        cases root
        exact sound.around inside (store.root_around scope)

end Sound

/-- The contract to stay in a region. -/
def contract (region : Region) : Contract where
  node := Expr.Sourced region.texts
  inside := region.Inside
  sound := region.Sound
  good := fun _ => region.Good
  evolves := fun _ _ _ => True
  refl := fun _ _ => trivial
  trans := fun _ _ => trivial
  mono := fun _ good => good
  part := by
    rintro whole part ⟨text, known, tree, reads, within⟩ below
    exact ⟨text, known, tree, reads, within.child below⟩
  atom := good_of_atomic
  declared := fun sourced => ⟨_, sourced⟩
  callable := by
    rintro store name parameters body ⟨mark, text, known, tree, reads, within⟩
    exact ⟨text, known, tree, reads, within.child (by simp [Expr.children])⟩
  lookup := by
    intro store scope name value sound inside found
    obtain ⟨outer, around, binding, member, rfl⟩ := Store.lookup_bound found
    exact sound.bindings outer (sound.around inside around) binding member
  items := fun sound good member => sound.items _ good _ member
  entries := fun sound good member => sound.entries _ good _ member
  listed := fun _ sound => .inr sound.containers_size
  dicted := fun _ sound => .inr sound.containers_size
  change := fun sound _ change => ⟨trivial, sound.of_change change⟩
  call := fun sound inside fine =>
    ⟨(sound.of_call inside fine).1, (sound.of_call inside fine).2, fun _ _ => trivial⟩

end Region

section

variable {source : String} {tree : Expr} (reads : Parser.parse source = .ok tree) {texts : Set String} {store : Store}
  {scope : Nat} (declared : store.DeclaredBy texts scope)

include reads declared

/-- A parsed text, evaluated where all functions were declared by parsed texts, keeps to those texts and itself. -/
theorem region_admits : (Region.mk (insert source texts) store scope).contract.Admits ⟨tree, scope, store⟩ := by
  have own : tree.Sourced (insert source texts) := ⟨source, Set.mem_insert _ _, tree, reads, .refl⟩
  have declared' : store.DeclaredBy (insert source texts) scope := by
    intro name parameters body reached
    obtain ⟨mark, sourced⟩ := declared name parameters body reached
    exact ⟨mark, sourced.mono (Set.subset_insert _ _)⟩
  exact ⟨own, Region.inside_scope, Region.sound_origin declared'⟩

/-- All nodes that are being evaluated when it stops are nodes of these texts. -/
theorem Stops.sourced {depth : Nat} {chain : List Expr} {halt : Halt}
    (stops : Stops depth ⟨tree, scope, store⟩ chain halt) : ∀ node ∈ chain, node.Sourced (insert source texts) :=
  Contract.node_of_stops _ (region_admits reads declared) stops

/-- Whatever function the scope can get at afterwards was declared by these texts. -/
theorem evalWithin_declared (depth : Nat) :
    (evalWithin depth tree scope store).2.DeclaredBy (insert source texts) scope := by
  have admitted := region_admits reads declared
  obtain ⟨_, sound, _⟩ := Contract.evalWithin_meets _ depth tree scope store admitted
  exact fun name parameters body reached => Region.Sound.good_of_reaches sound Region.inside_scope reached

end

end Corvid
