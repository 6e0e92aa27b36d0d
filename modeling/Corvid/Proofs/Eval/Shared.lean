import Corvid.Proofs.Eval.Simulation
import Corvid.Proofs.Store.Change

/-!
Two runs that have the same containers. A value of the one run corresponds to the same value of the other. Some of the
containers are known to hold only values that refer to known containers and to functions of some kind; whatever the
runs do with such values keeps this.
-/
namespace Corvid

/-- Handles and tags are the same in both runs. -/
def Pairing.diagonal (known : Nat → Prop) (functions : List String → Expr → Prop) : Pairing where
  handles handle handle' := handle = handle' ∧ known handle
  tags := Eq
  functions := functions
  tags_iff := by
    rintro _ _ _ _ rfl rfl
    exact Iff.rfl

theorem Pairing.diagonal_extends {known known' : Nat → Prop} {functions : List String → Expr → Prop}
    (more : ∀ handle, known handle → known' handle) :
    (diagonal known functions).Extends (diagonal known' functions) where
  handles := fun ⟨same, there⟩ => ⟨same, more _ there⟩
  tags := id
  functions := id

/-- The value refers to known containers and functions only. -/
def Value.Among (known : Nat → Prop) (functions : List String → Expr → Prop) : Value → Prop
  | .list handle | .dict handle => known handle
  | .function _ parameters body => functions parameters body
  | _ => True

theorem Value.Among.mono {known known' : Nat → Prop} {functions : List String → Expr → Prop}
    (more : ∀ handle, known handle → known' handle) {value : Value} (among : value.Among known functions) :
    value.Among known' functions := by
  cases value with
  | list handle | dict handle => exact more handle among
  | _ => exact among

section Diagonal

variable {known : Nat → Prop} {functions : List String → Expr → Prop}

theorem Number.alike_diagonal_iff {left right : Number} :
    left.Alike (.diagonal known functions) right ↔ left = right := by
  constructor
  · intro alike
    cases alike with
    | nan same => exact congrArg Number.nan same
    | infinite | finite => rfl
  · rintro rfl
    cases left with
    | nan tag => exact .nan rfl
    | infinite negative => exact .infinite negative
    | finite negative magnitude => exact .finite negative magnitude

theorem Key.alike_diagonal_iff {left right : Key} : left.Alike (.diagonal known functions) right ↔ left = right := by
  constructor
  · intro alike
    cases alike with
    | float alike => exact congrArg Key.float (Number.alike_diagonal_iff.mp alike)
    | text | int | bool => rfl
  · rintro rfl
    cases left with
    | text content => exact .text content
    | int n => exact .int n
    | float number => exact .float (Number.alike_diagonal_iff.mpr rfl)
    | bool b => exact .bool b

theorem Value.alike_diagonal_iff {left right : Value} :
    left.Alike (.diagonal known functions) right ↔ left = right ∧ left.Among known functions := by
  constructor
  · intro alike
    cases alike with
    | float alike => exact ⟨congrArg Value.float (Number.alike_diagonal_iff.mp alike), trivial⟩
    | list paired => exact ⟨congrArg Value.list paired.1, paired.2⟩
    | dict paired => exact ⟨congrArg Value.dict paired.1, paired.2⟩
    | function name there => exact ⟨rfl, there⟩
    | none | text | int | bool | range => exact ⟨rfl, trivial⟩
  · rintro ⟨rfl, among⟩
    cases left with
    | none => exact .none
    | text content => exact .text content
    | int n => exact .int n
    | float number => exact .float (Number.alike_diagonal_iff.mpr rfl)
    | bool b => exact .bool b
    | list handle => exact .list ⟨rfl, among⟩
    | dict handle => exact .dict ⟨rfl, among⟩
    | range first last => exact .range first last
    | function name parameters body => exact .function name among

theorem all_alike_diagonal_iff {values values' : List Value} :
    List.Forall₂ (Value.Alike (.diagonal known functions)) values values' ↔
      values = values' ∧ ∀ value ∈ values, value.Among known functions := by
  constructor
  · intro alikes
    induction alikes with
    | nil => exact ⟨rfl, List.forall_mem_nil _⟩
    | cons first _ ih =>
      obtain ⟨rfl, among⟩ := Value.alike_diagonal_iff.mp first
      obtain ⟨rfl, others⟩ := ih
      exact ⟨rfl, List.forall_mem_cons.mpr ⟨among, others⟩⟩
  · rintro ⟨rfl, among⟩
    exact List.forall₂_same.mpr fun value member => Value.alike_diagonal_iff.mpr ⟨rfl, among value member⟩

theorem Entries.alike_diagonal_iff {entries entries' : Entries} :
    entries.Alike (.diagonal known functions) entries' ↔
      entries = entries' ∧ ∀ entry ∈ entries, entry.2.Among known functions := by
  constructor
  · intro alikes
    induction alikes with
    | nil => exact ⟨rfl, List.forall_mem_nil _⟩
    | @cons entry entry' _ _ first _ ih =>
      obtain ⟨same, among⟩ := Value.alike_diagonal_iff.mp first.2
      obtain ⟨rfl, others⟩ := ih
      have whole : entry = entry' := Prod.ext (Key.alike_diagonal_iff.mp first.1) same
      rw [whole] at among ⊢
      exact ⟨rfl, List.forall_mem_cons.mpr ⟨among, others⟩⟩
  · rintro ⟨rfl, among⟩
    refine List.forall₂_same.mpr fun entry member => ⟨Key.alike_diagonal_iff.mpr rfl, ?_⟩
    exact Value.alike_diagonal_iff.mpr ⟨rfl, among entry member⟩

theorem Container.eq_of_alike {container container' : Container}
    (alike : container.Alike (.diagonal known functions) container') :
    container = container' ∧ (∀ item ∈ container.items, item.Among known functions) ∧
      ∀ entry ∈ container.entries, entry.2.Among known functions := by
  cases alike with
  | list alikes =>
    obtain ⟨rfl, among⟩ := all_alike_diagonal_iff.mp alikes
    exact ⟨rfl, among, List.forall_mem_nil _⟩
  | dict alikes =>
    obtain ⟨rfl, among⟩ := Entries.alike_diagonal_iff.mp alikes
    exact ⟨rfl, List.forall_mem_nil _, among⟩

end Diagonal

/-- Both stores have the same containers, and the known ones hold only values among the known ones. -/
structure Store.Shares (known : Nat → Prop) (functions : List String → Expr → Prop) (store store' : Store) :
    Prop where
  containers : store'.containers = store.containers
  nans : store'.nans = store.nans
  items : ∀ handle, known handle → ∀ item ∈ store.items handle, item.Among known functions
  entries : ∀ handle, known handle → ∀ entry ∈ store.entries handle, entry.2.Among known functions

namespace Store.Shares

variable {known : Nat → Prop} {functions : List String → Expr → Prop} {store store' : Store}

theorem items_alike (shares : Shares known functions store store') {handle handle' : Nat}
    (paired : (Pairing.diagonal known functions).handles handle handle') :
    List.Forall₂ (Value.Alike (.diagonal known functions)) (store.items handle) (store'.items handle') := by
  obtain ⟨rfl, there⟩ := paired
  refine all_alike_diagonal_iff.mpr ⟨?_, shares.items handle there⟩
  rw [Store.items, Store.items, shares.containers]

theorem entries_alike (shares : Shares known functions store store') {handle handle' : Nat}
    (paired : (Pairing.diagonal known functions).handles handle handle') :
    (store.entries handle).Alike (.diagonal known functions) (store'.entries handle') := by
  obtain ⟨rfl, there⟩ := paired
  refine Entries.alike_diagonal_iff.mpr ⟨?_, shares.entries handle there⟩
  rw [Store.entries, Store.entries, shares.containers]

theorem of_same (shares : Shares known functions store store') {after after' : Store}
    (containers : after.containers = store.containers) (containers' : after'.containers = store'.containers)
    (nans : after'.nans = after.nans) : Shares known functions after after' where
  containers := by rw [containers', containers, shares.containers]
  nans := nans
  items := by
    unfold Store.items
    rw [containers]
    exact shares.items
  entries := by
    unfold Store.entries
    rw [containers]
    exact shares.entries

/-- A new container is known from now on. -/
theorem allocate (shares : Shares known functions store store') {known' : Nat → Prop}
    (grown : ∀ handle, known' handle ↔ known handle ∨ handle = store.containers.size) {container container' : Container}
    (alike : container.Alike (.diagonal known functions) container') :
    Shares known' functions (store.allocate container).2 (store'.allocate container').2 := by
  obtain ⟨rfl, items, entries⟩ := Container.eq_of_alike alike
  have more (handle : Nat) (there : known handle) : known' handle := (grown handle).mpr (.inl there)
  -- what was held before was held by a known container, for there was none yet at the new handle
  have before {α : Type} {view : Container → List α} {handle : Nat} {member : α}
      (there : known' handle) (held : member ∈ store.side view handle) : known handle := by
    obtain old | rfl := (grown handle).mp there
    · exact old
    · simp [Store.side] at held
  refine ⟨?_, shares.nans, ?_, ?_⟩
  · simp only [Store.allocate, shares.containers]
  · intro handle there item member
    rw [Store.items_eq_side] at member
    obtain earlier | new := Store.mem_side_allocate member
    · have old := before there earlier
      rw [← Store.items_eq_side] at earlier
      exact (shares.items handle old item earlier).mono more
    · exact (items item new).mono more
  · intro handle there entry member
    rw [Store.entries_eq_side] at member
    obtain earlier | new := Store.mem_side_allocate member
    · have old := before there earlier
      rw [← Store.entries_eq_side] at earlier
      exact (shares.entries handle old entry earlier).mono more
    · exact (entries entry new).mono more

theorem setItem (shares : Shares known functions store store') {handle handle' index : Nat} {value value' : Value}
    (paired : (Pairing.diagonal known functions).handles handle handle')
    (alike : value.Alike (.diagonal known functions) value') :
    Shares known functions (store.setItem handle index value) (store'.setItem handle' index value') := by
  obtain ⟨rfl, there⟩ := paired
  obtain ⟨rfl, among⟩ := Value.alike_diagonal_iff.mp alike
  refine ⟨?_, shares.nans, ?_, ?_⟩
  · simp only [Store.setItem, Store.setContainer, Store.items, shares.containers]
  · intro other known item member
    obtain earlier | rfl := Store.mem_items_setItem member
    · exact shares.items other known item earlier
    · exact among
  · exact fun other known entry member => shares.entries other known entry (Store.mem_entries_setItem member)

theorem setEntry (shares : Shares known functions store store') {handle handle' : Nat} {key key' : Key}
    {value value' : Value} (paired : (Pairing.diagonal known functions).handles handle handle')
    (same : key.Alike (.diagonal known functions) key') (alike : value.Alike (.diagonal known functions) value') :
    Shares known functions (store.setEntry handle key value) (store'.setEntry handle' key' value') := by
  obtain ⟨rfl, there⟩ := paired
  obtain rfl := Key.alike_diagonal_iff.mp same
  obtain ⟨rfl, among⟩ := Value.alike_diagonal_iff.mp alike
  refine ⟨?_, shares.nans, ?_, ?_⟩
  · simp only [Store.setEntry, Store.setContainer, Store.entries, shares.containers]
  · exact fun other known item member => shares.items other known item (Store.mem_items_setEntry member)
  · intro other known entry member
    obtain earlier | same := Store.mem_entries_setEntry member
    · exact shares.entries other known entry earlier
    · rwa [same]

end Store.Shares

end Corvid
