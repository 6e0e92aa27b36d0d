import Corvid.Proofs.Eval.Simulation
import Corvid.Proofs.Store.Change

/-!
Closed stores: every handle in a store is one of a container that is there, and every NaN has a tag that was drawn.
Evaluation begins and ends in closed stores, whatever it evaluates, so what it makes next is never known to the store
beforehand.
-/
namespace Corvid

/-- A value whose handle and whose tag, if it has one, are below given numbers. -/
def Value.Below (containers tags : Nat) : Value → Prop
  | .list handle | .dict handle => handle < containers
  | .float (.nan tag) => tag < tags
  | _ => True

theorem Value.Below.mono {containers containers' tags tags' : Nat} (more : containers ≤ containers')
    (more' : tags ≤ tags') {value : Value} (below : value.Below containers tags) : value.Below containers' tags' := by
  cases value with
  | list handle => exact Nat.lt_of_lt_of_le below more
  | dict handle => exact Nat.lt_of_lt_of_le below more
  | float number =>
    cases number with
    | nan tag => exact Nat.lt_of_lt_of_le below more'
    | infinite | finite => trivial
  | none | text | int | bool | range | function => trivial

namespace Store

/-- A store all of whose values, keys included, are good. -/
structure Every (good : Value → Prop) (store : Store) : Prop where
  bindings : ∀ scope, ∀ binding ∈ store.bindingsOf scope, good binding.2
  items : ∀ handle, ∀ item ∈ store.items handle, good item
  entries : ∀ handle, ∀ entry ∈ store.entries handle, good entry.1.toValue ∧ good entry.2

namespace Every

variable {good : Value → Prop} {store : Store}

theorem mono {good' : Value → Prop} (weaker : ∀ value, good value → good' value) (every : store.Every good) :
    store.Every good' where
  bindings scope binding member := weaker _ (every.bindings scope binding member)
  items handle item member := weaker _ (every.items handle item member)
  entries handle entry member := (every.entries handle entry member).imp (weaker _) (weaker _)

theorem lookup (every : store.Every good) {scope : Nat} {name : String} {value : Value}
    (found : store.lookup scope name = some value) : good value := by
  obtain ⟨outer, _, pair, member, rfl⟩ := lookup_bound found
  exact every.bindings outer pair member

theorem bind (every : store.Every good) (scope : Nat) (name : String) {value : Value} (fine : good value) :
    (store.bind scope name value).Every good where
  bindings other pair member := by
    obtain earlier | same := mem_bindingsOf_bind member
    · exact every.bindings other pair earlier
    · rwa [same]
  items := every.items
  entries := every.entries

theorem allocate (every : store.Every good) {container : Container} (items : ∀ item ∈ container.items, good item)
    (entries : ∀ entry ∈ container.entries, good entry.1.toValue ∧ good entry.2) :
    (store.allocate container).2.Every good where
  bindings := every.bindings
  items handle item member := by
    rw [items_eq_side] at member
    obtain earlier | new := mem_side_allocate member
    · rw [← items_eq_side] at earlier
      exact every.items handle item earlier
    · exact items item new
  entries handle entry member := by
    rw [entries_eq_side] at member
    obtain earlier | new := mem_side_allocate member
    · rw [← entries_eq_side] at earlier
      exact every.entries handle entry earlier
    · exact entries entry new

theorem setItem (every : store.Every good) (handle index : Nat) {value : Value} (fine : good value) :
    (store.setItem handle index value).Every good where
  bindings := every.bindings
  items other item member := by
    obtain earlier | rfl := mem_items_setItem member
    · exact every.items other item earlier
    · exact fine
  entries other entry member := every.entries other entry (mem_entries_setItem member)

theorem setEntry (every : store.Every good) (handle : Nat) {key : Key} {value : Value} (known : good key.toValue)
    (fine : good value) : (store.setEntry handle key value).Every good where
  bindings := every.bindings
  items other item member := every.items other item (mem_items_setEntry member)
  entries other entry member := by
    rw [entries_eq_side] at member
    obtain earlier | ⟨rfl, new⟩ := mem_side_setContainer member
    · rw [← entries_eq_side] at earlier
      exact every.entries other entry earlier
    · obtain earlier | ⟨same, origin⟩ := Entries.mem_set new
      · exact every.entries other entry earlier
      · rw [same]
        -- A key that is there already keeps its first form, so the entry may have an old key and the new value.
        obtain rfl | ⟨old, there, stays⟩ := origin
        · exact ⟨known, fine⟩
        · rw [← stays]
          exact ⟨(every.entries other old there).1, fine⟩

theorem addScope (every : store.Every good) {scope : Scope} (fine : ∀ binding ∈ scope.bindings, good binding.2) :
    (store.addScope scope).2.Every good where
  bindings other binding member := by
    unfold bindingsOf at member
    split at member
    · next found there =>
      obtain earlier | ⟨_, rfl⟩ := scopes_addScope there
      · refine every.bindings other binding ?_
        rwa [bindingsOf, earlier]
      · exact fine binding member
    · cases member
  items := every.items
  entries := every.entries

theorem addCall (every : store.Every good) (caller : Nat) (parameters : List String) {values : List Value}
    (fine : ∀ value ∈ values, good value) :
    (store.addCall caller (Bindings.ofPairs (parameters.zip values))).2.Every good := by
  obtain ⟨scope, same, bindings, _⟩ := store.addCall_eq caller (Bindings.ofPairs (parameters.zip values))
  rw [same]
  refine every.addScope fun binding member => ?_
  rw [bindings] at member
  obtain ⟨⟨name, value⟩, given, stored⟩ := Bindings.mem_ofPairs member
  rw [stored]
  exact fine value (List.of_mem_zip given).2

end Every

/-- Every handle is one of a container that is there, and every NaN has a tag that was drawn. -/
def Closed (store : Store) : Prop := store.Every (Value.Below store.containers.size store.nans)

theorem closed_empty : Store.empty.Closed where
  bindings _ _ member := by cases member
  items _ _ member := by cases member
  entries _ _ member := by cases member

end Store

/-! Runs of a closed store beside itself -/

/-- Everything below given numbers corresponds to itself. -/
def Pairing.below (containers tags : Nat) : Pairing where
  handles handle handle' := handle = handle' ∧ handle < containers
  tags tag tag' := tag = tag' ∧ tag < tags
  functions _ _ := True
  tags_iff := by
    rintro _ _ _ _ ⟨rfl, _⟩ ⟨rfl, _⟩
    rfl

/-- A value corresponds to itself if its handle or its tag does. -/
theorem Value.Below.alike {containers tags : Nat} {pairing : Pairing}
    (handles : ∀ handle < containers, pairing.handles handle handle) (tagged : ∀ tag < tags, pairing.tags tag tag)
    (functions : ∀ parameters body, pairing.functions parameters body) {value : Value}
    (below : value.Below containers tags) : value.Alike pairing value := by
  cases value with
  | none => exact .none
  | text content => exact .text content
  | int n => exact .int n
  | float number =>
    cases number with
    | nan tag => exact .float (.nan (tagged tag below))
    | infinite negative => exact .float (.infinite negative)
    | finite negative magnitude => exact .float (.finite negative magnitude)
  | bool b => exact .bool b
  | list handle => exact .list (handles handle below)
  | dict handle => exact .dict (handles handle below)
  | range first last => exact .range first last
  | function name parameters body => exact .function name (functions parameters body)

theorem Value.alike_below_iff {containers tags : Nat} {value value' : Value} :
    value.Alike (.below containers tags) value' ↔ value = value' ∧ value.Below containers tags := by
  constructor
  · intro alike
    cases alike with
    | float alike =>
      cases alike with
      | nan paired => exact ⟨congrArg (Value.float ∘ Number.nan) paired.1, paired.2⟩
      | infinite | finite => exact ⟨rfl, trivial⟩
    | list paired => exact ⟨congrArg Value.list paired.1, paired.2⟩
    | dict paired => exact ⟨congrArg Value.dict paired.1, paired.2⟩
    | none | text | int | bool | range | function => exact ⟨rfl, trivial⟩
  · rintro ⟨rfl, below⟩
    have handles (handle : Nat) (inside : handle < containers) :
        (Pairing.below containers tags).handles handle handle := ⟨rfl, inside⟩
    have tagged (tag : Nat) (inside : tag < tags) : (Pairing.below containers tags).tags tag tag := ⟨rfl, inside⟩
    exact below.alike handles tagged fun _ _ => trivial

theorem Key.alike_of_toValue {pairing : Pairing} {key key' : Key} (alike : key.toValue.Alike pairing key'.toValue) :
    key.Alike pairing key' := by
  have again (key : Key) : Key.ofValue? key.toValue = some key := by cases key <;> rfl
  have keys := alike.key
  rw [again, again] at keys
  cases keys with
  | some same => exact same

theorem Key.alike_below_iff {containers tags : Nat} {key key' : Key} :
    key.Alike (.below containers tags) key' ↔ key = key' ∧ key.toValue.Below containers tags := by
  constructor
  · intro alike
    refine ⟨?_, (Value.alike_below_iff.mp alike.toValue).2⟩
    cases alike with
    | float alike =>
      cases alike with
      | nan paired => exact congrArg (Key.float ∘ Number.nan) paired.1
      | infinite | finite => rfl
    | text | int | bool => rfl
  · rintro ⟨rfl, below⟩
    exact Key.alike_of_toValue (Value.alike_below_iff.mpr ⟨rfl, below⟩)

theorem forall₂_iff_of_diagonal {α : Type} {rel : α → α → Prop} {good : α → Prop}
    (diagonal : ∀ {a b}, rel a b ↔ a = b ∧ good a) {list list' : List α} :
    List.Forall₂ rel list list' ↔ list = list' ∧ ∀ a ∈ list, good a := by
  constructor
  · intro related
    induction related with
    | nil => exact ⟨rfl, List.forall_mem_nil _⟩
    | cons first _ ih =>
      obtain ⟨rfl, fine⟩ := diagonal.mp first
      obtain ⟨rfl, others⟩ := ih
      exact ⟨rfl, List.forall_mem_cons.mpr ⟨fine, others⟩⟩
  · rintro ⟨rfl, fine⟩
    exact List.forall₂_same.mpr fun a member => diagonal.mpr ⟨rfl, fine a member⟩

theorem Entries.alike_below_iff {containers tags : Nat} {entries entries' : Entries} :
    entries.Alike (.below containers tags) entries' ↔ entries = entries' ∧
      ∀ entry ∈ entries, entry.1.toValue.Below containers tags ∧ entry.2.Below containers tags := by
  refine forall₂_iff_of_diagonal fun {entry entry'} => ?_
  rw [Key.alike_below_iff, Value.alike_below_iff, Prod.ext_iff]
  tauto

theorem Container.of_alike_below {containers tags : Nat} {container container' : Container}
    (alike : container.Alike (.below containers tags) container') :
    container = container' ∧ (∀ item ∈ container.items, item.Below containers tags) ∧
      ∀ entry ∈ container.entries, entry.1.toValue.Below containers tags ∧ entry.2.Below containers tags := by
  cases alike with
  | list alike =>
    obtain ⟨rfl, fine⟩ := (forall₂_iff_of_diagonal Value.alike_below_iff).mp alike
    exact ⟨rfl, fine, List.forall_mem_nil _⟩
  | dict alike =>
    obtain ⟨rfl, fine⟩ := Entries.alike_below_iff.mp alike
    exact ⟨rfl, List.forall_mem_nil _, fine⟩

/-- A closed store with given numbers of containers and of tags that were drawn. -/
structure Store.ClosedAt (world : Nat × Nat) (store : Store) : Prop where
  containers : store.containers.size = world.1
  tags : store.nans = world.2
  every : store.Every (Value.Below world.1 world.2)

/-- Evaluation in a closed store, beside itself. -/
def Simulation.closed : Simulation where
  World := Nat × Nat
  later := (· ≤ ·)
  pairing world := .below world.1 world.2
  stores world store store' := store = store' ∧ store.ClosedAt world
  admits _ _ scope scope' := scope = scope'
  excused := False
  refl := le_refl
  trans := le_trans
  extended later := {
    handles := fun paired => ⟨paired.1, Nat.lt_of_lt_of_le paired.2 later.1⟩
    tags := fun paired => ⟨paired.1, Nat.lt_of_lt_of_le paired.2 later.2⟩
    functions := id }
  kept _ same := same
  operand same _ := same
  declared _ := trivial
  lookup := by
    rintro world _ scope _ store _ name ⟨rfl, closed⟩ rfl _
    cases found : store.lookup scope name with
    | none => exact .none
    | some value => exact .some (Value.alike_below_iff.mpr ⟨rfl, closed.every.lookup found⟩)
  items := by
    rintro world store _ handle _ ⟨rfl, closed⟩ ⟨rfl, _⟩
    exact (forall₂_iff_of_diagonal Value.alike_below_iff).mpr ⟨rfl, closed.every.items handle⟩
  entries := by
    rintro world store _ handle _ ⟨rfl, closed⟩ ⟨rfl, _⟩
    exact Entries.alike_below_iff.mpr ⟨rfl, closed.every.entries handle⟩
  bind := by
    rintro world _ scope _ store _ name value value' ⟨rfl, closed⟩ rfl _ alike
    obtain ⟨rfl, below⟩ := Value.alike_below_iff.mp alike
    exact ⟨world, le_refl _, rfl, { closed with every := closed.every.bind scope name below }⟩
  allocate := by
    rintro world store _ container container' ⟨rfl, closed⟩ alike
    obtain ⟨rfl, items, entries⟩ := Container.of_alike_below alike
    have more : world ≤ (world.1 + 1, world.2) := ⟨Nat.le_succ _, Nat.le_refl _⟩
    have every := (closed.every.allocate items entries).mono fun value below => below.mono more.1 more.2
    refine ⟨(world.1 + 1, world.2), more, ⟨rfl, ?_, closed.tags, every⟩, rfl, ?_⟩
    · rw [Store.allocate, Array.size_push, closed.containers]
    · rw [Store.allocate, closed.containers]
      exact Nat.lt_succ_self _
  setItem := by
    rintro world _ _ _ _ _ _ store _ handle _ index value value' ⟨rfl, closed⟩ rfl ⟨rfl, _⟩ alike
    obtain ⟨rfl, below⟩ := Value.alike_below_iff.mp alike
    refine ⟨world, le_refl _, rfl, ?_, closed.tags, closed.every.setItem handle index below⟩
    rw [Store.setItem, Store.setContainer, Array.size_setIfInBounds, closed.containers]
  setEntry := by
    rintro world _ _ _ _ _ _ store _ handle _ key key' value value' ⟨rfl, closed⟩ rfl ⟨rfl, _⟩ same alike
    obtain ⟨rfl, known⟩ := Key.alike_below_iff.mp same
    obtain ⟨rfl, below⟩ := Value.alike_below_iff.mp alike
    refine ⟨world, le_refl _, rfl, ?_, closed.tags, closed.every.setEntry handle known below⟩
    rw [Store.setEntry, Store.setContainer, Array.size_setIfInBounds, closed.containers]
  write := by
    rintro world _ _ _ scope _ store _ text ⟨rfl, closed⟩ rfl
    exact ⟨world, le_refl _, rfl, closed.containers, closed.tags, closed.every.bindings, closed.every.items,
      closed.every.entries⟩
  draw := by
    rintro world store _ ⟨rfl, closed⟩
    have more : world ≤ (world.1, world.2 + 1) := ⟨Nat.le_refl _, Nat.le_succ _⟩
    have every := closed.every.mono fun value below => below.mono more.1 more.2
    refine ⟨(world.1, world.2 + 1), more, ⟨rfl, closed.containers, congrArg Nat.succ closed.tags, every.bindings,
      every.items, every.entries⟩, rfl, ?_⟩
    rw [closed.tags]
    exact Nat.lt_succ_self _
  call := by
    rintro world _ _ _ scope _ store _ parameters body values values' ⟨rfl, closed⟩ rfl _ alikes _
    obtain ⟨rfl, below⟩ := (forall₂_iff_of_diagonal Value.alike_below_iff).mp alikes
    have every := closed.every.addCall scope parameters below
    obtain ⟨inner, made, _⟩ := store.addCall_eq scope (Bindings.ofPairs (parameters.zip values))
    rw [made] at every ⊢
    exact ⟨world, le_refl _, ⟨rfl, closed.containers, closed.tags, every⟩, rfl⟩

/-- Evaluation leaves a closed store closed. -/
theorem evalWithin_closed {store : Store} (closed : store.Closed) (depth : Nat) (expr : Expr) (scope : Nat) :
    (evalWithin depth expr scope store).2.Closed := by
  have start : store.ClosedAt (store.containers.size, store.nans) := ⟨rfl, rfl, closed⟩
  have fine : Simulation.closed.admits (store.containers.size, store.nans) expr scope scope := rfl
  obtain ⟨world, _, ⟨_, stays⟩, _⟩ := Simulation.closed.evalWithin_agree id depth fine ⟨rfl, start⟩
  have every := stays.every
  rwa [← stays.containers, ← stays.tags] at every

end Corvid
