import Corvid.Proofs.Eval.Closed
import Corvid.Proofs.Eval.Lockstep

/-!
Trees that neither bind nor store, call or print. Evaluating one makes new containers and draws tags for NaNs and does
nothing else to the store, and evaluating it once more ends in the same way: what the store had before is the same
in both runs, and what the second run makes stands for what the first one made.
-/
namespace Corvid

namespace Expr

/-- The nodes that bind, store, call or print. -/
def acts : Expr → Bool
  | assign .. | store .. | loop .. | function .. | call .. | print .. => true
  | _ => false

/-- A tree without nodes that bind, store, call or print. -/
def Pure (tree : Expr) : Prop := ∀ node : Expr, node.Within tree → node.acts = false

theorem pure_iff {tree : Expr} : tree.Pure ↔ tree.acts = false ∧ ∀ part ∈ tree.children, part.Pure := by
  constructor
  · exact fun pure => ⟨pure tree .refl, fun part below node within => pure node (.head below within)⟩
  · rintro ⟨calm, parts⟩ node within
    obtain rfl | ⟨part, below, within⟩ := within.cases_head
    · exact calm
    · exact parts part below node within

theorem Pure.operand {tree part : Expr} (pure : tree.Pure) (below : part ∈ tree.operands) : part.Pure :=
  (pure_iff.mp pure).2 part (children_of_operands below)

theorem Pure.binds?_eq_none {tree : Expr} (pure : tree.Pure) : tree.binds? = .none := by
  have calm := (pure_iff.mp pure).1
  cases tree with
  | assign | loop | function => cases calm
  | _ => rfl

end Expr

/-! What evaluation adds -/

namespace Store

/-- A store to which containers were added and in which tags were drawn, and nothing else was done. -/
structure Adds (before after : Store) : Prop where
  scopes : after.scopes = before.scopes
  sinks : after.sinks = before.sinks
  containers : ∃ made, after.containers = before.containers ++ made
  nans : before.nans ≤ after.nans

namespace Adds

variable {before after : Store}

theorem refl (store : Store) : store.Adds store := ⟨rfl, rfl, ⟨#[], Array.append_empty.symm⟩, Nat.le_refl _⟩

theorem allocate (adds : before.Adds after) (container : Container) : before.Adds (after.allocate container).2 where
  scopes := adds.scopes
  sinks := adds.sinks
  containers := by
    obtain ⟨made, same⟩ := adds.containers
    exact ⟨made.push container, by rw [Store.allocate, same, Array.append_push]⟩
  nans := adds.nans

theorem draw (adds : before.Adds after) : before.Adds { after with nans := after.nans + 1 } where
  scopes := adds.scopes
  sinks := adds.sinks
  containers := adds.containers
  nans := Nat.le_succ_of_le adds.nans

theorem size_le (adds : before.Adds after) : before.containers.size ≤ after.containers.size := by
  obtain ⟨made, same⟩ := adds.containers
  rw [same, Array.size_append]
  exact Nat.le_add_right _ _

theorem lookup_eq (adds : before.Adds after) (scope : Nat) (name : String) :
    after.lookup scope name = before.lookup scope name := by
  rw [Store.lookup, adds.scopes, Store.lookup]

theorem get?_eq (adds : before.Adds after) {handle : Nat} (old : handle < before.containers.size) :
    after.containers[handle]? = before.containers[handle]? := by
  obtain ⟨made, same⟩ := adds.containers
  rw [same, Array.getElem?_append_left old]

theorem items_eq (adds : before.Adds after) {handle : Nat} (old : handle < before.containers.size) :
    after.items handle = before.items handle := by
  rw [Store.items, adds.get?_eq old, Store.items]

theorem entries_eq (adds : before.Adds after) {handle : Nat} (old : handle < before.containers.size) :
    after.entries handle = before.entries handle := by
  rw [Store.entries, adds.get?_eq old, Store.entries]

end Adds

/-! Running again -/

/-- A number that is moved up unless it is below a start. -/
def moved (start shift number : Nat) : Nat := if number < start then number else number + shift

theorem moved_of_lt {start number : Nat} (old : number < start) (shift : Nat) : moved start shift number = number :=
  if_pos old

theorem moved_add (start shift k : Nat) : moved start shift (start + k) = start + shift + k := by
  rw [moved, if_neg (by omega)]
  omega

theorem moved_inj {start shift number other : Nat} :
    number = other ↔ moved start shift number = moved start shift other := by
  unfold moved
  split <;> split <;> omega

/-- What stands for what in a run that begins in one store and a run that begins in a later one. What the first store
has stands for itself; what the runs make is counted from where each of them begins. -/
def renewal (before after : Store) : Pairing where
  handles handle handle' :=
    handle' = moved before.containers.size (after.containers.size - before.containers.size) handle
  tags tag tag' := tag' = moved before.nans (after.nans - before.nans) tag
  functions _ _ := True
  tags_iff := by
    rintro _ _ _ _ rfl rfl
    exact moved_inj

/-- Two runs of which the second begins in another store. -/
structure Rerun (before after store store' : Store) : Prop where
  first : before.Adds store
  second : after.Adds store'
  made : ∃ count, Aligned (fun _ => Container.Alike (before.renewal after)) before.containers.size
    after.containers.size count store.containers store'.containers
  drawn : ∃ count, store.nans = before.nans + count ∧ store'.nans = after.nans + count

theorem Rerun.start (before after : Store) : Rerun before after before after where
  first := .refl before
  second := .refl after
  made := by
    refine ⟨0, rfl, rfl, fun k => ?_⟩
    rw [Array.getElem?_eq_none (Nat.le_add_right _ k), Array.getElem?_eq_none (Nat.le_add_right _ k)]
    exact .none
  drawn := ⟨0, rfl, rfl⟩

variable {before after store store' : Store}

/-- The containers of two handles that stand for each other: one that both stores have had from the beginning, or two
that the runs have made. -/
theorem Rerun.exists_place (adds : before.Adds after) {handle handle' : Nat}
    (paired : (before.renewal after).handles handle handle') :
    handle < before.containers.size ∧ handle' = handle ∨
      ∃ k, handle = before.containers.size + k ∧ handle' = after.containers.size + k := by
  by_cases old : handle < before.containers.size
  · exact .inl ⟨old, paired.trans (moved_of_lt old _)⟩
  · obtain ⟨k, rfl⟩ := Nat.exists_eq_add_of_le (Nat.le_of_not_lt old)
    have more := adds.size_le
    refine .inr ⟨k, rfl, paired.trans ?_⟩
    rw [moved_add]
    omega

theorem Rerun.allocate (adds : before.Adds after) (rerun : Rerun before after store store')
    {container container' : Container} (alike : container.Alike (before.renewal after) container') :
    Rerun before after (store.allocate container).2 (store'.allocate container').2 ∧
      (before.renewal after).handles (store.allocate container).1 (store'.allocate container').1 := by
  obtain ⟨count, aligned⟩ := rerun.made
  refine ⟨⟨rerun.first.allocate container, rerun.second.allocate container', ⟨_, aligned.push alike⟩, rerun.drawn⟩, ?_⟩
  have more := adds.size_le
  change store'.containers.size = moved _ _ store.containers.size
  rw [aligned.size, aligned.size', moved_add]
  omega

theorem Rerun.draw (adds : before.Adds after) (rerun : Rerun before after store store') :
    Rerun before after { store with nans := store.nans + 1 } { store' with nans := store'.nans + 1 } ∧
      (before.renewal after).tags store.nans store'.nans := by
  obtain ⟨count, drawn, drawn'⟩ := rerun.drawn
  refine ⟨⟨rerun.first.draw, rerun.second.draw, rerun.made, count + 1, ?_, ?_⟩, ?_⟩
  · exact congrArg Nat.succ drawn
  · exact congrArg Nat.succ drawn'
  · have more := adds.nans
    change store'.nans = moved _ _ store.nans
    rw [drawn, drawn', moved_add]
    omega

end Store

open Store in
/-- A pure tree that is evaluated in a store and in a later one. What the earlier store has must stand for itself. -/
def Simulation.rerun {before after : Store} (adds : before.Adds after)
    (every : before.Every fun value => value.Alike (before.renewal after) value) : Simulation where
  World := Unit
  later _ _ := True
  pairing _ := before.renewal after
  stores _ := Rerun before after
  admits _ expr scope scope' := expr.Pure ∧ scope = scope'
  excused := False
  refl _ := trivial
  trans _ _ := trivial
  extended _ := ⟨id, id, id⟩
  kept _ admitted := admitted
  operand admitted below := ⟨admitted.1.operand below, admitted.2⟩
  declared _ := trivial
  lookup := by
    rintro _ _ scope _ store store' name rerun ⟨_, rfl⟩ _
    rw [rerun.first.lookup_eq, rerun.second.lookup_eq, adds.lookup_eq]
    cases found : before.lookup scope name with
    | none => exact .none
    | some value => exact .some (every.lookup found)
  items := by
    rintro _ store store' handle handle' rerun paired
    obtain ⟨old, rfl⟩ | ⟨k, rfl, rfl⟩ := Rerun.exists_place adds paired
    · rw [rerun.first.items_eq old, rerun.second.items_eq (Nat.lt_of_lt_of_le old adds.size_le), adds.items_eq old]
      exact List.forall₂_same.mpr (every.items handle')
    · obtain ⟨count, aligned⟩ := rerun.made
      exact items_alike_of_container (aligned.get k)
  entries := by
    rintro _ store store' handle handle' rerun paired
    obtain ⟨old, rfl⟩ | ⟨k, rfl, rfl⟩ := Rerun.exists_place adds paired
    · rw [rerun.first.entries_eq old, rerun.second.entries_eq (Nat.lt_of_lt_of_le old adds.size_le),
        adds.entries_eq old]
      refine List.forall₂_same.mpr fun entry member => ?_
      obtain ⟨key, value⟩ := every.entries handle' entry member
      exact ⟨Key.alike_of_toValue key, value⟩
    · obtain ⟨count, aligned⟩ := rerun.made
      exact entries_alike_of_container (aligned.get k)
  bind := by
    rintro _ _ _ _ _ _ _ _ _ _ ⟨pure, _⟩ binds _
    cases pure.binds?_eq_none.symm.trans binds
  allocate := by
    intro _ store store' container container' rerun alike
    obtain ⟨stays, paired⟩ := rerun.allocate adds alike
    exact ⟨(), trivial, stays, paired⟩
  setItem := by
    rintro _ _ _ _ _ _ _ _ _ _ _ _ _ _ _ ⟨pure, _⟩
    cases (Expr.pure_iff.mp pure).1
  setEntry := by
    rintro _ _ _ _ _ _ _ _ _ _ _ _ _ _ _ _ ⟨pure, _⟩
    cases (Expr.pure_iff.mp pure).1
  write := by
    rintro _ _ _ _ _ _ _ _ _ _ ⟨pure, _⟩
    cases (Expr.pure_iff.mp pure).1
  draw := by
    intro _ store store' rerun
    obtain ⟨stays, paired⟩ := rerun.draw adds
    exact ⟨(), trivial, stays, paired⟩
  call := by
    rintro _ _ _ _ _ _ _ _ _ _ _ _ _ ⟨pure, _⟩
    cases (Expr.pure_iff.mp pure).1

/-- A pure tree evaluated in a store and in a later one. -/
theorem evalWithin_rerun {tree : Expr} (pure : tree.Pure) (depth scope : Nat) {before after : Store}
    (adds : before.Adds after) (every : before.Every fun value => value.Alike (before.renewal after) value) :
    Store.Rerun before after (evalWithin depth tree scope before).2 (evalWithin depth tree scope after).2 ∧
      Agree (Value.Alike (before.renewal after)) (evalWithin depth tree scope before).1
        (evalWithin depth tree scope after).1 := by
  have fine : (Simulation.rerun adds every).admits () tree scope scope := ⟨pure, rfl⟩
  have start := Store.Rerun.start before after
  obtain ⟨_, _, rerun, agree⟩ := (Simulation.rerun adds every).evalWithin_agree id depth fine start
  exact ⟨rerun, agree⟩

theorem Value.exists_below (value : Value) : ∃ containers tags, value.Below containers tags := by
  cases value with
  | list handle => exact ⟨handle + 1, 0, Nat.lt_succ_self handle⟩
  | dict handle => exact ⟨handle + 1, 0, Nat.lt_succ_self handle⟩
  | float number =>
    cases number with
    | nan tag => exact ⟨0, tag + 1, Nat.lt_succ_self tag⟩
    | infinite | finite => exact ⟨0, 0, trivial⟩
  | none | text | int | bool | range | function => exact ⟨0, 0, trivial⟩

/-- Beside itself, a run has everything stand for itself. -/
theorem Store.every_renewal_self (store : Store) :
    store.Every fun value => value.Alike (store.renewal store) value := by
  have stays (start number : Nat) : number = moved start (start - start) number := by
    rw [moved, Nat.sub_self]
    split <;> rfl
  have all (value : Value) : value.Alike (store.renewal store) value := by
    obtain ⟨containers, tags, below⟩ := value.exists_below
    exact below.alike (fun handle _ => stays _ handle) (fun tag _ => stays _ tag) fun _ _ => trivial
  exact ⟨fun _ _ _ => all _, fun _ _ _ => all _, fun _ _ _ => ⟨all _, all _⟩⟩

theorem Store.Closed.every_renewal {store : Store} (closed : store.Closed) (after : Store) :
    store.Every fun value => value.Alike (store.renewal after) value :=
  closed.mono fun _ below => below.alike (fun _ old => (moved_of_lt old _).symm) (fun _ old => (moved_of_lt old _).symm)
    fun _ _ => trivial

/-- Evaluating a pure tree, in any scope of any store and whether it succeeds or fails, leaves all scopes, all output
and all containers that there were as they were. If the store was closed, evaluating the tree again, where the first
evaluation has left the store, stops for the same reason or gives the same value; only that new containers stand for
the new containers of the first evaluation, and new NaNs for new NaNs. -/
theorem evalWithin_pure {tree : Expr} (pure : tree.Pure) (depth scope : Nat) {store after again : Store}
    {result result' : Except Halt Value} (first : evalWithin depth tree scope store = (result, after))
    (second : evalWithin depth tree scope after = (result', again)) :
    store.Adds after ∧
      (store.Closed → after.Closed ∧ after.Adds again ∧ Agree (Value.Alike (store.renewal after)) result result' ∧
        ∃ made, Aligned (fun _ => Container.Alike (store.renewal after)) store.containers.size after.containers.size
          made after.containers again.containers) := by
  -- Beside itself the first evaluation says what it does to the store, whatever the store holds.
  have adds := (evalWithin_rerun pure depth scope (.refl store) store.every_renewal_self).1.first
  rw [first] at adds
  refine ⟨adds, fun closed => ?_⟩
  have stays := evalWithin_closed closed depth tree scope
  obtain ⟨rerun, agree⟩ := evalWithin_rerun pure depth scope adds (closed.every_renewal after)
  rw [first] at stays
  rw [first, second] at rerun agree
  exact ⟨stays, rerun.second, agree, rerun.made⟩

/-- A conditional that makes a list of a list that the store has and of a new dictionary, which has a new list for its
value: the second evaluation gives a list of the same list and of another dictionary. -/
theorem evalWithin_pure_nested :
    ∃ tree : Expr, tree.Pure ∧ ∃ store after again : Store, store.Closed ∧
      evalWithin 6 tree 0 store = (.ok (.list 3), after) ∧ evalWithin 6 tree 0 after = (.ok (.list 6), again) ∧
      store.lookup 0 "x" = some (.list 0) ∧ after.items 3 = [.list 0, .dict 2] ∧ again.items 6 = [.list 0, .dict 5] ∧
      store.Adds after ∧ after.Closed ∧
      Agree (Value.Alike (store.renewal after)) (.ok (.list 3) : Except Halt Value) (.ok (.list 6)) := by
  have empty : (Store.empty.addRoot [] Store.standardSink .dynamic).2.Closed :=
    Store.closed_empty.addScope (List.forall_mem_nil _)
  have closed : Store.Closed ⟨#[.list [.int 1]], #[⟨[("x", .list 0)], none, 0, .dynamic⟩], #[""], 0⟩ :=
    evalWithin_closed empty 3 (.assign .absent "x" (.list .absent [.literal .absent .int "1"])) 0
  have pure : (Expr.conditional .absent (.literal .absent .bool "true")
      (.list .absent [.name .absent "x", .dict .absent [(.literal .absent .string "\"k\"", .list .absent [])]])
      (.none .absent)).Pure := by
    have leaf {expr : Expr} (calm : expr.acts = false) (bare : expr.children = []) : expr.Pure :=
      Expr.pure_iff.mpr ⟨calm, bare ▸ List.forall_mem_nil _⟩
    have pair {first second : Expr} (fine : first.Pure) (fine' : second.Pure) : ∀ part ∈ [first, second], part.Pure :=
      List.forall_mem_cons.mpr ⟨fine, List.forall_mem_singleton.mpr fine'⟩
    have entry : (Expr.dict .absent [(.literal .absent .string "\"k\"", .list .absent [])]).Pure :=
      Expr.pure_iff.mpr ⟨rfl, pair (leaf rfl rfl) (leaf rfl rfl)⟩
    have made : (Expr.list .absent [.name .absent "x", _]).Pure := Expr.pure_iff.mpr ⟨rfl, pair (leaf rfl rfl) entry⟩
    exact Expr.pure_iff.mpr ⟨rfl, List.forall_mem_cons.mpr ⟨leaf rfl rfl, pair made (leaf rfl rfl)⟩⟩
  obtain ⟨adds, rest⟩ := @evalWithin_pure _ pure 6 0
    ⟨#[.list [.int 1]], #[⟨[("x", .list 0)], none, 0, .dynamic⟩], #[""], 0⟩
    ⟨#[.list [.int 1], .list [], .dict [(.text "k", .list 1)], .list [.list 0, .dict 2]],
      #[⟨[("x", .list 0)], none, 0, .dynamic⟩], #[""], 0⟩
    ⟨#[.list [.int 1], .list [], .dict [(.text "k", .list 1)], .list [.list 0, .dict 2], .list [],
      .dict [(.text "k", .list 4)], .list [.list 0, .dict 5]], #[⟨[("x", .list 0)], none, 0, .dynamic⟩], #[""], 0⟩
    _ _ rfl rfl
  obtain ⟨stays, _, agree, _⟩ := rest closed
  exact ⟨_, pure, _, _, _, closed, rfl, rfl, rfl, rfl, rfl, adds, stays, agree⟩

end Corvid
