import Corvid.Proofs.Eval.Growth
import Corvid.Proofs.Eval.Safety
import Corvid.Proofs.Store.Frames

/-!
What loops go through. How many turns there are is settled when a loop starts, and so are the keys of a dictionary and
the numbers of a range; an item of a list is the one that is there when its turn comes. A body can change the items of
the list but not how many there are, so every turn has its item, and a loop that looks at the list before every turn
takes the same turns.
-/
namespace Corvid

/-- How many turns a loop over a value takes, by what is in the store when it starts. -/
inductive Value.Turns (start : Store) : Value → Nat → Prop where
  | list {handle : Nat} {items : List Value} (known : start.containers[handle]? = some (.list items)) :
      Turns start (.list handle) items.length
  | dict {handle : Nat} {entries : Entries} (known : start.containers[handle]? = some (.dict entries)) :
      Turns start (.dict handle) entries.length
  | range (first last : Int) : Turns start (.range first last) ((last - first).natAbs + 1)

/-- The item of a turn: of a list the one that is at the index by now, of a dictionary the key that was at the index
when the loop started. A range goes from its first bound to its last one, upward or downward. -/
inductive Value.ItemAt (start now : Store) (index : Nat) : Value → Value → Prop where
  | list {handle : Nat} {items : List Value} {item : Value} (known : now.containers[handle]? = some (.list items))
      (there : items[index]? = some item) : ItemAt start now index (.list handle) item
  | dict {handle : Nat} {entries : Entries} {key : Key} {value : Value}
      (known : start.containers[handle]? = some (.dict entries)) (there : entries[index]? = some (key, value)) :
      ItemAt start now index (.dict handle) key.toValue
  | upward {first last : Int} (within : first + index ≤ last) :
      ItemAt start now index (.range first last) (.int (first + index))
  | downward {first last : Int} (falls : last < first) (within : last ≤ first - index) :
      ItemAt start now index (.range first last) (.int (first - index))

theorem Value.Turns.unique {start : Store} {source : Value} {k k' : Nat} (turns : source.Turns start k)
    (turns' : source.Turns start k') : k = k' := by
  cases turns with
  | list known =>
    cases turns' with
    | list known' =>
      rw [known] at known'
      cases known'
      rfl
  | dict known =>
    cases turns' with
    | dict known' =>
      rw [known] at known'
      cases known'
      rfl
  | range first last =>
    cases turns'
    rfl

theorem Value.WellFormed.linked {store : Store} {value : Value} (formed : value.WellFormed store) :
    value.Linked store := by
  cases value with
  | list | dict => exact formed
  | _ => trivial

theorem Store.WellFormed.linked {store : Store} (formed : store.WellFormed) : store.Linked where
  bindings scope binding member := by
    rw [bindingsOf] at member
    split at member
    · next found there => exact ((formed.scopes scope found there).1 binding member).linked
    · cases member
  items handle item member := (items_wellFormed formed member).linked
  entries handle entry member := (entries_wellFormed formed member).2.linked

namespace Rule

/-! The turns of any course -/

theorem turns_succ (evaluate : Evaluator) (scope : Nat) (name : String) (body : Expr) {through : Course} {i left : Nat}
    (sum : i + (left + 1) = through.count) (last : Value) (before : Store) :
    turns evaluate scope name body through (left + 1) last before =
      (evaluate body scope >>= fun value => turns evaluate scope name body through left value)
        (before.bind scope name (through.item before i)) := by
  have index : through.count - (left + 1) = i := by omega
  rw [turns, index]
  rfl

/-- The turns that are left have given a value exactly if there are stores and values, one after each turn, that lead
from what there is now to the result. -/
theorem turns_iff {evaluate : Evaluator} {scope : Nat} {name : String} {body : Expr} {through : Course}
    {valid : Store → Prop} {chosen : Store → Nat → Value → Prop}
    (items : ∀ {now i}, valid now → i < through.count → ∀ item, chosen now i item ↔ item = through.item now i)
    (kept : ∀ {now after i item value}, valid now → i < through.count → chosen now i item →
      evaluate body scope (now.bind scope name item) = (.ok value, after) → valid after)
    {i left : Nat} (sum : i + left = through.count) {before after : Store} (fine : valid before) {last value : Value} :
    turns evaluate scope name body through left last before = (.ok value, after) ↔
      ∃ (stores : Nat → Store) (values : Nat → Value), stores i = before ∧ values i = last ∧
        (∀ j, i ≤ j → j < through.count → ∃ item, chosen (stores j) j item ∧
          evaluate body scope ((stores j).bind scope name item) = (.ok (values (j + 1)), stores (j + 1))) ∧
        stores through.count = after ∧ values through.count = value := by
  induction left generalizing i before last with
  | zero =>
    obtain rfl : i = through.count := sum
    constructor
    · intro gives
      cases gives
      exact ⟨fun _ => after, fun _ => value, rfl, rfl, fun j ge lt => absurd ge lt.not_ge, rfl, rfl⟩
    · rintro ⟨stores, values, rfl, rfl, _, rfl, rfl⟩
      rfl
  | succ left ih =>
    rw [turns_succ evaluate scope name body sum, Eval.bind_eq_ok_iff]
    constructor
    · rintro ⟨first, middle, gives, rest⟩
      have item : chosen before i (through.item before i) := (items fine (by omega) _).mpr rfl
      rw [ih (by omega : i + 1 + left = _) (kept fine (by omega) item gives)] at rest
      obtain ⟨stores, values, rfl, rfl, each, done⟩ := rest
      -- the turn at hand is put in front of those that follow
      refine ⟨Function.update stores i before, Function.update values i last, Function.update_self ..,
        Function.update_self .., fun j ge lt => ?_, ?_⟩
      · rw [Function.update_of_ne (by omega : j + 1 ≠ i), Function.update_of_ne (by omega : j + 1 ≠ i)]
        obtain rfl | gt := ge.eq_or_lt
        · rw [Function.update_self]
          exact ⟨_, item, gives⟩
        · rw [Function.update_of_ne gt.ne']
          exact each j gt lt
      · rw [Function.update_of_ne (by omega : through.count ≠ i), Function.update_of_ne (by omega : through.count ≠ i)]
        exact done
    · rintro ⟨stores, values, rfl, rfl, each, done⟩
      obtain ⟨item, picked, gives⟩ := each i le_rfl (by omega)
      have same := (items fine (by omega) item).mp picked
      have fine' := kept fine (by omega) picked gives
      rw [same] at gives
      refine ⟨_, _, gives, (ih (by omega : i + 1 + left = _) fine').mpr ?_⟩
      exact ⟨stores, values, rfl, rfl, fun j ge => each j (by omega), done⟩

/-! Courses -/

theorem rangeItem_eq (first last : Int) (index : Nat) :
    rangeItem first last index = if first ≤ last then first + index else first - index := by
  rw [rangeItem, rangeStep]
  split <;> omega

/-- A course that has the items of the turns of a loop over a value, in every store that can come of the first one. -/
structure Course.Matches (through : Course) (start : Store) (source : Value) : Prop where
  count : source.Turns start through.count
  items : ∀ {now i}, start.Evolves now → i < through.count →
    ∀ item, source.ItemAt start now i item ↔ item = through.item now i

theorem course_list {start : Store} {handle : Nat} (held : start.IsList handle) :
    ∃ through, course (.list handle) start = (.ok through, start) ∧ through.Matches start (.list handle) := by
  obtain ⟨items, known⟩ := held
  have current : start.items handle = items := by rw [Store.items, known]
  refine ⟨⟨items.length, fun now index => (now.items handle).getD index .none⟩, ?_, .list known, ?_⟩
  · rw [← current]
    rfl
  · intro now i evolves inside item
    dsimp only at inside ⊢
    obtain ⟨_, there, change⟩ := evolves.containers handle _ known
    cases change with
    | @list _ later length =>
      have present : now.items handle = later := by rw [Store.items, there]
      have found : later[i]? = some (later.getD i .none) := by
        rw [List.getD_eq_getElem?_getD, List.getElem?_eq_getElem (length ▸ inside), Option.getD_some]
      rw [present]
      constructor
      · intro at_index
        cases at_index with
        | list known' there' =>
          rw [there] at known'
          cases known'
          rw [found] at there'
          cases there'
          rfl
      · rintro rfl
        exact .list there found

theorem course_dict {start : Store} {handle : Nat} (held : start.IsDict handle) :
    ∃ through, course (.dict handle) start = (.ok through, start) ∧ through.Matches start (.dict handle) := by
  obtain ⟨entries, known⟩ := held
  have current : start.entries handle = entries := by rw [Store.entries, known]
  refine ⟨⟨(entries.map (·.1.toValue)).toArray.size,
    fun _ index => (entries.map (·.1.toValue)).toArray.getD index .none⟩, ?_, ?_, ?_⟩
  · rw [← current]
    rfl
  · simpa using Value.Turns.dict known
  · intro now i evolves inside item
    have inside : i < entries.length := by simpa using inside
    obtain ⟨⟨key, content⟩, found⟩ : ∃ entry, entries[i]? = some entry := ⟨_, List.getElem?_eq_getElem inside⟩
    have value : (entries.map (·.1.toValue)).toArray.getD i .none = key.toValue := by
      simp [Array.getD_eq_getD_getElem?, found]
    dsimp only
    rw [value]
    constructor
    · intro at_index
      cases at_index with
      | dict known' there =>
        rw [known] at known'
        cases known'
        rw [found] at there
        cases there
        rfl
    · rintro rfl
      exact .dict known found

theorem course_range (start : Store) (first last : Int) :
    ∃ through, course (.range first last) start = (.ok through, start) ∧ through.Matches start (.range first last) := by
  refine ⟨_, rfl, .range first last, ?_⟩
  intro now i evolves inside item
  dsimp only [rangeSize] at inside ⊢
  rw [rangeItem_eq]
  constructor
  · intro at_index
    cases at_index with
    | upward within => rw [if_pos (by omega)]
    | downward falls within => rw [if_neg (by omega)]
  · rintro rfl
    split
    · exact .upward (by omega)
    · exact .downward (by omega) (by omega)

/-- A value that has no course has no turns. -/
theorem course_spec {start : Store} {source : Value} (fine : source.WellFormed start) :
    (∃ through, course source start = (.ok through, start) ∧ through.Matches start source) ∨
      (∃ halt, course source start = (.error halt, start)) ∧ ∀ k, ¬source.Turns start k := by
  cases source with
  | list handle => exact .inl (course_list fine)
  | dict handle => exact .inl (course_dict fine)
  | range first last => exact .inl (course_range start first last)
  | _ => exact .inr ⟨⟨_, rfl⟩, fun k turns => by cases turns⟩

/-- What becomes of a store by the turns of a loop. -/
structure Reaches (start now : Store) : Prop where
  keeps : start.Keeps now
  evolves : start.Evolves now

/-- One turn: the item is bound, then the body is evaluated. -/
theorem Reaches.turn {start now after : Store} (reaches : Reaches start now) {scope : Nat}
    (inside : scope < start.scopes.size) {depth : Nat} {name : String} {body : Expr} {item : Value}
    {outcome : Except Halt Value} (fine : item.WellFormed now)
    (gives : evalWithin depth body scope (now.bind scope name item) = (outcome, after)) : Reaches start after := by
  obtain ⟨⟨formed, grows⟩, evolves⟩ := reaches
  obtain ⟨formed', grows'⟩ := Store.bind_keeps formed scope name fine
  have kept := (evalWithin_safe depth body scope _ formed' ((grows.trans grows').inside inside)).1
  have admitted : growthContract.Admits ⟨body, scope, now.bind scope name item⟩ := ⟨trivial, trivial, formed'.linked⟩
  have changed : (now.bind scope name item).Evolves (evalWithin depth body scope (now.bind scope name item)).2 :=
    (growthContract.evalWithin_meets depth body scope _ admitted).1
  rw [gives] at kept changed
  have bound : now.Evolves (now.bind scope name item) := .of_same rfl rfl
  exact ⟨⟨kept.1, (grows.trans grows').trans kept.2⟩, (evolves.trans bound).trans changed⟩

/-- A loop over a list that looks at the list before every turn: there is a turn if there is an item at the index by
now, and the first index without one ends the loop. -/
inductive LiveTurns (evaluate : Evaluator) (scope : Nat) (name : String) (body : Expr) (handle : Nat) :
    (index : Nat) → (last : Value) → Store → Except Halt Value × Store → Prop where
  | ended {index : Nat} {last : Value} {now : Store} (past : (now.items handle)[index]? = none) :
      LiveTurns evaluate scope name body handle index last now (.ok last, now)
  | turn {index : Nat} {last item value : Value} {now after : Store} {outcome : Except Halt Value × Store}
      (there : (now.items handle)[index]? = some item)
      (gives : evaluate body scope (now.bind scope name item) = (.ok value, after))
      (rest : LiveTurns evaluate scope name body handle (index + 1) value after outcome) :
      LiveTurns evaluate scope name body handle index last now outcome
  | stopped {index : Nat} {last item : Value} {now after : Store} {halt : Halt}
      (there : (now.items handle)[index]? = some item)
      (stops : evaluate body scope (now.bind scope name item) = (.error halt, after)) :
      LiveTurns evaluate scope name body handle index last now (.error halt, after)

/-- A list stays as long as it is. -/
theorem Reaches.length_items {start now : Store} (reaches : Reaches start now) {handle : Nat}
    (held : start.IsList handle) : (now.items handle).length = (start.items handle).length := by
  obtain ⟨items, known⟩ := held
  obtain ⟨_, there, change⟩ := reaches.evolves.containers handle _ known
  cases change with
  | list length => rw [Store.items, there, Store.items, known, length]

theorem LiveTurns.unique {evaluate : Evaluator} {scope : Nat} {name : String} {body : Expr} {handle index : Nat}
    {last : Value} {now : Store} {outcome outcome' : Except Halt Value × Store}
    (live : LiveTurns evaluate scope name body handle index last now outcome)
    (live' : LiveTurns evaluate scope name body handle index last now outcome') : outcome = outcome' := by
  induction live with
  | ended past =>
    cases live' with
    | ended => rfl
    | turn there | stopped there => cases past.symm.trans there
  | turn there gives rest ih =>
    cases live' with
    | ended past => cases there.symm.trans past
    | turn there' gives' rest' =>
      cases there.symm.trans there'
      cases gives.symm.trans gives'
      exact ih rest'
    | stopped there' stops =>
      cases there.symm.trans there'
      cases gives.symm.trans stops
  | stopped there stops =>
    cases live' with
    | ended past => cases there.symm.trans past
    | turn there' gives =>
      cases there.symm.trans there'
      cases stops.symm.trans gives
    | stopped there' stops' =>
      cases there.symm.trans there'
      exact stops.symm.trans stops'

/-- The turns that are counted down are those of a loop that looks at the list before every turn. -/
theorem liveTurns_turns {start : Store} {scope : Nat} (inside : scope < start.scopes.size) {handle : Nat}
    (held : start.IsList handle) {depth : Nat} {name : String} {body : Expr} {through : Course}
    (length : through.count = (start.items handle).length)
    (items : ∀ now index, through.item now index = (now.items handle).getD index .none) {i left : Nat}
    (sum : i + left = through.count) {now : Store} (reaches : Reaches start now) (last : Value) :
    LiveTurns (evalWithin depth) scope name body handle i last now
      (turns (evalWithin depth) scope name body through left last now) := by
  have length' := reaches.length_items held
  induction left generalizing i now last with
  | zero => exact .ended (List.getElem?_eq_none (by omega))
  | succ left ih =>
    obtain ⟨item, there⟩ : ∃ item, (now.items handle)[i]? = some item := ⟨_, List.getElem?_eq_getElem (by omega)⟩
    have chosen : through.item now i = item := by rw [items, List.getD_eq_getElem?_getD, there, Option.getD_some]
    have fine : item.WellFormed now := Store.items_wellFormed reaches.keeps.1 (List.mem_of_getElem? there)
    rw [turns_succ (evalWithin depth) scope name body sum, chosen]
    cases found : evalWithin depth body scope (now.bind scope name item) with
    | mk result after =>
      cases result with
      | error halt =>
        rw [Eval.bind_of_error found]
        exact .stopped there found
      | ok value =>
        have reaches' := reaches.turn inside fine found
        rw [Eval.bind_of_ok found]
        exact .turn there found (ih (by omega) reaches' value (reaches'.length_items held))

/-- A loop over a list ends in the same way, with a value or not, if it looks at the list before every turn in place of
counting its turns when it starts. -/
theorem liveTurns_iff {start : Store} (formed : start.WellFormed) {scope : Nat} (inside : scope < start.scopes.size)
    {handle : Nat} (held : start.IsList handle) {depth : Nat} {name : String} {body : Expr}
    {outcome : Except Halt Value × Store} :
    LiveTurns (evalWithin depth) scope name body handle 0 .none start outcome ↔
      (course (.list handle) >>= fun through => turns (evalWithin depth) scope name body through through.count .none)
        start = outcome := by
  have begun : Reaches start start := ⟨⟨formed, .refl start⟩, .of_same rfl rfl⟩
  let through : Course := ⟨(start.items handle).length, fun now index => (now.items handle).getD index .none⟩
  have found : course (.list handle) start = (.ok through, start) := rfl
  have live : LiveTurns (evalWithin depth) scope name body handle 0 .none start
      (turns (evalWithin depth) scope name body through through.count .none start) :=
    liveTurns_turns inside held rfl (fun _ _ => rfl) (Nat.zero_add _) begun .none
  rw [Eval.bind_of_ok found]
  constructor
  · intro live'
    exact live.unique live'
  · rintro rfl
    exact live

/-- A turn of a loop over a value: the item of that index is bound in the scope of the loop, and then the body gives a
value there. -/
def Turn (depth scope : Nat) (name : String) (body : Expr) (source : Value) (start : Store) (index : Nat)
    (before : Store) (value : Value) (after : Store) : Prop :=
  ∃ item, source.ItemAt start before index item ∧
    ((before.bind scope name item).bindingsOf scope).find? name = some item ∧
    evalWithin depth body scope (before.bind scope name item) = (.ok value, after)

theorem course_turns_iff {start : Store} (formed : start.WellFormed) {scope : Nat} (inside : scope < start.scopes.size)
    {source : Value} (fine : source.WellFormed start) {depth : Nat} {name : String} {body : Expr} {value : Value}
    {after : Store} :
    (course source >>= fun through => turns (evalWithin depth) scope name body through through.count .none) start =
        (.ok value, after) ↔
      ∃ (k : Nat) (stores : Nat → Store) (values : Nat → Value), source.Turns start k ∧ stores 0 = start ∧
        values 0 = .none ∧
        (∀ i < k, Turn depth scope name body source start i (stores i) (values (i + 1)) (stores (i + 1))) ∧
        stores k = after ∧ values k = value := by
  obtain ⟨through, found, matching⟩ | ⟨⟨halt, stops⟩, none⟩ := course_spec fine
  · have safe : through.Fine start := by
      have given := course_safe formed fine
      rw [Safe, found] at given
      exact given.2 through rfl
    have chosen {now : Store} {i : Nat} (reaches : Reaches start now) (less : i < through.count) (item : Value) :
        (source.ItemAt start now i item ∧ ((now.bind scope name item).bindingsOf scope).find? name = some item) ↔
          item = through.item now i := by
      rw [matching.items reaches.evolves less, and_iff_left]
      rw [Store.bindingsOf_bind (reaches.keeps.2.inside inside), if_pos rfl, Bindings.find?_set, if_pos rfl]
    have kept {now after : Store} {i : Nat} {item value : Value} (reaches : Reaches start now)
        (less : i < through.count) (picked : source.ItemAt start now i item ∧
          ((now.bind scope name item).bindingsOf scope).find? name = some item)
        (gives : evalWithin depth body scope (now.bind scope name item) = (.ok value, after)) :
        Reaches start after := by
      have item_fine := safe now reaches.keeps.1 reaches.keeps.2 i less
      rw [← (chosen reaches less item).mp picked] at item_fine
      exact reaches.turn inside item_fine gives
    have begun : Reaches start start := ⟨⟨formed, .refl start⟩, .of_same rfl rfl⟩
    rw [Eval.bind_of_ok found, turns_iff chosen kept (Nat.zero_add _) begun]
    constructor
    · rintro ⟨stores, values, begins, none, each, done⟩
      refine ⟨through.count, stores, values, matching.count, begins, none, fun i less => ?_, done⟩
      obtain ⟨item, ⟨picked, bound⟩, gives⟩ := each i (Nat.zero_le i) less
      exact ⟨item, picked, bound, gives⟩
    · rintro ⟨k, stores, values, count', begins, none, each, done⟩
      obtain rfl := matching.count.unique count'
      refine ⟨stores, values, begins, none, fun i _ less => ?_, done⟩
      obtain ⟨item, picked, bound, gives⟩ := each i less
      exact ⟨item, ⟨picked, bound⟩, gives⟩
  · rw [Eval.bind_of_error stops]
    constructor
    · intro same
      cases same
    · rintro ⟨k, _, _, turns, _⟩
      exact absurd turns (none k)

end Rule

/-- A loop ends with a value exactly if it takes as many turns as there are items when it starts. Before each turn its
item is bound in the scope of the loop; the body starts with what the turn before has left, and the value of the last
turn is the value of the loop. Without any turn nothing is bound, and the value is none. -/
theorem evalWithin_loop_iff {scope : Nat} {store : Store} (formed : store.WellFormed)
    (inside : scope < store.scopes.size) (depth : Nat) (mark : Mark) (name : String) (source body : Expr)
    {value : Value} {after : Store} :
    evalWithin (depth + 1) (.loop mark name source body) scope store = (.ok value, after) ↔
      ∃ (through : Value) (k : Nat) (stores : Nat → Store) (values : Nat → Value),
        evalWithin depth source scope store = (.ok through, stores 0) ∧ values 0 = .none ∧
        through.Turns (stores 0) k ∧
        (∀ i < k, Rule.Turn depth scope name body through (stores 0) i (stores i) (values (i + 1)) (stores (i + 1))) ∧
        stores k = after ∧ values k = value := by
  have fine {through : Value} {start : Store} (gives : evalWithin depth source scope store = (.ok through, start)) :
      start.WellFormed ∧ scope < start.scopes.size ∧ through.WellFormed start := by
    have kept := evalWithin_safe depth source scope store formed inside
    rw [Safe, gives] at kept
    exact ⟨kept.1.1, kept.1.2.inside inside, kept.2 through rfl⟩
  rw [evalWithin, Eval.locate_eq_ok_iff, Rule.apply, Rule.loop, Eval.bind_eq_ok_iff]
  constructor
  · rintro ⟨through, start, gives, rest⟩
    obtain ⟨formed, inside, held⟩ := fine gives
    obtain ⟨k, stores, values, count, rfl, none, each, done⟩ := (Rule.course_turns_iff formed inside held).mp rest
    exact ⟨through, k, stores, values, gives, none, count, each, done⟩
  · rintro ⟨through, k, stores, values, gives, none, count, each, done⟩
    obtain ⟨formed, inside, held⟩ := fine gives
    exact ⟨through, stores 0, gives,
      (Rule.course_turns_iff formed inside held).mpr ⟨k, stores, values, count, rfl, none, each, done⟩⟩

/-- A loop whose first turn stores into the list by another name: the second turn has what was stored. -/
theorem evalWithin_loop_iff_alias :
    let start := ((Store.empty.allocate (.list [.int 1, .int 2])).2.addRoot [("xs", .list 0), ("ys", .list 0)]
      Store.standardSink .dynamic).2
    let body := Expr.block .absent
      [.store .absent (.name .absent "ys") (.literal .absent .int "1") (.literal .absent .int "5"), .name .absent "x"]
    (start.WellFormed ∧ 0 < start.scopes.size) ∧
      ∃ (through : Value) (k : Nat) (stores : Nat → Store) (values : Nat → Value),
        evalWithin 4 (.name .absent "xs") 0 start = (.ok through, stores 0) ∧ values 0 = .none ∧
        through.Turns (stores 0) k ∧
        (∀ i < k, Rule.Turn 4 0 "x" body through (stores 0) i (stores i) (values (i + 1)) (stores (i + 1))) ∧
        stores k = (evalWithin 5 (.loop .absent "x" (.name .absent "xs") body) 0 start).2 ∧ values k = .int 5 := by
  intro start body
  have items : Container.WellFormed Store.empty (.list [.int 1, .int 2]) := by
    intro item member
    simp only [List.mem_cons, List.not_mem_nil, or_false] at member
    obtain rfl | rfl := member <;> constructor <;> decide
  have allocated := (Store.allocate_keeps Store.empty_wellFormed items).1
  have bound : ∀ binding ∈ [("xs", Value.list 0), ("ys", .list 0)],
      binding.2.WellFormed (Store.empty.allocate (.list [.int 1, .int 2])).2 := by
    intro binding member
    have known := Store.allocate_handle Store.empty (.list [.int 1, .int 2])
    simp only [List.mem_cons, List.not_mem_nil, or_false] at member
    obtain rfl | rfl := member <;> exact ⟨_, known⟩
  have formed : start.WellFormed := (Store.addRoot_keeps allocated bound _ _).1
  have inside : 0 < start.scopes.size := by decide
  have outcome : (evalWithin 5 (.loop .absent "x" (.name .absent "xs") body) 0 start).1 = .ok (.int 5) := rfl
  exact ⟨⟨formed, inside⟩, (evalWithin_loop_iff formed inside 4 .absent "x" _ body).mp (Prod.ext outcome rfl)⟩

end Corvid
