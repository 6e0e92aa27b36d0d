import Corvid.Proofs.Eval.Growth
import Corvid.Proofs.Eval.Visits
import Corvid.Proofs.Store.Entries

/-!
What containers hold after any number of stores. A run is a history: pieces that leave all containers as they are, and
between them the last steps of assignments to containers, each of which puts one value under one subscript of one
container. So a container is settled by what it was at first and by what was stored into it, under whatever names: the
last store under a subscript counts, and a dictionary has its keys in the order in which they were first stored.
-/
namespace Corvid

/-- Two expressions that are evaluated one after the other have these values. -/
def YieldPair (depth : Nat) (first second : Expr) (scope : Nat) (start : Store) (a b : Value) (after : Store) : Prop :=
  ∃ middle, evalWithin depth first scope start = (.ok a, middle) ∧
    evalWithin depth second scope middle = (.ok b, after)

/-- The keys and the values of pairs of expressions that are evaluated one after another. -/
inductive PairsYield (depth scope : Nat) : Store → List (Expr × Expr) → Entries → Store → Prop where
  | nil (store : Store) : PairsYield depth scope store [] [] store
  | cons {start middle after : Store} {first second : Expr} {rest : List (Expr × Expr)} {subscript value : Value}
      {key : Key} {given : Entries} (yield : YieldPair depth first second scope start subscript value middle)
      (valid : Key.ofValue? subscript = some key) (later : PairsYield depth scope middle rest given after) :
      PairsYield depth scope start ((first, second) :: rest) ((key, value) :: given) after

/-- A value put into a container under a subscript. -/
structure Deposit where
  handle : Nat
  key : Key
  value : Value

/-- What is put into one container, in order. -/
def stored (handle : Nat) (deposits : List Deposit) : Entries :=
  (deposits.filter (·.handle = handle)).map fun deposit => (deposit.key, deposit.value)

/-- How one store comes from another. Nothing happens to the containers that are there, or an assignment to a container
succeeds, whose container, subscript and value are found by then; or one such piece follows another. -/
inductive History : Store → List Deposit → Store → Prop where
  | quiet {before after : Store} (retains : before.Retains after) : History before [] after
  | store {depth scope handle : Nat} {mark : Mark} {target index expr : Expr} {start middle before after : Store}
      {container subscript value result : Value} {key : Key} (linked : start.Linked)
      (refers : container = .list handle ∨ container = .dict handle)
      (yield : YieldPair depth target index scope start container subscript middle)
      (valid : Key.ofValue? subscript = some key) (given : evalWithin depth expr scope middle = (.ok value, before))
      (done : evalWithin (depth + 1) (.store mark target index expr) scope start = (.ok result, after)) :
      History before [⟨handle, key, value⟩] after
  | append {first middle last : Store} {earlier later : List Deposit} (history : History first earlier middle)
      (history' : History middle later last) : History first (earlier ++ later) last

/-! Reading and storing -/

section

variable {depth scope handle : Nat} {target index expr : Expr} {start middle before after : Store}
  {place value : Value} {pairs : List (Expr × Expr)}

theorem evalWithin_fst_eq_ok_iff : (evalWithin (depth + 1) expr scope start).1 = .ok value ↔
    ∃ after, Rule.apply (evalWithin depth) (showWithin depth) scope expr start = (.ok value, after) := by
  rw [evalWithin]
  constructor
  · intro gives
    exact ⟨_, Eval.locate_eq_ok_iff.mp (Prod.ext gives rfl)⟩
  · rintro ⟨after, gives⟩
    rw [Eval.locate_eq_ok_iff.mpr gives]

theorem requireIndex_eq_ok_iff {offset : Int} : Rule.requireIndex place middle = (.ok offset, after) ↔
    place = .int offset ∧ after = middle := by
  cases place <;> simp [Rule.requireIndex, pure, Eval.pure, Eval.fail, Eval.stop, eq_comm]

theorem requireKey_eq_ok_iff {key : Key} : Rule.requireKey place middle = (.ok key, after) ↔
    Key.ofValue? place = some key ∧ after = middle := by
  unfold Rule.requireKey
  cases Key.ofValue? place <;> simp [pure, Eval.pure, Eval.fail, Eval.stop, eq_comm]

theorem requireIndex_snd (place : Value) (store : Store) : (Rule.requireIndex place store).2 = store := by
  cases place <;> rfl

theorem requireKey_snd (place : Value) (store : Store) : (Rule.requireKey place store).2 = store := by
  unfold Rule.requireKey
  cases Key.ofValue? place <;> rfl

theorem inBounds_snd (offset : Int) (length : Nat) (store : Store) : (Rule.inBounds offset length store).2 = store := by
  unfold Rule.inBounds
  split <;> rfl

theorem inBounds_eq_ok_iff {offset : Int} {length position : Nat} :
    Rule.inBounds offset length middle = (.ok position, after) ↔
      offset = position ∧ position < length ∧ after = middle := by
  unfold Rule.inBounds
  by_cases inside : 0 ≤ offset ∧ offset < length
  · rw [if_pos inside]
    constructor
    · intro same
      cases same
      exact ⟨by omega, by omega, rfl⟩
    · rintro ⟨rfl, _, rfl⟩
      rfl
  · rw [if_neg inside]
    constructor
    · intro same
      cases same
    · rintro ⟨rfl, bound, _⟩
      omega

/-- Reading a list gives the item at an index inside it, and nothing for any other subscript. -/
theorem subscript_list_iff (yield : YieldPair depth target index scope start (.list handle) place after)
    (mark : Mark) : (evalWithin (depth + 1) (.subscript mark target index) scope start).1 = .ok value ↔
      ∃ k : Nat, place = .int k ∧ (after.items handle)[k]? = some value := by
  obtain ⟨middle, holder, placed⟩ := yield
  have goes : Rule.apply (evalWithin depth) (showWithin depth) scope (.subscript mark target index) start =
      (Rule.requireIndex place >>= fun offset =>
        if offset < 0 then Eval.fail (.negativeIndex offset)
        else Eval.read (·.items handle) >>= fun items => Rule.inBounds offset items.length >>= fun position =>
          pure (items.getD position .none)) after :=
    (Eval.bind_of_ok holder).trans (Eval.bind_of_ok placed)
  simp only [evalWithin_fst_eq_ok_iff, goes, Eval.bind_eq_ok_iff, requireIndex_eq_ok_iff]
  constructor
  · rintro ⟨_, offset, _, ⟨rfl, rfl⟩, gives⟩
    split at gives
    · cases gives
    · obtain ⟨_, _, read, gives⟩ := Eval.bind_eq_ok_iff.mp gives
      cases read
      obtain ⟨position, _, inside, item⟩ := Eval.bind_eq_ok_iff.mp gives
      obtain ⟨rfl, bound, rfl⟩ := inBounds_eq_ok_iff.mp inside
      cases item
      exact ⟨position, rfl, by simp [bound]⟩
  · rintro ⟨k, rfl, there⟩
    have inside : Rule.inBounds k (after.items handle).length after = (.ok k, after) :=
      inBounds_eq_ok_iff.mpr ⟨rfl, (List.getElem?_eq_some_iff.mp there).1, rfl⟩
    refine ⟨after, k, after, ⟨rfl, rfl⟩, ?_⟩
    rw [if_neg (by omega)]
    refine (Eval.bind_of_ok inside).trans ?_
    rw [List.getD_eq_getElem?_getD, there]
    rfl

/-- Reading a dictionary gives what is there for a key, or none. -/
theorem subscript_dict_iff (yield : YieldPair depth target index scope start (.dict handle) place after)
    (mark : Mark) : (evalWithin (depth + 1) (.subscript mark target index) scope start).1 = .ok value ↔
      ∃ key, Key.ofValue? place = some key ∧ value = ((after.entries handle).find? key).getD .none := by
  obtain ⟨middle, holder, placed⟩ := yield
  have goes : Rule.apply (evalWithin depth) (showWithin depth) scope (.subscript mark target index) start =
      (Rule.requireKey place >>= fun key => Eval.read (·.entries handle) >>= fun entries =>
        pure ((entries.find? key).getD .none)) after :=
    (Eval.bind_of_ok holder).trans (Eval.bind_of_ok placed)
  simp only [evalWithin_fst_eq_ok_iff, goes, Eval.bind_eq_ok_iff, requireKey_eq_ok_iff]
  constructor
  · rintro ⟨_, key, _, ⟨valid, rfl⟩, _, _, read, gives⟩
    cases read
    cases gives
    exact ⟨key, valid, rfl⟩
  · rintro ⟨key, valid, rfl⟩
    exact ⟨after, key, after, ⟨valid, rfl⟩, _, after, rfl, rfl⟩

/-- Storing into a list puts the value at an index inside it, and stops for any other subscript. -/
theorem store_list_iff (yield : YieldPair depth target index scope start (.list handle) place middle)
    (given : evalWithin depth expr scope middle = (.ok value, before)) (mark : Mark) {result : Value} :
    evalWithin (depth + 1) (.store mark target index expr) scope start = (.ok result, after) ↔
      ∃ k : Nat, place = .int k ∧ k < (before.items handle).length ∧ result = value ∧
        after = before.setItem handle k value := by
  obtain ⟨first, holder, placed⟩ := yield
  have goes : Rule.apply (evalWithin depth) (showWithin depth) scope (.store mark target index expr) start =
      (Rule.requireIndex place >>= fun offset => evalWithin depth expr scope >>= fun value =>
        Eval.read (·.items handle) >>= fun items => Rule.inBounds offset items.length >>= fun position =>
          Eval.change (·.setItem handle position value) >>= fun _ => pure value) middle :=
    (Eval.bind_of_ok holder).trans (Eval.bind_of_ok placed)
  rw [evalWithin, Eval.locate_eq_ok_iff, goes, Eval.bind_eq_ok_iff]
  constructor
  · rintro ⟨offset, _, required, gives⟩
    obtain ⟨rfl, rfl⟩ := requireIndex_eq_ok_iff.mp required
    rw [Eval.bind_of_ok given] at gives
    obtain ⟨_, _, read, gives⟩ := Eval.bind_eq_ok_iff.mp gives
    cases read
    obtain ⟨position, _, inside, ends⟩ := Eval.bind_eq_ok_iff.mp gives
    obtain ⟨rfl, bound, rfl⟩ := inBounds_eq_ok_iff.mp inside
    cases ends
    exact ⟨position, rfl, bound, rfl, rfl⟩
  · rintro ⟨k, rfl, bound, rfl, rfl⟩
    have inside : Rule.inBounds k (before.items handle).length before = (.ok k, before) :=
      inBounds_eq_ok_iff.mpr ⟨rfl, bound, rfl⟩
    exact ⟨k, middle, rfl, (Eval.bind_of_ok given).trans (Eval.bind_of_ok inside)⟩

theorem store_dict_iff (yield : YieldPair depth target index scope start (.dict handle) place middle)
    (given : evalWithin depth expr scope middle = (.ok value, before)) (mark : Mark) {result : Value} :
    evalWithin (depth + 1) (.store mark target index expr) scope start = (.ok result, after) ↔
      ∃ key, Key.ofValue? place = some key ∧ result = value ∧ after = before.setEntry handle key value := by
  obtain ⟨first, holder, placed⟩ := yield
  have goes : Rule.apply (evalWithin depth) (showWithin depth) scope (.store mark target index expr) start =
      (Rule.requireKey place >>= fun key => evalWithin depth expr scope >>= fun value =>
        Eval.change (·.setEntry handle key value) >>= fun _ => pure value) middle :=
    (Eval.bind_of_ok holder).trans (Eval.bind_of_ok placed)
  rw [evalWithin, Eval.locate_eq_ok_iff, goes, Eval.bind_eq_ok_iff]
  constructor
  · rintro ⟨key, _, required, gives⟩
    obtain ⟨valid, rfl⟩ := requireKey_eq_ok_iff.mp required
    rw [Eval.bind_of_ok given] at gives
    cases gives
    exact ⟨key, valid, rfl, rfl⟩
  · rintro ⟨key, valid, rfl, rfl⟩
    exact ⟨key, middle, requireKey_eq_ok_iff.mpr ⟨valid, rfl⟩, Eval.bind_of_ok given⟩

theorem evalPairs_yield {entries result : Entries}
    (gives : Rule.evalPairs (evalWithin depth) scope pairs entries start = (.ok result, after)) :
    ∃ given, PairsYield depth scope start pairs given after ∧ result = entries.setAll given := by
  induction pairs generalizing start entries with
  | nil =>
    cases gives
    exact ⟨[], .nil _, rfl⟩
  | cons pair rest ih =>
    obtain ⟨subscript, middle, placed, onward⟩ := Eval.bind_eq_ok_iff.mp gives
    obtain ⟨key, _, required, onward'⟩ := Eval.bind_eq_ok_iff.mp onward
    obtain ⟨value, _, found, rest_gives⟩ := Eval.bind_eq_ok_iff.mp onward'
    obtain ⟨valid, rfl⟩ := requireKey_eq_ok_iff.mp required
    obtain ⟨given, later, rfl⟩ := ih rest_gives
    exact ⟨(key, value) :: given, .cons ⟨_, placed, found⟩ valid later, rfl⟩

/-- What a new dictionary holds: the pairs of its expression, stored one after another. -/
theorem dict_born {mark : Mark}
    (made : evalWithin (depth + 1) (.dict mark pairs) scope start = (.ok (.dict handle), after)) :
    ∃ given middle, PairsYield depth scope start pairs given middle ∧
      after.containers[handle]? = some (.dict (Entries.setAll [] given)) := by
  rw [evalWithin, Eval.locate_eq_ok_iff] at made
  obtain ⟨entries, middle, found, made⟩ := Eval.bind_eq_ok_iff.mp made
  obtain ⟨given, yields, rfl⟩ := evalPairs_yield found
  cases made
  exact ⟨given, middle, yields, middle.allocate_handle _⟩

end

/-! What a history makes of a container -/

/-- What becomes of a container by stores. -/
inductive Container.Reflects : Container → Entries → Container → Prop where
  | list {items later : List Value} {writes : Entries}
      (items_eq : ∀ k : Nat, later[k]? = items[k]?.map fun original => (writes.last? (.int k)).getD original) :
      Reflects (.list items) writes (.list later)
  | dict (entries writes : Entries) : Reflects (.dict entries) writes (.dict (entries.setAll writes))

namespace Container.Reflects

variable {first second third : Container} {writes more : Entries}

theorem refl (container : Container) : container.Reflects [] container := by
  cases container with
  | list items => exact .list fun k => by simp [Entries.last?, Entries.find?]
  | dict entries => exact .dict entries []

theorem trans (reflects : first.Reflects writes second) (reflects' : second.Reflects more third) :
    first.Reflects (writes ++ more) third := by
  cases reflects with
  | list items_eq =>
    cases reflects' with
    | list items_eq' =>
      refine .list fun k => ?_
      rw [items_eq', items_eq, Option.map_map, Entries.last?_append]
      congr 1
      funext original
      cases Entries.last? more (.int k) <;> rfl
  | dict entries =>
    cases reflects' with
    | dict =>
      rw [Entries.setAll, Entries.setAll, ← List.foldl_append]
      exact .dict entries _

/-- Without stores a container stays as it is. -/
theorem eq_of_nil (reflects : first.Reflects [] second) : second = first := by
  cases reflects with
  | list items_eq =>
    congr 1
    refine List.ext_getElem? fun k => ?_
    rw [items_eq]
    simp [Entries.last?, Entries.find?]
  | dict => rfl

theorem item {items : List Value} {k : Nat} (inside : k < items.length) (value : Value) :
    Reflects (.list items) [(.int k, value)] (.list (items.set k value)) := by
  refine .list fun j => ?_
  rw [List.getElem?_set]
  by_cases same : k = j
  · subst same
    simp [inside, Entries.last?, Entries.find?, Key.same]
  · simp [same, Entries.last?, Entries.find?, Key.same]

theorem entry (entries : Entries) (key : Key) (value : Value) :
    Reflects (.dict entries) [(key, value)] (.dict (entries.set key value)) :=
  .dict entries [(key, value)]

end Container.Reflects

theorem stored_append (handle : Nat) (earlier later : List Deposit) :
    stored handle (earlier ++ later) = stored handle earlier ++ stored handle later := by
  simp [stored]

/-- Putting a value into one container changes that one and no other. -/
theorem Store.reflects_setContainer {store : Store} {handle other : Nat} {old container found : Container} {key : Key}
    {value : Value} (known : store.containers[handle]? = some old) (reflects : old.Reflects [(key, value)] container)
    (there : store.containers[other]? = some found) :
    ∃ later, (store.setContainer handle container).containers[other]? = some later ∧
      found.Reflects (stored other [⟨handle, key, value⟩]) later := by
  rw [setContainer_get?, there]
  by_cases same : handle = other
  · subst same
    cases known.symm.trans there
    exact ⟨container, by simp, by simpa [stored] using reflects⟩
  · exact ⟨found, by simp [same], by simpa [stored, same] using .refl found⟩

theorem Store.Linked.evalWithin {depth scope : Nat} {expr : Expr} {store after : Store} {value : Value}
    (linked : store.Linked) (gives : Corvid.evalWithin depth expr scope store = (.ok value, after)) :
    store.Evolves after ∧ after.Linked ∧ value.Linked after := by
  have admitted : growthContract.Admits ⟨expr, scope, store⟩ := ⟨trivial, trivial, linked⟩
  obtain ⟨evolves, linked', fine⟩ := growthContract.evalWithin_meets depth expr scope store admitted
  rw [gives] at evolves linked' fine
  exact ⟨evolves, linked', fine value rfl⟩

theorem YieldPair.linked {depth scope : Nat} {first second : Expr} {start after : Store} {a b : Value}
    (yield : YieldPair depth first second scope start a b after) (linked : start.Linked) :
    after.Linked ∧ a.Linked after := by
  obtain ⟨middle, found, found'⟩ := yield
  obtain ⟨_, linked', fine⟩ := linked.evalWithin found
  obtain ⟨evolves, linked'', _⟩ := linked'.evalWithin found'
  exact ⟨linked'', fine.mono evolves⟩

/-- A container is what it was at first, changed by what was stored into it, whatever else went on. -/
theorem History.reflects {start after : Store} {deposits : List Deposit} (history : History start deposits after)
    {handle : Nat} {container : Container} (known : start.containers[handle]? = some container) :
    ∃ later, after.containers[handle]? = some later ∧ container.Reflects (stored handle deposits) later := by
  induction history generalizing container with
  | quiet retains => exact ⟨container, retains handle container known, .refl container⟩
  | append _ _ ih ih' =>
    obtain ⟨middle, there, reflects⟩ := ih known
    obtain ⟨later, there', reflects'⟩ := ih' there
    rw [stored_append]
    exact ⟨later, there', reflects.trans reflects'⟩
  | store linked refers yield valid given done =>
    obtain ⟨linked', held⟩ := yield.linked linked
    obtain ⟨evolves, _, _⟩ := linked'.evalWithin given
    have held := held.mono evolves
    obtain rfl | rfl := refers
    · obtain ⟨items, listed⟩ := held
      obtain ⟨k, rfl, inside, rfl, rfl⟩ := (store_list_iff yield given _).mp done
      cases valid
      rw [Store.items, listed] at inside
      rw [Store.setItem, Store.items, listed]
      exact Store.reflects_setContainer listed (.item inside _) known
    · obtain ⟨entries, listed⟩ := held
      obtain ⟨_, valid', rfl, rfl⟩ := (store_dict_iff yield given _).mp done
      cases valid.symm.trans valid'
      rw [Store.setEntry, Store.entries, listed]
      exact Store.reflects_setContainer listed (.entry entries _ _) known

namespace History

variable {start after : Store} {deposits : List Deposit} {handle : Nat}

theorem items_eq (history : History start deposits after) {items : List Value}
    (known : start.containers[handle]? = some (.list items)) (k : Nat) : (after.items handle)[k]? =
      items[k]?.map fun original => ((stored handle deposits).last? (.int k)).getD original := by
  obtain ⟨_, there, reflects⟩ := history.reflects known
  cases reflects with
  | list items_eq =>
    rw [Store.items, there]
    exact items_eq k

theorem entries_eq (history : History start deposits after) {entries : Entries}
    (known : start.containers[handle]? = some (.dict entries)) :
    after.entries handle = entries.setAll (stored handle deposits) := by
  obtain ⟨_, there, reflects⟩ := history.reflects known
  cases reflects with
  | dict => rw [Store.entries, there]

/-- A container into which nothing is put stays as it is. -/
theorem unaffected (history : History start deposits after) {container : Container}
    (known : start.containers[handle]? = some container) (others : ∀ deposit ∈ deposits, deposit.handle ≠ handle) :
    after.containers[handle]? = some container := by
  obtain ⟨later, there, reflects⟩ := history.reflects known
  have nothing : stored handle deposits = [] := by simpa [stored] using others
  rw [nothing] at reflects
  rwa [← reflects.eq_of_nil]

end History

/-- A dictionary from its expression on: the last of all values for a key counts, and the keys are those of all values
in the order of the first ones. -/
theorem History.born {depth scope handle : Nat} {mark : Mark} {pairs : List (Expr × Expr)} {origin start : Store}
    (made : evalWithin (depth + 1) (.dict mark pairs) scope origin = (.ok (.dict handle), start)) :
    ∃ given middle, PairsYield depth scope origin pairs given middle ∧
      ∀ {deposits after}, History start deposits after →
        after.entries handle = Entries.setAll [] (given ++ stored handle deposits) := by
  obtain ⟨given, middle, yields, known⟩ := dict_born made
  refine ⟨given, middle, yields, fun history => ?_⟩
  rw [history.entries_eq known, Entries.setAll, Entries.setAll, Entries.setAll, List.foldl_append]

/-- Reading and storing agree on the subscripts of a list: those inside it, whose length nothing changes. -/
theorem subscript_accepted_iff {depth scope handle : Nat} {target index expr : Expr} {start middle before : Store}
    {place value : Value} (linked : start.Linked)
    (yield : YieldPair depth target index scope start (.list handle) place middle)
    (given : evalWithin depth expr scope middle = (.ok value, before)) (mark : Mark) :
    (∃ read, (evalWithin (depth + 1) (.subscript mark target index) scope start).1 = .ok read) ↔
      ∃ written, (evalWithin (depth + 1) (.store mark target index expr) scope start).1 = .ok written := by
  obtain ⟨linked', items, listed⟩ := yield.linked linked
  obtain ⟨evolves, _, _⟩ := linked'.evalWithin given
  have length : (before.items handle).length = (middle.items handle).length := by
    obtain ⟨_, there, change⟩ := evolves.containers handle _ listed
    cases change with
    | list length => rw [Store.items, Store.items, there, listed, length]
  constructor
  · rintro ⟨read, gives⟩
    obtain ⟨k, rfl, there⟩ := (subscript_list_iff yield mark).mp gives
    have bound := length ▸ (List.getElem?_eq_some_iff.mp there).1
    have done := (store_list_iff yield given mark).mpr ⟨k, rfl, bound, rfl, rfl⟩
    exact ⟨value, congrArg Prod.fst done⟩
  · rintro ⟨written, gives⟩
    obtain ⟨k, rfl, bound, _, _⟩ := (store_list_iff yield given mark).mp (Prod.ext gives rfl)
    exact ⟨_, (subscript_list_iff yield mark).mpr ⟨k, rfl, List.getElem?_eq_getElem (length ▸ bound)⟩⟩

/-! Every run is a history -/

/-- One store comes from another by some history. -/
def Traced (before after : Store) : Prop := ∃ deposits, History before deposits after

namespace Traced

variable {α β : Type} {before middle after : Store}

theorem retains (retains : before.Retains after) : Traced before after := ⟨[], .quiet retains⟩

/-- A step that leaves the store as it is. -/
theorem step {step : Eval α} (still : (step before).2 = before) : Traced before (step before).2 := by
  rw [still]
  exact .retains (.refl before)

theorem trans (traced : Traced before middle) (traced' : Traced middle after) : Traced before after := by
  obtain ⟨_, history⟩ := traced
  obtain ⟨_, history'⟩ := traced'
  exact ⟨_, history.append history'⟩

theorem bind {first : Eval α} {next : α → Eval β} (traced : Traced before (first before).2)
    (rest : ∀ a middle, first before = (.ok a, middle) → Traced middle (next a middle).2) :
    Traced before ((first >>= next) before).2 := by
  cases found : first before with
  | mk result middle =>
    rw [found] at traced
    cases result with
    | error halt =>
      rw [Eval.bind_of_error found]
      exact traced
    | ok a =>
      rw [Eval.bind_of_ok found]
      exact traced.trans (rest a middle found)

/-- A rule that stores nothing by itself goes through what it asks for. -/
theorem plan {expr : Expr} {scope : Nat} {computation : Rule.Evaluator → (Value → Eval String) → Eval α}
    (plan : Rule.Plan expr scope computation) (plain : ¬expr.Stores) {evaluate : Rule.Evaluator}
    {render : Value → Eval String} (writes : Rule.StopsDeep render) (quiet : Contract.Quiet render) {store : Store}
    (parts : ∀ part, Rule.Asks (fun evaluate => computation evaluate render) evaluate store part →
      Traced part.store (part.answer evaluate).2) :
    Traced store (computation evaluate render store).2 := by
  induction plan generalizing store with
  | own calm => exact .retains (calm.retains plain store)
  | operand below => exact parts _ Rule.asks_evaluate
  | render shows value =>
    rw [quiet]
    exact .retains (.refl store)
  | write prints text => exact .retains (.of_same rfl)
  | enter calls bindings body =>
    have made : Rule.Uniform (fun _ => True) fun _ => Eval.create (·.addCall scope bindings) := .create _
    have entered : store.Retains (store.addCall scope bindings).2 := by
      obtain ⟨inner, same, _⟩ := store.addCall_eq scope bindings
      rw [same]
      exact .of_same rfl
    exact (Traced.retains entered).trans (parts _ (.bind_right made rfl Rule.asks_evaluate))
  | bind before behind ih ih' =>
    refine .bind (ih fun part asks => parts part asks.bind_left) fun a middle found => ?_
    exact ih' a fun part asks => parts part (.bind_right (before.uniform writes) found asks)

/-- An assignment to a container goes through its operands and then, if it succeeds, puts the value in. -/
theorem assignment {depth scope : Nat} {mark : Mark} {target index expr : Expr} {start : Store} (linked : start.Linked)
    (parts : ∀ part store, store.Linked → Traced store (evalWithin depth part scope store).2) :
    Traced start (evalWithin (depth + 1) (.store mark target index expr) scope start).2 := by
  rw [evalWithin, Eval.locate_snd]
  refine .bind (parts target start linked) fun container first holder => ?_
  obtain ⟨_, linked', _⟩ := linked.evalWithin holder
  cases container with
  | list handle =>
    refine .bind (parts index first linked') fun place second placed => ?_
    obtain ⟨_, linked'', _⟩ := linked'.evalWithin placed
    refine .bind (.step (requireIndex_snd place second)) fun offset _ required => ?_
    obtain ⟨rfl, rfl⟩ := requireIndex_eq_ok_iff.mp required
    refine .bind (parts expr _ linked'') fun value _ given => .bind (.step rfl) fun _ _ read => ?_
    cases read
    refine .bind (.step (inBounds_snd ..)) fun position before inside => ?_
    obtain ⟨rfl, bound, rfl⟩ := inBounds_eq_ok_iff.mp inside
    have yield : YieldPair depth target index scope start (.list handle) (.int position) _ := ⟨first, holder, placed⟩
    have done := (store_list_iff yield given mark).mpr ⟨position, rfl, bound, rfl, rfl⟩
    exact ⟨_, .store linked (.inl rfl) yield rfl given done⟩
  | dict handle =>
    refine .bind (parts index first linked') fun place second placed => ?_
    obtain ⟨_, linked'', _⟩ := linked'.evalWithin placed
    refine .bind (.step (requireKey_snd place second)) fun key _ required => ?_
    obtain ⟨valid, rfl⟩ := requireKey_eq_ok_iff.mp required
    refine .bind (parts expr _ linked'') fun value before given => ?_
    have yield : YieldPair depth target index scope start (.dict handle) place _ := ⟨first, holder, placed⟩
    have done := (store_dict_iff yield given mark).mpr ⟨key, valid, rfl, rfl⟩
    exact ⟨_, .store linked (.inr rfl) yield valid given done⟩
  | _ => exact .step rfl

end Traced

/-- Every evaluation is a history. -/
theorem evalWithin_traced (depth : Nat) (expr : Expr) (scope : Nat) {store : Store} (linked : store.Linked) :
    Traced store (evalWithin depth expr scope store).2 := by
  induction depth generalizing expr scope store with
  | zero => exact .retains (.refl store)
  | succ depth ih =>
    by_cases stores : expr.Stores
    · cases expr with
      | store mark target index expr => exact .assignment linked fun part store linked => ih part scope linked
      | _ => exact stores.elim
    · have kept : growthContract.Keeps scope (evalWithin depth) growthContract.good
          (fun evaluate => Rule.apply evaluate (showWithin depth) scope expr) store :=
        Contract.apply_keeps linked trivial (growthContract.evalWithin_meets depth) (Contract.showWithin_quiet depth)
          trivial
      rw [evalWithin, Eval.locate_snd]
      refine .plan (Rule.apply_plan expr scope) stores (showWithin_stopsDeep depth) (Contract.showWithin_quiet depth)
        fun part asks => ?_
      exact ih part.expr part.scope (kept.admits asks).2.2

/-- The laws of containers. Every evaluation is a history of stores, and under every history a subscript of a list gives
what was stored last under it, or what was there at first, and a subscript of a dictionary what was given or stored
last for its key, or none; keys are in the order of first insertion and in their first form, and containers into which
nothing is stored stay as they are. Reading and storing accept the same subscripts of a list. Keys are the same that
are equal values of one kind, or one NaN. -/
theorem container_laws :
    (∀ (depth : Nat) (expr : Expr) (scope : Nat) (store : Store), store.Linked →
      ∃ deposits, History store deposits (evalWithin depth expr scope store).2) ∧
    (∀ (start after : Store) (deposits : List Deposit), History start deposits after →
      ∀ (handle : Nat) (container : Container), start.containers[handle]? = some container →
        (∀ deposit ∈ deposits, deposit.handle ≠ handle) → after.containers[handle]? = some container) ∧
    (∀ (start after : Store) (deposits : List Deposit), History start deposits after →
      ∀ (handle : Nat) (items : List Value), start.containers[handle]? = some (.list items) →
        ∀ depth mark target index scope origin place value,
          YieldPair depth target index scope origin (.list handle) place after →
          ((evalWithin (depth + 1) (.subscript mark target index) scope origin).1 = .ok value ↔
            ∃ k : Nat, place = .int k ∧ items[k]?.map (fun original =>
              ((stored handle deposits).last? (.int k)).getD original) = some value)) ∧
    (∀ depth mark pairs scope origin handle start,
      evalWithin (depth + 1) (.dict mark pairs) scope origin = (.ok (.dict handle), start) →
      ∃ given middle, PairsYield depth scope origin pairs given middle ∧
        ∀ (after : Store) (deposits : List Deposit), History start deposits after →
          (after.entries handle).map Prod.fst =
            ((given ++ stored handle deposits).map Prod.fst).eraseDupsBy Key.same ∧
          ∀ depth mark target index scope origin place value,
            YieldPair depth target index scope origin (.dict handle) place after →
            ((evalWithin (depth + 1) (.subscript mark target index) scope origin).1 = .ok value ↔
              ∃ key, Key.ofValue? place = some key ∧
                value = (Entries.last? (given ++ stored handle deposits) key).getD .none)) ∧
    (∀ depth mark target index expr scope (start : Store) handle place middle value before, start.Linked →
      YieldPair depth target index scope start (.list handle) place middle →
      evalWithin depth expr scope middle = (.ok value, before) →
      ((∃ read, (evalWithin (depth + 1) (.subscript mark target index) scope start).1 = .ok read) ↔
        ∃ written, (evalWithin (depth + 1) (.store mark target index expr) scope start).1 = .ok written)) ∧
    (∀ key other : Key, key.same other = true ↔
      key.toValue.kind = other.toValue.kind ∧ equality .eq key.toValue other.toValue = .ok (.bool true) ∨
        key = other ∧ ∃ tag, key = .float (.nan tag)) ∧
    (∀ tag, equality .eq (.float (.nan tag)) (.float (.nan tag)) = .ok (.bool false)) ∧
    (Key.float (.finite false 0)).same (.float (.finite true 0)) = true := by
  refine ⟨fun depth expr scope store linked => evalWithin_traced depth expr scope linked,
    fun start after deposits history handle container known others => history.unaffected known others,
    fun start after deposits history handle items known depth mark target index scope origin place value yield => ?_,
    fun depth mark pairs scope origin handle start made => ?_,
    fun depth mark target index expr scope start handle place middle value before linked yield given =>
      subscript_accepted_iff linked yield given mark,
    Key.same_iff_equality, fun tag => rfl, by decide⟩
  · rw [subscript_list_iff yield mark]
    simp only [history.items_eq known]
  · obtain ⟨given, middle, yields, entries_eq⟩ := History.born made
    refine ⟨given, middle, yields, fun after deposits history => ?_⟩
    have entries_eq := entries_eq history
    refine ⟨entries_eq ▸ Entries.map_fst_setAll _, fun depth mark target index scope origin place value yield => ?_⟩
    rw [subscript_dict_iff yield mark, entries_eq]
    simp only [Entries.find?_setAll, Entries.find?, Option.or_none]

/-- A list that is stored into under two names, and a dictionary whose key `1` stays apart from `true`. -/
theorem container_laws_names :
    let xs := Expr.name .absent "xs"
    let zero := Expr.literal .absent .int "0"
    let one := Expr.literal .absent .int "1"
    let store := ((Store.empty.allocate (.list [.int 1, .int 2])).2.addRoot
      [("xs", .list 0), ("ys", .list 0)] Store.standardSink .dynamic).2
    let first := store.setItem 0 0 (.int 1)
    let second := first.setItem 0 0 (.list 0)
    let third := (second.allocate (.dict [(.int 1, .int 0)])).2
    let fourth := third.bind 0 "d" (.dict 1)
    let fifth := fourth.setEntry 1 (.bool true) (.int 1)
    store.Linked ∧ (∃ deposits, History store deposits (evalWithin 2 (.store .absent xs zero one) 0 store).2) ∧
      History store [⟨0, .int 0, .int 1⟩, ⟨0, .int 0, .list 0⟩] second ∧
      (evalWithin 2 (.subscript .absent xs zero) 0 second).1 = .ok (.list 0) ∧
      evalWithin 2 (.dict .absent [(one, zero)]) 0 second = (.ok (.dict 1), third) ∧
      History third [⟨1, .bool true, .int 1⟩] fifth ∧
      (∃ given middle, PairsYield 1 0 second [(one, zero)] given middle ∧
        (fifth.entries 1).map Prod.fst =
          ((given ++ [(Key.bool true, Value.int 1)]).map Prod.fst).eraseDupsBy Key.same) ∧
      fifth.containers[0]? = third.containers[0]? ∧
      ((∃ read, (evalWithin 2 (.subscript .absent xs one) 0 store).1 = .ok read) ↔
        ∃ written, (evalWithin 2 (.store .absent xs one zero) 0 store).1 = .ok written) := by
  intro xs zero one store first second third fourth fifth
  have numbers : ∀ item ∈ [Value.int 1, .int 2], item.Linked Store.empty := by simp [Value.Linked]
  have list_linked := Store.Linked.empty.of_change (Change.list numbers : Change _ 0 _ _)
  have store_linked : store.Linked := by
    apply list_linked.addScope
    simp only [List.forall_mem_cons, List.not_mem_nil, false_implies, implies_true, and_true]
    exact ⟨⟨_, rfl⟩, ⟨_, rfl⟩⟩
  have stores : evalWithin 2 (.store .absent xs zero one) 0 store = (.ok (.int 1), first) := rfl
  have stores' : evalWithin 2 (.store .absent (.name .absent "ys") zero xs) 0 first = (.ok (.list 0), second) := rfl
  have makes : evalWithin 2 (.dict .absent [(one, zero)]) 0 second = (.ok (.dict 1), third) := rfl
  have names : evalWithin 3 (.assign .absent "d" (.dict .absent [(one, zero)])) 0 second =
      (.ok (.dict 1), fourth) := rfl
  obtain ⟨_, first_linked, _⟩ := store_linked.evalWithin stores
  obtain ⟨_, second_linked, _⟩ := first_linked.evalWithin stores'
  obtain ⟨_, fourth_linked, _⟩ := second_linked.evalWithin names
  have list_history : History store [⟨0, .int 0, .int 1⟩, ⟨0, .int 0, .list 0⟩] second := by
    have under_xs : YieldPair 1 xs zero 0 store (.list 0) (.int 0) store := ⟨store, rfl, rfl⟩
    have under_ys : YieldPair 1 (.name .absent "ys") zero 0 first (.list 0) (.int 0) first := ⟨first, rfl, rfl⟩
    exact (History.store store_linked (.inl rfl) under_xs rfl rfl stores).append
      (.store first_linked (.inl rfl) under_ys rfl rfl stores')
  have dict_history : History third [⟨1, .bool true, .int 1⟩] fifth := by
    have puts : evalWithin 2 (.store .absent (.name .absent "d") (.literal .absent .bool "true") one) 0 fourth =
        (.ok (.int 1), fifth) := rfl
    have under_d : YieldPair 1 (.name .absent "d") (.literal .absent .bool "true") 0 fourth (.dict 1) (.bool true)
        fourth := ⟨fourth, rfl, rfl⟩
    have named : History third [] fourth := .quiet (.of_same rfl)
    exact named.append (.store fourth_linked (.inr rfl) under_d rfl rfl puts)
  obtain ⟨covered, unaffected, lists, dicts, accepted, _⟩ := container_laws
  have reads := (lists _ _ _ list_history 0 _ rfl 1 .absent xs zero 0 second (.int 0) (.list 0)
    ⟨second, rfl, rfl⟩).mpr ⟨0, rfl, rfl⟩
  obtain ⟨given, middle, yields, after⟩ := dicts 1 .absent _ 0 second 1 third makes
  have untouched := unaffected _ _ _ dict_history 0 _ rfl (by simp)
  have agree := accepted 1 .absent xs one zero 0 store 0 (.int 1) store (.int 0) store store_linked
    ⟨store, rfl, rfl⟩ rfl
  exact ⟨store_linked, covered 2 _ 0 store store_linked, list_history, reads, makes, dict_history,
    ⟨given, middle, yields, (after _ _ dict_history).1⟩, untouched, agree⟩

end Corvid
