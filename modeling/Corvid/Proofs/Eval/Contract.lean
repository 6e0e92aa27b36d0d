import Corvid.Proofs.Eval.Chains
import Corvid.Proofs.Expr.Parts
import Corvid.Proofs.Store.Change

/-!
Contracts of evaluation. A contract says what an evaluation may rely on, in its node, its scope and the store, and
what it keeps: how the store may evolve, and which values it may hold and give. It has to be kept by the few changes
that rules make to a store on their own; then every rule keeps it, and so does evaluation to any depth. Besides, no
evaluation outside the contract is ever asked for.
-/
namespace Corvid

/-- What evaluation may rely on and what it keeps, with the laws that this has to obey. -/
structure Contract where
  /-- What may be evaluated. -/
  node : Expr → Prop
  /-- The scopes in which it may be evaluated. -/
  inside : Nat → Prop
  sound : Store → Prop
  /-- The values that a store may hold. -/
  good : Store → Value → Prop
  /-- What may become of a store by evaluation in a scope. -/
  evolves : Nat → Store → Store → Prop
  refl : ∀ scope store, evolves scope store store
  trans : ∀ {scope first second third}, evolves scope first second → evolves scope second third →
    evolves scope first third
  mono : ∀ {scope before after value}, evolves scope before after → good before value → good after value
  part : ∀ {whole part}, node whole → part ∈ whole.children → node part
  atom : ∀ {store value}, value.Atomic → good store value
  declared : ∀ {store mark name parameters body}, node (.function mark name parameters body) →
    good store (.function name parameters body)
  callable : ∀ {store name parameters body}, good store (.function name parameters body) → node body
  lookup : ∀ {store scope name value}, sound store → inside scope → store.lookup scope name = some value →
    good store value
  items : ∀ {store handle value}, sound store → good store (.list handle) → value ∈ store.items handle →
    good store value
  entries : ∀ {store handle entry}, sound store → good store (.dict handle) → entry ∈ store.entries handle →
    good store entry.2
  listed : ∀ {store} items, sound store → good (store.allocate (.list items)).2 (.list store.containers.size)
  dicted : ∀ {store} entries, sound store → good (store.allocate (.dict entries)).2 (.dict store.containers.size)
  change : ∀ {scope store after}, sound store → inside scope → Change good scope store after →
    evolves scope store after ∧ sound after
  /-- A function's body is evaluated in a new scope, and what it does there is what its call does. -/
  call : ∀ {scope store bindings}, sound store → inside scope →
    (∀ binding ∈ (bindings : Bindings), good store binding.2) →
    inside (store.addCall scope bindings).1 ∧ sound (store.addCall scope bindings).2 ∧
      ∀ after, evolves (store.addCall scope bindings).1 (store.addCall scope bindings).2 after →
        evolves scope store after

namespace Contract

open Rule

variable (contract : Contract)

/-- The evaluations that a contract is about. -/
def Admits (request : Request) : Prop :=
  contract.node request.expr ∧ contract.inside request.scope ∧ contract.sound request.store

/-- An evaluator that keeps a contract. -/
def Meets (evaluate : Evaluator) : Prop :=
  ∀ expr scope store, contract.Admits ⟨expr, scope, store⟩ →
    contract.evolves scope store (evaluate expr scope store).2 ∧ contract.sound (evaluate expr scope store).2 ∧
      ∀ value, (evaluate expr scope store).1 = .ok value → contract.good (evaluate expr scope store).2 value

/-- Evaluators that answer alike wherever a contract admits the question. -/
def Agree (evaluate other : Evaluator) : Prop :=
  ∀ request, contract.Admits request → request.answer other = request.answer evaluate

/-- A computation in a scope that keeps a contract, promises something of its result, and depends on no evaluation
that the contract does not admit. -/
structure Keeps (scope : Nat) (evaluate : Evaluator) {α : Type} (promised : Store → α → Prop)
    (computation : Evaluator → Eval α) (store : Store) : Prop where
  evolves : contract.evolves scope store (computation evaluate store).2
  sound : contract.sound (computation evaluate store).2
  result : ∀ a, (computation evaluate store).1 = .ok a → promised (computation evaluate store).2 a
  confined : ∀ other, contract.Agree evaluate other → computation other store = computation evaluate store

namespace Keeps

variable {contract : Contract} {α β : Type} {promised : Store → α → Prop} {promised' : Store → β → Prop}
  {scope : Nat} {evaluate : Evaluator} {store : Store}

theorem pure (sound : contract.sound store) {a : α} (fine : promised store a) :
    contract.Keeps scope evaluate promised (fun _ => Pure.pure a) store where
  evolves := contract.refl scope store
  sound := sound
  result := fun _ same => by cases same; exact fine
  confined := fun _ _ => rfl

theorem stop (sound : contract.sound store) (halt : Halt) :
    contract.Keeps scope evaluate promised (fun _ => Eval.stop halt) store where
  evolves := contract.refl scope store
  sound := sound
  result := fun _ same => nomatch same
  confined := fun _ _ => rfl

theorem fail (sound : contract.sound store) (fault : Fault) :
    contract.Keeps scope evaluate promised (fun _ => Eval.fail fault) store :=
  stop sound _

/-- Reading leaves the store as it is. -/
theorem read (sound : contract.sound store) (view : Store → α) :
    contract.Keeps scope evaluate (fun after a => after = store ∧ a = view store) (fun _ => Eval.read view)
      store where
  evolves := contract.refl scope store
  sound := sound
  result := fun _ same => by cases same; exact ⟨rfl, rfl⟩
  confined := fun _ _ => rfl

theorem update (sound : contract.sound store) (inside : contract.inside scope) {alter : Store → Store}
    (allowed : Change contract.good scope store (alter store)) :
    contract.Keeps scope evaluate (fun _ _ => True) (fun _ => Eval.change alter) store where
  evolves := (contract.change sound inside allowed).1
  sound := (contract.change sound inside allowed).2
  result := fun _ _ => trivial
  confined := fun _ _ => rfl

theorem drawTag (sound : contract.sound store) (inside : contract.inside scope) :
    contract.Keeps scope evaluate (fun _ _ => True) (fun _ => Eval.drawTag) store where
  evolves := (contract.change sound inside .draw).1
  sound := (contract.change sound inside .draw).2
  result := fun _ _ => trivial
  confined := fun _ _ => rfl

theorem ask (meets : contract.Meets evaluate) {expr : Expr} (node : contract.node expr)
    (inside : contract.inside scope) (sound : contract.sound store) :
    contract.Keeps scope evaluate contract.good (fun evaluate => evaluate expr scope) store := by
  have admitted : contract.Admits ⟨expr, scope, store⟩ := ⟨node, inside, sound⟩
  obtain ⟨evolves, sound, fine⟩ := meets expr scope store admitted
  exact ⟨evolves, sound, fine, fun _ agree => agree _ admitted⟩

theorem bind {first : Evaluator → Eval α} {next : α → Evaluator → Eval β}
    (kept : contract.Keeps scope evaluate promised first store)
    (rest : ∀ a after, contract.evolves scope store after → contract.sound after → promised after a →
      contract.Keeps scope evaluate promised' (next a) after) :
    contract.Keeps scope evaluate promised' (fun evaluate => first evaluate >>= fun a => next a evaluate) store := by
  obtain ⟨evolves, sound, result, confined⟩ := kept
  cases found : first evaluate store with
  | mk outcome middle =>
    rw [found] at evolves sound result
    cases outcome with
    | error halt =>
      have stops : (first evaluate >>= fun a => next a evaluate) store = (.error halt, middle) :=
        Eval.bind_of_error found
      constructor
      · rw [stops]
        exact evolves
      · rw [stops]
        exact sound
      · rw [stops]
        exact fun _ same => nomatch same
      · intro other agree
        exact (Eval.bind_of_error ((confined other agree).trans found)).trans stops.symm
    | ok a =>
      have goes : (first evaluate >>= fun a => next a evaluate) store = next a evaluate middle :=
        Eval.bind_of_ok found
      obtain ⟨evolves', sound', result', confined'⟩ := rest a middle evolves sound (result a rfl)
      constructor
      · rw [goes]
        exact contract.trans evolves evolves'
      · rw [goes]
        exact sound'
      · rw [goes]
        exact result'
      · intro other agree
        have same : first other store = (.ok a, middle) := (confined other agree).trans found
        exact (Eval.bind_of_ok same).trans ((confined' other agree).trans goes.symm)

/-- The results of operators are good in every store. -/
theorem ofOutcome (sound : contract.sound store) {joint : Joint} {result : Except Fault Value}
    (outcome : joint.Outcome result) :
    contract.Keeps scope evaluate contract.good (fun _ => Eval.ofExcept result) store := by
  cases outcome with
  | value atomic => exact pure sound (contract.atom atomic)
  | fault => exact fail sound _

/-- A place changes neither the store nor a result. -/
theorem locate {computation : Evaluator → Eval α} (mark : Mark)
    (kept : contract.Keeps scope evaluate promised computation store) :
    contract.Keeps scope evaluate promised (fun evaluate => Eval.locate mark (computation evaluate)) store := by
  obtain ⟨evolves, sound, result, confined⟩ := kept
  have later : (Eval.locate mark (computation evaluate) store).2 = (computation evaluate store).2 := by
    unfold Eval.locate
    split
    · next stops => rw [stops]
    · rfl
  have given (a : α) (gives : (Eval.locate mark (computation evaluate) store).1 = .ok a) :
      (computation evaluate store).1 = .ok a := by
    unfold Eval.locate at gives
    split at gives
    · cases gives
    · exact gives
  constructor
  · rwa [later]
  · rwa [later]
  · intro a gives
    rw [later]
    exact result a (given a gives)
  · intro other agree
    unfold Eval.locate
    rw [confined other agree]

/-- Every evaluation that such a computation asks for is admitted: it would not notice how another one ends. -/
theorem admits {computation : Evaluator → Eval α} (kept : contract.Keeps scope evaluate promised computation store)
    {part : Request} (asks : Asks computation evaluate store part) : contract.Admits part := by
  by_contra foreign
  have same (halt : Halt) : computation evaluate store = (.error halt, store) := by
    rw [← kept.confined (stopping evaluate part halt store)]
    · exact asks halt store
    · intro request admitted
      apply answer_stopping_of_ne
      rintro rfl
      exact foreign admitted
  -- a foreign evaluation could end in two ways, and the computation would have to follow both
  have two_ends := (same .tooDeep).symm.trans (same .tooLong)
  cases two_ends

end Keeps

/-! Rules -/

section

variable {contract : Contract} {scope : Nat} {evaluate : Evaluator} {store : Store}

theorem getD_good {items : List Value} (fine : ∀ item ∈ items, contract.good store item) (index : Nat) :
    contract.good store (items.getD index .none) := by
  rw [List.getD_eq_getElem?_getD]
  cases found : items[index]? with
  | none => exact contract.atom trivial
  | some item => exact fine item (List.mem_of_getElem? found)

variable (sound : contract.sound store)

include sound

theorem requireKey_keeps (value : Value) :
    contract.Keeps scope evaluate (fun after _ => after = store) (fun _ => requireKey value) store := by
  unfold requireKey
  split
  · exact .pure sound rfl
  · exact .fail sound _

theorem requireIndex_keeps (value : Value) :
    contract.Keeps scope evaluate (fun after _ => after = store) (fun _ => requireIndex value) store := by
  cases value with
  | int => exact .pure sound rfl
  | _ => exact .fail sound _

theorem inBounds_keeps (index : Int) (length : Nat) :
    contract.Keeps scope evaluate (fun after position => after = store ∧ position < length)
      (fun _ => inBounds index length) store := by
  unfold inBounds
  split
  · exact .pure sound ⟨rfl, by omega⟩
  · exact .fail sound _

theorem literal_keeps (kind : LiteralKind) (lexeme : String) :
    contract.Keeps scope evaluate contract.good (fun _ => literal kind lexeme) store := by
  have outcome := literalValue_outcome kind lexeme
  unfold literal
  generalize literalValue kind lexeme = result at outcome
  cases outcome with
  | text | int | float | bool => exact .pure sound (contract.atom trivial)
  | tooLong | malformed => exact .stop sound _

/-- A writer that leaves the store as it is. -/
def Quiet (render : Value → Eval String) : Prop := ∀ value store, (render value store).2 = store

theorem render_keeps {render : Value → Eval String} (quiet : Quiet render) (value : Value) :
    contract.Keeps scope evaluate (fun _ _ => True) (fun _ => render value) store where
  evolves := by rw [quiet]; exact contract.refl scope store
  sound := by rw [quiet]; exact sound
  result := fun _ _ => trivial
  confined := fun _ _ => rfl

variable (inside : contract.inside scope)

include inside

theorem name_keeps (text : String) :
    contract.Keeps scope evaluate contract.good (fun _ => name scope text) store := by
  refine (Keeps.read sound (·.lookup scope text)).bind ?_
  rintro found after _ _ ⟨rfl, same⟩
  cases found with
  | some value => exact .pure sound (contract.lookup sound inside same.symm)
  | none => exact .fail sound _

theorem function_keeps {mark : Mark} {text : String} {parameters : List String} {body : Expr}
    (node : contract.node (.function mark text parameters body)) :
    contract.Keeps scope evaluate contract.good (fun _ => function scope text parameters body) store := by
  refine Keeps.bind (.update sound inside (.bind text (contract.declared node))) ?_
  exact fun _ _ _ sound _ => .pure sound (contract.declared node)

theorem combine_keeps {render : Value → Eval String} (quiet : Quiet render) (joint : Joint) (a b : Value) :
    contract.Keeps scope evaluate contract.good (fun _ => combine render joint a b) store := by
  cases joint with
  | arithmetic op =>
    exact (Keeps.drawTag sound inside).bind fun fresh after _ sound _ =>
      .ofOutcome sound (arithmetic_outcome op fresh a b)
  | logical op => exact .ofOutcome sound (logical_outcome op a b)
  | equality comparator => exact .ofOutcome sound (equality_outcome comparator a b)
  | comparison comparator => exact .ofOutcome sound (comparison_outcome comparator a b)
  | concat =>
    refine (render_keeps sound quiet a).bind fun _ _ _ sound _ => ?_
    exact (render_keeps sound quiet b).bind fun _ _ _ sound _ => .pure sound (contract.atom trivial)
  | range => exact .ofOutcome sound (rangeBetween_outcome a b)

variable (meets : contract.Meets evaluate)

include meets

theorem evalAll_keeps {exprs : List Expr} (nodes : ∀ expr ∈ exprs, contract.node expr) :
    contract.Keeps scope evaluate (fun after values => ∀ value ∈ values, contract.good after value)
      (fun evaluate => evalAll evaluate scope exprs) store := by
  induction exprs generalizing store with
  | nil => exact .pure sound fun _ member => nomatch member
  | cons expr rest ih =>
    have node := nodes expr List.mem_cons_self
    refine Keeps.bind (.ask meets node inside sound) fun value after _ sound fine => ?_
    have others := ih sound fun expr member => nodes expr (List.mem_cons_of_mem _ member)
    refine others.bind fun values last evolves sound fines => .pure sound fun item member => ?_
    obtain rfl | member := List.mem_cons.mp member
    · exact contract.mono evolves fine
    · exact fines item member

theorem evalBlock_keeps {exprs : List Expr} (nodes : ∀ expr ∈ exprs, contract.node expr) {last : Value}
    (fine : contract.good store last) :
    contract.Keeps scope evaluate contract.good (fun evaluate => evalBlock evaluate scope exprs last) store := by
  induction exprs generalizing store last with
  | nil => exact .pure sound fine
  | cons expr rest ih =>
    have node := nodes expr List.mem_cons_self
    refine Keeps.bind (.ask meets node inside sound) fun value after _ sound fine => ?_
    exact ih sound (fun expr member => nodes expr (List.mem_cons_of_mem _ member)) fine

theorem evalPairs_keeps {pairs : List (Expr × Expr)}
    (nodes : ∀ pair ∈ pairs, contract.node pair.1 ∧ contract.node pair.2) {entries : Entries}
    (fine : ∀ entry ∈ entries, contract.good store entry.2) :
    contract.Keeps scope evaluate (fun after entries => ∀ entry ∈ entries, contract.good after entry.2)
      (fun evaluate => evalPairs evaluate scope pairs entries) store := by
  induction pairs generalizing store entries with
  | nil => exact .pure sound fine
  | cons pair rest ih =>
    obtain ⟨key, value⟩ := pair
    obtain ⟨key_node, value_node⟩ := nodes (key, value) List.mem_cons_self
    refine Keeps.bind (.ask meets key_node inside sound) fun known first evolves sound _ => ?_
    refine (requireKey_keeps sound known).bind ?_
    rintro key _ _ _ rfl
    refine Keeps.bind (.ask meets value_node inside sound) fun value second evolves' sound stored => ?_
    have rest_nodes := fun pair member => nodes pair (List.mem_cons_of_mem _ member)
    refine ih sound rest_nodes fun entry member => ?_
    obtain earlier | ⟨same, _⟩ := Entries.mem_set member
    · exact contract.mono (contract.trans evolves evolves') (fine entry earlier)
    · rw [same]
      exact stored

theorem list_keeps {elements : List Expr} (nodes : ∀ expr ∈ elements, contract.node expr) :
    contract.Keeps scope evaluate contract.good (fun evaluate => list evaluate scope elements) store := by
  refine (evalAll_keeps sound inside meets nodes).bind fun items after _ sound fine => ?_
  have allocated : contract.Keeps scope evaluate (fun after handle => contract.good after (.list handle))
      (fun _ => Eval.create (·.allocate (.list items))) after := by
    obtain ⟨evolves, sound'⟩ := contract.change sound inside (.list fine)
    exact ⟨evolves, sound', fun _ same => by cases same; exact contract.listed items sound, fun _ _ => rfl⟩
  exact allocated.bind fun _ _ _ sound fine => .pure sound fine

theorem dict_keeps {pairs : List (Expr × Expr)}
    (nodes : ∀ pair ∈ pairs, contract.node pair.1 ∧ contract.node pair.2) :
    contract.Keeps scope evaluate contract.good (fun evaluate => dict evaluate scope pairs) store := by
  have none_stored : ∀ entry ∈ ([] : Entries), contract.good store entry.2 := fun _ member => nomatch member
  refine (evalPairs_keeps sound inside meets nodes none_stored).bind fun entries after _ sound fine => ?_
  have allocated : contract.Keeps scope evaluate (fun after handle => contract.good after (.dict handle))
      (fun _ => Eval.create (·.allocate (.dict entries))) after := by
    obtain ⟨evolves, sound'⟩ := contract.change sound inside (.dict fine)
    exact ⟨evolves, sound', fun _ same => by cases same; exact contract.dicted entries sound, fun _ _ => rfl⟩
  exact allocated.bind fun _ _ _ sound fine => .pure sound fine

theorem assign_keeps (text : String) {expr : Expr} (node : contract.node expr) :
    contract.Keeps scope evaluate contract.good (fun evaluate => assign evaluate scope text expr) store := by
  refine Keeps.bind (.ask meets node inside sound) fun value after _ sound fine => ?_
  refine Keeps.bind (.update sound inside (.bind text fine)) fun _ _ evolves sound _ => ?_
  exact .pure sound (contract.mono evolves fine)

theorem subscript_keeps {target index : Expr} (target_node : contract.node target)
    (index_node : contract.node index) :
    contract.Keeps scope evaluate contract.good (fun evaluate => subscript evaluate scope target index) store := by
  refine Keeps.bind (.ask meets target_node inside sound) fun container first _ sound held => ?_
  cases container with
  | list handle =>
    refine Keeps.bind (.ask meets index_node inside sound) fun value second evolves sound _ => ?_
    have held := contract.mono evolves held
    refine (requireIndex_keeps sound value).bind ?_
    rintro offset _ _ _ rfl
    by_cases negative : offset < 0
    · simp only [if_pos negative]
      exact .fail sound _
    · simp only [if_neg negative]
      refine (Keeps.read sound (·.items handle)).bind ?_
      rintro items _ _ _ ⟨rfl, rfl⟩
      refine (inBounds_keeps sound offset _).bind ?_
      rintro position _ _ _ ⟨rfl, _⟩
      exact .pure sound (getD_good (fun _ member => contract.items sound held member) position)
  | dict handle =>
    refine Keeps.bind (.ask meets index_node inside sound) fun value second evolves sound _ => ?_
    have held := contract.mono evolves held
    refine (requireKey_keeps sound value).bind ?_
    rintro key _ _ _ rfl
    refine (Keeps.read sound (·.entries handle)).bind ?_
    rintro entries _ _ _ ⟨rfl, rfl⟩
    refine .pure sound ?_
    cases found : Entries.find? _ key with
    | none => exact contract.atom trivial
    | some value =>
      obtain ⟨entry, member, rfl⟩ := Entries.find?_mem found
      exact contract.entries sound held member
  | _ => exact .fail sound _

theorem store_keeps {target index expr : Expr} (target_node : contract.node target)
    (index_node : contract.node index) (node : contract.node expr) :
    contract.Keeps scope evaluate contract.good (fun evaluate => Rule.store evaluate scope target index expr)
      store := by
  refine Keeps.bind (.ask meets target_node inside sound) fun container first _ sound held => ?_
  cases container with
  | list handle =>
    refine Keeps.bind (.ask meets index_node inside sound) fun value second evolves sound _ => ?_
    have held := contract.mono evolves held
    refine (requireIndex_keeps sound value).bind ?_
    rintro offset _ _ _ rfl
    refine Keeps.bind (.ask meets node inside sound) fun value third evolves sound fine => ?_
    have held := contract.mono evolves held
    refine (Keeps.read sound (·.items handle)).bind ?_
    rintro items _ _ _ ⟨rfl, rfl⟩
    refine (inBounds_keeps sound offset _).bind ?_
    rintro position _ _ _ ⟨rfl, bound⟩
    refine Keeps.bind (.update sound inside (.setItem held bound fine)) fun _ _ evolves sound _ => ?_
    exact .pure sound (contract.mono evolves fine)
  | dict handle =>
    refine Keeps.bind (.ask meets index_node inside sound) fun value second evolves sound _ => ?_
    have held := contract.mono evolves held
    refine (requireKey_keeps sound value).bind ?_
    rintro key _ _ _ rfl
    refine Keeps.bind (.ask meets node inside sound) fun value third evolves sound fine => ?_
    have held := contract.mono evolves held
    refine Keeps.bind (.update sound inside (.setEntry key held fine)) fun _ _ evolves sound _ => ?_
    exact .pure sound (contract.mono evolves fine)
  | _ => exact .fail sound _

theorem negate_keeps {operand : Expr} (node : contract.node operand) :
    contract.Keeps scope evaluate contract.good (fun evaluate => negate evaluate scope operand) store := by
  refine Keeps.bind (.ask meets node inside sound) fun value after _ sound _ => ?_
  cases value with
  | bool => exact .pure sound (contract.atom trivial)
  | _ => exact .fail sound _

theorem conditional_keeps {condition yes no : Expr} (test : contract.node condition) (yes_node : contract.node yes)
    (no_node : contract.node no) :
    contract.Keeps scope evaluate contract.good (fun evaluate => conditional evaluate scope condition yes no)
      store := by
  refine Keeps.bind (.ask meets test inside sound) fun value after _ sound _ => ?_
  cases value with
  | bool truth =>
    cases truth with
    | true => exact .ask meets yes_node inside sound
    | false => exact .ask meets no_node inside sound
  | _ => exact .fail sound _

theorem join_keeps {render : Value → Eval String} (quiet : Quiet render) (joint : Joint) {left right : Expr}
    (left_node : contract.node left) (right_node : contract.node right) :
    contract.Keeps scope evaluate contract.good (fun evaluate => join evaluate render scope joint left right)
      store := by
  refine Keeps.bind (.ask meets left_node inside sound) fun a first _ sound _ => ?_
  refine Keeps.bind (.ask meets right_node inside sound) fun b second _ sound _ => ?_
  exact combine_keeps sound inside quiet joint a b

omit inside meets in
/-- The items of a course are good in every store that may become of the one it started in. -/
theorem course_keeps {source : Value} (held : contract.good store source) :
    contract.Keeps scope evaluate (fun after course => after = store ∧ ∀ later, contract.evolves scope store later →
      contract.sound later → ∀ index, contract.good later (course.item later index))
      (fun _ => course source) store := by
  cases source with
  | list handle =>
    refine (Keeps.read sound (·.items handle)).bind ?_
    rintro items _ _ _ ⟨rfl, rfl⟩
    refine .pure sound ⟨rfl, fun later evolves sound index => ?_⟩
    have held := contract.mono evolves held
    exact getD_good (fun _ member => contract.items sound held member) index
  | dict handle =>
    refine (Keeps.read sound (·.entries handle)).bind ?_
    rintro entries after _ _ ⟨rfl, rfl⟩
    refine .pure sound ⟨rfl, fun later _ _ index => ?_⟩
    have keys : ∀ value ∈ (after.entries handle).map (·.1.toValue), contract.good later value := by
      intro value member
      obtain ⟨entry, _, rfl⟩ := List.mem_map.mp member
      apply contract.atom
      cases entry.1 <;> trivial
    simpa using getD_good keys index
  | range first last => exact .pure sound ⟨rfl, fun _ _ _ _ => contract.atom trivial⟩
  | _ => exact .fail sound _

theorem turns_keeps (text : String) {body : Expr} (node : contract.node body) {through : Course}
    (items : ∀ later, contract.evolves scope store later → contract.sound later →
      ∀ index, contract.good later (through.item later index)) (left : Nat) {last : Value}
    (fine : contract.good store last) :
    contract.Keeps scope evaluate contract.good (fun evaluate => turns evaluate scope text body through left last)
      store := by
  -- the course was fixed in an older store, so what is known of its items has to survive every turn
  induction left generalizing store last with
  | zero => exact .pure sound fine
  | succ left ih =>
    refine (Keeps.read sound (through.item · (through.count - (left + 1)))).bind ?_
    rintro item after _ _ ⟨rfl, rfl⟩
    have item_fine := items after (contract.refl scope after) sound (through.count - (left + 1))
    refine Keeps.bind (.update sound inside (.bind text item_fine)) fun _ second evolves sound _ => ?_
    refine Keeps.bind (.ask meets node inside sound) fun value third evolves' sound fine => ?_
    have since := contract.trans evolves evolves'
    exact ih sound (fun later evolves => items later (contract.trans since evolves)) fine

theorem loop_keeps (text : String) {source body : Expr} (source_node : contract.node source)
    (node : contract.node body) :
    contract.Keeps scope evaluate contract.good (fun evaluate => loop evaluate scope text source body) store := by
  refine Keeps.bind (.ask meets source_node inside sound) fun value first _ sound held => ?_
  refine (course_keeps sound held).bind ?_
  rintro through second _ _ ⟨rfl, items⟩
  exact turns_keeps sound inside meets text node items through.count (contract.atom trivial)

/-- A function's body is evaluated in its own new scope. -/
theorem enter_keeps {body : Expr} (node : contract.node body) {bindings : Bindings}
    (fine : ∀ binding ∈ bindings, contract.good store binding.2) :
    contract.Keeps scope evaluate contract.good
      (fun evaluate => Eval.create (·.addCall scope bindings) >>= fun inner => evaluate body inner) store := by
  obtain ⟨inside, sound, outward⟩ := contract.call sound inside fine
  obtain ⟨evolves, sound', result, confined⟩ := Keeps.ask meets node inside sound
  exact ⟨outward _ evolves, sound', result, confined⟩

theorem call_keeps (text : String) {arguments : List Expr} (nodes : ∀ expr ∈ arguments, contract.node expr) :
    contract.Keeps scope evaluate contract.good (fun evaluate => Rule.call evaluate scope text arguments) store := by
  refine (name_keeps sound inside text).bind fun value first _ sound held => ?_
  cases value with
  | function called parameters body =>
    by_cases arity : parameters.length ≠ arguments.length
    · simp only [if_pos arity]
      exact .fail sound _
    · simp only [if_neg arity]
      refine (evalAll_keeps sound inside meets nodes).bind fun values second _ sound fine => ?_
      refine enter_keeps sound inside meets (contract.callable held) fun binding member => ?_
      obtain ⟨given, known, same⟩ := Bindings.mem_ofPairs member
      rw [same]
      exact fine given.2 (List.of_mem_zip known).2
  | _ => exact .fail sound _

theorem print_keeps {render : Value → Eval String} (quiet : Quiet render) {expr : Expr} (node : contract.node expr)
    (newline : Bool) :
    contract.Keeps scope evaluate contract.good (fun evaluate => print evaluate render scope expr newline) store := by
  have shown : contract.Keeps scope evaluate (fun _ _ => True) (fun evaluate => printed evaluate render scope expr)
      store := by
    unfold printed
    split
    · exact .pure sound trivial
    · exact Keeps.bind (.ask meets node inside sound) fun value after _ sound _ => render_keeps sound quiet value
  refine shown.bind fun text after _ sound _ => ?_
  exact Keeps.bind (.update sound inside (.write _)) fun _ _ _ sound _ => .pure sound (contract.atom trivial)

/-- The rule of every node keeps a contract if evaluation of its parts does. -/
theorem apply_keeps {render : Value → Eval String} (quiet : Quiet render) {expr : Expr} (node : contract.node expr) :
    contract.Keeps scope evaluate contract.good (fun evaluate => apply evaluate render scope expr) store := by
  have parts (part : Expr) (below : part ∈ expr.children) : contract.node part := contract.part node below
  cases expr with
  | none mark => exact .pure sound (contract.atom trivial)
  | literal mark kind lexeme => exact literal_keeps sound kind lexeme
  | name mark text => exact name_keeps sound inside text
  | assign mark text expr => exact assign_keeps sound inside meets text (parts expr (by simp [Expr.children]))
  | list mark elements => exact list_keeps sound inside meets parts
  | dict mark pairs =>
    refine dict_keeps sound inside meets fun pair member => ⟨parts pair.1 ?_, parts pair.2 ?_⟩
    · exact List.mem_flatMap.mpr ⟨pair, member, by simp⟩
    · exact List.mem_flatMap.mpr ⟨pair, member, by simp⟩
  | subscript mark target index =>
    exact subscript_keeps sound inside meets (parts target (by simp [Expr.children]))
      (parts index (by simp [Expr.children]))
  | store mark target index expr =>
    exact store_keeps sound inside meets (parts target (by simp [Expr.children]))
      (parts index (by simp [Expr.children])) (parts expr (by simp [Expr.children]))
  | join mark joint left right =>
    exact join_keeps sound inside meets quiet joint (parts left (by simp [Expr.children]))
      (parts right (by simp [Expr.children]))
  | negate mark operand => exact negate_keeps sound inside meets (parts operand (by simp [Expr.children]))
  | block mark body => exact evalBlock_keeps sound inside meets parts (contract.atom trivial)
  | conditional mark condition yes no =>
    exact conditional_keeps sound inside meets (parts condition (by simp [Expr.children]))
      (parts yes (by simp [Expr.children])) (parts no (by simp [Expr.children]))
  | loop mark item source body =>
    exact loop_keeps sound inside meets item (parts source (by simp [Expr.children]))
      (parts body (by simp [Expr.children]))
  | function mark text parameters body => exact function_keeps sound inside node
  | call mark text arguments => exact call_keeps sound inside meets text parts
  | print mark expr newline =>
    exact print_keeps sound inside meets quiet (parts expr (by simp [Expr.children])) newline
  | unknown mark kind => exact .fail sound _

end

theorem showWithin_quiet (depth : Nat) : Quiet (showWithin depth) := by
  intro value store
  unfold showWithin
  split <;> rfl

/-- Evaluation to any depth keeps a contract: every rule does, if evaluation to a smaller depth does. -/
theorem evalWithin_meets (depth : Nat) : contract.Meets (evalWithin depth) := by
  induction depth with
  | zero => exact fun _ scope store admitted => ⟨contract.refl scope store, admitted.2.2, fun _ same => nomatch same⟩
  | succ depth ih =>
    rintro expr scope store ⟨node, inside, sound⟩
    have kept := (apply_keeps sound inside ih (showWithin_quiet depth) node).locate expr.mark
    exact ⟨kept.evolves, kept.sound, kept.result⟩

/-- All nodes that are being evaluated when an admitted evaluation stops are admitted. -/
theorem node_of_stops {depth : Nat} {request : Request} {chain : List Expr} {halt : Halt}
    (admitted : contract.Admits request) (stops : Stops depth request chain halt) :
    ∀ node ∈ chain, contract.node node := by
  induction stops with
  | own _ _ =>
    intro node member
    rw [List.mem_singleton.mp member]
    exact admitted.1
  | @around depth request part chain halt asks inner ih =>
    obtain ⟨node, inside, sound⟩ := admitted
    -- the rule keeps the contract, so what it asked for is admitted too
    have kept := apply_keeps sound inside (contract.evalWithin_meets depth) (showWithin_quiet depth) node
    have inner_nodes := ih (kept.admits asks)
    intro other member
    obtain earlier | last := List.mem_append.mp member
    · exact inner_nodes other earlier
    · rw [List.mem_singleton.mp last]
      exact node

end Contract

end Corvid
