import Corvid.Eval
import Corvid.Proofs.Eval.Literal
import Corvid.Proofs.Eval.Operators

/-!
Well-formedness of the store is an invariant of evaluation. Each rule keeps it, whether it gives a value or stops
in the middle, and gives only values that the store it leaves can hold; so evaluation does, to any depth.
-/
namespace Corvid

/-- An evaluation that keeps a store well formed and promises something of its result and the store it leaves. -/
def Safe {α : Type} (promised : Store → α → Prop) (evaluation : Eval α) (store : Store) : Prop :=
  store.Keeps (evaluation store).2 ∧
    ∀ result, (evaluation store).1 = .ok result → promised (evaluation store).2 result

namespace Safe

variable {α β : Type} {promised : Store → α → Prop} {promised' : Store → β → Prop} {store : Store}

theorem pure (formed : store.WellFormed) {result : α} (fine : promised store result) :
    Safe promised (Pure.pure result) store :=
  ⟨⟨formed, .refl store⟩, fun _ same => by cases same; exact fine⟩

theorem stop (formed : store.WellFormed) (halt : Halt) : Safe promised (Eval.stop halt) store :=
  ⟨⟨formed, .refl store⟩, fun _ same => nomatch same⟩

theorem fail (formed : store.WellFormed) (fault : Fault) : Safe promised (Eval.fail fault) store :=
  stop formed _

theorem bind {first : Eval α} {next : α → Eval β} (safe : Safe promised first store)
    (rest : ∀ result after, after.WellFormed → store.Grows after → promised after result →
      Safe promised' (next result) after) : Safe promised' (first >>= next) store := by
  obtain ⟨⟨formed, grows⟩, keeps⟩ := safe
  change Safe promised' (Eval.bind first next) store
  rw [Safe, Eval.bind]
  cases outcome : first store with
  | mk result after =>
    rw [outcome] at formed grows keeps
    cases result with
    | ok result =>
      obtain ⟨⟨formed', grows'⟩, keeps'⟩ := rest result after formed grows (keeps result rfl)
      exact ⟨⟨formed', grows.trans grows'⟩, keeps'⟩
    | error halt => exact ⟨⟨formed, grows⟩, fun _ same => nomatch same⟩

theorem read (formed : store.WellFormed) {view : Store → α} (fine : promised store (view store)) :
    Safe promised (Eval.read view) store :=
  ⟨⟨formed, .refl store⟩, fun _ same => by cases same; exact fine⟩

theorem update {change : Store → Store} (keeps : store.Keeps (change store)) :
    Safe (fun _ _ => True) (Eval.change change) store :=
  ⟨keeps, fun _ _ => trivial⟩

theorem create {make : Store → Nat × Store} {promised : Store → Nat → Prop} (keeps : store.Keeps (make store).2)
    (fine : promised (make store).2 (make store).1) : Safe promised (Eval.create make) store :=
  ⟨keeps, fun _ same => by cases same; exact fine⟩

theorem drawTag (formed : store.WellFormed) : Safe (fun _ _ => True) Eval.drawTag store :=
  ⟨Store.keeps_of_same formed rfl rfl, fun _ _ => trivial⟩

theorem ofExcept (formed : store.WellFormed) {result : Except Fault α}
    (fine : ∀ value, result = .ok value → promised store value) : Safe promised (Eval.ofExcept result) store := by
  cases result with
  | ok value => exact pure formed (fine value rfl)
  | error fault => exact fail formed fault

theorem locate {inner : Eval α} (mark : Mark) (safe : Safe promised inner store) :
    Safe promised (Eval.locate mark inner) store := by
  rw [Safe] at safe ⊢
  rw [Eval.locate]
  split
  · next cause place after outcome =>
    rw [outcome] at safe
    exact ⟨safe.1, fun _ same => nomatch same⟩
  · exact safe

end Safe

/-- The promise about a value. -/
abbrev Fine (store : Store) (value : Value) : Prop := value.WellFormed store

namespace Rule

/-- An evaluator that keeps every store well formed, in every scope there is. -/
def SafeEvaluator (evaluate : Evaluator) : Prop :=
  ∀ (expr : Expr) (scope : Nat) (store : Store), store.WellFormed → scope < store.scopes.size →
    Safe Fine (evaluate expr scope) store

theorem requireKey_safe {store : Store} (formed : store.WellFormed) {value : Value} (fine : Fine store value) :
    Safe (fun after key => Fine after key.toValue) (requireKey value) store := by
  cases value with
  | text | int | float | bool => exact .pure formed fine
  | _ => exact .fail formed _

theorem requireIndex_safe {store : Store} (formed : store.WellFormed) (value : Value) :
    Safe (fun _ _ => True) (requireIndex value) store := by
  cases value with
  | int => exact .pure formed trivial
  | _ => exact .fail formed _

theorem inBounds_safe {store : Store} (formed : store.WellFormed) (index : Int) (length : Nat) :
    Safe (fun _ _ => True) (inBounds index length) store := by
  unfold inBounds
  split
  · exact .pure formed trivial
  · exact .fail formed _

theorem items_safe {store : Store} (formed : store.WellFormed) (handle : Nat) :
    Safe (fun after items => ∀ item ∈ items, Fine after item) (Eval.read (·.items handle)) store :=
  .read formed fun _ member => Store.items_wellFormed formed member

theorem entries_safe {store : Store} (formed : store.WellFormed) (handle : Nat) :
    Safe (fun after entries => ∀ entry ∈ entries, Fine after entry.1.toValue ∧ Fine after entry.2)
      (Eval.read (·.entries handle)) store :=
  .read formed fun _ member => Store.entries_wellFormed formed member

theorem name_safe {store : Store} (formed : store.WellFormed) (scope : Nat) (text : String) :
    Safe Fine (name scope text) store := by
  have search : Safe (fun after found => ∀ value, found = some value → Fine after value)
      (Eval.read (·.lookup scope text)) store := .read formed fun _ found => Store.lookup_wellFormed formed found
  refine search.bind fun found after formed _ fine => ?_
  cases found with
  | some value => exact .pure formed (fine value rfl)
  | none => exact .fail formed _

theorem literal_safe {store : Store} (formed : store.WellFormed) (kind : LiteralKind) (lexeme : String) :
    Safe Fine (literal kind lexeme) store := by
  have outcome := literalValue_outcome kind lexeme
  unfold literal
  generalize literalValue kind lexeme = result at outcome
  cases outcome with
  | text | bool => exact .pure formed trivial
  | int fits => exact .pure formed (Integer.fits_iff.mp fits)
  | float decimal => exact .pure formed decimal.literal_isSingle
  | tooLong | malformed => exact .stop formed _

theorem function_safe {store : Store} (formed : store.WellFormed) (scope : Nat) (text : String)
    (parameters : List String) (body : Expr) : Safe Fine (function scope text parameters body) store := by
  have fine : Fine store (.function text parameters body) := trivial
  exact (Safe.update (Store.bind_keeps formed scope text fine)).bind fun _ _ formed _ _ => .pure formed trivial

/-! Loops -/

theorem rangeItem_bounds {first last : Int} {index : Nat} (inRange : index < rangeSize first last) :
    min first last ≤ rangeItem first last index ∧ rangeItem first last index ≤ max first last := by
  rw [rangeSize] at inRange
  rw [rangeItem, rangeStep]
  split <;> omega

/-- A course whose items can be held by every store that has grown from the one it started in. -/
def Course.Fine (store : Store) (course : Course) : Prop :=
  ∀ after : Store, after.WellFormed → store.Grows after → ∀ index < course.count,
    (course.item after index).WellFormed after

theorem getD_fine {store : Store} {values : List Value} (fine : ∀ value ∈ values, Fine store value) (index : Nat) :
    Fine store (values.getD index .none) := by
  rw [List.getD_eq_getElem?_getD]
  cases found : values[index]? with
  | none => trivial
  | some value => exact fine value (List.mem_of_getElem? found)

theorem course_safe {store : Store} (formed : store.WellFormed) {source : Value} (fine : Fine store source) :
    Safe Course.Fine (course source) store := by
  cases source with
  | list handle =>
    refine (items_safe formed handle).bind fun items after formed _ _ =>
      .pure formed fun later formed _ index _ => ?_
    exact getD_fine (fun _ member => Store.items_wellFormed formed member) index
  | dict handle =>
    refine (entries_safe formed handle).bind fun entries after formed _ fine =>
      .pure formed fun later _ grows index _ => ?_
    have keys : ∀ value ∈ entries.map (·.1.toValue), Fine later value := by
      intro value member
      obtain ⟨entry, known, rfl⟩ := List.mem_map.mp member
      exact (fine entry known).1.mono grows
    simpa using getD_fine keys index
  | range first last =>
    refine .pure formed fun later _ _ index inRange => ?_
    have bounds := rangeItem_bounds inRange
    change _ ∧ _ at fine
    change Integer.least ≤ rangeItem first last index ∧ rangeItem first last index ≤ Integer.greatest
    omega
  | _ => exact .fail formed _

/-- A writer that keeps every store well formed. -/
def SafeWriter (render : Value → Eval String) : Prop :=
  ∀ (value : Value) (store : Store), store.WellFormed → Safe (fun _ _ => True) (render value) store

theorem combine_safe {render : Value → Eval String} (writes : SafeWriter render) {store : Store}
    (formed : store.WellFormed) (joint : Joint) {left right : Value} (fine : Fine store left)
    (fine' : Fine store right) : Safe Fine (combine render joint left right) store := by
  cases joint with
  | arithmetic op =>
    refine (Safe.drawTag formed).bind fun fresh after formed grows _ => ?_
    exact .ofExcept formed fun _ => arithmetic_fine (fine.mono grows) (fine'.mono grows)
  | logical op => exact .ofExcept formed fun _ => logical_fine
  | equality comparator => exact .ofExcept formed fun _ => equality_fine
  | comparison comparator => exact .ofExcept formed fun _ => comparison_fine
  | concat =>
    refine (writes left store formed).bind fun _ after formed _ _ => ?_
    exact (writes right after formed).bind fun _ _ formed _ _ => .pure formed trivial
  | range => exact .ofExcept formed fun _ => rangeBetween_fine fine fine'

section

variable {evaluate : Evaluator} (safe : SafeEvaluator evaluate) {render : Value → Eval String}
  (writes : SafeWriter render) {scope : Nat} {store : Store} (formed : store.WellFormed)
  (inside : scope < store.scopes.size)

include safe formed inside

theorem evalAll_safe (exprs : List Expr) :
    Safe (fun after values => ∀ value ∈ values, Fine after value) (evalAll evaluate scope exprs) store := by
  induction exprs generalizing store with
  | nil => exact .pure formed (fun _ member => nomatch member)
  | cons expr rest ih =>
    refine (safe expr scope store formed inside).bind fun value after formed grows fine => ?_
    have inside := grows.inside inside
    refine (ih formed inside).bind fun values last formed grows fines => .pure formed fun item member => ?_
    obtain rfl | member := List.mem_cons.mp member
    · exact fine.mono grows
    · exact fines item member

theorem evalBlock_safe (exprs : List Expr) {last : Value} (fine : Fine store last) :
    Safe Fine (evalBlock evaluate scope exprs last) store := by
  induction exprs generalizing store last with
  | nil => exact .pure formed fine
  | cons expr rest ih =>
    refine (safe expr scope store formed inside).bind fun value after formed grows fine => ?_
    exact ih formed (grows.inside inside) fine

theorem evalPairs_safe (pairs : List (Expr × Expr)) {entries : Entries}
    (fine : Container.WellFormed store (.dict entries)) :
    Safe (fun after entries => Container.WellFormed after (.dict entries)) (evalPairs evaluate scope pairs entries)
      store := by
  induction pairs generalizing store entries with
  | nil => exact .pure formed fine
  | cons pair rest ih =>
    obtain ⟨keyExpr, valueExpr⟩ := pair
    refine (safe keyExpr scope store formed inside).bind fun value first formed grows known => ?_
    refine (requireKey_safe formed known).bind fun key second formed grows' key_fine => ?_
    have grows := grows.trans grows'
    have inside := grows.inside inside
    refine (safe valueExpr scope second formed inside).bind fun value third formed grows' value_fine => ?_
    have entries_fine := fine.mono (grows.trans grows')
    exact ih formed (grows'.inside inside)
      (Entries.set_wellFormed entries_fine (key_fine.mono grows') value_fine)

theorem list_safe (elements : List Expr) : Safe Fine (list evaluate scope elements) store := by
  refine (evalAll_safe safe formed inside elements).bind fun items after formed _ fine => ?_
  have allocated : Safe Store.IsList (Eval.create (·.allocate (.list items))) after :=
    .create (Store.allocate_keeps formed fine) ⟨items, Store.allocate_handle after _⟩
  exact allocated.bind fun _ _ formed _ stored => .pure formed stored

theorem dict_safe (pairs : List (Expr × Expr)) : Safe Fine (dict evaluate scope pairs) store := by
  have empty : Container.WellFormed store (.dict []) := ⟨.nil, fun _ member => nomatch member⟩
  refine (evalPairs_safe safe formed inside pairs empty).bind fun entries after formed _ fine => ?_
  have allocated : Safe Store.IsDict (Eval.create (·.allocate (.dict entries))) after :=
    .create (Store.allocate_keeps formed fine) ⟨entries, Store.allocate_handle after _⟩
  exact allocated.bind fun _ _ formed _ stored => .pure formed stored

theorem assign_safe (text : String) (expr : Expr) : Safe Fine (assign evaluate scope text expr) store := by
  refine (safe expr scope store formed inside).bind fun value after formed _ fine => ?_
  exact (Safe.update (Store.bind_keeps formed scope text fine)).bind fun _ _ formed grows _ =>
    .pure formed (fine.mono grows)

theorem subscript_safe (target index : Expr) : Safe Fine (subscript evaluate scope target index) store := by
  refine (safe target scope store formed inside).bind fun container after formed grows _ => ?_
  have inside := grows.inside inside
  cases container with
  | list handle =>
    refine (safe index scope after formed inside).bind fun value _ formed _ _ => ?_
    refine (requireIndex_safe formed value).bind fun offset _ formed _ _ => ?_
    split
    · exact .fail formed _
    · refine (items_safe formed handle).bind fun items _ formed _ fine => ?_
      exact (inBounds_safe formed offset items.length).bind fun position _ formed grows _ =>
        .pure formed ((getD_fine fine position).mono grows)
  | dict handle =>
    refine (safe index scope after formed inside).bind fun value _ formed _ known => ?_
    refine (requireKey_safe formed known).bind fun key _ formed _ _ => ?_
    refine (entries_safe formed handle).bind fun entries last formed _ fine => .pure formed ?_
    cases found : entries.find? key with
    | none => trivial
    | some value =>
      obtain ⟨entry, member, rfl⟩ := Entries.find?_mem found
      exact (fine entry member).2
  | _ => exact .fail formed _

theorem store_safe (target index expr : Expr) : Safe Fine (Rule.store evaluate scope target index expr) store := by
  refine (safe target scope store formed inside).bind fun container after formed grows held => ?_
  have inside := grows.inside inside
  cases container with
  | list handle =>
    refine (safe index scope after formed inside).bind fun value first formed grows _ => ?_
    have inside := grows.inside inside
    have held : first.IsList handle := grows.lists handle held
    refine (requireIndex_safe formed value).bind fun offset second formed grows _ => ?_
    have inside := grows.inside inside
    have held := grows.lists handle held
    refine (safe expr scope second formed inside).bind fun value third formed grows fine => ?_
    have held := grows.lists handle held
    refine (items_safe formed handle).bind fun items fourth formed grows _ => ?_
    have held := grows.lists handle held
    have fine := fine.mono grows
    refine (inBounds_safe formed offset items.length).bind fun position fifth formed grows _ => ?_
    have held := grows.lists handle held
    have fine := fine.mono grows
    exact (Safe.update (Store.setItem_keeps formed held position fine)).bind fun _ _ formed grows _ =>
      .pure formed (fine.mono grows)
  | dict handle =>
    refine (safe index scope after formed inside).bind fun value first formed grows known => ?_
    have inside := grows.inside inside
    have held : first.IsDict handle := grows.dicts handle held
    refine (requireKey_safe formed known).bind fun key second formed grows key_fine => ?_
    have inside := grows.inside inside
    have held := grows.dicts handle held
    refine (safe expr scope second formed inside).bind fun value third formed grows fine => ?_
    have held := grows.dicts handle held
    have key_fine := key_fine.mono grows
    exact (Safe.update (Store.setEntry_keeps formed held key_fine fine)).bind fun _ _ formed grows _ =>
      .pure formed (fine.mono grows)
  | _ => exact .fail formed _

include writes in
theorem join_safe (joint : Joint) (left right : Expr) :
    Safe Fine (join evaluate render scope joint left right) store := by
  refine (safe left scope store formed inside).bind fun a after formed grows fine => ?_
  have inside := grows.inside inside
  exact (safe right scope after formed inside).bind fun b last formed grows fine' =>
    combine_safe writes formed joint (fine.mono grows) fine'

theorem negate_safe (operand : Expr) : Safe Fine (negate evaluate scope operand) store := by
  refine (safe operand scope store formed inside).bind fun value after formed _ _ => ?_
  cases value with
  | bool => exact .pure formed trivial
  | _ => exact .fail formed _

theorem conditional_safe (condition yes no : Expr) :
    Safe Fine (conditional evaluate scope condition yes no) store := by
  refine (safe condition scope store formed inside).bind fun value after formed grows _ => ?_
  have inside := grows.inside inside
  cases value with
  | bool truth =>
    cases truth with
    | true => exact safe yes scope after formed inside
    | false => exact safe no scope after formed inside
  | _ => exact .fail formed _

theorem turns_safe (text : String) (body : Expr) {through : Course} (items : through.Fine store) (left : Nat)
    (bound : left ≤ through.count) {last : Value} (fine : Fine store last) :
    Safe Fine (turns evaluate scope text body through left last) store := by
  -- the course was fixed in an older store, so what is known of its items has to survive every turn
  induction left generalizing store last with
  | zero => exact .pure formed fine
  | succ left ih =>
    have item : Safe Fine (Eval.read (through.item · (through.count - (left + 1)))) store :=
      .read formed (items store formed (.refl store) _ (by omega))
    refine item.bind fun item first formed grows fine => ?_
    refine (Safe.update (Store.bind_keeps formed scope text fine)).bind fun _ second formed grows' _ => ?_
    have grows := grows.trans grows'
    have inside := grows.inside inside
    refine (safe body scope second formed inside).bind fun value third formed grows' fine => ?_
    have grows := grows.trans grows'
    have items : through.Fine third := fun after formed later => items after formed (grows.trans later)
    exact ih formed (grows'.inside inside) items (by omega) fine

theorem loop_safe (text : String) (source body : Expr) : Safe Fine (loop evaluate scope text source body) store := by
  refine (safe source scope store formed inside).bind fun value first formed grows fine => ?_
  refine (course_safe formed fine).bind fun through second formed grows' items => ?_
  have inside := (grows.trans grows').inside inside
  have none_fine : Fine second .none := trivial
  exact turns_safe safe formed inside text body items through.count (Nat.le_refl _) none_fine

theorem call_safe (text : String) (arguments : List Expr) :
    Safe Fine (call evaluate scope text arguments) store := by
  refine (name_safe formed scope text).bind fun value first formed grows _ => ?_
  have inside := grows.inside inside
  cases value with
  | function called parameters body =>
    dsimp only
    split
    · exact .fail formed _
    · refine (evalAll_safe safe formed inside arguments).bind fun values second formed grows fine => ?_
      have inside := grows.inside inside
      have bindings_fine : ∀ binding ∈ Bindings.ofPairs (parameters.zip values), binding.2.WellFormed second := by
        intro binding member
        obtain ⟨given, known, same⟩ := Bindings.mem_ofPairs member
        exact same ▸ fine given.2 (List.of_mem_zip known).2
      have entered : Safe (fun after inner => inner < after.scopes.size)
          (Eval.create (·.addCall scope (Bindings.ofPairs (parameters.zip values)))) second :=
        .create (Store.addCall_keeps formed inside bindings_fine) (Store.addCall_scope ..)
      exact entered.bind fun inner third formed _ inside => safe body inner third formed inside
  | _ => exact .fail formed _

include writes in
theorem print_safe (expr : Expr) (newline : Bool) :
    Safe Fine (print evaluate render scope expr newline) store := by
  have shown : Safe (fun _ _ => True) (printed evaluate render scope expr) store := by
    unfold printed
    split
    · exact .pure formed trivial
    · exact (safe expr scope store formed inside).bind fun value after formed _ _ => writes value after formed
  refine shown.bind fun text after formed _ _ => ?_
  exact (Safe.update (Store.write_keeps formed scope _)).bind fun _ _ formed _ _ => .pure formed trivial

include writes in
/-- The rule of every node keeps the store well formed if evaluation of its parts does. -/
theorem apply_safe (expr : Expr) : Safe Fine (apply evaluate render scope expr) store := by
  cases expr with
  | none mark => exact .pure formed trivial
  | literal mark kind lexeme => exact literal_safe formed kind lexeme
  | name mark text => exact name_safe formed scope text
  | assign mark text expr => exact assign_safe safe formed inside text expr
  | list mark elements => exact list_safe safe formed inside elements
  | dict mark pairs => exact dict_safe safe formed inside pairs
  | subscript mark target index => exact subscript_safe safe formed inside target index
  | store mark target index expr => exact store_safe safe formed inside target index expr
  | join mark joint left right => exact join_safe safe writes formed inside joint left right
  | negate mark operand => exact negate_safe safe formed inside operand
  | block mark body => exact evalBlock_safe safe formed inside body trivial
  | conditional mark condition yes no => exact conditional_safe safe formed inside condition yes no
  | loop mark item source body => exact loop_safe safe formed inside item source body
  | function mark text parameters body => exact function_safe formed scope text parameters body
  | call mark text arguments => exact call_safe safe formed inside text arguments
  | print mark expr newline => exact print_safe safe writes formed inside expr newline
  | unknown mark kind => exact .fail formed _

end

end Rule

theorem showWithin_safe (depth : Nat) : Rule.SafeWriter (showWithin depth) := by
  intro value store formed
  rw [Safe, showWithin]
  split
  · exact ⟨⟨formed, .refl store⟩, fun _ _ => trivial⟩
  · exact ⟨⟨formed, .refl store⟩, fun _ same => nomatch same⟩

/-- Evaluation to any depth is safe: every rule is, if evaluation to a smaller depth is. -/
theorem evalWithin_safe (depth : Nat) : Rule.SafeEvaluator (evalWithin depth) := by
  induction depth with
  | zero => exact fun _ _ _ formed _ => .stop formed _
  | succ depth ih =>
    intro expr scope store formed inside
    exact .locate expr.mark (Rule.apply_safe ih (showWithin_safe depth) formed inside expr)

/-- Evaluation to any depth, however it ends, leaves a well-formed store and gives a value that this store can hold.
In the store it leaves, every parent is a scope, no scope is around itself, every way outward ends at the root, and a
name that is not found is bound nowhere on that way. -/
theorem evalWithin_wellFormed (depth : Nat) (expr : Expr) {scope : Nat} {store : Store} (formed : store.WellFormed)
    (inside : scope < store.scopes.size) :
    let outcome := (evalWithin depth expr scope store).1
    let after := (evalWithin depth expr scope store).2
    after.WellFormed ∧ (∀ value, outcome = .ok value → value.WellFormed after) ∧
      (∀ inner outer, after.Parent inner outer → outer < after.scopes.size) ∧
      (∀ inner, ¬Relation.TransGen after.Parent inner inner) ∧
      (∀ inner, Relation.ReflTransGen after.Parent inner (after.root inner) ∧
        ∀ outer, ¬after.Parent (after.root inner) outer) ∧
      ∀ inner name, after.lookup inner name = none → ∀ outer, Relation.ReflTransGen after.Parent inner outer →
        (after.bindingsOf outer).find? name = none := by
  obtain ⟨⟨formed', _⟩, fine⟩ := evalWithin_safe depth expr scope store formed inside
  exact ⟨formed', fine, fun _ _ => formed'.parent_exists, formed'.acyclic, formed'.root_spec,
    fun _ _ missing _ => formed'.lookup_eq_none missing⟩

/-- A sum that is too large is stored in a list. -/
theorem evalWithin_wellFormed_overflow :
    let start := ((Store.empty.allocate (.list [.int 1])).2.addRoot [("xs", .list 0)] Store.standardSink .dynamic).2
    let sum := Expr.join .absent (.arithmetic .add) (.literal .absent .int "2147483647") (.literal .absent .int "1")
    let expr := Expr.store .absent (.name .absent "xs") (.literal .absent .int "0") sum
    let after := (evalWithin 4 expr 0 start).2
    (start.WellFormed ∧ 0 < start.scopes.size) ∧ after.WellFormed ∧
      (Value.int (-2147483648)).WellFormed after := by
  intro start sum expr after
  have items : Container.WellFormed Store.empty (.list [.int 1]) :=
    List.forall_mem_singleton.mpr (by constructor <;> decide)
  have allocated := (Store.allocate_keeps Store.empty_wellFormed items).1
  have bound : ∀ binding ∈ [("xs", Value.list 0)], binding.2.WellFormed _ :=
    List.forall_mem_singleton.mpr ⟨_, Store.allocate_handle Store.empty (.list [.int 1])⟩
  have formed : start.WellFormed := (Store.addRoot_keeps allocated bound _ _).1
  have inside : 0 < start.scopes.size := by decide
  have kept := evalWithin_wellFormed 4 expr formed inside
  have outcome : (evalWithin 4 expr 0 start).1 = .ok (.int (-2147483648)) := by
    have keyed : (evalWithin 4 expr 0 start).1.toOption.bind Key.ofValue? = some (.int (-2147483648)) := by
      subst expr start sum
      decide +kernel
    cases found : (evalWithin 4 expr 0 start).1 with
    | error halt =>
      rw [found] at keyed
      cases keyed
    | ok value =>
      rw [found] at keyed
      cases value <;> cases keyed
      rfl
  exact ⟨⟨formed, inside⟩, kept.1, kept.2.1 _ outcome⟩

end Corvid
