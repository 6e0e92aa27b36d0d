import Corvid.Proofs.Eval.CallFree
import Mathlib.Data.Fintype.EquivFin
import Mathlib.Order.RelClasses

/-!
Which values can be written out, and as what. A value from which no container is reached that contains itself unfolds
into a finite tree, in which a container that is shared stands wherever it is held; its text is the text of that tree,
if the tree is no higher than the depth allows. Any other value is written out to no depth, and whatever tries to
write it stops without having written anything.
-/
namespace Corvid

/-- What a value is when all that its containers hold is written in their place. -/
inductive Unfolding where
  | atom (value : Value)
  | list (members : List Unfolding)
  | dict (keys : List Key) (members : List Unfolding)

namespace Unfolding

/-- The text of an entry of a dictionary. -/
def entryText (key : Key) (member : String) : String := key.toValue.memberText?.getD "" ++ ": " ++ member

mutual

/-- The text inside a container. -/
def text : Unfolding → String
  | atom value => value.memberText?.getD ""
  | list members => enclosed "[" "]" (textAll members)
  | dict keys members => enclosed "\x7b" "\x7d" (List.zipWith entryText keys (textAll members))

def textAll : List Unfolding → List String
  | [] => []
  | tree :: trees => tree.text :: textAll trees

end

/-- The text of a whole value: a string by itself stands in no quotes. -/
def shown : Unfolding → String
  | atom (.text content) => content
  | tree => tree.text

mutual

/-- How deep containers are nested. -/
def height : Unfolding → Nat
  | atom _ => 0
  | list members => heightAll members + 1
  | dict _ members => heightAll members + 1

def heightAll : List Unfolding → Nat
  | [] => 0
  | tree :: trees => max tree.height (heightAll trees)

end

end Unfolding

/-- The handle of a list or a dictionary. -/
def Value.handle : Value → Nat
  | .list handle | .dict handle => handle
  | _ => 0

/-- The value that a container has by its handle. -/
def Container.valueAt (handle : Nat) : Container → Value
  | .list _ => .list handle
  | .dict _ => .dict handle

namespace Store

mutual

/-- What the values of a store unfold into. -/
inductive Unfolds (store : Store) : Value → Unfolding → Prop where
  | atom {value : Value} (plain : value.memberText?.isSome) : Unfolds store value (.atom value)
  | list {handle : Nat} {trees : List Unfolding} (members : UnfoldsAll store (store.items handle) trees) :
      Unfolds store (.list handle) (.list trees)
  | dict {handle : Nat} {trees : List Unfolding}
      (members : UnfoldsAll store ((store.entries handle).map Prod.snd) trees) :
      Unfolds store (.dict handle) (.dict ((store.entries handle).map Prod.fst) trees)

inductive UnfoldsAll (store : Store) : List Value → List Unfolding → Prop where
  | nil : UnfoldsAll store [] []
  | cons {value : Value} {tree : Unfolding} {values : List Value} {trees : List Unfolding}
      (first : Unfolds store value tree) (others : UnfoldsAll store values trees) :
      UnfoldsAll store (value :: values) (tree :: trees)

end

variable {store : Store}

/-! Unfolding and text -/

mutual

theorem Unfolds.unique {value : Value} {tree other : Unfolding} :
    store.Unfolds value tree → store.Unfolds value other → tree = other
  | .atom _, .atom _ => rfl
  | .atom plain, .list _ | .atom plain, .dict _ | .list _, .atom plain | .dict _, .atom plain => by contradiction
  | .list members, .list members' => by rw [members.unique members']
  | .dict members, .dict members' => by rw [members.unique members']

theorem UnfoldsAll.unique {values : List Value} {trees others : List Unfolding} :
    store.UnfoldsAll values trees → store.UnfoldsAll values others → trees = others
  | .nil, .nil => rfl
  | .cons first rest, .cons first' rest' => by rw [first.unique first', rest.unique rest']

end

/-- The texts of entries are those of their values with the keys before them. -/
theorem mapM_entries (entries : Entries) (text? : Value → Option String) :
    (entries.mapM fun entry => do
      let key ← entry.1.toValue.memberText?
      let member ← text? entry.2
      return key ++ ": " ++ member) =
    ((entries.map Prod.snd).mapM text?).map (List.zipWith Unfolding.entryText (entries.map Prod.fst)) := by
  induction entries with
  | nil => rfl
  | cons entry entries ih =>
    obtain ⟨shown, known⟩ := Option.isSome_iff_exists.mp (isSome_keyText entry.1)
    simp only [List.mapM_cons, List.map_cons, ih, known]
    cases text? entry.2 with
    | none => rfl
    | some member => cases (entries.map Prod.snd).mapM text? <;> simp [Unfolding.entryText, known]

mutual

/-- Inside a container a value has the text of what it unfolds into, to any depth that is at least the height. -/
theorem Unfolds.memberText?_eq {value : Value} {tree : Unfolding} : store.Unfolds value tree → ∀ depth,
    store.memberText? depth value = if tree.height ≤ depth then some tree.text else none
  | .atom plain, depth => by
    obtain ⟨text, known⟩ := Option.isSome_iff_exists.mp plain
    have written : store.memberText? depth value = value.memberText? := by
      cases depth with
      | zero => rfl
      | succ depth => cases value <;> first | rfl | contradiction
    rw [written, Unfolding.height, if_pos (Nat.zero_le depth), Unfolding.text, known]
    rfl
  | .list members, 0 | .dict members, 0 => rfl
  | .list members, depth + 1 => by
    rw [memberText?, members.mapM_eq depth, Unfolding.height, Unfolding.text]
    simp only [Nat.add_le_add_iff_right]
    split <;> rfl
  | .dict members, depth + 1 => by
    rw [memberText?, mapM_entries, members.mapM_eq depth, Unfolding.height, Unfolding.text]
    simp only [Nat.add_le_add_iff_right]
    split <;> rfl

theorem UnfoldsAll.mapM_eq {values : List Value} {trees : List Unfolding} : store.UnfoldsAll values trees → ∀ depth,
    values.mapM (store.memberText? depth) =
      if Unfolding.heightAll trees ≤ depth then some (Unfolding.textAll trees) else none
  | .nil, depth => rfl
  | .cons first others, depth => by
    rw [List.mapM_cons, first.memberText?_eq depth, others.mapM_eq depth]
    simp only [Unfolding.heightAll, Unfolding.textAll, Nat.max_le]
    split <;> split <;> simp_all

end

theorem Unfolds.text?_eq {value : Value} {tree : Unfolding} (unfolds : store.Unfolds value tree) (depth : Nat) :
    store.text? depth value = if tree.height ≤ depth then some tree.shown else none := by
  cases unfolds with
  | atom plain =>
    cases value with
    | text content => simp [text?, Unfolding.height, Unfolding.shown]
    | _ => exact (Unfolds.atom plain).memberText?_eq depth
  | list members => exact (Unfolds.list members).memberText?_eq depth
  | dict members => exact (Unfolds.dict members).memberText?_eq depth

/-! Values that do not contain themselves -/

theorem exists_unfoldsAll {values : List Value} (each : ∀ value ∈ values, ∃ tree, store.Unfolds value tree) :
    ∃ trees, store.UnfoldsAll values trees := by
  induction values with
  | nil => exact ⟨[], .nil⟩
  | cons value values ih =>
    obtain ⟨first, others⟩ := List.forall_mem_cons.mp each
    obtain ⟨tree, unfolds⟩ := first
    obtain ⟨trees, unfolds'⟩ := ih others
    exact ⟨tree :: trees, .cons unfolds unfolds'⟩

/-- A value unfolds if all that it holds does. -/
theorem exists_unfolds_of_members {value : Value}
    (members : ∀ member, store.Holds value member → ∃ tree, store.Unfolds member tree) :
    ∃ tree, store.Unfolds value tree := by
  cases value with
  | list handle =>
    obtain ⟨trees, unfolds⟩ := exists_unfoldsAll fun member among => members member (.item among)
    exact ⟨.list trees, .list unfolds⟩
  | dict handle =>
    have each : ∀ member ∈ (store.entries handle).map Prod.snd, ∃ tree, store.Unfolds member tree := by
      intro member among
      obtain ⟨entry, here, rfl⟩ := List.mem_map.mp among
      exact members entry.2 (.entry here)
    obtain ⟨trees, unfolds⟩ := exists_unfoldsAll each
    exact ⟨.dict _ trees, .dict unfolds⟩
  | _ => exact ⟨.atom _, .atom rfl⟩

/-- The values that hold something. -/
def Holder (store : Store) : Type := {value : Value // ∃ member, store.Holds value member}

/-- A value that holds something is the value of a container that is there. -/
theorem Holds.exists_container {value member : Value} (holds : store.Holds value member) :
    ∃ container, store.containers[value.handle]? = some container ∧ value = container.valueAt value.handle := by
  cases holds with
  | item among =>
    rw [Store.items] at among
    split at among
    · next items known => exact ⟨.list items, known, rfl⟩
    · cases among
  | entry among =>
    rw [Store.entries] at among
    split at among
    · next entries known => exact ⟨.dict entries, known, rfl⟩
    · cases among

/-- A store has only so many containers. -/
theorem finite_holder (store : Store) : Finite store.Holder := by
  have settled (holder : store.Holder) : ∃ container, store.containers[holder.1.handle]? = some container ∧
      holder.1 = container.valueAt holder.1.handle := by
    obtain ⟨member, holds⟩ := holder.2
    exact holds.exists_container
  have inside (holder : store.Holder) : holder.1.handle < store.containers.size := by
    obtain ⟨container, known, _⟩ := settled holder
    exact (Array.getElem?_eq_some_iff.mp known).1
  let place (holder : store.Holder) : Fin store.containers.size := ⟨holder.1.handle, inside holder⟩
  refine Finite.of_injective place fun holder other same => Subtype.ext ?_
  have handle : holder.1.handle = other.1.handle := congrArg Fin.val same
  obtain ⟨container, known, form⟩ := settled holder
  obtain ⟨container', known', form'⟩ := settled other
  rw [handle, known', Option.some_inj] at known
  rw [form, form', handle, known]

/-- A value from which no container is reached that contains itself unfolds: among the finitely many values that
hold something and are reached from it, to hold is well-founded. -/
theorem exists_unfolds {value : Value}
    (acyclic : ∀ container, Relation.ReflTransGen store.Holds value container → ¬store.ContainsItself container) :
    ∃ tree, store.Unfolds value tree := by
  let inner (member holder : store.Holder) : Prop :=
    Relation.ReflTransGen store.Holds value holder.1 ∧ Relation.TransGen store.Holds holder.1 member.1
  have finite := finite_holder store
  have trans : IsTrans store.Holder inner :=
    ⟨fun _ _ _ first second => ⟨second.1, second.2.trans first.2⟩⟩
  have irrefl : Std.Irrefl inner := ⟨fun holder same => acyclic holder.1 same.1 same.2⟩
  have founded : WellFounded inner := Finite.wellFounded_of_trans_of_irrefl inner
  have holders (holder : store.Holder) : Relation.ReflTransGen store.Holds value holder.1 →
      ∃ tree, store.Unfolds holder.1 tree := by
    induction holder using founded.induction with
    | _ holder ih =>
      intro reached
      refine exists_unfolds_of_members fun member holds => ?_
      by_cases further : ∃ inside, store.Holds member inside
      · exact ih ⟨member, further⟩ ⟨reached, .single holds⟩ (reached.tail holds)
      · exact exists_unfolds_of_members fun inside held => absurd ⟨inside, held⟩ further
  by_cases further : ∃ inside, store.Holds value inside
  · exact holders ⟨value, further⟩ .refl
  · exact exists_unfolds_of_members fun inside held => absurd ⟨inside, held⟩ further

/-- A value from which a container is reached that contains itself is nested within no depth. -/
theorem not_nestsWithin_of_reaches {value container : Value}
    (reaches : Relation.ReflTransGen store.Holds value container) (cyclic : store.ContainsItself container)
    (depth : Nat) : ¬store.NestsWithin depth value := by
  intro nests
  obtain rfl | onward := Relation.reflTransGen_iff_eq_or_transGen.mp reaches
  · exact cyclic.not_nestsWithin depth nests
  · obtain ⟨less, _, inner⟩ := nests.of_reaches onward
    exact cyclic.not_nestsWithin less inner

end Store

/-- A node that writes out what has no text stops there. -/
theorem Request.Renders.tooDeep {depth : Nat} {request : Request} {value : Value} {store : Store}
    (renders : request.Renders depth value store) (endless : ∀ depth, store.text? depth value = none) :
    request.answer (evalWithin (depth + 1)) = (.error .tooDeep, store) := by
  have stops : showWithin depth value store = (.error .tooDeep, store) := by rw [showWithin, endless]
  cases renders with
  | @printed mark shown newline scope start _ _ word gives =>
    have printed : Rule.printed (evalWithin depth) (showWithin depth) scope shown start = (.error .tooDeep, store) := by
      rw [Rule.printed_of_ne word, Eval.bind_of_ok gives, stops]
    change Eval.locate mark (Rule.print (evalWithin depth) (showWithin depth) scope shown newline) start = _
    rw [Eval.locate, Rule.print, Eval.bind_of_error printed]
  | @joined mark left right scope start middle _ a b _ gives gives' either =>
    have combined : Rule.combine (showWithin depth) .concat a b store = (.error .tooDeep, store) := by
      rw [Rule.combine]
      obtain rfl | rfl := either
      · rw [Eval.bind_of_error stops]
      · cases known : store.text? depth a with
        | none =>
          have first : showWithin depth a store = (.error .tooDeep, store) := by rw [showWithin, known]
          rw [Eval.bind_of_error first]
        | some text =>
          have first : showWithin depth a store = (.ok text, store) := by rw [showWithin, known]
          rw [Eval.bind_of_ok first, Eval.bind_of_error stops]
    change Eval.locate mark (Rule.join (evalWithin depth) (showWithin depth) scope .concat left right) start = _
    rw [Eval.locate, Rule.join, Eval.bind_of_ok gives, Eval.bind_of_ok gives', combined]

/-- Writing a value out ends as it should. If a container is reached from the value that contains itself, there is
no text to any depth, and a node that prints the value or puts it together with another stops as too deep without
writing anything. Otherwise the value unfolds into one finite tree, and to every depth that is at least the height of
the tree the text is the text of the tree; to a lesser depth there is none. -/
theorem rendering_ends (store : Store) (value : Value) :
    ((∃ container, Relation.ReflTransGen store.Holds value container ∧ store.ContainsItself container) →
      (∀ depth, store.text? depth value = none) ∧
      ∀ (depth : Nat) (request : Request), request.Renders depth value store →
        request.answer (evalWithin (depth + 1)) = (.error .tooDeep, store)) ∧
    ((¬∃ container, Relation.ReflTransGen store.Holds value container ∧ store.ContainsItself container) →
      ∃ tree, store.Unfolds value tree ∧ (∀ other, store.Unfolds value other → other = tree) ∧
        ∀ depth, store.text? depth value = if tree.height ≤ depth then some tree.shown else none) := by
  constructor
  · rintro ⟨container, reaches, cyclic⟩
    have endless (depth : Nat) : store.text? depth value = none := by
      rw [← Option.not_isSome_iff_eq_none, Store.isSome_text?_iff]
      exact Store.not_nestsWithin_of_reaches reaches cyclic depth
    exact ⟨endless, fun depth request renders => renders.tooDeep endless⟩
  · intro acyclic
    obtain ⟨tree, unfolds⟩ := Store.exists_unfolds fun container reaches cyclic => acyclic ⟨container, reaches, cyclic⟩
    exact ⟨tree, unfolds, fun other unfolds' => unfolds'.unique unfolds, unfolds.text?_eq⟩

/-- A list that holds another one twice, once through a dictionary, and a list and a dictionary that hold each other. -/
theorem rendering_ends_shared :
    let store : Store := ⟨#[.list [.list 1, .dict 2], .list [.bool true], .dict [(.text "a", .list 1)],
      .list [.dict 4], .dict [(.bool false, .list 3)]], #[], #[""], 0⟩
    let text := "[ [ true ], \x7b \"a\": [ true ] \x7d ]"
    (∃ tree, store.Unfolds (.list 0) tree ∧ tree.height ≤ 3 ∧ tree.shown = text) ∧
      store.text? 6000 (.list 0) = some text ∧ store.ContainsItself (.list 3) ∧
      (∀ depth, store.text? depth (.list 3) = none) ∧
      evalWithin 7 (.print .absent (.name .absent "a") true) 0
        (store.addRoot [("a", .list 3)] Store.standardSink .dynamic).2 =
        (.error .tooDeep, (store.addRoot [("a", .list 3)] Store.standardSink .dynamic).2) := by
  intro store text
  have shown : store.text? 3 (.list 0) = some text := rfl
  have acyclic : ¬∃ container, Relation.ReflTransGen store.Holds (.list 0) container ∧
      store.ContainsItself container := by
    rintro ⟨container, reaches, cyclic⟩
    refine Store.not_nestsWithin_of_reaches reaches cyclic 3 ?_
    rw [← Store.isSome_text?_iff, shown]
    rfl
  obtain ⟨tree, unfolds, _, text?_eq⟩ := (rendering_ends store (.list 0)).2 acyclic
  have known := (text?_eq 3).symm.trans shown
  have low : tree.height ≤ 3 := by
    by_contra high
    rw [if_neg high] at known
    cases known
  rw [if_pos low, Option.some_inj] at known
  have cyclic (scopes : Array Scope) : Store.ContainsItself { store with scopes } (.list 3) := by
    have onward : Store.Holds { store with scopes } (.list 3) (.dict 4) := .item List.mem_cons_self
    have back : Store.Holds { store with scopes } (.dict 4) (.list 3) := .entry List.mem_cons_self
    exact .tail (.single onward) back
  refine ⟨⟨tree, unfolds, low, known⟩, ?_, cyclic #[], ?_, ?_⟩
  · rw [text?_eq, if_pos (low.trans (by decide)), known]
  · exact ((rendering_ends store (.list 3)).1 ⟨_, .refl, cyclic #[]⟩).1
  · have renders : Request.Renders 6 ⟨.print .absent (.name .absent "a") true, 0,
        (store.addRoot [("a", .list 3)] Store.standardSink .dynamic).2⟩ (.list 3)
        (store.addRoot [("a", .list 3)] Store.standardSink .dynamic).2 :=
      .printed (fun _ => Expr.noConfusion) rfl
    exact ((rendering_ends _ (.list 3)).1 ⟨_, .refl, cyclic _⟩).2 6 _ renders

end Corvid
