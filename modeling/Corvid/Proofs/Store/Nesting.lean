import Corvid.Store.Render
import Mathlib.Logic.Relation

/-!
Which values have a text. A value has one within a depth if its containers are nested no deeper than that. Whatever a
container holds is nested less deeply than the container, so a container that is reached from itself is nested within
no depth at all.
-/
namespace Corvid.Store

/-- A list holds its items, a dictionary the values at its keys. -/
inductive Holds (store : Store) : Value → Value → Prop where
  | item {handle : Nat} {member : Value} (among : member ∈ store.items handle) : Holds store (.list handle) member
  | entry {handle : Nat} {key : Key} {member : Value} (among : (key, member) ∈ store.entries handle) :
      Holds store (.dict handle) member

/-- The containers in a value are nested at most so deep. -/
def NestsWithin (store : Store) : (depth : Nat) → Value → Prop
  | 0, .list _ | 0, .dict _ => False
  | 0, _ => True
  | depth + 1, value => ∀ member, store.Holds value member → store.NestsWithin depth member

/-- A value contains itself if it is held by something that it holds, however far down. -/
def ContainsItself (store : Store) (value : Value) : Prop := Relation.TransGen store.Holds value value

section Nesting

variable {store : Store}

/-- What a container holds is nested less deeply than the container. -/
theorem NestsWithin.of_holds {depth : Nat} {value member : Value} (nests : store.NestsWithin depth value)
    (holds : store.Holds value member) : ∃ less, less < depth ∧ store.NestsWithin less member := by
  cases depth with
  | zero => cases holds <;> exact nests.elim
  | succ depth => exact ⟨depth, Nat.lt_succ_self depth, nests member holds⟩

/-- So is whatever is reached from a container. -/
theorem NestsWithin.of_reaches {depth : Nat} {value member : Value} (nests : store.NestsWithin depth value)
    (reaches : Relation.TransGen store.Holds value member) : ∃ less, less < depth ∧ store.NestsWithin less member := by
  induction reaches with
  | single holds => exact nests.of_holds holds
  | tail _ holds ih =>
    obtain ⟨middle, less, inner⟩ := ih
    obtain ⟨least, less', innermost⟩ := inner.of_holds holds
    exact ⟨least, by omega, innermost⟩

/-- A value that contains itself is nested within no depth. -/
theorem ContainsItself.not_nestsWithin {value : Value} (cyclic : store.ContainsItself value) (depth : Nat) :
    ¬store.NestsWithin depth value := by
  induction depth using Nat.strongRecOn with
  | ind depth ih =>
    intro nests
    obtain ⟨less, smaller, again⟩ := nests.of_reaches cyclic
    exact ih less smaller again

theorem isSome_mapM_iff {α β : Type} {text? : α → Option β} {members : List α} :
    (members.mapM text?).isSome ↔ ∀ member ∈ members, (text? member).isSome := by
  induction members with
  | nil => simp
  | cons first rest ih =>
    rw [List.mapM_cons, List.forall_mem_cons, ← ih]
    cases text? first with
    | none => simp
    | some part => cases rest.mapM text? <;> simp

/-- A key has a text. -/
theorem isSome_keyText (key : Key) : key.toValue.memberText?.isSome := by cases key <;> rfl

/-- A value has a text inside a container if it is nested no deeper than is allowed. -/
theorem isSome_memberText?_iff (depth : Nat) (value : Value) :
    (store.memberText? depth value).isSome ↔ store.NestsWithin depth value := by
  induction depth generalizing value with
  | zero => cases value <;> simp [memberText?, NestsWithin, Value.memberText?]
  | succ depth ih =>
    unfold NestsWithin
    cases value with
    | list handle =>
      rw [memberText?, Option.isSome_map, isSome_mapM_iff]
      constructor
      · intro all member holds
        cases holds with
        | item among => exact (ih member).mp (all member among)
      · intro all member among
        exact (ih member).mpr (all member (.item among))
    | dict handle =>
      have pair (key : Key) (member : Value) : (do
            let shown ← key.toValue.memberText?
            let inner ← store.memberText? depth member
            return shown ++ ": " ++ inner : Option String).isSome ↔ store.NestsWithin depth member := by
        obtain ⟨shown, known⟩ := Option.isSome_iff_exists.mp (isSome_keyText key)
        rw [known, ← ih]
        cases store.memberText? depth member <;> simp
      rw [memberText?, Option.isSome_map, isSome_mapM_iff]
      constructor
      · intro all member holds
        cases holds with
        | entry among => exact (pair _ member).mp (all _ among)
      · rintro all ⟨key, member⟩ among
        exact (pair key member).mpr (all member (.entry among))
    | _ =>
      refine iff_of_true rfl ?_
      intro member holds
      cases holds

/-- A value has a text by itself if it is nested no deeper than is allowed. -/
theorem isSome_text?_iff (depth : Nat) (value : Value) :
    (store.text? depth value).isSome ↔ store.NestsWithin depth value := by
  cases value with
  | text content =>
    rw [← isSome_memberText?_iff]
    cases depth <;> exact Iff.rfl
  | _ => exact isSome_memberText?_iff depth _

end Nesting

end Corvid.Store
