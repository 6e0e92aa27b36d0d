import Corvid.Eval.Operators
import Corvid.Store

/-!
Keys and the entries of a dictionary. Two keys are one key if they have one canonical form, so to be the same key is an
equivalence. Entries that come from any number of stores give for every key what was stored last, and have their keys
in the order of the first stores, each in its first form.
-/
namespace Corvid

/-- The form of a number as a key: a zero loses its sign. -/
def Number.canonical : Number → Number
  | .finite negative magnitude => .finite false (signed negative magnitude)
  | number => number

namespace Key

def canonical : Key → Key
  | float number => float number.canonical
  | key => key

theorem same_iff (key other : Key) : key.same other = true ↔ key.canonical = other.canonical := by
  cases key with
  | float number =>
    cases other with
    | float number' =>
      rcases number with tag | (_ | _) | ⟨negative, magnitude⟩ <;>
        rcases number' with tag' | (_ | _) | ⟨negative', magnitude'⟩ <;>
          simp [same, canonical, Number.canonical, Number.equals, Number.rank?]
    | _ => cases number <;> simp [same, canonical]
  | _ => cases other <;> simp [same, canonical]

theorem same_comm (key other : Key) : key.same other = other.same key := by
  rw [Bool.eq_iff_iff, same_iff, same_iff, eq_comm]

/-- Keys that are the same are told apart from others alike. -/
theorem same_congr {key other : Key} (same : key.same other = true) (third : Key) :
    key.same third = other.same third := by
  rw [Bool.eq_iff_iff, same_iff, same_iff, (same_iff key other).mp same]

/-- Keys are the same if they are equal as values; besides, a NaN is the same as itself, though not equal to itself. -/
theorem same_iff_equality (key other : Key) : key.same other = true ↔
    key.toValue.kind = other.toValue.kind ∧ equality .eq key.toValue other.toValue = .ok (.bool true) ∨
      key = other ∧ ∃ tag, key = .float (.nan tag) := by
  cases key with
  | float number =>
    cases other with
    | float number' =>
      rcases number with tag | (_ | _) | ⟨negative, magnitude⟩ <;>
        rcases number' with tag' | (_ | _) | ⟨negative', magnitude'⟩ <;>
          simp [same, toValue, Value.kind, equality, Comparator.onEquality, Number.equals, Number.rank?]
    | _ => cases number <;> simp [same, toValue, Value.kind]
  | _ => cases other <;> simp [same, toValue, Value.kind, equality, Comparator.onEquality]

end Key

namespace Entries

/-- The value of the last of some stores for a key. -/
def last? (writes : Entries) (key : Key) : Option Value := find? writes.reverse key

/-- Stores made one after another. -/
def setAll (entries writes : Entries) : Entries :=
  writes.foldl (fun entries write => entries.set write.1 write.2) entries

theorem setAll_cons (entries writes : Entries) (write : Key × Value) :
    entries.setAll (write :: writes) = (entries.set write.1 write.2).setAll writes := rfl

theorem find?_append (entries more : Entries) (key : Key) :
    find? (entries ++ more) key = (entries.find? key).or (find? more key) := by
  induction entries with
  | nil => rfl
  | cons first rest ih =>
    rw [List.cons_append, find?, find?]
    split
    · rfl
    · exact ih

theorem last?_append (writes more : Entries) (key : Key) :
    last? (writes ++ more) key = (last? more key).or (last? writes key) := by
  rw [last?, List.reverse_append, find?_append]
  rfl

theorem last?_cons (write : Key × Value) (writes : Entries) (key : Key) :
    last? (write :: writes) key = (last? writes key).or (if write.1.same key then some write.2 else none) := by
  rw [last?, List.reverse_cons, find?_append]
  rfl

theorem find?_set (entries : Entries) (key other : Key) (value : Value) :
    (entries.set key value).find? other = if key.same other then some value else entries.find? other := by
  induction entries with
  | nil => rfl
  | cons first rest ih =>
    obtain ⟨known, old⟩ := first
    rw [set, find?]
    by_cases found : known.same key = true
    · rw [if_pos found, find?, Key.same_congr found]
      split <;> rfl
    · rw [if_neg found, find?, ih]
      by_cases asked : key.same other = true
      · have other_differs : ¬known.same other = true := by rwa [Key.same_comm, ← Key.same_congr asked, Key.same_comm]
        rw [if_pos asked, if_pos asked, if_neg other_differs]
      · rw [if_neg asked, if_neg asked]

/-- The last store for a key counts, and what was there before only if there is none. -/
theorem find?_setAll (entries writes : Entries) (key : Key) :
    (entries.setAll writes).find? key = (last? writes key).or (entries.find? key) := by
  induction writes generalizing entries with
  | nil => rfl
  | cons write writes ih =>
    rw [setAll_cons, ih, find?_set, last?_cons, Option.or_assoc]
    split <;> rfl

/-- A key that is there keeps its place and form, and another one is put last. -/
theorem map_fst_set (entries : Entries) (key : Key) (value : Value) :
    (entries.set key value).map Prod.fst =
      if (entries.map Prod.fst).any (key.same ·) then entries.map Prod.fst else entries.map Prod.fst ++ [key] := by
  induction entries with
  | nil => rfl
  | cons first rest ih =>
    obtain ⟨known, old⟩ := first
    rw [set, Key.same_comm known key]
    by_cases found : key.same known = true
    · simp [found]
    · rw [Bool.not_eq_true] at found
      simp only [found, Bool.false_eq_true, if_false, List.map_cons, List.any_cons, Bool.false_or, ih]
      split <;> rfl

/-- Keys are in the order of the first stores, each in the form of its first one. -/
theorem map_fst_setAll (writes : Entries) :
    (setAll [] writes).map Prod.fst = (writes.map Prod.fst).eraseDupsBy Key.same := by
  have general (entries : Entries) : (entries.setAll writes).map Prod.fst =
      List.eraseDupsBy.loop Key.same (writes.map Prod.fst) (entries.map Prod.fst).reverse := by
    induction writes generalizing entries with
    | nil => simp [setAll, List.eraseDupsBy.loop]
    | cons write writes ih =>
      have later := ih (entries.set write.1 write.2)
      rw [map_fst_set] at later
      rw [List.map_cons, List.eraseDupsBy.loop, List.any_reverse]
      split <;> simp_all [setAll]
  exact general []

end Entries

end Corvid
