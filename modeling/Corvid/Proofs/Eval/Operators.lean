import Corvid.Eval.Operators
import Corvid.Proofs.Store.WellFormed

/-!
Operators give only values that a store can hold: whole numbers wrap around, floats are rounded to single precision,
and everything else is a text, a truth value or a range between bounds that were there.
-/
namespace Corvid

theorem Integer.wrap_bounds (n : Int) : Integer.least ≤ Integer.wrap n ∧ Integer.wrap n ≤ Integer.greatest := by
  rw [Integer.wrap, Integer.least, Integer.greatest]
  omega

theorem Integer.fits_iff {n : Int} : Integer.fits n = true ↔ Integer.least ≤ n ∧ n ≤ Integer.greatest := by
  simp [Integer.fits]

theorem Operator.onIntegers_bounds {op : Operator} {left right n : Int} (result : op.onIntegers left right = .ok n) :
    Integer.least ≤ n ∧ n ≤ Integer.greatest := by
  cases op with
  | add | sub | mul =>
    cases result
    exact Integer.wrap_bounds _
  | div =>
    rw [Operator.onIntegers] at result
    split at result
    · cases result
    · cases result
      exact Integer.wrap_bounds _
  | and | or => cases result

theorem Operator.onNumbers_isSingle {op : Operator} {fresh : Nat} {left right number : Number}
    (unsigned : left.Unsigned) (unsigned' : right.Unsigned)
    (result : op.onNumbers fresh left right = .ok number) : number.IsSingle := by
  cases op with
  | add | sub =>
    cases result
    exact Number.settleSingle_isSingle (Number.exactSum_unsigned _ _ _)
  | mul =>
    cases result
    exact Number.settleSingle_isSingle (Number.exactProduct_unsigned _ unsigned unsigned')
  | div =>
    rw [Operator.onNumbers] at result
    split at result
    · cases result
    · cases result
      exact Number.settleSingle_isSingle (Number.exactQuotient_unsigned _ unsigned unsigned')
  | and | or => cases result

theorem Value.number_unsigned {store : Store} {value : Value} {number : Number} (fine : value.WellFormed store)
    (result : value.number = .ok number) : number.Unsigned := by
  cases value with
  | int n =>
    cases result
    exact (Number.settleSingle_isSingle (Number.ofRat_unsigned _ _)).unsigned
  | float known =>
    cases result
    exact Number.IsSingle.unsigned fine
  | _ => cases result

theorem bind_eq_ok {α β : Type} {first : Except Fault α} {next : α → Except Fault β} {result : β}
    (same : first >>= next = .ok result) : ∃ middle, first = .ok middle ∧ next middle = .ok result := by
  cases first with
  | error fault => cases same
  | ok middle => exact ⟨middle, rfl, same⟩

theorem repeated_fine {store : Store} {content : String} {count : Int} {value : Value}
    (result : repeated content count = .ok value) : value.WellFormed store := by
  rw [repeated] at result
  split at result
  · cases result
  · cases result
    trivial

theorem arithmetic_fine {store : Store} {op : Operator} {fresh : Nat} {left right value : Value}
    (fine : left.WellFormed store) (fine' : right.WellFormed store)
    (result : arithmetic op fresh left right = .ok value) : value.WellFormed store := by
  unfold arithmetic at result
  split at result
  · exact repeated_fine result
  · exact repeated_fine result
  · next a b =>
    cases whole : op.onIntegers a b with
    | error fault =>
      rw [whole] at result
      cases result
    | ok n =>
      rw [whole] at result
      cases result
      exact Operator.onIntegers_bounds whole
  · obtain ⟨number, known, result⟩ := bind_eq_ok result
    obtain ⟨number', known', result⟩ := bind_eq_ok result
    obtain ⟨settled, rounded, result⟩ := bind_eq_ok result
    cases result
    exact Operator.onNumbers_isSingle (Value.number_unsigned fine known) (Value.number_unsigned fine' known') rounded

theorem rangeBetween_fine {store : Store} {low high value : Value} (fine : low.WellFormed store)
    (fine' : high.WellFormed store) (result : rangeBetween low high = .ok value) : value.WellFormed store := by
  unfold rangeBetween at result
  split at result
  · cases result
    exact ⟨fine, fine'⟩
  · cases result

theorem onEquality_fine {store : Store} {comparator : Comparator} {equal : Bool} {value : Value}
    (result : comparator.onEquality equal = .ok value) : value.WellFormed store := by
  cases comparator <;> cases result <;> trivial

theorem onOrder_fine {store : Store} {comparator : Comparator} {below equal above : Bool} {value : Value}
    (result : comparator.onOrder below equal above = .ok value) : value.WellFormed store := by
  cases comparator <;> cases result <;> trivial

theorem equality_fine {store : Store} {comparator : Comparator} {left right value : Value}
    (result : equality comparator left right = .ok value) : value.WellFormed store := by
  unfold equality at result
  split at result <;> first | exact onEquality_fine result | cases result

theorem comparison_fine {store : Store} {comparator : Comparator} {left right value : Value}
    (result : comparison comparator left right = .ok value) : value.WellFormed store := by
  unfold comparison at result
  split at result <;> first | exact onOrder_fine result | cases result

theorem logical_fine {store : Store} {op : Operator} {left right value : Value}
    (result : logical op left right = .ok value) : value.WellFormed store := by
  unfold logical at result
  split at result
  · cases op <;> cases result <;> trivial
  · cases result

end Corvid
