import Corvid.Proofs.Eval.Literal
import Corvid.Eval.Operators
import Corvid.Store.Render
import Mathlib.Data.List.Forall2

/-!
Values of two runs that correspond to each other. Lists and dictionaries may have other handles and NaNs other tags,
as a pairing of the two runs says; all else is the same. Operators, keys and texts do not tell such values apart.
-/
namespace Corvid

/-- What corresponds to what in two runs, and which functions there are. Tags are told apart by both runs alike. -/
structure Pairing where
  handles : Nat → Nat → Prop
  tags : Nat → Nat → Prop
  functions : List String → Expr → Prop
  tags_iff : ∀ {tag tag' other other' : Nat}, tags tag tag' → tags other other' → (tag = other ↔ tag' = other')

/-- One pairing has all that another one has. -/
structure Pairing.Extends (before after : Pairing) : Prop where
  handles : ∀ {handle handle' : Nat}, before.handles handle handle' → after.handles handle handle'
  tags : ∀ {tag tag' : Nat}, before.tags tag tag' → after.tags tag tag'
  functions : ∀ {parameters : List String} {body : Expr}, before.functions parameters body →
    after.functions parameters body

/-- Results of two runs: both give something, and that corresponds, or both stop for the same reason. -/
inductive Agree {α β ε : Type} (rel : α → β → Prop) : Except ε α → Except ε β → Prop where
  | ok {a : α} {b : β} (related : rel a b) : Agree rel (.ok a) (.ok b)
  | error (reason : ε) : Agree rel (.error reason) (.error reason)

theorem Agree.mono {α β ε : Type} {rel rel' : α → β → Prop} (weaker : ∀ {a b}, rel a b → rel' a b)
    {left : Except ε α} {right : Except ε β} (agree : Agree rel left right) : Agree rel' left right := by
  cases agree with
  | ok related => exact .ok (weaker related)
  | error reason => exact .error reason

theorem Agree.eq {α ε : Type} {left right : Except ε α} (agree : Agree Eq left right) : left = right := by
  cases agree with
  | ok same => rw [same]
  | error reason => rfl

/-! Numbers -/

inductive Number.Alike (pairing : Pairing) : Number → Number → Prop where
  | nan {tag tag' : Nat} (paired : pairing.tags tag tag') : Number.Alike pairing (.nan tag) (.nan tag')
  | infinite (negative : Bool) : Number.Alike pairing (.infinite negative) (.infinite negative)
  | finite (negative : Bool) (magnitude : Rat) :
      Number.Alike pairing (.finite negative magnitude) (.finite negative magnitude)

namespace Number

variable {pairing : Pairing} {left left' right right' : Number} {fresh fresh' : Nat}

theorem Alike.mono {after : Pairing} (extended : pairing.Extends after) (alike : left.Alike pairing left') :
    left.Alike after left' := by
  cases alike with
  | nan paired => exact .nan (extended.tags paired)
  | infinite negative => exact .infinite negative
  | finite negative magnitude => exact .finite negative magnitude

theorem fit_alike (format : Format) (negative : Bool) (magnitude : Rat) :
    (format.fit negative magnitude).Alike pairing (format.fit negative magnitude) := by
  simp only [Format.fit]
  split
  · exact .infinite negative
  · exact .finite negative _

theorem Alike.roundTo (format : Format) (alike : left.Alike pairing left') :
    (left.roundTo format).Alike pairing (left'.roundTo format) := by
  cases alike with
  | nan paired => exact .nan paired
  | infinite negative => exact .infinite negative
  | finite negative magnitude =>
    exact fit_alike format negative magnitude

theorem Alike.settleSingle (alike : left.Alike pairing left') :
    left.settleSingle.Alike pairing left'.settleSingle :=
  (alike.roundTo .double).roundTo .single

theorem ofRat_alike (negativeZero : Bool) (q : Rat) : (ofRat negativeZero q).Alike pairing (ofRat negativeZero q) := by
  unfold ofRat
  split
  · exact .finite _ _
  · split <;> exact .finite _ _

theorem Alike.negated (alike : left.Alike pairing left') : left.negated.Alike pairing left'.negated := by
  cases alike with
  | nan paired => exact .nan paired
  | infinite negative => exact .infinite _
  | finite negative magnitude => exact .finite _ _

theorem Alike.exactSum (paired : pairing.tags fresh fresh') (alike : left.Alike pairing left')
    (alike' : right.Alike pairing right') :
    (left.exactSum fresh right).Alike pairing (left'.exactSum fresh' right') := by
  cases alike with
  | nan => cases alike' <;> exact .nan paired
  | infinite a =>
    cases alike' with
    | nan => exact .nan paired
    | infinite b =>
      simp only [Number.exactSum]
      split
      · exact .infinite a
      · exact .nan paired
    | finite => exact .infinite a
  | finite a p =>
    cases alike' with
    | nan => exact .nan paired
    | infinite b => exact .infinite b
    | finite b q => exact ofRat_alike _ _

theorem Alike.exactProduct (paired : pairing.tags fresh fresh') (alike : left.Alike pairing left')
    (alike' : right.Alike pairing right') :
    (left.exactProduct fresh right).Alike pairing (left'.exactProduct fresh' right') := by
  have orNan (zero : Prop) [Decidable zero] (negative : Bool) :
      Number.Alike pairing (if zero then .nan fresh else .infinite negative)
        (if zero then .nan fresh' else .infinite negative) := by
    split
    · exact .nan paired
    · exact .infinite negative
  cases alike with
  | nan => cases alike' <;> exact .nan paired
  | infinite a =>
    cases alike' with
    | nan => exact .nan paired
    | infinite b => exact .infinite _
    | finite b q => exact orNan _ _
  | finite a p =>
    cases alike' with
    | nan => exact .nan paired
    | infinite b => exact orNan _ _
    | finite b q => exact .finite _ _

theorem Alike.exactQuotient (paired : pairing.tags fresh fresh') (alike : left.Alike pairing left')
    (alike' : right.Alike pairing right') :
    (left.exactQuotient fresh right).Alike pairing (left'.exactQuotient fresh' right') := by
  cases alike with
  | nan => cases alike' <;> exact .nan paired
  | infinite a =>
    cases alike' with
    | nan | infinite => exact .nan paired
    | finite b q => exact .infinite _
  | finite a p =>
    cases alike' with
    | nan => exact .nan paired
    | infinite b => exact .finite _ _
    | finite b q => exact .finite _ _

theorem Alike.rank?_eq (alike : left.Alike pairing left') : left.rank? = left'.rank? := by
  cases alike <;> rfl

theorem Alike.isZero_eq (alike : left.Alike pairing left') : left.isZero = left'.isZero := by
  cases alike <;> rfl

theorem Alike.text_eq (alike : left.Alike pairing left') : left.text = left'.text := by
  cases alike <;> rfl

theorem Alike.equals_eq (alike : left.Alike pairing left') (alike' : right.Alike pairing right') :
    left.equals right = left'.equals right' := by
  rw [equals, equals, alike.rank?_eq, alike'.rank?_eq]

theorem Alike.below_eq (alike : left.Alike pairing left') (alike' : right.Alike pairing right') :
    left.below right = left'.below right' := by
  rw [below, below, alike.rank?_eq, alike'.rank?_eq]

end Number

/-- A number that is written in digits is no NaN. -/
theorem Decimal.toNumber_alike {pairing : Pairing} (decimal : Decimal) (format : Format) :
    (decimal.toNumber format).Alike pairing (decimal.toNumber format) := by
  simp only [toNumber]
  split
  · exact .finite _ _
  · split
    · exact .infinite _
    · exact Number.fit_alike _ _ _

/-! Keys -/

inductive Key.Alike (pairing : Pairing) : Key → Key → Prop where
  | text (content : String) : Key.Alike pairing (.text content) (.text content)
  | int (n : Int) : Key.Alike pairing (.int n) (.int n)
  | float {number number' : Number} (alike : number.Alike pairing number') :
      Key.Alike pairing (.float number) (.float number')
  | bool (b : Bool) : Key.Alike pairing (.bool b) (.bool b)

namespace Key

variable {pairing : Pairing} {key key' other other' : Key}

theorem Alike.mono {after : Pairing} (extended : pairing.Extends after) (alike : key.Alike pairing key') :
    key.Alike after key' := by
  cases alike with
  | text content => exact .text content
  | int n => exact .int n
  | float alike => exact .float (alike.mono extended)
  | bool b => exact .bool b

/-- Both runs find the same keys equal. -/
theorem Alike.same_eq (alike : key.Alike pairing key') (alike' : other.Alike pairing other') :
    key.same other = key'.same other' := by
  cases alike with
  | float first =>
    cases alike' with
    | float second =>
      cases first with
      | nan paired =>
        cases second with
        | nan paired' =>
          rw [Key.same, Key.same, Bool.eq_iff_iff, beq_iff_eq, beq_iff_eq]
          exact pairing.tags_iff paired paired'
        | infinite | finite => rfl
      | infinite | finite => cases second <;> rfl
    | text | int | bool => cases first <;> rfl
  | text | int | bool =>
    cases alike' with
    | float second => cases second <;> rfl
    | text | int | bool => rfl

end Key

/-! Values -/

inductive Value.Alike (pairing : Pairing) : Value → Value → Prop where
  | none : Value.Alike pairing .none .none
  | text (content : String) : Value.Alike pairing (.text content) (.text content)
  | int (n : Int) : Value.Alike pairing (.int n) (.int n)
  | float {number number' : Number} (alike : number.Alike pairing number') :
      Value.Alike pairing (.float number) (.float number')
  | bool (b : Bool) : Value.Alike pairing (.bool b) (.bool b)
  | list {handle handle' : Nat} (paired : pairing.handles handle handle') :
      Value.Alike pairing (.list handle) (.list handle')
  | dict {handle handle' : Nat} (paired : pairing.handles handle handle') :
      Value.Alike pairing (.dict handle) (.dict handle')
  | range (first last : Int) : Value.Alike pairing (.range first last) (.range first last)
  | function (name : String) {parameters : List String} {body : Expr} (known : pairing.functions parameters body) :
      Value.Alike pairing (.function name parameters body) (.function name parameters body)

namespace Value

variable {pairing : Pairing} {left left' right right' : Value} {fresh fresh' : Nat}

theorem Alike.mono {after : Pairing} (extended : pairing.Extends after) (alike : left.Alike pairing left') :
    left.Alike after left' := by
  cases alike with
  | none => exact .none
  | text content => exact .text content
  | int n => exact .int n
  | float alike => exact .float (alike.mono extended)
  | bool b => exact .bool b
  | list paired => exact .list (extended.handles paired)
  | dict paired => exact .dict (extended.handles paired)
  | range first last => exact .range first last
  | function name known => exact .function name (extended.functions known)

theorem Alike.kind_eq (alike : left.Alike pairing left') : left.kind = left'.kind := by
  cases alike <;> rfl

theorem Alike.memberText?_eq (alike : left.Alike pairing left') : left.memberText? = left'.memberText? := by
  cases alike with
  | float alike => rw [memberText?, memberText?, alike.text_eq]
  | _ => rfl

/-- Values that correspond are keys that correspond, or neither is a key. -/
theorem Alike.key (alike : left.Alike pairing left') :
    Option.Rel (Key.Alike pairing) (Key.ofValue? left) (Key.ofValue? left') := by
  cases alike with
  | text content => exact .some (.text content)
  | int n => exact .some (.int n)
  | float alike => exact .some (.float alike)
  | bool b => exact .some (.bool b)
  | none | list | dict | range | function => exact .none

end Value

theorem Key.Alike.toValue {pairing : Pairing} {key key' : Key} (alike : key.Alike pairing key') :
    key.toValue.Alike pairing key'.toValue := by
  cases alike with
  | text content => exact .text content
  | int n => exact .int n
  | float alike => exact .float alike
  | bool b => exact .bool b

/-! Operators -/

section Operators

variable {pairing : Pairing} {left left' right right' : Value} {fresh fresh' : Nat}

theorem Operator.onNumbers_agree (op : Operator) (paired : pairing.tags fresh fresh') {a a' b b' : Number}
    (alike : a.Alike pairing a') (alike' : b.Alike pairing b') :
    Agree (Number.Alike pairing) (op.onNumbers fresh a b) (op.onNumbers fresh' a' b') := by
  cases op with
  | add => exact .ok (alike.exactSum paired alike').settleSingle
  | sub => exact .ok (alike.exactSum paired alike'.negated).settleSingle
  | mul => exact .ok (alike.exactProduct paired alike').settleSingle
  | div =>
    simp only [Operator.onNumbers, alike'.isZero_eq]
    split
    · exact .error _
    · exact .ok (alike.exactQuotient paired alike').settleSingle
  | and | or => exact .error _

theorem Value.Alike.number (alike : left.Alike pairing left') :
    Agree (Number.Alike pairing) left.number left'.number := by
  cases alike with
  | int n => exact .ok (Number.ofRat_alike _ _).settleSingle
  | float alike => exact .ok alike
  | none | text | bool | list | dict | range | function => exact .error _

theorem repeated_agree (content : String) (count : Int) :
    Agree (Value.Alike pairing) (repeated content count) (repeated content count) := by
  unfold repeated
  split
  · exact .error _
  · exact .ok (.text _)

theorem onIntegers_agree (op : Operator) (a b : Int) :
    Agree (Value.Alike pairing) ((op.onIntegers a b).map .int) ((op.onIntegers a b).map .int) := by
  cases op.onIntegers a b with
  | error fault => exact .error fault
  | ok n => exact .ok (.int n)

/-- Arithmetic on floats, which whole numbers are rounded to. -/
theorem floating_agree (op : Operator) (paired : pairing.tags fresh fresh') (alike : left.Alike pairing left')
    (alike' : right.Alike pairing right') :
    Agree (Value.Alike pairing)
      (do let a ← left.number; let b ← right.number; return Value.float (← op.onNumbers fresh a b))
      (do let a ← left'.number; let b ← right'.number; return Value.float (← op.onNumbers fresh' a b)) := by
  have first := alike.number
  have second := alike'.number
  generalize left.number = a, left'.number = a' at first
  generalize right.number = b, right'.number = b' at second
  cases first with
  | error fault => exact .error fault
  | ok first =>
    cases second with
    | error fault => exact .error fault
    | ok second =>
      have result := op.onNumbers_agree paired first second
      simp only [Bind.bind, Except.bind]
      generalize op.onNumbers fresh _ _ = c, op.onNumbers fresh' _ _ = c' at result
      cases result with
      | error fault => exact .error fault
      | ok result => exact .ok (.float result)

theorem arithmetic_agree (op : Operator) (paired : pairing.tags fresh fresh') (alike : left.Alike pairing left')
    (alike' : right.Alike pairing right') :
    Agree (Value.Alike pairing) (arithmetic op fresh left right) (arithmetic op fresh' left' right') := by
  have floating := floating_agree op paired alike alike'
  cases alike with
  | int a =>
    cases alike' with
    | int b =>
      have whole (fresh : Nat) : arithmetic op fresh (.int a) (.int b) = (op.onIntegers a b).map .int := by
        cases op <;> rfl
      rw [whole, whole]
      exact onIntegers_agree op a b
    | text content => cases op <;> first | exact repeated_agree content a | exact floating
    | _ => cases op <;> exact floating
  | text content =>
    cases alike' with
    | int count => cases op <;> first | exact repeated_agree content count | exact floating
    | _ => cases op <;> exact floating
  | _ => cases alike' <;> cases op <;> exact floating

theorem onEquality_agree (comparator : Comparator) (equal : Bool) :
    Agree (Value.Alike pairing) (comparator.onEquality equal) (comparator.onEquality equal) := by
  cases comparator with
  | eq | ne => exact .ok (.bool _)
  | lt | le | gt | ge => exact .error _

theorem onOrder_agree (comparator : Comparator) (below equal above : Bool) :
    Agree (Value.Alike pairing) (comparator.onOrder below equal above) (comparator.onOrder below equal above) := by
  cases comparator with
  | eq | ne => exact .error _
  | lt | le | gt | ge => exact .ok (.bool _)

theorem equality_agree (comparator : Comparator) (alike : left.Alike pairing left')
    (alike' : right.Alike pairing right') :
    Agree (Value.Alike pairing) (equality comparator left right) (equality comparator left' right') := by
  cases alike <;> cases alike' <;> first | exact .error _ | exact onEquality_agree _ _ | skip
  next alike _ _ alike' =>
    rw [equality, equality, alike.equals_eq alike']
    exact onEquality_agree _ _

theorem comparison_agree (comparator : Comparator) (alike : left.Alike pairing left')
    (alike' : right.Alike pairing right') :
    Agree (Value.Alike pairing) (comparison comparator left right) (comparison comparator left' right') := by
  cases alike <;> cases alike' <;> first | exact .error _ | exact onOrder_agree _ _ _ _ | skip
  next alike _ _ alike' =>
    rw [comparison, comparison, alike.below_eq alike', alike.equals_eq alike', alike'.below_eq alike]
    exact onOrder_agree _ _ _ _

theorem logical_agree (op : Operator) (alike : left.Alike pairing left') (alike' : right.Alike pairing right') :
    Agree (Value.Alike pairing) (logical op left right) (logical op left' right') := by
  cases alike <;> cases alike' <;> first | exact .error _ | skip
  cases op <;> first | exact .error _ | exact .ok (.bool _)

theorem rangeBetween_agree (alike : left.Alike pairing left') (alike' : right.Alike pairing right') :
    Agree (Value.Alike pairing) (rangeBetween left right) (rangeBetween left' right') := by
  cases alike <;> cases alike' <;> first | exact .error _ | exact .ok (.range _ _)

theorem literal_agree (kind : LiteralKind) (lexeme : String) :
    Agree (Value.Alike pairing) (literalValue kind lexeme) (literalValue kind lexeme) := by
  have outcome := literalValue_outcome kind lexeme
  generalize literalValue kind lexeme = result at outcome
  cases outcome with
  | text content => exact .ok (.text content)
  | int => exact .ok (.int _)
  | float decimal => exact .ok (.float ((decimal.toNumber_alike .double).roundTo .single))
  | bool b => exact .ok (.bool b)
  | tooLong => exact .error _
  | malformed => exact .error _

end Operators

/-! Containers -/

/-- The members at one place; there is none beyond the end. -/
theorem getD_alike {pairing : Pairing} {items items' : List Value}
    (alike : List.Forall₂ (Value.Alike pairing) items items') (index : Nat) :
    (items.getD index .none).Alike pairing (items'.getD index .none) := by
  induction alike generalizing index with
  | nil => exact .none
  | cons first _ ih =>
    cases index with
    | zero => exact first
    | succ index => exact ih index

/-- Two dictionaries whose keys and values correspond in order. -/
abbrev Entries.Alike (pairing : Pairing) : Entries → Entries → Prop :=
  List.Forall₂ fun entry entry' => entry.1.Alike pairing entry'.1 ∧ entry.2.Alike pairing entry'.2

namespace Entries

variable {pairing : Pairing} {entries entries' : Entries} {key key' : Key}

theorem Alike.find? (alike : entries.Alike pairing entries') (same : key.Alike pairing key') :
    Option.Rel (Value.Alike pairing) (entries.find? key) (entries'.find? key') := by
  induction alike with
  | nil => exact .none
  | cons first _ ih =>
    rw [Entries.find?, Entries.find?, first.1.same_eq same]
    split
    · exact .some first.2
    · exact ih

theorem Alike.getD_find? (alike : entries.Alike pairing entries') (same : key.Alike pairing key') :
    ((entries.find? key).getD .none).Alike pairing ((entries'.find? key').getD .none) := by
  have found := alike.find? same
  generalize entries.find? key = value, entries'.find? key' = value' at found
  cases found with
  | none => exact .none
  | some fine => exact fine

theorem Alike.keys (alike : entries.Alike pairing entries') :
    List.Forall₂ (Value.Alike pairing) (entries.map (·.1.toValue)) (entries'.map (·.1.toValue)) := by
  induction alike with
  | nil => exact .nil
  | cons first _ ih => exact .cons first.1.toValue ih

theorem Alike.set (alike : entries.Alike pairing entries') (same : key.Alike pairing key') {value value' : Value}
    (fine : value.Alike pairing value') : (entries.set key value).Alike pairing (entries'.set key' value') := by
  induction alike with
  | nil => exact .cons ⟨same, fine⟩ .nil
  | cons first rest ih =>
    rw [Entries.set, Entries.set, first.1.same_eq same]
    split
    · exact .cons ⟨first.1, fine⟩ rest
    · exact .cons first ih

theorem Alike.mono {after : Pairing} (extended : pairing.Extends after) (alike : entries.Alike pairing entries') :
    entries.Alike after entries' :=
  List.Forall₂.imp (fun _ _ pair => ⟨pair.1.mono extended, pair.2.mono extended⟩) alike

end Entries

/-- Two containers of one kind whose members correspond in order. -/
inductive Container.Alike (pairing : Pairing) : Container → Container → Prop where
  | list {items items' : List Value} (alike : List.Forall₂ (Value.Alike pairing) items items') :
      Container.Alike pairing (.list items) (.list items')
  | dict {entries entries' : Entries} (alike : entries.Alike pairing entries') :
      Container.Alike pairing (.dict entries) (.dict entries')

end Corvid
