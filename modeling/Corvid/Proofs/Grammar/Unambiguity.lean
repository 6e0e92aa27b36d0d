import Corvid.Proofs.Grammar.Placement
import Corvid.Proofs.Grammar.Soundness

/-!
The grammar is unambiguous. A derivation whose tokens are numbered has a tree whose marks are those numbers, so
the tree shows which tokens lie inside a group: a group is the only derivation that is marked later than it
begins. The numbered tree therefore settles every production, and reading gives only one tree.
-/
namespace Corvid.Grammar

/-- The index of a token, in the form of a place. -/
def numbered (index : Nat) (_ : Position) : Position := ⟨index, 0⟩

/-- The level of the productions that build a node. -/
def nodeLevel : Expr → Nat
  | .assign .. | .store .. => 0
  | .join _ joint _ _ => joint.level
  | .negate .. => 3
  | .subscript .. => 10
  | .block .. | .conditional .. | .loop .. | .function .. => 12
  | _ => 11

/-- The category of a node that has one of its own. -/
def nodeTier? : Expr → Option Tier
  | .block .. => some .block
  | .conditional .. => some .conditional
  | .loop .. => some .loop
  | .function .. => some .function
  | _ => none

/-- A text that begins with no separator. -/
def Unseparated (tokens : List Token) : Prop := ∀ token rest, tokens = token :: rest → token.kind ≠ .separator

theorem Unseparated.cons {token : Token} {rest : List Token} (differs : token.kind ≠ .separator) :
    Unseparated (token :: rest) := by
  rintro _ _ ⟨⟩
  exact differs

theorem Leaf.ext {kind : Token.Kind} {leaf leaf' : Leaf kind} (same : leaf.token = leaf'.token) :
    leaf = leaf' := by
  cases leaf
  cases leaf'
  cases same
  rfl

theorem Leaf.cons_inj {kind : Token.Kind} {leaf leaf' : Leaf kind} {rest rest' : List Token}
    (same : leaf.token :: rest = leaf'.token :: rest') : leaf = leaf' ∧ rest = rest' :=
  ⟨Leaf.ext (List.cons.inj same).1, (List.cons.inj same).2⟩

theorem optional_inj {lead lead' : Option Separator} {rest rest' : List Token}
    (same : optional lead ++ rest = optional lead' ++ rest') (bare : Unseparated rest)
    (bare' : Unseparated rest') : lead = lead' ∧ rest = rest' := by
  cases lead with
  | none =>
    cases lead' with
    | none => exact ⟨rfl, same⟩
    | some found => exact absurd found.fits (bare _ _ same)
  | some leaf =>
    cases lead' with
    | none => exact absurd leaf.fits (bare' _ _ same.symm)
    | some leaf' =>
      obtain ⟨rfl, rest_eq⟩ := Leaf.cons_inj same
      exact ⟨rfl, rest_eq⟩

namespace Binary

variable {tier before before' after after' : Tier} {kind kind' : Token.Kind} {joint : Joint}

theorem unique (rule : Binary tier before kind after joint) (rule' : Binary tier before' kind' after' joint) :
    before = before' ∧ kind = kind' ∧ after = after' := by
  cases rule <;> cases rule' <;> exact ⟨rfl, rfl, rfl⟩

end Binary

theorem Passes.unique {outer inner inner' : Tier} (rule : Passes outer inner) (rule' : Passes outer inner') :
    inner = inner' ∨ inner.level = 12 ∧ inner'.level = 12 := by
  cases rule <;> cases rule' <;> simp [Tier.level]

theorem Passes.atom_level {inner : Tier} (rule : Passes .atom inner) : inner.level = 12 := by
  cases rule <;> rfl

/-- How a production treats its node: it takes over the node of a tighter category, or that of a group, or it
builds one. -/
inductive Shape where
  | taken | grouped | built
  deriving DecidableEq

namespace Derivation

/-- Nothing but the inside of a program or a block begins with a separator, and no operand begins with a minus
sign. -/
theorem head_kind {category : Category} (derivation : Derivation category) (filled : category ≠ .body)
    {token : Token} {rest : List Token} (head : derivation.tokens = token :: rest) :
    token.kind ≠ .separator ∧
      ∀ tier, category = .tier tier → 10 ≤ tier.level → token.kind ≠ .symbol .minus := by
  induction derivation generalizing token rest with
  | empty | filled => exact absurd rfl filled
  | oneStatement only ih => exact ⟨(ih (by simp) head).1, by simp⟩
  | oneItem only ih => exact ⟨(ih (by simp) head).1, by simp⟩
  | pass rule inside ih =>
    refine ⟨(ih (by simp) head).1, fun tier same tight => ?_⟩
    cases same
    exact (ih (by simp) head).2 _ rfl (Nat.le_of_lt (Nat.lt_of_le_of_lt tight rule.level_lt))
  | moreStatements front _ _ ih | moreItems front _ _ ih | moreParameters front _ _ ih =>
    obtain ⟨token', rest', found⟩ := List.exists_cons_of_ne_nil (front.tokens_ne_nil (by simp))
    rw [tokens, found] at head
    cases head
    exact ⟨(ih (by simp) found).1, by simp⟩
  | onePair front _ _ ih | morePairs front _ _ _ _ ih =>
    obtain ⟨token', rest', found⟩ := List.exists_cons_of_ne_nil (front.tokens_ne_nil (by simp))
    rw [tokens, found] at head
    cases head
    exact ⟨(ih (by simp) found).1, by simp⟩
  | store front _ _ _ _ _ ih =>
    obtain ⟨token', rest', found⟩ := List.exists_cons_of_ne_nil (front.tokens_ne_nil (by simp))
    rw [tokens, found] at head
    cases head
    exact ⟨(ih (by simp) found).1, by simp [Tier.level]⟩
  | join rule front _ _ ih =>
    obtain ⟨token', rest', found⟩ := List.exists_cons_of_ne_nil (front.tokens_ne_nil (by simp))
    rw [tokens, found] at head
    cases head
    refine ⟨(ih (by simp) found).1, fun tier same tight => ?_⟩
    cases same
    exact absurd rule.tier_le (by omega)
  | subscript front _ _ _ ih =>
    obtain ⟨token', rest', found⟩ := List.exists_cons_of_ne_nil (front.tokens_ne_nil (by simp))
    rw [tokens, found] at head
    cases head
    exact ⟨(ih (by simp) found).1, fun tier same tight => (ih (by simp) found).2 _ rfl (by decide)⟩
  | negativeInt sign | negativeFloat sign =>
    cases head
    exact ⟨by simp [sign.fits], by simp [Tier.level]⟩
  | int leaf | float leaf | string leaf | truth leaf | falsity leaf | nothing leaf | identifier leaf
  | callEmpty leaf | call leaf | printEmpty _ leaf | print _ leaf | group leaf | listEmpty leaf | list leaf
  | dictEmpty leaf | dict leaf | block leaf | ifOnly leaf | ifElse leaf | ifChain leaf | loop leaf
  | functionEmpty leaf | function leaf | oneParameter leaf | assign leaf | negate leaf =>
    cases head
    exact ⟨by simp [leaf.fits], by simp [leaf.fits]⟩

theorem unseparated {category : Category} (derivation : Derivation category) (filled : category ≠ .body)
    (rest : List Token) : Unseparated (derivation.tokens ++ rest) := by
  obtain ⟨first, more, found⟩ := List.exists_cons_of_ne_nil (derivation.tokens_ne_nil filled)
  rw [found]
  exact .cons (derivation.head_kind filled found).1

theorem start_numbered {category : Category} (derivation : Derivation category) (filled : category ≠ .body)
    (index : Nat) : (derivation.place numbered index).start = ⟨index, 0⟩ := by
  obtain ⟨first, more, found⟩ := List.exists_cons_of_ne_nil (derivation.tokens_ne_nil filled)
  simp [start, found, numbered]

/-- What a numbered tree shows: it is marked where it begins, or later if it is a group, and in the first case it
is built by a production of its own level or a tighter one. -/
def Placed (index : Nat) : (category : Category) → category.Meaning → Prop
  | .tier tier, expr =>
    ∃ first ≥ index, Expr.mark expr = .spot ⟨first, 0⟩ ∧ (first = index → tier.level ≤ nodeLevel expr)
  | _, _ => True

theorem placed {category : Category} (derivation : Derivation category) (index : Nat) :
    Placed index category (derivation.place numbered index).meaning := by
  induction derivation generalizing index with
  | pass rule inside ih =>
    obtain ⟨first, le, marked, level⟩ := ih index
    exact ⟨first, le, marked, fun same => Nat.le_trans (Nat.le_of_lt rule.level_lt) (level same)⟩
  | group opening inside closing ih =>
    obtain ⟨first, le, marked, _⟩ := ih (index + 1)
    exact ⟨first, by omega, marked, fun same => by omega⟩
  | join rule left sign right =>
    have start := left.start_numbered (by simp) index
    exact ⟨index, Nat.le_refl _, by simp [relabel, meaning, mark, Expr.mark, start],
      fun _ => Nat.le_of_eq rule.level_eq.symm⟩
  | store target | subscript target =>
    have start := target.start_numbered (by simp) index
    exact ⟨index, Nat.le_refl _, by simp [relabel, meaning, mark, Expr.mark, start], fun _ => Nat.le_refl _⟩
  | empty | filled | oneStatement | moreStatements | oneItem | moreItems | onePair | morePairs | oneParameter
  | moreParameters => trivial
  | _ => exact ⟨index, Nat.le_refl _, rfl, fun _ => by simp [relabel, meaning, Tier.level, nodeLevel]⟩

/-- A production that only passes a category on builds no node of its own level. -/
theorem pass_ne {inner : Tier} (inside : Derivation (.tier inner)) {index : Nat} {expr : Expr}
    (same : (inside.place numbered index).meaning = expr) (marked : expr.mark = .spot ⟨index, 0⟩) :
    inner.level ≤ nodeLevel expr := by
  obtain ⟨first, _, marked', level⟩ := inside.placed index
  rw [same] at marked' level
  rw [marked] at marked'
  cases marked'
  exact level rfl

theorem mark_ne_absent {tier : Tier} (derivation : Derivation (.tier tier)) {index : Nat} {expr : Expr}
    (same : (derivation.place numbered index).meaning = expr) : expr.mark ≠ .absent := by
  obtain ⟨first, _, marked, _⟩ := derivation.placed index
  rw [same] at marked
  rw [marked]
  exact Mark.noConfusion

theorem nodeTier?_meaning {tier : Tier} (derivation : Derivation (.tier tier)) (own : tier.level = 12) :
    nodeTier? derivation.meaning = some tier := by
  cases derivation with
  | pass rule => cases rule <;> contradiction
  | join rule => cases rule <;> contradiction
  | block | ifOnly | ifElse | ifChain | loop | functionEmpty | function => rfl
  | _ => contradiction

def shape : {category : Category} → Derivation category → Shape
  | _, pass .. => .taken
  | _, group .. => .grouped
  | _, _ => .built

/-- The categories of the tightest level are told apart by the nodes they build. -/
theorem own_tier_eq {tier tier' : Tier} {derivation : Derivation (.tier tier)}
    {derivation' : Derivation (.tier tier')} (own : tier.level = 12) (own' : tier'.level = 12)
    (same : derivation.meaning = derivation'.meaning) : tier = tier' :=
  Option.some.inj ((derivation.nodeTier?_meaning own).symm.trans
    ((congrArg nodeTier? same).trans (derivation'.nodeTier?_meaning own')))

theorem mark_of_own {tier : Tier} (derivation : Derivation (.tier tier)) (own : tier.level = 12) (index : Nat) :
    Expr.mark (derivation.place numbered index).meaning = .spot ⟨index, 0⟩ := by
  cases derivation with
  | pass rule => cases rule <;> contradiction
  | join rule => cases rule <;> contradiction
  | block | ifOnly | ifElse | ifChain | loop | functionEmpty | function => rfl
  | _ => contradiction

theorem group_ne (inside : Derivation (.tier .expression)) {index : Nat} {expr : Expr}
    (same : (inside.place numbered (index + 1)).meaning = expr) : expr.mark ≠ .spot ⟨index, 0⟩ := by
  obtain ⟨first, le, marked, _⟩ := inside.placed (index + 1)
  rw [same] at marked
  rw [marked]
  rintro ⟨⟩
  omega

/-- Head tokens -/
theorem head_eq {category : Category} {derivation other : Derivation category} (filled : category ≠ .body)
    {rest rest' : List Token} (tokens_eq : derivation.tokens ++ rest = other.tokens ++ rest') :
    derivation.tokens.head? = other.tokens.head? := by
  obtain ⟨first, more, found⟩ := List.exists_cons_of_ne_nil (derivation.tokens_ne_nil filled)
  obtain ⟨first', more', found'⟩ := List.exists_cons_of_ne_nil (other.tokens_ne_nil filled)
  rw [found, found'] at tokens_eq ⊢
  exact congrArg some (List.cons.inj tokens_eq).1

variable {tier : Tier} {derivation other : Derivation (.tier tier)} {index : Nat}

/-- A node that a production builds is marked where it begins and is of the level of the production. A literal
with a sign is an atom by its node and not by its text. -/
theorem built_node (built : derivation.shape = .built) :
    (tier = .unary ∧ ∃ token rest, derivation.tokens = token :: rest ∧ token.kind = .symbol .minus) ∨
      Expr.mark (derivation.place numbered index).meaning = .spot ⟨index, 0⟩ ∧
        nodeLevel (derivation.place numbered index).meaning = tier.level := by
  cases derivation with
  | pass | group => contradiction
  | negativeInt sign | negativeFloat sign => exact .inl ⟨rfl, _, _, rfl, sign.fits⟩
  | join rule left =>
    have start := left.start_numbered (by simp) index
    exact .inr ⟨by simp [relabel, meaning, mark, Expr.mark, start], rule.level_eq⟩
  | store target | subscript target =>
    have start := target.start_numbered (by simp) index
    exact .inr ⟨by simp [relabel, meaning, mark, Expr.mark, start], rfl⟩
  | _ => exact .inr ⟨rfl, rfl⟩

theorem taken_of_same (taken : derivation.shape = .taken)
    (head : derivation.tokens.head? = other.tokens.head?)
    (same : (derivation.place numbered index).meaning = (other.place numbered index).meaning) :
    other.shape = .taken := by
  cases derivation with
  | pass rule inside =>
    have level := rule.level_lt
    cases shape : other.shape with
    | taken => rfl
    | grouped =>
      cases other with
      | group opening inside' closing =>
        exact absurd (inside.mark_of_own (rule.atom_level) index) (group_ne inside' same.symm)
      | _ => cases shape
    | built =>
      obtain ⟨rfl, first, rest, found, minus⟩ | ⟨marked, level'⟩ := other.built_node shape
      · cases rule with
        | operand =>
          rw [found] at head
          obtain ⟨rest', found'⟩ := List.head?_eq_some_iff.mp head
          exact absurd minus ((inside.head_kind (by simp) found').2 _ rfl (by decide))
      · have tighter := inside.pass_ne same marked
        omega
  | _ => cases taken

theorem grouped_of_same (grouped : derivation.shape = .grouped)
    (same : (derivation.place numbered index).meaning = (other.place numbered index).meaning) :
    other.shape = .grouped := by
  cases derivation with
  | group opening inside closing =>
    cases other with
    | pass rule inside' =>
      exact absurd (inside'.mark_of_own (rule.atom_level) index) (group_ne inside same)
    | join rule => cases rule
    | group => rfl
    | _ => exact absurd rfl (group_ne inside same)
  | _ => cases grouped

theorem shape_eq (head : derivation.tokens.head? = other.tokens.head?)
    (same : (derivation.place numbered index).meaning = (other.place numbered index).meaning) :
    derivation.shape = other.shape := by
  cases shape : derivation.shape with
  | taken => exact (taken_of_same shape head same).symm
  | grouped => exact (grouped_of_same shape same).symm
  | built =>
    cases shape' : other.shape with
    | taken => rw [taken_of_same shape' head.symm same.symm] at shape; contradiction
    | grouped => rw [grouped_of_same shape' same.symm] at shape; contradiction
    | built => rfl

/-! Settled productions -/

/-- The numbered tree and the text that follows settle the derivation. -/
def Settled {category : Category} (derivation : Derivation category) : Prop :=
  ∀ (other : Derivation category) (index : Nat) (rest rest' : List Token),
    (category = .body → Unseparated rest ∧ Unseparated rest') →
    derivation.tokens ++ rest = other.tokens ++ rest' →
    (derivation.place numbered index).meaning = (other.place numbered index).meaning →
    derivation = other ∧ rest = rest'

/-- A part of a derivation that ends where the rest begins. -/
theorem Settled.part {category : Category} {part other : Derivation category} (settled : Settled part)
    (filled : category ≠ .body) {index : Nat} {rest rest' : List Token}
    (tokens_eq : part.tokens ++ rest = other.tokens ++ rest')
    (same : (part.place numbered index).meaning = (other.place numbered index).meaning) :
    part = other ∧ rest = rest' :=
  settled other index rest rest' (fun body => absurd body filled) tokens_eq same

/-- For a single expression only productions of one shape need comparing. -/
theorem settled_of_shape {tier : Tier} {derivation : Derivation (.tier tier)}
    (settled : ∀ (other : Derivation (.tier tier)) (index : Nat) (rest rest' : List Token),
      derivation.shape = other.shape → derivation.tokens ++ rest = other.tokens ++ rest' →
      (derivation.place numbered index).meaning = (other.place numbered index).meaning →
      derivation = other ∧ rest = rest') : Settled derivation :=
  fun other index rest rest' _ tokens_eq same =>
    settled other index rest rest' (shape_eq (head_eq (by simp) tokens_eq) same) tokens_eq same

theorem Settled.pass {outer inner : Tier} {inside : Derivation (.tier inner)} (rule : Passes outer inner)
    (settled : Settled inside) : Settled (pass rule inside) := by
  refine settled_of_shape fun other index rest rest' shape tokens_eq same => ?_
  cases other with
  | @pass _ inner' rule' inside' =>
    have inner_eq : inner = inner' := by
      obtain found | ⟨own, own'⟩ := rule.unique rule'
      · exact found
      · exact own_tier_eq own own' same
    subst inner_eq
    obtain ⟨rfl, rest_eq⟩ := settled.part (by simp) tokens_eq same
    exact ⟨rfl, rest_eq⟩
  | _ => cases shape

theorem Settled.join {tier before after : Tier} {kind : Token.Kind} {joint : Joint}
    {left : Derivation (.tier before)} {sign : Leaf kind} {right : Derivation (.tier after)}
    (rule : Binary tier before kind after joint) (left_settled : Settled left) (right_settled : Settled right) :
    Settled (join rule left sign right) := by
  refine settled_of_shape fun other index rest rest' shape tokens_eq same => ?_
  cases other with
  | pass | group => cases shape
  | join rule' left' sign' right' =>
    obtain ⟨_, rfl, left_same, right_same⟩ := Expr.join.inj same
    obtain ⟨rfl, rfl, rfl⟩ := rule.unique rule'
    simp only [tokens, List.append_assoc, List.cons_append] at tokens_eq
    obtain ⟨rfl, from_sign⟩ := left_settled.part (by simp) tokens_eq left_same
    obtain ⟨rfl, from_right⟩ := Leaf.cons_inj from_sign
    obtain ⟨rfl, rest_eq⟩ := right_settled.part (by simp) from_right right_same
    exact ⟨rfl, rest_eq⟩
  | _ => cases same

theorem Settled.assign {name : Leaf .name} {sign : Sign .assign} {value : Derivation (.tier .expression)}
    (settled : Settled value) : Settled (assign name sign value) := by
  refine settled_of_shape fun other index rest rest' shape tokens_eq same => ?_
  cases other with
  | pass => cases shape
  | join rule => cases rule
  | assign name' sign' value' =>
    obtain ⟨rfl, from_sign⟩ := Leaf.cons_inj tokens_eq
    obtain ⟨rfl, from_value⟩ := Leaf.cons_inj from_sign
    obtain ⟨rfl, rest_eq⟩ := settled.part (by simp) from_value (Expr.assign.inj same).2.2
    exact ⟨rfl, rest_eq⟩
  | _ => cases same

theorem Settled.store {target : Derivation (.tier .operand)} {opening : Sign .openBracket}
    {place : Derivation (.tier .expression)} {closing : Sign .closeBracket} {sign : Sign .assign}
    {value : Derivation (.tier .expression)} (target_settled : Settled target) (place_settled : Settled place)
    (value_settled : Settled value) : Settled (store target opening place closing sign value) := by
  refine settled_of_shape fun other index rest rest' shape tokens_eq same => ?_
  cases other with
  | pass => cases shape
  | join rule => cases rule
  | store target' opening' place' closing' sign' value' =>
    obtain ⟨_, target_same, place_same, value_same⟩ := Expr.store.inj same
    simp only [tokens, List.append_assoc, List.cons_append] at tokens_eq
    obtain ⟨rfl, from_opening⟩ := target_settled.part (by simp) tokens_eq target_same
    obtain ⟨rfl, from_place⟩ := Leaf.cons_inj from_opening
    obtain ⟨rfl, from_closing⟩ := place_settled.part (by simp) from_place place_same
    obtain ⟨rfl, from_sign⟩ := Leaf.cons_inj from_closing
    obtain ⟨rfl, from_value⟩ := Leaf.cons_inj from_sign
    obtain ⟨rfl, rest_eq⟩ := value_settled.part (by simp) from_value value_same
    exact ⟨rfl, rest_eq⟩
  | _ => cases same

theorem Settled.subscript {target : Derivation (.tier .operand)} {opening : Sign .openBracket}
    {place : Derivation (.tier .expression)} {closing : Sign .closeBracket} (target_settled : Settled target)
    (place_settled : Settled place) : Settled (subscript target opening place closing) := by
  refine settled_of_shape fun other index rest rest' shape tokens_eq same => ?_
  cases other with
  | pass => cases shape
  | join rule => cases rule
  | subscript target' opening' place' closing' =>
    obtain ⟨_, target_same, place_same⟩ := Expr.subscript.inj same
    simp only [tokens, List.append_assoc, List.cons_append, List.nil_append] at tokens_eq
    obtain ⟨rfl, from_opening⟩ := target_settled.part (by simp) tokens_eq target_same
    obtain ⟨rfl, from_place⟩ := Leaf.cons_inj from_opening
    obtain ⟨rfl, from_closing⟩ := place_settled.part (by simp) from_place place_same
    obtain ⟨rfl, rest_eq⟩ := Leaf.cons_inj from_closing
    exact ⟨rfl, rest_eq⟩

theorem Settled.negate {word : Word .kwNot} {operand : Derivation (.tier .negation)}
    (settled : Settled operand) : Settled (negate word operand) := by
  refine settled_of_shape fun other index rest rest' shape tokens_eq same => ?_
  cases other with
  | pass => cases shape
  | join rule => cases rule
  | negate word' operand' =>
    obtain ⟨rfl, from_operand⟩ := Leaf.cons_inj tokens_eq
    obtain ⟨rfl, rest_eq⟩ := settled.part (by simp) from_operand (Expr.negate.inj same).2
    exact ⟨rfl, rest_eq⟩

theorem settled_negative {kind : Token.Kind} (number : Numeric kind) (sign : Sign .minus) (digits : Leaf kind) :
    Settled (negative number sign digits) := by
  refine settled_of_shape fun other index rest rest' shape tokens_eq _ => ?_
  obtain ⟨kind', number', sign', digits', rfl⟩ : ∃ (kind' : Token.Kind) (number' : Numeric kind') (sign' : Sign .minus)
      (digits' : Leaf kind'), other = negative number' sign' digits' := by
    cases other with
    | pass => cases number <;> cases shape
    | join rule => cases rule
    | negativeInt sign' digits' => exact ⟨_, .int, sign', digits', rfl⟩
    | negativeFloat sign' digits' => exact ⟨_, .float, sign', digits', rfl⟩
  rw [tokens_negative, tokens_negative] at tokens_eq
  obtain ⟨rfl, from_digits⟩ := Leaf.cons_inj tokens_eq
  obtain rfl : kind = kind' := by rw [← digits.fits, (List.cons.inj from_digits).1, digits'.fits]
  obtain rfl : number = number' := by cases number <;> cases number' <;> rfl
  obtain ⟨rfl, rest_eq⟩ := Leaf.cons_inj from_digits
  exact ⟨rfl, rest_eq⟩

/-! Atoms -/

theorem statements_ne_nil (derivation : Derivation .statements) : (derivation.meaning : List Expr) ≠ [] := by
  cases derivation <;> simp [meaning]

theorem items_ne_nil (derivation : Derivation .items) : (derivation.meaning : List Expr) ≠ [] := by
  cases derivation <;> simp [meaning]

theorem pairs_ne_nil (derivation : Derivation .pairs) : (derivation.meaning : List (Expr × Expr)) ≠ [] := by
  cases derivation <;> simp [meaning]

theorem parameters_ne_nil (derivation : Derivation .parameters) : (derivation.meaning : List String) ≠ [] := by
  cases derivation <;> simp [meaning]

theorem settled_callEmpty (name : Leaf .name) (opening : Sign .openParen) (closing : Sign .closeParen) :
    Settled (callEmpty name opening closing) := by
  refine settled_of_shape fun other index rest rest' shape tokens_eq same => ?_
  cases other with
  | pass | group => cases shape
  | join rule => cases rule
  | callEmpty name' opening' closing' =>
    obtain ⟨rfl, from_opening⟩ := Leaf.cons_inj tokens_eq
    obtain ⟨rfl, from_closing⟩ := Leaf.cons_inj from_opening
    obtain ⟨rfl, rest_eq⟩ := Leaf.cons_inj from_closing
    exact ⟨rfl, rest_eq⟩
  | call _ _ arguments => exact absurd (Expr.call.inj same).2.2.symm (items_ne_nil _)
  | _ => cases same

theorem Settled.call {name : Leaf .name} {opening : Sign .openParen} {arguments : Derivation .items}
    {closing : Sign .closeParen} (settled : Settled arguments) : Settled (call name opening arguments closing) := by
  refine settled_of_shape fun other index rest rest' shape tokens_eq same => ?_
  cases other with
  | pass | group => cases shape
  | join rule => cases rule
  | call name' opening' arguments' closing' =>
    simp only [tokens, List.append_assoc, List.cons_append, List.nil_append] at tokens_eq
    obtain ⟨rfl, from_opening⟩ := Leaf.cons_inj tokens_eq
    obtain ⟨rfl, from_arguments⟩ := Leaf.cons_inj from_opening
    obtain ⟨rfl, from_closing⟩ := settled.part (by simp) from_arguments (Expr.call.inj same).2.2
    obtain ⟨rfl, rest_eq⟩ := Leaf.cons_inj from_closing
    exact ⟨rfl, rest_eq⟩
  | callEmpty => exact absurd (Expr.call.inj same).2.2 (items_ne_nil _)
  | _ => cases same

theorem settled_printEmpty (newline : Bool) (word : Word (printWord newline)) (opening : Sign .openParen)
    (closing : Sign .closeParen) : Settled (printEmpty newline word opening closing) := by
  refine settled_of_shape fun other index rest rest' shape tokens_eq same => ?_
  cases other with
  | pass | group => cases shape
  | join rule => cases rule
  | printEmpty newline' word' opening' closing' =>
    obtain ⟨_, _, rfl⟩ := Expr.print.inj same
    obtain ⟨rfl, from_opening⟩ := Leaf.cons_inj tokens_eq
    obtain ⟨rfl, from_closing⟩ := Leaf.cons_inj from_opening
    obtain ⟨rfl, rest_eq⟩ := Leaf.cons_inj from_closing
    exact ⟨rfl, rest_eq⟩
  | print _ _ _ shown => exact absurd rfl (shown.mark_ne_absent (Expr.print.inj same).2.1.symm)
  | _ => cases same

theorem Settled.print {newline : Bool} {word : Word (printWord newline)} {opening : Sign .openParen}
    {shown : Derivation (.tier .expression)} {closing : Sign .closeParen} (settled : Settled shown) :
    Settled (print newline word opening shown closing) := by
  refine settled_of_shape fun other index rest rest' shape tokens_eq same => ?_
  cases other with
  | pass | group => cases shape
  | join rule => cases rule
  | print newline' word' opening' shown' closing' =>
    obtain ⟨_, shown_same, rfl⟩ := Expr.print.inj same
    simp only [tokens, List.append_assoc, List.cons_append, List.nil_append] at tokens_eq
    obtain ⟨rfl, from_opening⟩ := Leaf.cons_inj tokens_eq
    obtain ⟨rfl, from_shown⟩ := Leaf.cons_inj from_opening
    obtain ⟨rfl, from_closing⟩ := settled.part (by simp) from_shown shown_same
    obtain ⟨rfl, rest_eq⟩ := Leaf.cons_inj from_closing
    exact ⟨rfl, rest_eq⟩
  | printEmpty => exact absurd rfl (shown.mark_ne_absent (Expr.print.inj same).2.1)
  | _ => cases same

theorem Settled.group {opening : Sign .openParen} {inside : Derivation (.tier .expression)}
    {closing : Sign .closeParen} (settled : Settled inside) : Settled (group opening inside closing) := by
  refine settled_of_shape fun other index rest rest' shape tokens_eq same => ?_
  cases other with
  | join rule => cases rule
  | group opening' inside' closing' =>
    simp only [tokens, List.append_assoc, List.cons_append, List.nil_append] at tokens_eq
    obtain ⟨rfl, from_inside⟩ := Leaf.cons_inj tokens_eq
    obtain ⟨rfl, from_closing⟩ := settled.part (by simp) from_inside same
    obtain ⟨rfl, rest_eq⟩ := Leaf.cons_inj from_closing
    exact ⟨rfl, rest_eq⟩
  | _ => cases shape

theorem settled_listEmpty (opening : Sign .openBracket) (closing : Sign .closeBracket) :
    Settled (listEmpty opening closing) := by
  refine settled_of_shape fun other index rest rest' shape tokens_eq same => ?_
  cases other with
  | pass | group => cases shape
  | join rule => cases rule
  | listEmpty opening' closing' =>
    obtain ⟨rfl, from_closing⟩ := Leaf.cons_inj tokens_eq
    obtain ⟨rfl, rest_eq⟩ := Leaf.cons_inj from_closing
    exact ⟨rfl, rest_eq⟩
  | list => exact absurd (Expr.list.inj same).2.symm (items_ne_nil _)
  | _ => cases same

theorem Settled.list {opening : Sign .openBracket} {elements : Derivation .items}
    {closing : Sign .closeBracket} (settled : Settled elements) : Settled (list opening elements closing) := by
  refine settled_of_shape fun other index rest rest' shape tokens_eq same => ?_
  cases other with
  | pass | group => cases shape
  | join rule => cases rule
  | list opening' elements' closing' =>
    simp only [tokens, List.append_assoc, List.cons_append, List.nil_append] at tokens_eq
    obtain ⟨rfl, from_elements⟩ := Leaf.cons_inj tokens_eq
    obtain ⟨rfl, from_closing⟩ := settled.part (by simp) from_elements (Expr.list.inj same).2
    obtain ⟨rfl, rest_eq⟩ := Leaf.cons_inj from_closing
    exact ⟨rfl, rest_eq⟩
  | listEmpty => exact absurd (Expr.list.inj same).2 (items_ne_nil _)
  | _ => cases same

theorem settled_dictEmpty (opening : Sign .openBracket) (colon : Sign .colon) (closing : Sign .closeBracket) :
    Settled (dictEmpty opening colon closing) := by
  refine settled_of_shape fun other index rest rest' shape tokens_eq same => ?_
  cases other with
  | pass | group => cases shape
  | join rule => cases rule
  | dictEmpty opening' colon' closing' =>
    obtain ⟨rfl, from_colon⟩ := Leaf.cons_inj tokens_eq
    obtain ⟨rfl, from_closing⟩ := Leaf.cons_inj from_colon
    obtain ⟨rfl, rest_eq⟩ := Leaf.cons_inj from_closing
    exact ⟨rfl, rest_eq⟩
  | dict => exact absurd (Expr.dict.inj same).2.symm (pairs_ne_nil _)
  | _ => cases same

theorem Settled.dict {opening : Sign .openBracket} {entries : Derivation .pairs}
    {closing : Sign .closeBracket} (settled : Settled entries) : Settled (dict opening entries closing) := by
  refine settled_of_shape fun other index rest rest' shape tokens_eq same => ?_
  cases other with
  | pass | group => cases shape
  | join rule => cases rule
  | dict opening' entries' closing' =>
    simp only [tokens, List.append_assoc, List.cons_append, List.nil_append] at tokens_eq
    obtain ⟨rfl, from_entries⟩ := Leaf.cons_inj tokens_eq
    obtain ⟨rfl, from_closing⟩ := settled.part (by simp) from_entries (Expr.dict.inj same).2
    obtain ⟨rfl, rest_eq⟩ := Leaf.cons_inj from_closing
    exact ⟨rfl, rest_eq⟩
  | dictEmpty => exact absurd (Expr.dict.inj same).2 (pairs_ne_nil _)
  | _ => cases same

/-! Compound expressions -/

theorem Settled.block {opening : Sign .openBrace} {body : Derivation .body} {closing : Sign .closeBrace}
    (settled : Settled body) : Settled (block opening body closing) := by
  refine settled_of_shape fun other index rest rest' shape tokens_eq same => ?_
  cases other with
  | pass => cases shape
  | join rule => cases rule
  | block opening' body' closing' =>
    simp only [tokens, List.append_assoc, List.cons_append, List.nil_append] at tokens_eq
    obtain ⟨rfl, from_body⟩ := Leaf.cons_inj tokens_eq
    have unseparated : ∀ (leaf : Sign .closeBrace) (rest : List Token), Unseparated (leaf.token :: rest) :=
      fun leaf rest => .cons (by simp [leaf.fits])
    obtain ⟨rfl, from_closing⟩ := settled body' _ _ _ (fun _ => ⟨unseparated _ _, unseparated _ _⟩) from_body
      (Expr.block.inj same).2
    obtain ⟨rfl, rest_eq⟩ := Leaf.cons_inj from_closing
    exact ⟨rfl, rest_eq⟩

theorem Settled.ifOnly {word : Word .kwIf} {condition : Derivation (.tier .expression)}
    {yes : Derivation (.tier .block)} (condition_settled : Settled condition) (yes_settled : Settled yes) :
    Settled (ifOnly word condition yes) := by
  refine settled_of_shape fun other index rest rest' shape tokens_eq same => ?_
  cases other with
  | pass => cases shape
  | join rule => cases rule
  | ifOnly word' condition' yes' =>
    obtain ⟨_, condition_same, yes_same, _⟩ := Expr.conditional.inj same
    simp only [tokens, List.append_assoc, List.cons_append] at tokens_eq
    obtain ⟨rfl, from_condition⟩ := Leaf.cons_inj tokens_eq
    obtain ⟨rfl, from_yes⟩ := condition_settled.part (by simp) from_condition condition_same
    obtain ⟨rfl, rest_eq⟩ := yes_settled.part (by simp) from_yes yes_same
    exact ⟨rfl, rest_eq⟩
  | ifElse _ _ _ _ no | ifChain _ _ _ _ no =>
    exact absurd rfl (no.mark_ne_absent (Expr.conditional.inj same).2.2.2.symm)

theorem level_otherwise {tier : Tier} (behind : Otherwise tier) : tier.level = 12 := by cases behind <;> rfl

theorem Settled.withElse {tier : Tier} (behind : Otherwise tier) {word : Word .kwIf}
    {condition : Derivation (.tier .expression)} {yes : Derivation (.tier .block)} {otherwise : Word .kwElse}
    {no : Derivation (.tier tier)} (condition_settled : Settled condition) (yes_settled : Settled yes)
    (no_settled : Settled no) : Settled (withElse behind word condition yes otherwise no) := by
  refine settled_of_shape fun other index rest rest' shape tokens_eq same => ?_
  rw [place, relabel_withElse, meaning_withElse] at same
  obtain ⟨tier', behind', word', condition', yes', otherwise', no', rfl⟩ : ∃ (tier' : Tier) (behind' : Otherwise tier')
      (word' : Word .kwIf) (condition' : Derivation (.tier .expression)) (yes' : Derivation (.tier .block))
      (otherwise' : Word .kwElse) (no' : Derivation (.tier tier')),
      other = Derivation.withElse behind' word' condition' yes' otherwise' no' := by
    cases other with
    | pass => cases behind <;> cases shape
    | join rule => cases rule
    | ifOnly => exact absurd rfl (no.mark_ne_absent (Expr.conditional.inj same).2.2.2)
    | ifElse word' condition' yes' otherwise' no' => exact ⟨_, .block, word', condition', yes', otherwise', no', rfl⟩
    | ifChain word' condition' yes' otherwise' no' =>
      exact ⟨_, .conditional, word', condition', yes', otherwise', no', rfl⟩
  rw [place, relabel_withElse, meaning_withElse] at same
  obtain ⟨_, condition_same, yes_same, no_same⟩ := Expr.conditional.inj same
  simp only [tokens_withElse, List.append_assoc, List.cons_append] at tokens_eq
  obtain ⟨rfl, from_condition⟩ := Leaf.cons_inj tokens_eq
  obtain ⟨rfl, from_yes⟩ := condition_settled.part (by simp) from_condition condition_same
  obtain ⟨rfl, from_otherwise⟩ := yes_settled.part (by simp) from_yes yes_same
  obtain ⟨rfl, from_no⟩ := Leaf.cons_inj from_otherwise
  obtain rfl : tier = tier' := own_tier_eq (level_otherwise behind) (level_otherwise behind') no_same
  obtain rfl : behind = behind' := by cases behind <;> cases behind' <;> rfl
  obtain ⟨rfl, rest_eq⟩ := no_settled.part (by simp) from_no no_same
  exact ⟨rfl, rest_eq⟩

theorem Settled.loop {word : Word .kwFor} {item : Leaf .name} {among : Word .kwIn}
    {source : Derivation (.tier .expression)} {body : Derivation (.tier .block)}
    (source_settled : Settled source) (body_settled : Settled body) :
    Settled (loop word item among source body) := by
  refine settled_of_shape fun other index rest rest' shape tokens_eq same => ?_
  cases other with
  | pass => cases shape
  | join rule => cases rule
  | loop word' item' among' source' body' =>
    obtain ⟨_, _, source_same, body_same⟩ := Expr.loop.inj same
    simp only [tokens, List.append_assoc, List.cons_append] at tokens_eq
    obtain ⟨rfl, from_item⟩ := Leaf.cons_inj tokens_eq
    obtain ⟨rfl, from_among⟩ := Leaf.cons_inj from_item
    obtain ⟨rfl, from_source⟩ := Leaf.cons_inj from_among
    obtain ⟨rfl, from_body⟩ := source_settled.part (by simp) from_source source_same
    obtain ⟨rfl, rest_eq⟩ := body_settled.part (by simp) from_body body_same
    exact ⟨rfl, rest_eq⟩

theorem Settled.functionEmpty {word : Word .kwFn} {name : Leaf .name} {opening : Sign .openParen}
    {closing : Sign .closeParen} {body : Derivation (.tier .block)} (settled : Settled body) :
    Settled (functionEmpty word name opening closing body) := by
  refine settled_of_shape fun other index rest rest' shape tokens_eq same => ?_
  cases other with
  | pass => cases shape
  | join rule => cases rule
  | functionEmpty word' name' opening' closing' body' =>
    obtain ⟨rfl, from_name⟩ := Leaf.cons_inj tokens_eq
    obtain ⟨rfl, from_opening⟩ := Leaf.cons_inj from_name
    obtain ⟨rfl, from_closing⟩ := Leaf.cons_inj from_opening
    obtain ⟨rfl, from_body⟩ := Leaf.cons_inj from_closing
    obtain ⟨rfl, rest_eq⟩ := settled.part (by simp) from_body (Expr.function.inj same).2.2.2
    exact ⟨rfl, rest_eq⟩
  | function => exact absurd (Expr.function.inj same).2.2.1.symm (parameters_ne_nil _)

theorem Settled.function {word : Word .kwFn} {name : Leaf .name} {opening : Sign .openParen}
    {parameters : Derivation .parameters} {closing : Sign .closeParen} {body : Derivation (.tier .block)}
    (parameters_settled : Settled parameters) (body_settled : Settled body) :
    Settled (function word name opening parameters closing body) := by
  refine settled_of_shape fun other index rest rest' shape tokens_eq same => ?_
  cases other with
  | pass => cases shape
  | join rule => cases rule
  | function word' name' opening' parameters' closing' body' =>
    obtain ⟨_, _, parameters_same, body_same⟩ := Expr.function.inj same
    simp only [tokens, List.append_assoc, List.cons_append] at tokens_eq
    obtain ⟨rfl, from_name⟩ := Leaf.cons_inj tokens_eq
    obtain ⟨rfl, from_opening⟩ := Leaf.cons_inj from_name
    obtain ⟨rfl, from_parameters⟩ := Leaf.cons_inj from_opening
    obtain ⟨rfl, from_closing⟩ := parameters_settled.part (by simp) from_parameters parameters_same
    obtain ⟨rfl, from_body⟩ := Leaf.cons_inj from_closing
    obtain ⟨rfl, rest_eq⟩ := body_settled.part (by simp) from_body body_same
    exact ⟨rfl, rest_eq⟩
  | functionEmpty => exact absurd (Expr.function.inj same).2.2.1 (parameters_ne_nil _)

/-! Series -/

theorem append_singleton_ne {α : Type} {front : List α} {only last : α} (filled : front ≠ []) :
    [only] ≠ front ++ [last] := by
  intro same
  obtain ⟨_, _, rfl⟩ := List.exists_cons_of_ne_nil filled
  simp at same

theorem Settled.oneStatement {only : Derivation (.tier .expression)} (settled : Settled only) :
    Settled (oneStatement only) := by
  intro other index rest rest' _ tokens_eq same
  cases other with
  | oneStatement only' =>
    obtain ⟨rfl, rest_eq⟩ := settled.part (by simp) tokens_eq (List.cons.inj same).1
    exact ⟨rfl, rest_eq⟩
  | moreStatements => exact absurd same (append_singleton_ne (statements_ne_nil _))

theorem Settled.moreStatements {front : Derivation .statements} {separator : Separator}
    {last : Derivation (.tier .expression)} (front_settled : Settled front) (last_settled : Settled last) :
    Settled (moreStatements front separator last) := by
  intro other index rest rest' _ tokens_eq same
  cases other with
  | oneStatement => exact absurd same.symm (append_singleton_ne (statements_ne_nil _))
  | moreStatements front' separator' last' =>
    obtain ⟨front_same, last_same⟩ := List.append_inj' same rfl
    simp only [tokens, List.append_assoc, List.cons_append] at tokens_eq
    obtain ⟨rfl, from_separator⟩ := front_settled.part (by simp) tokens_eq front_same
    obtain ⟨rfl, from_last⟩ := Leaf.cons_inj from_separator
    obtain ⟨rfl, rest_eq⟩ := last_settled.part (by simp) from_last (List.cons.inj last_same).1
    exact ⟨rfl, rest_eq⟩

theorem Settled.oneItem {only : Derivation (.tier .expression)} (settled : Settled only) :
    Settled (oneItem only) := by
  intro other index rest rest' _ tokens_eq same
  cases other with
  | oneItem only' =>
    obtain ⟨rfl, rest_eq⟩ := settled.part (by simp) tokens_eq (List.cons.inj same).1
    exact ⟨rfl, rest_eq⟩
  | moreItems => exact absurd same (append_singleton_ne (items_ne_nil _))

theorem Settled.moreItems {front : Derivation .items} {comma : Sign .comma}
    {last : Derivation (.tier .expression)} (front_settled : Settled front) (last_settled : Settled last) :
    Settled (moreItems front comma last) := by
  intro other index rest rest' _ tokens_eq same
  cases other with
  | oneItem => exact absurd same.symm (append_singleton_ne (items_ne_nil _))
  | moreItems front' comma' last' =>
    obtain ⟨front_same, last_same⟩ := List.append_inj' same rfl
    simp only [tokens, List.append_assoc, List.cons_append] at tokens_eq
    obtain ⟨rfl, from_comma⟩ := front_settled.part (by simp) tokens_eq front_same
    obtain ⟨rfl, from_last⟩ := Leaf.cons_inj from_comma
    obtain ⟨rfl, rest_eq⟩ := last_settled.part (by simp) from_last (List.cons.inj last_same).1
    exact ⟨rfl, rest_eq⟩

theorem Settled.onePair {key : Derivation (.tier .expression)} {colon : Sign .colon}
    {value : Derivation (.tier .expression)} (key_settled : Settled key) (value_settled : Settled value) :
    Settled (onePair key colon value) := by
  intro other index rest rest' _ tokens_eq same
  cases other with
  | onePair key' colon' value' =>
    obtain ⟨key_same, value_same⟩ := Prod.mk.inj (List.cons.inj same).1
    simp only [tokens, List.append_assoc, List.cons_append] at tokens_eq
    obtain ⟨rfl, from_colon⟩ := key_settled.part (by simp) tokens_eq key_same
    obtain ⟨rfl, from_value⟩ := Leaf.cons_inj from_colon
    obtain ⟨rfl, rest_eq⟩ := value_settled.part (by simp) from_value value_same
    exact ⟨rfl, rest_eq⟩
  | morePairs => exact absurd same (append_singleton_ne (pairs_ne_nil _))

theorem Settled.morePairs {front : Derivation .pairs} {comma : Sign .comma}
    {key : Derivation (.tier .expression)} {colon : Sign .colon} {value : Derivation (.tier .expression)}
    (front_settled : Settled front) (key_settled : Settled key) (value_settled : Settled value) :
    Settled (morePairs front comma key colon value) := by
  intro other index rest rest' _ tokens_eq same
  cases other with
  | onePair => exact absurd same.symm (append_singleton_ne (pairs_ne_nil _))
  | morePairs front' comma' key' colon' value' =>
    obtain ⟨front_same, last_same⟩ := List.append_inj' same rfl
    obtain ⟨key_same, value_same⟩ := Prod.mk.inj (List.cons.inj last_same).1
    simp only [tokens, List.append_assoc, List.cons_append] at tokens_eq
    obtain ⟨rfl, from_comma⟩ := front_settled.part (by simp) tokens_eq front_same
    obtain ⟨rfl, from_key⟩ := Leaf.cons_inj from_comma
    obtain ⟨rfl, from_colon⟩ := key_settled.part (by simp) from_key key_same
    obtain ⟨rfl, from_value⟩ := Leaf.cons_inj from_colon
    obtain ⟨rfl, rest_eq⟩ := value_settled.part (by simp) from_value value_same
    exact ⟨rfl, rest_eq⟩

theorem settled_oneParameter (only : Leaf .name) : Settled (oneParameter only) := by
  intro other index rest rest' _ tokens_eq same
  cases other with
  | oneParameter only' =>
    obtain ⟨rfl, rest_eq⟩ := Leaf.cons_inj tokens_eq
    exact ⟨rfl, rest_eq⟩
  | moreParameters => exact absurd same (append_singleton_ne (parameters_ne_nil _))

theorem Settled.moreParameters {front : Derivation .parameters} {comma : Sign .comma} {last : Leaf .name}
    (settled : Settled front) : Settled (moreParameters front comma last) := by
  intro other index rest rest' _ tokens_eq same
  cases other with
  | oneParameter => exact absurd same.symm (append_singleton_ne (parameters_ne_nil _))
  | moreParameters front' comma' last' =>
    simp only [tokens, List.append_assoc, List.cons_append, List.nil_append] at tokens_eq
    obtain ⟨rfl, from_comma⟩ := settled.part (by simp) tokens_eq (List.append_inj' same rfl).1
    obtain ⟨rfl, from_last⟩ := Leaf.cons_inj from_comma
    obtain ⟨rfl, rest_eq⟩ := Leaf.cons_inj from_last
    exact ⟨rfl, rest_eq⟩

theorem settled_empty (lead : Option Separator) : Settled (empty lead) := by
  intro other index rest rest' unseparated tokens_eq same
  obtain ⟨bare, bare'⟩ := unseparated rfl
  cases other with
  | empty lead' =>
    obtain ⟨rfl, rest_eq⟩ := optional_inj tokens_eq bare bare'
    exact ⟨rfl, rest_eq⟩
  | filled => exact absurd same.symm (statements_ne_nil _)

theorem Settled.filled {lead trail : Option Separator} {all : Derivation .statements}
    (settled : Settled all) : Settled (filled lead all trail) := by
  intro other index rest rest' unseparated tokens_eq same
  obtain ⟨bare, bare'⟩ := unseparated rfl
  cases other with
  | empty => exact absurd same (statements_ne_nil _)
  | filled lead' all' trail' =>
    simp only [tokens, List.append_assoc] at tokens_eq
    obtain ⟨rfl, from_all⟩ :=
      optional_inj tokens_eq (all.unseparated (by simp) _) (all'.unseparated (by simp) _)
    obtain ⟨rfl, from_trail⟩ := settled.part (by simp) from_all same
    obtain ⟨rfl, rest_eq⟩ := optional_inj from_trail bare bare'
    exact ⟨rfl, rest_eq⟩

theorem settled {category : Category} (derivation : Derivation category) : Settled derivation := by
  induction derivation with
  | empty lead => exact settled_empty lead
  | filled _ _ _ ih => exact ih.filled
  | oneStatement _ ih => exact ih.oneStatement
  | moreStatements _ _ _ ih ih' => exact ih.moreStatements ih'
  | pass rule _ ih => exact ih.pass rule
  | assign _ _ _ ih => exact ih.assign
  | store _ _ _ _ _ _ ih ih' ih'' => exact ih.store ih' ih''
  | join rule _ _ _ ih ih' => exact ih.join rule ih'
  | negate _ _ ih => exact ih.negate
  | negativeInt sign digits => exact settled_negative .int sign digits
  | negativeFloat sign digits => exact settled_negative .float sign digits
  | subscript _ _ _ _ ih ih' => exact ih.subscript ih'
  | int leaf | float leaf | string leaf | truth leaf | falsity leaf | nothing leaf | identifier leaf =>
    refine settled_of_shape fun other index rest rest' shape tokens_eq same => ?_
    cases other with
    | pass | group => cases shape
    | join rule => cases rule
    | int leaf' | float leaf' | string leaf' | truth leaf' | falsity leaf' | nothing leaf'
    | identifier leaf' =>
      -- Two leaves of different kinds build different nodes.
      first
      | exact (Leaf.cons_inj tokens_eq).imp_left (congrArg _)
      | exact absurd (Expr.literal.inj same).2.2 (by decide)
      | cases same
    | _ => cases same
  | callEmpty name opening closing => exact settled_callEmpty name opening closing
  | call _ _ _ _ ih => exact ih.call
  | printEmpty newline word opening closing => exact settled_printEmpty newline word opening closing
  | print _ _ _ _ _ ih => exact ih.print
  | group _ _ _ ih => exact ih.group
  | listEmpty opening closing => exact settled_listEmpty opening closing
  | list _ _ _ ih => exact ih.list
  | dictEmpty opening colon closing => exact settled_dictEmpty opening colon closing
  | dict _ _ _ ih => exact ih.dict
  | oneItem _ ih => exact ih.oneItem
  | moreItems _ _ _ ih ih' => exact ih.moreItems ih'
  | onePair _ _ _ ih ih' => exact ih.onePair ih'
  | morePairs _ _ _ _ _ ih ih' ih'' => exact ih.morePairs ih' ih''
  | block _ _ _ ih => exact ih.block
  | ifOnly _ _ _ ih ih' => exact ih.ifOnly ih'
  | ifElse _ _ _ _ _ ih ih' ih'' => exact ih.withElse .block ih' ih''
  | ifChain _ _ _ _ _ ih ih' ih'' => exact ih.withElse .conditional ih' ih''
  | loop _ _ _ _ _ ih ih' => exact ih.loop ih'
  | functionEmpty _ _ _ _ _ ih => exact ih.functionEmpty
  | function _ _ _ _ _ _ ih ih' => exact ih.function ih'
  | oneParameter only => exact settled_oneParameter only
  | moreParameters _ _ _ ih => exact ih.moreParameters

theorem unseparated_nil : Unseparated [] := by
  rintro _ _ ⟨⟩

/-- No text has two derivations. -/
theorem eq_of_tokens_eq {derivation other : Derivation .body} (tokens_eq : derivation.tokens = other.tokens) :
    derivation = other := by
  -- Reading the numbered text gives one tree, the numbered tree of both.
  have read := ofSplit_of_derivation (derivation.place numbered 0)
  rw [tokens_place, tokens_eq, ← tokens_place, ofSplit_of_derivation] at read
  obtain ⟨_, same⟩ := Expr.block.inj (Except.ok.inj read)
  exact (derivation.settled other 0 [] [] (fun _ => ⟨unseparated_nil, unseparated_nil⟩) (by simpa using tokens_eq)
    same.symm).1

end Derivation

/-- The trees that are read from tokens are those of their derivations, marks included. -/
theorem ofSplit_eq_ok_iff {tokens : List Token} {tree : Expr} :
    Parser.ofSplit ⟨tokens, none⟩ = .ok tree ↔
      ∃ derivation : Derivation .body, derivation.tokens = tokens ∧ derivation.program = tree := by
  constructor
  · exact exists_derivation_of_ofSplit
  · rintro ⟨derivation, rfl, rfl⟩
    exact ofSplit_of_derivation derivation

/-- Reading accepts exactly the texts that the grammar derives and builds exactly their trees, and no text has two
derivations. -/
theorem reads_iff_derives (tokens : List Token) :
    (∀ tree : Expr,
      (∃ found, Parser.ofSplit ⟨tokens, none⟩ = .ok found ∧ found.bare = tree) ↔
        ∃ derivation : Derivation .body, derivation.tokens = tokens ∧ derivation.program.bare = tree) ∧
    ∀ derivation other : Derivation .body, derivation.tokens = tokens → other.tokens = tokens →
      derivation = other := by
  refine ⟨fun tree => ⟨?_, ?_⟩, fun derivation other derives derives' => ?_⟩
  · rintro ⟨found, read, rfl⟩
    obtain ⟨derivation, derives, rfl⟩ := ofSplit_eq_ok_iff.mp read
    exact ⟨derivation, derives, rfl⟩
  · rintro ⟨derivation, derives, rfl⟩
    exact ⟨_, ofSplit_eq_ok_iff.mpr ⟨derivation, derives, rfl⟩, rfl⟩
  · exact Derivation.eq_of_tokens_eq (derives.trans derives'.symm)

end Corvid.Grammar
