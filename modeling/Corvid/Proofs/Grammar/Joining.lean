import Corvid.Proofs.Grammar.Unambiguity
import Corvid.Proofs.Marks.Remark
import Corvid.Proofs.Token.Joining

/-!
One program after another. With a separator between them, in place of those that they end and begin with, two
programs make one program, which has the statements of both.
-/
namespace Corvid.Grammar

/-! Moved derivations -/

/-- What a derivation stands for, with its marks changed. -/
def Category.remark (change : Mark → Mark) : (category : Category) → category.Meaning → category.Meaning
  | .tier _, expr => Expr.remark change expr
  | .body, exprs | .statements, exprs | .items, exprs => List.map (Expr.remark change) exprs
  | .pairs, all => List.map (fun pair => (Expr.remark change pair.1, Expr.remark change pair.2)) all
  | .parameters, names => names

namespace Derivation

theorem start_place (moved : Position → Position) {category : Category} (derivation : Derivation category)
    (filled : category ≠ .body) (index : Nat) :
    (derivation.place (fun _ => moved) index).start = moved derivation.start := by
  obtain ⟨first, more, found⟩ := List.exists_cons_of_ne_nil (derivation.tokens_ne_nil filled)
  simp [start, found]

/-- A derivation whose tokens are moved stands for the same, with its marks moved. -/
theorem meaning_place {moved : Position → Position} {change : Mark → Mark} (absent : change .absent = .absent)
    (spot : ∀ position, change (.spot position) = .spot (moved position)) {category : Category}
    (derivation : Derivation category) (index : Nat) :
    (derivation.place (fun _ => moved) index).meaning = category.remark change derivation.meaning := by
  induction derivation generalizing index with
  | _ => simp [relabel, meaning, mark, Token.mark, Category.remark, Expr.remark, start_place, *]

/-- What a derivation stands for, marks aside, depends on the texts of its tokens alone, and not on those of its
separators. -/
theorem unmark_relabel {change : Relabeling}
    (texts : ∀ index old, old.kind ≠ .separator → (change.token index old).text = old.text) {category : Category}
    (derivation : Derivation category) (index : Nat) :
    category.remark unmark (derivation.relabel change index).meaning = category.remark unmark derivation.meaning := by
  have kept {kind : Token.Kind} (leaf : Leaf kind) (solid : kind ≠ .separator) (index : Nat) :
      (change.token index leaf.token).text = leaf.token.text :=
    texts index leaf.token (by rwa [leaf.fits])
  induction derivation generalizing index with
  | _ => simp_all [relabel, meaning, Category.remark, Expr.remark, unmark]

end Derivation

/-- The expressions that a derivation stands for, in the order in which they are written. -/
def Category.exprs : (category : Category) → category.Meaning → List Expr
  | .tier _, expr => [expr]
  | .body, exprs | .statements, exprs | .items, exprs => exprs
  | .pairs, all => all.flatMap fun pair => [pair.1, pair.2]
  | .parameters, _ => []

/-- Every expression that a derivation stands for knows its place. -/
theorem Derivation.marked {category : Category} (derivation : Derivation category) :
    ∀ expr ∈ category.exprs derivation.meaning, expr.mark ≠ .absent := by
  induction derivation with
  | pass _ _ ih | group _ _ _ ih | filled _ _ _ ih | oneStatement _ ih | oneItem _ ih => exact ih
  | empty | oneParameter | moreParameters => exact List.forall_mem_nil _
  | moreStatements _ _ _ ih ih' | moreItems _ _ _ ih ih' => exact List.forall_mem_append.mpr ⟨ih, ih'⟩
  | onePair _ _ _ ih ih' => exact List.forall_mem_cons.mpr ⟨ih _ (List.mem_singleton_self _), ih'⟩
  | morePairs front comma key colon value ih ih' ih'' =>
    rw [meaning, Category.exprs, List.flatMap_append]
    exact List.forall_mem_append.mpr ⟨ih, List.forall_mem_cons.mpr ⟨ih' _ (List.mem_singleton_self _), ih''⟩⟩
  | _ => exact List.forall_mem_singleton.mpr Mark.noConfusion

/-! Ends of derivations -/

/-- A text whose last token is no separator. -/
def Ends (tokens : List Token) : Prop := ∃ front last, tokens = front ++ [last] ∧ last.kind ≠ .separator

theorem Ends.behind {tokens : List Token} (front : List Token) (ends : Ends tokens) : Ends (front ++ tokens) := by
  obtain ⟨before, last, rfl, solid⟩ := ends
  exact ⟨front ++ before, last, by simp, solid⟩

theorem Ends.cons {tokens : List Token} (first : Token) (ends : Ends tokens) : Ends (first :: tokens) :=
  ends.behind [first]

theorem ends_leaf {kind : Token.Kind} (leaf : Leaf kind) (solid : kind ≠ .separator) : Ends [leaf.token] :=
  ⟨[], leaf.token, rfl, fun same => solid (leaf.fits.symm.trans same)⟩

namespace Derivation

/-- Only the inside of a program or a block ends with a separator. -/
theorem ends {category : Category} (derivation : Derivation category) (filled : category ≠ .body) :
    Ends derivation.tokens := by
  induction derivation with
  | empty | filled => exact absurd rfl filled
  | pass _ _ ih | oneStatement _ ih | oneItem _ ih => exact ih (by simp)
  | negate _ _ ih => exact (ih (by simp)).cons _
  | assign _ _ _ ih => exact ((ih (by simp)).cons _).cons _
  | moreStatements _ _ _ _ ih | moreItems _ _ _ _ ih | onePair _ _ _ _ ih | join _ _ _ _ _ ih =>
    exact ((ih (by simp)).cons _).behind _
  | morePairs _ _ _ _ _ _ _ ih => exact ((((ih (by simp)).cons _).behind _).cons _).behind _
  | store _ _ _ _ _ _ _ _ ih => exact (((((ih (by simp)).cons _).cons _).behind _).cons _).behind _
  | ifOnly _ _ _ _ ih => exact ((ih (by simp)).behind _).cons _
  | ifElse _ _ _ _ _ _ _ ih | ifChain _ _ _ _ _ _ _ ih => exact (((ih (by simp)).cons _).behind _).cons _
  | loop _ _ _ _ _ _ ih => exact ((((ih (by simp)).behind _).cons _).cons _).cons _
  | functionEmpty _ _ _ _ _ ih => exact ((((ih (by simp)).cons _).cons _).cons _).cons _
  | function _ _ _ _ _ _ _ ih => exact (((((ih (by simp)).cons _).behind _).cons _).cons _).cons _
  | int leaf | float leaf | string leaf | truth leaf | falsity leaf | nothing leaf | identifier leaf
  | oneParameter leaf => exact ends_leaf leaf (by simp)
  | negativeInt _ leaf | negativeFloat _ leaf | listEmpty _ leaf => exact (ends_leaf leaf (by simp)).cons _
  | callEmpty _ _ leaf | printEmpty _ _ _ leaf | dictEmpty _ _ leaf =>
    exact ((ends_leaf leaf (by simp)).cons _).cons _
  | group _ _ leaf | list _ _ leaf | dict _ _ leaf | block _ _ leaf =>
    exact ((ends_leaf leaf (by simp)).behind _).cons _
  | call _ _ _ leaf | print _ _ _ _ leaf => exact (((ends_leaf leaf (by simp)).behind _).cons _).cons _
  | subscript _ _ _ leaf => exact (((ends_leaf leaf (by simp)).behind _).cons _).behind _
  | moreParameters _ _ leaf => exact ((ends_leaf leaf (by simp)).cons _).behind _

end Derivation

theorem withoutTrail_append_optional {front : List Token} (trail : Option Separator)
    (solid : front = [] ∨ Ends front) : Token.withoutTrail (front ++ optional trail) = front := by
  induction front with
  | nil =>
    cases trail with
    | none => rfl
    | some leaf => simp [optional, Token.withoutTrail, leaf.fits]
  | cons first rest ih =>
    obtain nil | ⟨before, last, found, solid⟩ := solid
    · contradiction
    · cases before with
      | nil =>
        obtain ⟨rfl, rfl⟩ := List.cons.inj found
        cases trail with
        | none => simp [optional, Token.withoutTrail, solid]
        | some leaf => simp [optional, Token.withoutTrail, leaf.fits]
      | cons head before =>
        obtain ⟨rfl, rfl⟩ := List.cons.inj found
        rw [List.cons_append, Token.withoutTrail_cons (by simp), ih (.inr ⟨before, last, rfl, solid⟩)]

theorem withoutLead_optional_append {rest : List Token} (lead : Option Separator)
    (unseparated : Unseparated rest) : Token.withoutLead (optional lead ++ rest) = rest := by
  cases lead with
  | some leaf => simp [optional, Token.withoutLead, leaf.fits]
  | none =>
    cases rest with
    | nil => rfl
    | cons first rest => simp [optional, Token.withoutLead, unseparated first rest rfl]

namespace Derivation

/-- Statements after statements. -/
def append (front : Derivation .statements) (separator : Separator) :
    Derivation .statements → Derivation .statements
  | oneStatement only => moreStatements front separator only
  | moreStatements all between last => moreStatements (front.append separator all) between last

theorem tokens_append (front : Derivation .statements) (separator : Separator) :
    (all : Derivation .statements) →
      (front.append separator all).tokens = front.tokens ++ separator.token :: all.tokens
  | oneStatement only => by simp [append, tokens]
  | moreStatements all between last => by simp [append, tokens, tokens_append front separator all]

theorem meaning_append (front : Derivation .statements) (separator : Separator) :
    (all : Derivation .statements) →
      (front.append separator all).meaning = (front.meaning ++ all.meaning : List Expr)
  | oneStatement only => by simp [append, meaning]
  | moreStatements all between last => by simp [append, meaning, meaning_append front separator all]

/-- One program after another, with a separator between them. -/
def followedBy (separator : Separator) : Derivation .body → Derivation .body → Derivation .body
  | empty _, empty _ => empty (some separator)
  | empty _, filled _ all trail => filled (some separator) all trail
  | filled lead all _, empty _ => filled lead all (some separator)
  | filled lead all _, filled _ more trail => filled lead (all.append separator more) trail

theorem tokens_followedBy (separator : Separator) (first second : Derivation .body) :
    (first.followedBy separator second).tokens =
      Token.withoutTrail first.tokens ++ separator.token :: Token.withoutLead second.tokens := by
  have front : Token.withoutTrail first.tokens = match first with
      | empty _ => []
      | filled lead all _ => optional lead ++ all.tokens := by
    cases first with
    | empty lead => exact withoutTrail_append_optional lead (.inl rfl)
    | filled lead all trail => exact withoutTrail_append_optional trail (.inr ((all.ends (by simp)).behind _))
  have back : Token.withoutLead second.tokens = match second with
      | empty _ => []
      | filled _ all trail => all.tokens ++ optional trail := by
    cases second with
    | empty lead =>
      rw [tokens, ← List.append_nil (optional lead)]
      exact withoutLead_optional_append lead unseparated_nil
    | filled lead all trail =>
      rw [tokens, List.append_assoc]
      exact withoutLead_optional_append lead (all.unseparated (by simp) _)
  rw [front, back]
  cases first <;> cases second <;> simp [followedBy, tokens, tokens_append, optional]

theorem meaning_followedBy (separator : Separator) (first second : Derivation .body) :
    (first.followedBy separator second).meaning = (first.meaning ++ second.meaning : List Expr) := by
  cases first <;> cases second <;> simp [followedBy, meaning, meaning_append]

end Derivation

end Corvid.Grammar
