import Corvid.Proofs.Grammar.Derivation

/-!
Changing the tokens of a derivation. Productions ask for tokens of certain kinds and for nothing else, so a derivation
of some tokens is a derivation of any others of the same kinds. What becomes of a token may depend on its index. In
particular the tokens may be moved to other places.
-/
namespace Corvid.Grammar

/-- A change of tokens that keeps their kinds. -/
structure Relabeling where
  token : (index : Nat) → Token → Token
  kind_eq : ∀ index old, (token index old).kind = old.kind

/-- Moves tokens. -/
def Relabeling.move (moved : Nat → Position → Position) : Relabeling where
  token index old := { old with position := moved index old.position }
  kind_eq _ _ := rfl

@[simp] theorem Relabeling.token_move (moved : Nat → Position → Position) (index : Nat) (old : Token) :
    (Relabeling.move moved).token index old = { old with position := moved index old.position } := rfl

/-- Changes tokens, the first of which has the given index. -/
def relabelTokens (change : Relabeling) : (index : Nat) → List Token → List Token
  | _, [] => []
  | index, token :: rest => change.token index token :: relabelTokens change (index + 1) rest

@[simp] theorem relabelTokens_nil (change : Relabeling) (index : Nat) : relabelTokens change index [] = [] := rfl

@[simp] theorem relabelTokens_cons (change : Relabeling) (index : Nat) (token : Token) (rest : List Token) :
    relabelTokens change index (token :: rest) =
      change.token index token :: relabelTokens change (index + 1) rest := rfl

@[simp] theorem relabelTokens_append (change : Relabeling) (index : Nat) (front rest : List Token) :
    relabelTokens change index (front ++ rest) =
      relabelTokens change index front ++ relabelTokens change (index + front.length) rest := by
  induction front generalizing index with
  | nil => rfl
  | cons token front ih => simp [ih, Nat.add_assoc, Nat.add_comm 1]

/-- Moves tokens, the first of which has the given index. -/
abbrev placeTokens (moved : Nat → Position → Position) : (index : Nat) → List Token → List Token :=
  relabelTokens (.move moved)

theorem placeTokens_eq_map (moved : Position → Position) (index : Nat) (tokens : List Token) :
    placeTokens (fun _ => moved) index tokens =
      tokens.map fun token => { token with position := moved token.position } := by
  induction tokens generalizing index with
  | nil => rfl
  | cons token rest ih => exact congrArg (_ :: ·) (ih (index + 1))

/-- What becomes of tokens is settled by what becomes of each of them. -/
theorem relabelTokens_eq {change : Relabeling} {tokens other : List Token} {index : Nat}
    (size : other.length = tokens.length)
    (labels : ∀ (i : Nat) (old new : Token), tokens[i]? = some old → other[i]? = some new →
      change.token (index + i) old = new) : relabelTokens change index tokens = other := by
  induction tokens generalizing other index with
  | nil => exact (List.length_eq_zero_iff.mp size).symm
  | cons token tokens ih =>
    obtain ⟨first, rest, rfl⟩ := List.exists_cons_of_length_eq_add_one size
    have later : relabelTokens change (index + 1) tokens = rest := by
      apply ih (Nat.succ.inj size)
      intro i old new known known'
      rw [Nat.add_assoc, Nat.add_comm 1 i]
      exact labels (i + 1) old new known known'
    rw [relabelTokens_cons, later]
    exact congrArg (· :: rest) (labels 0 token first rfl rfl)

/-- Tokens that look alike, as far as a view of them shows that includes their kinds, differ by a change that keeps what
the view shows. -/
theorem exists_relabeled {α : Type} [DecidableEq α] {view : Token → α}
    (kinds : ∀ {old new : Token}, view new = view old → new.kind = old.kind) {tokens other : List Token}
    (same : other.map view = tokens.map view) :
    ∃ change : Relabeling, (∀ index old, view (change.token index old) = view old) ∧
      relabelTokens change 0 tokens = other := by
  let label (index : Nat) (old : Token) : Token :=
    (other[index]?).elim old fun token => if view token = view old then token else old
  have kept (index : Nat) (old : Token) : view (label index old) = view old := by
    simp only [label]
    cases other[index]? with
    | none => rfl
    | some token =>
      simp only [Option.elim_some]
      split
      · assumption
      · rfl
  refine ⟨⟨label, fun index old => kinds (kept index old)⟩, kept,
    relabelTokens_eq (by simpa using congrArg List.length same) ?_⟩
  intro i old new known known'
  have views : (other.map view)[i]? = (tokens.map view)[i]? := by rw [same]
  rw [List.getElem?_map, List.getElem?_map, known, known'] at views
  simp only [label, Nat.zero_add, known', Option.elim_some, if_pos (Option.some.inj views)]

/-- Changes a single token. -/
def Leaf.relabel {kind : Token.Kind} (change : Relabeling) (index : Nat) (leaf : Leaf kind) : Leaf kind :=
  ⟨change.token index leaf.token, (change.kind_eq index leaf.token).trans leaf.fits⟩

@[simp] theorem Leaf.token_relabel {kind : Token.Kind} (change : Relabeling) (index : Nat) (leaf : Leaf kind) :
    (leaf.relabel change index).token = change.token index leaf.token := rfl

namespace Derivation

/-- Changes the tokens of a derivation, the first of which has the given index. -/
def relabel (change : Relabeling) :
    {category : Category} → Derivation category → (index : Nat) → Derivation category
  | _, empty lead, i => empty (lead.map (Leaf.relabel change i))
  | _, filled lead all trail, i =>
    let first := i + (optional lead).length
    filled (lead.map (Leaf.relabel change i)) (all.relabel change first)
      (trail.map (Leaf.relabel change (first + all.tokens.length)))
  | _, oneStatement only, i => oneStatement (only.relabel change i)
  | _, moreStatements front separator last, i =>
    let after := i + front.tokens.length
    moreStatements (front.relabel change i) (separator.relabel change after) (last.relabel change (after + 1))
  | _, pass rule inside, i => pass rule (inside.relabel change i)
  | _, assign name sign value, i =>
    assign (name.relabel change i) (sign.relabel change (i + 1)) (value.relabel change (i + 1 + 1))
  | _, store target opening index closing sign value, i =>
    let after := i + target.tokens.length
    let closed := after + 1 + index.tokens.length
    store (target.relabel change i) (opening.relabel change after) (index.relabel change (after + 1))
      (closing.relabel change closed) (sign.relabel change (closed + 1)) (value.relabel change (closed + 1 + 1))
  | _, join rule left sign right, i =>
    let after := i + left.tokens.length
    join rule (left.relabel change i) (sign.relabel change after) (right.relabel change (after + 1))
  | _, negate word operand, i => negate (word.relabel change i) (operand.relabel change (i + 1))
  | _, negativeInt sign digits, i => negativeInt (sign.relabel change i) (digits.relabel change (i + 1))
  | _, negativeFloat sign digits, i => negativeFloat (sign.relabel change i) (digits.relabel change (i + 1))
  | _, subscript target opening index closing, i =>
    let after := i + target.tokens.length
    subscript (target.relabel change i) (opening.relabel change after) (index.relabel change (after + 1))
      (closing.relabel change (after + 1 + index.tokens.length))
  | _, int leaf, i => int (leaf.relabel change i)
  | _, float leaf, i => float (leaf.relabel change i)
  | _, string leaf, i => string (leaf.relabel change i)
  | _, truth word, i => truth (word.relabel change i)
  | _, falsity word, i => falsity (word.relabel change i)
  | _, nothing word, i => nothing (word.relabel change i)
  | _, identifier leaf, i => identifier (leaf.relabel change i)
  | _, callEmpty name opening closing, i =>
    callEmpty (name.relabel change i) (opening.relabel change (i + 1)) (closing.relabel change (i + 1 + 1))
  | _, call name opening arguments closing, i =>
    call (name.relabel change i) (opening.relabel change (i + 1)) (arguments.relabel change (i + 1 + 1))
      (closing.relabel change (i + 1 + 1 + arguments.tokens.length))
  | _, printEmpty newline word opening closing, i =>
    printEmpty newline (word.relabel change i) (opening.relabel change (i + 1)) (closing.relabel change (i + 1 + 1))
  | _, print newline word opening shown closing, i =>
    print newline (word.relabel change i) (opening.relabel change (i + 1)) (shown.relabel change (i + 1 + 1))
      (closing.relabel change (i + 1 + 1 + shown.tokens.length))
  | _, group opening inside closing, i =>
    group (opening.relabel change i) (inside.relabel change (i + 1))
      (closing.relabel change (i + 1 + inside.tokens.length))
  | _, listEmpty opening closing, i => listEmpty (opening.relabel change i) (closing.relabel change (i + 1))
  | _, list opening elements closing, i =>
    list (opening.relabel change i) (elements.relabel change (i + 1))
      (closing.relabel change (i + 1 + elements.tokens.length))
  | _, dictEmpty opening colon closing, i =>
    dictEmpty (opening.relabel change i) (colon.relabel change (i + 1)) (closing.relabel change (i + 1 + 1))
  | _, dict opening entries closing, i =>
    dict (opening.relabel change i) (entries.relabel change (i + 1))
      (closing.relabel change (i + 1 + entries.tokens.length))
  | _, oneItem only, i => oneItem (only.relabel change i)
  | _, moreItems front comma last, i =>
    let after := i + front.tokens.length
    moreItems (front.relabel change i) (comma.relabel change after) (last.relabel change (after + 1))
  | _, onePair key colon value, i =>
    let after := i + key.tokens.length
    onePair (key.relabel change i) (colon.relabel change after) (value.relabel change (after + 1))
  | _, morePairs front comma key colon value, i =>
    let after := i + front.tokens.length
    let keyed := after + 1 + key.tokens.length
    morePairs (front.relabel change i) (comma.relabel change after) (key.relabel change (after + 1))
      (colon.relabel change keyed) (value.relabel change (keyed + 1))
  | _, block opening body closing, i =>
    block (opening.relabel change i) (body.relabel change (i + 1))
      (closing.relabel change (i + 1 + body.tokens.length))
  | _, ifOnly word condition yes, i =>
    let after := i + 1 + condition.tokens.length
    ifOnly (word.relabel change i) (condition.relabel change (i + 1)) (yes.relabel change after)
  | _, ifElse word condition yes otherwise no, i =>
    let after := i + 1 + condition.tokens.length
    let guarded := after + yes.tokens.length
    ifElse (word.relabel change i) (condition.relabel change (i + 1)) (yes.relabel change after)
      (otherwise.relabel change guarded) (no.relabel change (guarded + 1))
  | _, ifChain word condition yes otherwise no, i =>
    let after := i + 1 + condition.tokens.length
    let guarded := after + yes.tokens.length
    ifChain (word.relabel change i) (condition.relabel change (i + 1)) (yes.relabel change after)
      (otherwise.relabel change guarded) (no.relabel change (guarded + 1))
  | _, loop word item among source body, i =>
    loop (word.relabel change i) (item.relabel change (i + 1)) (among.relabel change (i + 1 + 1))
      (source.relabel change (i + 1 + 1 + 1)) (body.relabel change (i + 1 + 1 + 1 + source.tokens.length))
  | _, functionEmpty word name opening closing body, i =>
    functionEmpty (word.relabel change i) (name.relabel change (i + 1)) (opening.relabel change (i + 1 + 1))
      (closing.relabel change (i + 1 + 1 + 1)) (body.relabel change (i + 1 + 1 + 1 + 1))
  | _, function word name opening parameters closing body, i =>
    let after := i + 1 + 1 + 1 + parameters.tokens.length
    function (word.relabel change i) (name.relabel change (i + 1)) (opening.relabel change (i + 1 + 1))
      (parameters.relabel change (i + 1 + 1 + 1)) (closing.relabel change after) (body.relabel change (after + 1))
  | _, oneParameter only, i => oneParameter (only.relabel change i)
  | _, moreParameters front comma last, i =>
    let after := i + front.tokens.length
    moreParameters (front.relabel change i) (comma.relabel change after) (last.relabel change (after + 1))

@[simp] theorem optional_relabel {kind : Token.Kind} (change : Relabeling) (i : Nat) (leaf : Option (Leaf kind)) :
    optional (leaf.map (Leaf.relabel change i)) = relabelTokens change i (optional leaf) := by
  cases leaf <;> rfl

/-- A changed derivation derives the changed tokens. -/
@[simp] theorem tokens_relabel (change : Relabeling) {category : Category} (derivation : Derivation category)
    (index : Nat) : (derivation.relabel change index).tokens = relabelTokens change index derivation.tokens := by
  induction derivation generalizing index with
  | _ => simp [relabel, tokens, Nat.add_assoc, *]

theorem relabel_withElse (change : Relabeling) {tier : Tier} (behind : Otherwise tier) (word : Word .kwIf)
    (condition : Derivation (.tier .expression)) (yes : Derivation (.tier .block)) (otherwise : Word .kwElse)
    (no : Derivation (.tier tier)) (index : Nat) :
    let after := index + 1 + condition.tokens.length
    let guarded := after + yes.tokens.length
    (withElse behind word condition yes otherwise no).relabel change index =
      withElse behind (word.relabel change index) (condition.relabel change (index + 1)) (yes.relabel change after)
        (otherwise.relabel change guarded) (no.relabel change (guarded + 1)) := by
  cases behind <;> rfl

/-- Moves the tokens of a derivation, the first of which has the given index. -/
abbrev place (moved : Nat → Position → Position) {category : Category} (derivation : Derivation category)
    (index : Nat) : Derivation category :=
  derivation.relabel (.move moved) index

theorem tokens_place (moved : Nat → Position → Position) {category : Category} (derivation : Derivation category)
    (index : Nat) : (derivation.place moved index).tokens = placeTokens moved index derivation.tokens :=
  derivation.tokens_relabel _ index

/-- Whether tokens are derived depends on their kinds alone. -/
theorem exists_of_kinds {category : Category} (derivation : Derivation category) {tokens : List Token}
    (same : tokens.map Token.kind = derivation.tokens.map Token.kind) :
    ∃ other : Derivation category, other.tokens = tokens := by
  obtain ⟨change, _, rfl⟩ := exists_relabeled id same
  exact ⟨derivation.relabel change 0, derivation.tokens_relabel change 0⟩

end Derivation

end Corvid.Grammar
