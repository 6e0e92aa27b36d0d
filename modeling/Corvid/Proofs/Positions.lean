import Corvid.Proofs.Grammar.Phrases
import Corvid.Proofs.Parsing
import Mathlib.Data.List.Induction
import Mathlib.Order.Defs.PartialOrder

/-!
Where nodes stand. Every node that is written in a text is marked with the line and the column at which its phrase
begins, and whoever walks over a tree in preorder meets these places in reading order.
-/
namespace Corvid

namespace Position

/-- The place behind a text: lines are counted by line feeds alone, and columns by the characters since the last one. -/
def behind (text : List Char) : Position :=
  ⟨text.count '\n' + 1, (text.reverse.takeWhile (· != '\n')).length + 1⟩

theorem after_eq_behind (text : List Char) : Position.start.after text = behind text := by
  induction text using List.reverseRecOn with
  | nil => rfl
  | append_singleton text c ih =>
    rw [after_append, ih]
    change (behind text).next c = _
    rw [next]
    split <;> simp_all [behind]

/-- Reading order. -/
instance : Preorder Position where
  le earlier later := earlier.line < later.line ∨ earlier.line = later.line ∧ earlier.column ≤ later.column
  le_refl position := .inr ⟨rfl, Nat.le_refl _⟩
  le_trans first second third := by omega

theorem le_next (position : Position) (c : Char) : position ≤ position.next c := by
  rw [next]
  split
  · exact .inl (Nat.lt_succ_self _)
  · exact .inr ⟨rfl, Nat.le_succ _⟩

theorem le_after (position : Position) (text : List Char) : position ≤ position.after text := by
  induction text generalizing position with
  | nil => exact le_rfl
  | cons c text ih => exact le_trans (position.le_next c) (ih (position.next c))

end Position

namespace Token

/-- A text that is made of the texts of tokens, with blanks between them. -/
inductive Spells : List Char → List Token → Prop where
  | nil : Spells [] []
  | space {c : Char} {text : List Char} {tokens : List Token} (blank : isSpace c = true) (rest : Spells text tokens) :
      Spells (c :: text) tokens
  | token (token : Token) {text : List Char} {tokens : List Token} (rest : Spells text tokens) :
      Spells (token.text.toList ++ text) (token :: tokens)

namespace Splits

theorem spells {position : Position} {text : List Char} {tokens : List Token} (splits : Splits position text tokens) :
    Spells text tokens := by
  induction splits with
  | nil => exact .nil
  | space blank _ ih => exact .space blank ih
  | @token position c text kind more tokens _ _ ih =>
    have spelled := ih.token ⟨kind, String.ofList (c :: text.take more), position⟩
    rwa [String.toList_ofList, List.cons_append, List.take_append_drop] at spelled

/-- The tokens before a token spell the text before it, its place is behind that text, and it starts there. -/
theorem spelled_at {position : Position} {text : List Char} {first : Token} {front back : List Token}
    (splits : Splits position text (front ++ first :: back)) :
    ∃ before c rest more, text = before ++ c :: rest ∧ Starts c rest first.kind more ∧
      first.text.toList = c :: rest.take more ∧ first.position = position.after before ∧ Spells before front ∧
      Spells (rest.drop more) back := by
  have token {position : Position} {c : Char} {rest before : List Char} {kind : Kind} {more : Nat}
      {tokens : List Token} (_ : Starts c rest kind more) (_ : more < rest.length) (spelled : Spells before tokens) :
      Spells (c :: rest.take more ++ before) (⟨kind, String.ofList (c :: rest.take more), position⟩ :: tokens) := by
    have spelled := spelled.token ⟨kind, String.ofList (c :: rest.take more), position⟩
    rwa [String.toList_ofList] at spelled
  obtain ⟨before, c, rest, more, _, whole, starts, written, same, spelled, later⟩ :=
    splits.starts_at (P := Spells) .nil .space token
  exact ⟨before, c, rest, more, whole, starts, written, same, spelled, later.spells⟩

theorem found {position : Position} {text : List Char} {first : Token} {front back : List Token}
    (splits : Splits position text (front ++ first :: back)) :
    ∃ before after, text = before ++ (first.text.toList ++ after) ∧ Spells before front ∧ Spells after back ∧
      first.position = position.after before := by
  obtain ⟨before, c, rest, more, whole, _, written, same, spelled, spelled'⟩ := splits.spelled_at
  refine ⟨before, rest.drop more, ?_, spelled, spelled', same⟩
  rw [whole, written, List.cons_append, List.take_append_drop]

theorem ordered {position : Position} {text : List Char} {tokens : List Token} (splits : Splits position text tokens) :
    tokens.Pairwise (·.position ≤ ·.position) ∧ ∀ token ∈ tokens, position ≤ token.position := by
  induction splits with
  | nil => exact ⟨.nil, List.forall_mem_nil _⟩
  | @space position c text tokens _ _ ih =>
    exact ⟨ih.1, fun token member => le_trans (position.le_next c) (ih.2 token member)⟩
  | @token position c text kind more tokens _ _ ih =>
    have later (token : Token) (member : token ∈ tokens) : position ≤ token.position :=
      le_trans (position.le_after _) (ih.2 token member)
    exact ⟨.cons later ih.1, List.forall_mem_cons.mpr ⟨le_rfl, later⟩⟩

end Splits

end Token

namespace Grammar

/-- The node of a site is marked with the place where its phrase begins in a text, which the tokens before the phrase
spell up to there; a node without a phrase is not marked. -/
inductive Site.Located (text : List Char) (tokens : List Token) : Site → Prop where
  | phrase {node : Expr} {first : Token} {front inside back : List Token} {before after : List Char}
      (derived : tokens = front ++ first :: (inside ++ back)) (found : text = before ++ (first.text.toList ++ after))
      (spelled : Token.Spells before front) (follows : Token.Spells after (inside ++ back))
      (marked : node.mark = .spot (.behind before)) : Located text tokens ⟨node, first :: inside⟩
  | unwritten {node : Expr} (unmarked : node.mark = .absent) : Located text tokens ⟨node, []⟩

theorem Site.Placed.located {text : List Char} {tokens : List Token} {site : Site} (placed : site.Placed)
    (splits : Token.Splits .start text tokens) (inside : site.phrase <:+: tokens) : site.Located text tokens := by
  obtain ⟨node, phrase⟩ := site
  cases phrase with
  | nil => exact .unwritten placed.mark_eq
  | cons first more =>
    obtain ⟨front, back, whole⟩ := inside
    have derived : tokens = front ++ first :: (more ++ back) := by
      rw [← whole, List.append_assoc, List.cons_append]
    obtain ⟨before, after, found, spelled, follows, same⟩ := Token.Splits.found (derived ▸ splits)
    have marked : node.mark = .spot (.behind before) := by
      rw [← Position.after_eq_behind, ← same]
      exact placed.mark_eq
    exact .phrase derived found spelled follows marked

/-- The place of a node is that of the first token of its phrase. -/
theorem Site.Placed.exists_first {site : Site} (placed : site.Placed) {position : Position}
    (marked : site.node.mark = .spot position) : ∃ first ∈ site.phrase.head?, first.position = position := by
  rw [placed.mark_eq] at marked
  cases begins : site.phrase with
  | nil =>
    rw [begins] at marked
    cases marked
  | cons first more =>
    rw [begins] at marked
    cases marked
    exact ⟨first, rfl, rfl⟩

end Grammar

namespace Parser

open Grammar

/-- The nodes of a parsed tree, in preorder, are those that the productions of the grammar build, each for its phrase.
A node is marked with the line and the column at which its phrase begins in the text. Only three nodes have no mark:
the block of a conditional without an alternative, what is shown by a printing word with nothing to show, and the
program without tokens. In preorder the places never go back. -/
theorem parse_positions {source : String} {tree : Expr} (reads : parse source = .ok tree) :
    ∃ derivation : Derivation .body, Token.split source = ⟨derivation.tokens, none⟩ ∧ derivation.program = tree ∧
      tree.preorder = derivation.programSites.map Site.node ∧
      (∀ site ∈ derivation.programSites, site.Located source.toList derivation.tokens) ∧
      (∀ node ∈ tree.preorder, ∀ part ∈ node.written, part.mark ≠ .absent) ∧
      (tree.mark = .absent ↔ derivation.tokens = []) ∧
      tree.preorder.Pairwise fun node later =>
        ∀ position position', node.mark = .spot position → later.mark = .spot position' → position ≤ position' := by
  obtain ⟨derivation, splits, rfl⟩ := parse_eq_ok_iff.mp reads
  have placed := derivation.programSites_placed
  have walk := derivation.walk_program
  refine ⟨derivation, splits.splitFrom_eq, rfl, derivation.preorder_program, ?located, ?parts, ?top, ?order⟩
  case located => exact fun site member => (placed site member).located splits (walk.infix_of_mem member)
  case parts =>
    rw [derivation.preorder_program]
    exact List.forall_mem_map.mpr fun site member => (placed site member).parts
  case top =>
    change programMark derivation.tokens = .absent ↔ _
    cases derivation.tokens with
    | nil => exact ⟨fun _ => rfl, fun _ => rfl⟩
    | cons first more => exact iff_of_false Mark.noConfusion (List.cons_ne_nil first more)
  case order =>
    rw [derivation.preorder_program, List.pairwise_map]
    refine (walk.pairwise (fun token => le_refl token.position) splits.ordered.1).imp_of_mem ?_
    intro site later member member' ordered position position' marked marked'
    obtain ⟨first, begins, rfl⟩ := (placed site member).exists_first marked
    obtain ⟨first', begins', rfl⟩ := (placed later member').exists_first marked'
    exact ordered first begins first' begins'

/-- A line that is left out, brackets around a sum and around its first operand, and a conditional that has nothing to
show and no alternative. -/
theorem parse_positions_brackets :
    ∃ tree, parse "\n((x) + 1) * 2\nif y \x7b print() \x7d" = .ok tree ∧
      tree.preorder.map Expr.mark = [.spot ⟨1, 1⟩, .spot ⟨2, 1⟩, .spot ⟨2, 2⟩, .spot ⟨2, 3⟩, .spot ⟨2, 8⟩, .spot ⟨2, 13⟩,
        .spot ⟨3, 1⟩, .spot ⟨3, 4⟩, .spot ⟨3, 6⟩, .spot ⟨3, 8⟩, .absent, .absent] ∧
      (∃ derivation : Derivation .body, derivation.program = tree ∧
        tree.preorder = derivation.programSites.map Site.node ∧
        ∀ site ∈ derivation.programSites,
          site.Located "\n((x) + 1) * 2\nif y \x7b print() \x7d".toList derivation.tokens) ∧
      tree.preorder.Pairwise fun node later =>
        ∀ position position', node.mark = .spot position → later.mark = .spot position' → position ≤ position' := by
  have reads : parse "\n((x) + 1) * 2\nif y \x7b print() \x7d" = .ok (.block (.spot ⟨1, 1⟩) [
      .join (.spot ⟨2, 1⟩) (.arithmetic .mul)
        (.join (.spot ⟨2, 2⟩) (.arithmetic .add) (.name (.spot ⟨2, 3⟩) "x") (.literal (.spot ⟨2, 8⟩) .int "1"))
        (.literal (.spot ⟨2, 13⟩) .int "2"),
      .conditional (.spot ⟨3, 1⟩) (.name (.spot ⟨3, 4⟩) "y")
        (.block (.spot ⟨3, 6⟩) [.print (.spot ⟨3, 8⟩) (.none .absent) false]) (.block .absent [])]) := rfl
  obtain ⟨derivation, _, same, nodes, located, _, _, order⟩ := parse_positions reads
  exact ⟨_, reads, rfl, ⟨derivation, same, nodes, located⟩, order⟩

end Parser

end Corvid
