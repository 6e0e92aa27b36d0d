import Corvid.Proofs.Grammar.Unambiguity
import Corvid.Proofs.Token.Boundary

/-!
From text to tree: a text has a tree if it falls into tokens that the grammar derives.
-/
namespace Corvid.Parser

open Grammar

theorem parse_eq_ok_iff {source : String} {tree : Expr} :
    parse source = .ok tree ↔
      ∃ derivation : Derivation .body,
        Token.Splits .start source.toList derivation.tokens ∧ derivation.program = tree := by
  constructor
  · intro read
    rw [parse] at read
    cases found : Token.split source with
    | mk tokens stray =>
      rw [found] at read
      cases stray with
      | some char =>
        rw [ofSplit] at read
        split at read <;> simp_all
      | none =>
        obtain ⟨derivation, rfl, rfl⟩ := ofSplit_eq_ok_iff.mp read
        exact ⟨derivation, .of_splitFrom found, rfl⟩
  · rintro ⟨derivation, splits, rfl⟩
    rw [parse, Token.split, splits.splitFrom_eq]
    exact ofSplit_of_derivation derivation

end Corvid.Parser
