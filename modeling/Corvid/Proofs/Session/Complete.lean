import Corvid.Proofs.Parsing
import Corvid.Proofs.Token.Brackets

/-!
Enter hands in every program. Whatever the grammar derives leaves as many brackets open as there were before it, so a
text that is a program has none open at its end.
-/
namespace Corvid

namespace Grammar

theorem depthAfter_optional (separator : Option Separator) (depth : Nat) :
    Token.depthAfter depth (optional separator) = depth := by
  cases separator with
  | none => rfl
  | some leaf => simp [optional, leaf.fits, Token.Kind.depthAfter]

theorem Binary.depthAfter_sign {tier before after : Tier} {kind : Token.Kind} {joint : Joint}
    (rule : Binary tier before kind after joint) (depth : Nat) : kind.depthAfter depth = depth := by
  cases rule <;> rfl

/-- What is derived closes every bracket that it opens, and no other. -/
theorem Derivation.depthAfter_tokens {category : Category} (derivation : Derivation category) (depth : Nat) :
    Token.depthAfter depth derivation.tokens = depth := by
  induction derivation generalizing depth with
  | join rule left sign right ih ih' =>
    rw [tokens, Token.depthAfter_append, Token.depthAfter_cons, ih, sign.fits, rule.depthAfter_sign, ih']
  | _ => simp [tokens, depthAfter_optional, Leaf.fits, Token.Kind.depthAfter, *]

end Grammar

/-- No bracket of a program is open at its end, so Enter hands it in as it is, wherever the cursor stands. -/
theorem program_complete {source : String} {tree : Expr} (reads : Parser.parse source = .ok tree) :
    Session.openDepth source.toList = 0 ∧
      ∀ cursor : Nat, (Session.Buffer.mk source.toList cursor).enter = .submitted source.toList := by
  obtain ⟨derivation, splits, _⟩ := Parser.parse_eq_ok_iff.mp reads
  have closed : Session.openDepth source.toList = 0 := by
    rw [← derivation.depthAfter_tokens 0]
    exact Session.Scan.after_splits splits 0
  exact ⟨closed, fun cursor => if_pos closed⟩

/-- Brackets in a string after an escaped quote, brackets that are code, and an open one in a comment that ends the
text. -/
theorem program_complete_quoted :
    (∃ tree, Parser.parse "s = \"\\\"[(\"; [s, (1)] # \x7b" = .ok tree) ∧
      Session.openDepth "s = \"\\\"[(\"; [s, (1)] # \x7b".toList = 0 ∧
      (Session.Buffer.mk "s = \"\\\"[(\"; [s, (1)] # \x7b".toList 3).enter =
        .submitted "s = \"\\\"[(\"; [s, (1)] # \x7b".toList := by
  have reads : Parser.parse "s = \"\\\"[(\"; [s, (1)] # \x7b" = .ok (.block (.spot ⟨1, 1⟩)
      [.assign (.spot ⟨1, 1⟩) "s" (.literal (.spot ⟨1, 5⟩) .string "\"\\\"[(\""),
        .list (.spot ⟨1, 13⟩) [.name (.spot ⟨1, 14⟩) "s", .literal (.spot ⟨1, 18⟩) .int "1"]]) := rfl
  obtain ⟨closed, handed⟩ := program_complete reads
  exact ⟨⟨_, reads⟩, closed, handed 3⟩

end Corvid
