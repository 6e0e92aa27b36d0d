import Corvid.Proofs.Eval.Requests
import Corvid.Proofs.Joining
import Corvid.Proofs.Number.Bits
import Corvid.Proofs.Number.Text

/-!
Printed numbers are programs. The text of a finite number is one token, after a minus if the number is negative, and
running it gives the number itself: not only an equal one, since the sign of a zero comes back as well.
-/
namespace Corvid

theorem Token.Lexeme.splits {kind : Kind} {text : List Char} (lexeme : Lexeme kind text) (position : Position) :
    Splits position text [⟨kind, String.ofList text, position⟩] := by
  obtain ⟨c, rest, rfl, starts⟩ := lexeme.starts
  have nothing : Splits (position.after (c :: rest.take rest.length)) (rest.drop rest.length) [] := by
    rw [List.drop_length]
    exact .nil _
  have splits := Splits.token starts nothing
  rwa [List.take_length] at splits

theorem Token.split_lexeme {kind : Kind} {text : List Char} (lexeme : Lexeme kind text) :
    split (String.ofList text) = ⟨[⟨kind, String.ofList text, .start⟩], none⟩ := by
  rw [split, String.toList_ofList]
  exact (lexeme.splits .start).splitFrom_eq

namespace Parser

variable {unsigned : List Char}

theorem parse_float (lexeme : Token.Lexeme .float unsigned) (negative : Bool) :
    parse (String.ofList (if negative then '-' :: unsigned else unsigned)) = .ok (.block (.spot .start)
      [.literal (.spot .start) .float (String.ofList (if negative then '-' :: unsigned else unsigned))]) := by
  cases negative with
  | false =>
    rw [parse, if_neg Bool.false_ne_true, Token.split_lexeme lexeme]
    rfl
  | true =>
    rw [if_pos rfl]
    have minus : Token.Starts '-' unsigned (.symbol .minus) 0 := (Token.Lone.starts (by decide) rfl unsigned).2
    have splits := Token.Splits.token minus (lexeme.splits (Position.start.after ['-']))
    have tokens := splits.splitFrom_eq
    have text : String.ofList ('-' :: unsigned) = "-" ++ String.ofList unsigned := by
      apply String.toList_inj.mp
      simp
    rw [parse, Token.split, String.toList_ofList, tokens, text]
    rfl

end Parser

/-- A program of one literal gives its value and changes nothing. -/
theorem Store.run_literal {source lexeme : String} {kind : LiteralKind} {mark : Mark} {place : Position} {value : Value}
    (reads : Parser.parse source = .ok (.block mark [.literal (.spot place) kind lexeme]))
    (stands : literalValue kind lexeme = .ok value) (store : Store) (limit scope : Nat) :
    store.run (limit + 2) scope source = (.ok value, store) := by
  have found : Rule.apply (evalWithin limit) (showWithin limit) scope (.literal (.spot place) kind lexeme) store =
      (.ok value, store) := by
    rw [Rule.apply, Rule.literal, stands]
    rfl
  have evaluated : evalWithin (limit + 1) (.literal (.spot place) kind lexeme) scope store = (.ok value, store) := by
    rw [evalWithin, Eval.locate, found]
  have marked : ∀ expr ∈ [Expr.literal (.spot place) kind lexeme], expr.mark ≠ .absent :=
    List.forall_mem_singleton.mpr Mark.noConfusion
  rw [Store.run_of_parse reads, Store.eval_block marked, Rule.evalBlock, Eval.bind_of_ok evaluated]
  rfl

namespace Number

theorem literalValue_text {magnitude : ℚ} {negative : Bool} {unsigned : List Char} {written : ℚ}
    (spells : Decimal.Spells unsigned written)
    (settles : ∀ decimal : Decimal, decimal.magnitude = written →
      (decimal.toNumber .double).roundTo .single = .finite decimal.negative magnitude) :
    literalValue .float (String.ofList (if negative then '-' :: unsigned else unsigned)) =
      .ok (.float (.finite negative magnitude)) := by
  have sign : Decimal.takeSign (if negative then '-' :: unsigned else unsigned) = (negative, unsigned) := by
    cases negative with
    | true => exact Decimal.takeSign_minus unsigned
    | false =>
      obtain ⟨whole, fraction, exponent, _, rfl, number, _⟩ := spells
      exact Decimal.takeSign_digits number _
  obtain ⟨decimal, found, rfl, same⟩ := spells.ofChars? sign
  simp only [literalValue, String.toList_ofList, found, settles decimal same]

/-- The text of every finite number of single precision, both zeros included, is one decimal after an optional sign.
As a program, which nests no deeper than two, it gives the number itself, with the encoding that was printed. -/
theorem run_text_ofBits {bits : Nat} (size : bits < 2 ^ 32) (finite : bits / 2 ^ 23 % 2 ^ 8 ≠ 255) (tag : Nat)
    (store : Store) (limit scope : Nat) :
    (∃ unsigned, (ofBits .single tag bits).text = (if 2 ^ 31 ≤ bits then "-" else "") ++ unsigned ∧
      Token.split unsigned = ⟨[⟨.float, unsigned, .start⟩], none⟩) ∧
    store.run (limit + 2) scope (ofBits .single tag bits).text = (.ok (.float (ofBits .single tag bits)), store) ∧
    (ofBits .single tag bits).toBits? .single = some bits := by
  have encoded := toBits?_ofBits size finite tag
  obtain ⟨significand, exponent, number, short, least, most, _, _⟩ := ofBits_single finite tag
  have holds : Format.single.Holds (significand * power 2 exponent) :=
    ⟨significand, exponent, short, least, most, rfl⟩
  obtain ⟨unsigned, written, text, spells, settles⟩ := text_spec holds (bits / 2 ^ 31 % 2 == 1)
  rw [number] at encoded ⊢
  refine ⟨⟨String.ofList unsigned, ?_, Token.split_lexeme spells.lexeme⟩, ?_, encoded⟩
  · have sign : (bits / 2 ^ 31 % 2 == 1) = decide (2 ^ 31 ≤ bits) := by
      rw [Bool.eq_iff_iff, beq_iff_eq, decide_eq_true_iff]
      omega
    rw [text, sign]
    simp only [decide_eq_true_eq]
    apply String.toList_inj.mp
    split <;> simp
  · rw [text]
    exact Store.run_literal (Parser.parse_float spells.lexeme _) (literalValue_text spells settles) store limit scope

/-- The negative number next to zero. -/
theorem run_text_ofBits_least :
    (∃ unsigned, (ofBits .single 0 0x80000001).text = "-" ++ unsigned ∧
      Token.split unsigned = ⟨[⟨.float, unsigned, .start⟩], none⟩) ∧
    Store.empty.run 2 0 (ofBits .single 0 0x80000001).text =
      (.ok (.float (.finite true (1 * power 2 (-149)))), Store.empty) ∧
    (ofBits .single 0 0x80000001).toBits? .single = some 0x80000001 :=
  run_text_ofBits (by decide) (by decide) 0 Store.empty 0 0

end Number

end Corvid
