import Corvid.Text.Quoted
import Mathlib.Tactic.IntervalCases

/-!
Quoted text can be read back: what is written for one character ends where it ends, whatever follows, so a text is known
from its quoted form. That form begins with a quote and stays on one line.
-/
namespace Corvid.Text

/-! Hexadecimal digits -/

def hexValue (c : Char) : Nat := if c.toNat < 58 then c.toNat - 48 else c.toNat - 87

/-- The number that a run of hexadecimal digits writes. -/
def hexNumber (digits : List Char) : Nat := digits.foldl (fun n c => 16 * n + hexValue c) 0

theorem hexValue_hexDigit {n : Nat} (small : n < 16) : hexValue (hexDigit n) = n := by
  interval_cases n <;> rfl

theorem hexNumber_hexadecimal {width n : Nat} (fits : n < 16 ^ width) : hexNumber (hexadecimal width n) = n := by
  induction width generalizing n with
  | zero =>
    rw [Nat.pow_zero, Nat.lt_one_iff] at fits
    rw [fits]
    rfl
  | succ width ih =>
    have front : hexNumber (hexadecimal width (n / 16)) = n / 16 := ih (by rw [Nat.pow_succ] at fits; omega)
    rw [hexNumber] at front ⊢
    rw [hexadecimal, List.foldl_append, front, List.foldl_cons, List.foldl_nil,
      hexValue_hexDigit (Nat.mod_lt n (by decide))]
    exact Nat.div_add_mod n 16

theorem length_hexadecimal (width n : Nat) : (hexadecimal width n).length = width := by
  induction width generalizing n with
  | zero => rfl
  | succ width ih => rw [hexadecimal, List.length_append, ih, List.length_singleton]

theorem newline_notMem_hexadecimal (width n : Nat) : '\n' ∉ hexadecimal width n := by
  induction width generalizing n with
  | zero => exact List.not_mem_nil
  | succ width ih =>
    have digit : hexDigit (n % 16) ≠ '\n' := by
      have small : n % 16 < 16 := Nat.mod_lt n (by decide)
      generalize n % 16 = m at small
      interval_cases m <;> decide
    rw [hexadecimal, List.mem_append, List.mem_singleton, not_or]
    exact ⟨ih _, digit.symm⟩

/-! Reading back -/

/-- The first character of what is written inside quotes, and what follows it. -/
def unescaped : List Char → Option (Char × List Char)
  | [] => none
  | '\\' :: 'n' :: rest => some ('\n', rest)
  | '\\' :: 'r' :: rest => some ('\r', rest)
  | '\\' :: 't' :: rest => some ('\t', rest)
  | '\\' :: 'x' :: rest => some (Char.ofNat (hexNumber (rest.take 2)), rest.drop 2)
  | '\\' :: 'u' :: rest => some (Char.ofNat (hexNumber (rest.take 4)), rest.drop 4)
  | '\\' :: 'U' :: rest => some (Char.ofNat (hexNumber (rest.take 8)), rest.drop 8)
  | '\\' :: c :: rest => some (c, rest)
  | c :: rest => some (c, rest)

theorem unescaped_hexadecimal {c : Char} {width : Nat} (fits : c.toNat < 16 ^ width) (rest : List Char) :
    (Char.ofNat (hexNumber ((hexadecimal width c.toNat ++ rest).take width)),
      (hexadecimal width c.toNat ++ rest).drop width) = (c, rest) := by
  have size := length_hexadecimal width c.toNat
  rw [List.take_left' size, List.drop_left' size, hexNumber_hexadecimal fits, Char.ofNat_toNat]

theorem unescaped_plain {c : Char} (plain : c ≠ '\\') (rest : List Char) : unescaped (c :: rest) = some (c, rest) := by
  simp [unescaped, plain]

/-- What is written for a character is read as that character, whatever follows. -/
theorem unescaped_escaped {quote : Char} (kind : quote = '\'' ∨ quote = '"') (c : Char) (rest : List Char) :
    unescaped (escaped quote c ++ rest) = some (c, rest) := by
  unfold escaped
  split
  · next special => obtain rfl | rfl := kind <;> obtain rfl | rfl := special <;> rfl
  next special =>
  split
  · next same => rw [same]; rfl
  split
  · next same => rw [same]; rfl
  split
  · next same => rw [same]; rfl
  split
  · exact unescaped_plain (fun backslash => special (.inr backslash)) rest
  split
  · next small => exact congrArg some (unescaped_hexadecimal small rest)
  split
  · next small => exact congrArg some (unescaped_hexadecimal small rest)
  · have fits : c.toNat < 16 ^ 8 := c.val.toNat_lt
    exact congrArg some (unescaped_hexadecimal fits rest)

theorem flatMap_escaped_inj {quote : Char} (kind : quote = '\'' ∨ quote = '"') {text text' : List Char}
    (same : text.flatMap (escaped quote) = text'.flatMap (escaped quote)) : text = text' := by
  induction text generalizing text' with
  | nil =>
    cases text' with
    | nil => rfl
    | cons c' rest' =>
      have read := unescaped_escaped kind c' (rest'.flatMap (escaped quote))
      rw [← List.flatMap_cons, ← same] at read
      cases read
  | cons c rest ih =>
    have read := unescaped_escaped kind c (rest.flatMap (escaped quote))
    rw [← List.flatMap_cons, same] at read
    cases text' with
    | nil => cases read
    | cons c' rest' =>
      rw [List.flatMap_cons, unescaped_escaped kind, Option.some.injEq, Prod.mk.injEq] at read
      rw [read.1, ih read.2.symm]

/-! The quoted text -/

theorem quoteFor_cases (text : List Char) : quoteFor text = '\'' ∨ quoteFor text = '"' := by
  unfold quoteFor
  split
  · exact .inr rfl
  · exact .inl rfl

theorem toList_quoted (text : String) : (quoted text).toList =
    quoteFor text.toList :: (text.toList.flatMap (escaped (quoteFor text.toList)) ++ [quoteFor text.toList]) :=
  String.toList_ofList

/-- A text is known from its quoted form. -/
theorem quoted_injective : Function.Injective quoted := by
  intro text text' same
  have chars := congrArg String.toList same
  rw [toList_quoted, toList_quoted, List.cons.injEq] at chars
  obtain ⟨quote, inside⟩ := chars
  rw [quote] at inside
  exact String.toList_inj.mp (flatMap_escaped_inj (quoteFor_cases _) (List.append_cancel_right inside))

theorem newline_notMem_escaped {quote : Char} (kind : quote = '\'' ∨ quote = '"') (c : Char) :
    '\n' ∉ escaped quote c := by
  unfold escaped
  split
  · next special => obtain rfl | rfl := kind <;> obtain rfl | rfl := special <;> decide
  split
  · decide
  next other =>
  split
  · decide
  split
  · decide
  split
  · rw [List.mem_singleton]
    exact Ne.symm other
  split
  · simp [newline_notMem_hexadecimal]
  split
  · simp [newline_notMem_hexadecimal]
  · simp [newline_notMem_hexadecimal]

theorem newline_notMem_quoted (text : String) : '\n' ∉ (quoted text).toList := by
  have kind := quoteFor_cases text.toList
  have quote : '\n' ≠ quoteFor text.toList := by
    obtain same | same := kind <;> rw [same] <;> decide
  simp [toList_quoted, quote, newline_notMem_escaped kind]

end Corvid.Text
