import Corvid.Proofs.Token.Lexeme

/-!
What a token depends on. It is settled by its own text and by what follows; of that, little counts: the next character
alone, except that a number may go on with a fraction or an exponent, which take more to be told. So a token stays the
same if the text is cut off anywhere behind it, and it gets no shorter if the text goes on.
-/
namespace Corvid.Token

theorem takeWhile_followed {p : Char → Bool} {d : Char} {text rest : List Char} (rest' : List Char)
    (within : ((text ++ d :: rest).takeWhile p).length ≤ text.length) :
    (text ++ d :: rest').takeWhile p = (text ++ d :: rest).takeWhile p := by
  induction text with
  | nil =>
    by_cases passes : p d = true
    · simp [passes] at within
    · simp [passes]
  | cons c text ih =>
    by_cases passes : p c = true
    · simp only [List.cons_append, List.takeWhile_cons_of_pos passes] at within ⊢
      rw [ih (Nat.le_of_succ_le_succ within)]
    · simp [passes]

theorem digitCount_followed {d : Char} {text rest : List Char} (rest' : List Char)
    (within : digitCount (text ++ d :: rest) ≤ text.length) :
    digitCount (text ++ d :: rest') = digitCount (text ++ d :: rest) :=
  congrArg List.length (takeWhile_followed rest' within)

theorem exponentLength_followed {d : Char} {text rest : List Char} (rest' : List Char)
    (whole : exponentLength (text ++ d :: rest) = text.length)
    (scaled : exponentLength (d :: rest) = 0 → exponentLength (d :: rest') = 0) :
    exponentLength (text ++ d :: rest') = text.length := by
  cases text with
  | nil => exact scaled whole
  | cons letter text =>
    rw [List.cons_append, exponentLength_cons, List.length_cons] at whole
    split at whole
    case isFalse => cases whole
    next found =>
    cases text with
    | nil =>
      rw [List.length_nil] at whole
      omega
    | cons sign text =>
      have few : signLength (sign :: text ++ d :: rest) ≤ (sign :: text).length := signLength_le (sign :: text)
      rw [List.drop_append_of_le_length few] at whole found
      have digits : digitCount ((sign :: text).drop (signLength (sign :: text ++ d :: rest)) ++ d :: rest) ≤
          ((sign :: text).drop (signLength (sign :: text ++ d :: rest))).length := by
        rw [List.length_drop]
        omega
      have signs : signLength (sign :: text ++ d :: rest') = signLength (sign :: text ++ d :: rest) := rfl
      rw [List.cons_append, exponentLength_cons, signs, List.drop_append_of_le_length few,
        digitCount_followed rest' digits, if_pos found]
      exact whole

theorem fractionLength_followed {d : Char} {text rest : List Char} (rest' : List Char) (filled : text ≠ [])
    (whole : fractionLength (text ++ d :: rest) = text.length)
    (scaled : exponentLength (d :: rest) = 0 → exponentLength (d :: rest') = 0) :
    fractionLength (text ++ d :: rest') = text.length := by
  obtain ⟨point, text, rfl⟩ := List.exists_cons_of_ne_nil filled
  rw [List.cons_append, fractionLength_cons, List.length_cons] at whole
  split at whole
  case isFalse => cases whole
  next broken =>
  have digits : digitCount (text ++ d :: rest) ≤ text.length := by omega
  have exponent : exponentLength (text.drop (digitCount (text ++ d :: rest)) ++ d :: rest) =
      (text.drop (digitCount (text ++ d :: rest))).length := by
    rw [← List.drop_append_of_le_length digits, List.length_drop]
    omega
  rw [List.cons_append, fractionLength_cons, digitCount_followed rest' digits, if_pos broken,
    List.drop_append_of_le_length digits, exponentLength_followed rest' exponent scaled, List.length_drop,
    List.length_cons]
  omega

/-- No symbol has more than two characters. -/
theorem symbolAt?_pair (c d : Char) (rest rest' : List Char) :
    Symbol.at? (c :: d :: rest) = Symbol.at? (c :: d :: rest') := by
  have same (symbol : Symbol) : symbol.text.toList.isPrefixOf (c :: d :: rest) =
      symbol.text.toList.isPrefixOf (c :: d :: rest') := by
    cases symbol <;> simp [Symbol.text, List.isPrefixOf]
  simp only [Symbol.at?, same]

theorem symbolAt?_followed {c d : Char} {inside rest : List Char} (rest' : List Char) {symbol : Symbol}
    (known : Symbol.at? (c :: (inside ++ d :: rest)) = some symbol) (size : symbol.text.length - 1 = inside.length) :
    Symbol.at? (c :: (inside ++ d :: rest')) = some symbol := by
  have short : symbol.text.length ≤ 2 := by cases symbol <;> decide
  rw [← known]
  cases inside with
  | nil => exact symbolAt?_pair c d rest' rest
  | cons first inside =>
    rw [List.length_cons] at size
    have nil : inside = [] := List.length_eq_zero_iff.mp (by omega)
    rw [nil]
    exact symbolAt?_pair c first (d :: rest') (d :: rest)

/-- What a token is does not depend on what stands after the character that follows it, except that a number may go on
with a fraction or an exponent. -/
theorem Starts.followed {c d : Char} {inside rest : List Char} {kind : Kind} (rest' : List Char)
    (starts : Starts c (inside ++ d :: rest) kind inside.length) (solid : kind ≠ .separator)
    (broken : fractionLength (d :: rest) = 0 → fractionLength (d :: rest') = 0)
    (scaled : kind = .float → exponentLength (d :: rest) = 0 → exponentLength (d :: rest') = 0) :
    Starts c (inside ++ d :: rest') kind inside.length := by
  generalize size : inside.length = more at starts
  cases starts with
  | separator => contradiction
  | word letter =>
    rw [← takeWhile_followed rest' (Nat.le_of_eq size.symm)]
    exact .word letter
  | int digit whole =>
    have count := digitCount_followed rest' (Nat.le_of_eq size.symm)
    rw [← count]
    rw [← size, List.drop_left] at whole
    exact .int digit (by rw [count, ← size, List.drop_left]; exact broken whole)
  | float digit fraction =>
    have digits : digitCount (inside ++ d :: rest) ≤ inside.length := by omega
    have count := digitCount_followed rest' digits
    rw [List.drop_append_of_le_length digits] at fraction size ⊢
    have part : fractionLength (inside.drop (digitCount (inside ++ d :: rest)) ++ d :: rest) =
        (inside.drop (digitCount (inside ++ d :: rest))).length := by
      rw [List.length_drop]
      omega
    have filled : inside.drop (digitCount (inside ++ d :: rest)) ≠ [] := by
      intro nil
      rw [nil, List.length_nil, ← nil] at part
      exact fraction part
    have length := fractionLength_followed rest' filled part (scaled rfl)
    have starts : Starts c (inside ++ d :: rest') _ _ := .float digit (by
      rw [count, List.drop_append_of_le_length digits, length, ← part]
      exact fraction)
    rw [count, List.drop_append_of_le_length digits, length, ← part] at starts
    exact starts
  | string quote closed =>
    have quoted := quoted_take closed
    rw [← size, List.take_left] at quoted
    rw [← size]
    exact .string quote (stringLength?_append _ quoted.length_eq)
  | symbol known => exact .symbol (symbolAt?_followed rest' known size.symm)

/-- Kind and length of the token at a place are settled by the text. -/
theorem Starts.unique {c : Char} {text : List Char} {kind kind' : Kind} {more more' : Nat}
    (starts : Starts c text kind more) (starts' : Starts c text kind' more') : kind = kind' ∧ more = more' := by
  have same := (tokenAt?_eq_some_iff.mpr starts).symm.trans (tokenAt?_eq_some_iff.mpr starts')
  simpa using same

/-- A token is one by itself. -/
theorem Starts.alone {c : Char} {inside rest : List Char} {kind : Kind}
    (starts : Starts c (inside ++ rest) kind inside.length) (solid : kind ≠ .separator) :
    Starts c inside kind inside.length := by
  have lexeme := starts.lexeme solid
  rw [List.take_left] at lexeme
  obtain ⟨_, _, same, starts⟩ := lexeme.starts
  cases same
  exact starts

/-! Texts that go on -/

theorem length_takeWhile_le_append (p : Char → Bool) (text rest : List Char) :
    (text.takeWhile p).length ≤ ((text ++ rest).takeWhile p).length := by
  induction text with
  | nil => exact Nat.zero_le _
  | cons c text ih =>
    by_cases passes : p c = true
    · simpa [passes] using ih
    · simp [passes]

theorem digitCount_le_append (text rest : List Char) : digitCount text ≤ digitCount (text ++ rest) :=
  length_takeWhile_le_append isDigit text rest

/-- Digits that end inside a text end there whatever follows. -/
theorem digitCount_append_of_lt {text : List Char} (rest : List Char) (inside : digitCount text < text.length) :
    digitCount (text ++ rest) = digitCount text := by
  induction text with
  | nil => contradiction
  | cons c text ih =>
    by_cases digit : isDigit c = true
    · simp only [digitCount, List.cons_append, List.takeWhile_cons_of_pos digit, List.length_cons] at inside ⊢
      exact congrArg Nat.succ (ih (Nat.lt_of_succ_lt_succ inside))
    · simp [digitCount, digit]

theorem exponentLength_le_append (text rest : List Char) : exponentLength text ≤ exponentLength (text ++ rest) := by
  cases text with
  | nil => exact Nat.zero_le _
  | cons letter text =>
    cases text with
    | nil =>
      have none : exponentLength [letter] = 0 := by
        rw [exponentLength_cons]
        exact if_neg fun found => found.2 rfl
      rw [none]
      exact Nat.zero_le _
    | cons sign text =>
      have signs : signLength (sign :: text ++ rest) = signLength (sign :: text) := rfl
      have more := digitCount_le_append ((sign :: text).drop (signLength (sign :: text))) rest
      rw [← List.drop_append_of_le_length (signLength_le _)] at more
      rw [List.cons_append, exponentLength_cons, exponentLength_cons, signs]
      split
      · next found =>
        rw [if_pos ⟨found.1, by omega⟩]
        omega
      · exact Nat.zero_le _

theorem fractionLength_le_append (text rest : List Char) : fractionLength text ≤ fractionLength (text ++ rest) := by
  cases text with
  | nil => exact Nat.zero_le _
  | cons point text =>
    have more := digitCount_le_append text rest
    rw [List.cons_append, fractionLength_cons, fractionLength_cons]
    split
    · next found =>
      rw [if_pos ⟨found.1, by omega⟩]
      by_cases inside : digitCount text < text.length
      · have scaled := exponentLength_le_append (text.drop (digitCount text)) rest
        rw [digitCount_append_of_lt rest inside, List.drop_append_of_le_length (digitCount_le text)]
        omega
      · have unscaled : exponentLength (text.drop (digitCount text)) = 0 := by
          rw [List.drop_eq_nil_of_le (Nat.le_of_not_lt inside)]
          rfl
        omega
    · exact Nat.zero_le _

/-- No symbol at the front of a text is longer than the one that is found. -/
theorem symbolAt?_longest {text : List Char} {found sign : Symbol} (known : Symbol.at? text = some found)
    (front : sign.text.toList <+: text) : sign.text.length ≤ found.text.length := by
  obtain ⟨_, before, behind, whole, others⟩ := List.find?_eq_some_iff_append.mp known
  have member : sign ∈ before ++ found :: behind := by
    rw [← whole]
    cases sign <;> decide
  have falling : (before ++ found :: behind).Pairwise fun earlier later => later.text.length ≤ earlier.text.length := by
    rw [← whole]
    decide
  obtain earlier | later := List.mem_append.mp member
  · have other := others sign earlier
    rw [List.isPrefixOf_iff_prefix.mpr front] at other
    contradiction
  · obtain rfl | later := List.mem_cons.mp later
    · exact Nat.le_refl _
    · exact List.rel_of_pairwise_cons (List.pairwise_append.mp falling).2.1 later

/-- Where a token stands by itself one begins also if the text goes on, and it is no shorter. -/
theorem Lexeme.starts_append {kind : Kind} {c : Char} {inside : List Char} (lexeme : Lexeme kind (c :: inside))
    (rest : List Char) : ∃ kind' more, Starts c (inside ++ rest) kind' more ∧ inside.length ≤ more := by
  obtain ⟨_, _, same, starts⟩ := lexeme.starts
  cases same
  have number (digit : isDigit c = true) : ∃ kind' more, Starts c (inside ++ rest) kind' more ∧
      digitCount (inside ++ rest) + fractionLength ((inside ++ rest).drop (digitCount (inside ++ rest))) = more := by
    by_cases whole : fractionLength ((inside ++ rest).drop (digitCount (inside ++ rest))) = 0
    · exact ⟨_, _, .int digit whole, by rw [whole]; rfl⟩
    · exact ⟨_, _, .float digit whole, rfl⟩
  generalize size : inside.length = length at starts
  cases starts with
  | separator => cases lexeme
  | word letter => exact ⟨_, _, .word letter, length_takeWhile_le_append isNamePart inside rest⟩
  | int digit =>
    obtain ⟨kind', more, starts, rfl⟩ := number digit
    have digits := digitCount_le_append inside rest
    exact ⟨kind', _, starts, by omega⟩
  | float digit broken =>
    obtain ⟨kind', more, starts, rfl⟩ := number digit
    have fraction := fractionLength_le_append (inside.drop (digitCount inside)) rest
    refine ⟨kind', _, starts, ?_⟩
    rw [digitCount_append_of_lt rest (by omega), List.drop_append_of_le_length (digitCount_le inside)]
    omega
  | string quote closed => exact ⟨_, _, .string quote (stringLength?_append rest closed), Nat.le_refl _⟩
  | @symbol sign matched =>
    have front : sign.text.toList <+: c :: (inside ++ rest) :=
      (symbolAt?_front matched).trans (List.prefix_append (c :: inside) rest)
    have some_sign : (Symbol.at? (c :: (inside ++ rest))).isSome :=
      List.find?_isSome.mpr ⟨sign, List.mem_of_find?_eq_some matched, List.isPrefixOf_iff_prefix.mpr front⟩
    obtain ⟨found, known⟩ := Option.isSome_iff_exists.mp some_sign
    have longest := symbolAt?_longest known front
    exact ⟨_, _, .symbol known, by omega⟩

/-- A token is the same if the text is cut off somewhere behind it. -/
theorem Starts.cut {c : Char} {inside front rest : List Char} {kind : Kind}
    (starts : Starts c (inside ++ (front ++ rest)) kind inside.length) (solid : kind ≠ .separator) :
    Starts c (inside ++ front) kind inside.length := by
  cases front with
  | nil => rw [List.append_nil]; exact starts.alone solid
  | cons d front =>
    have fraction := fractionLength_le_append (d :: front) rest
    have exponent := exponentLength_le_append (d :: front) rest
    exact starts.followed front solid (fun none => Nat.le_zero.mp (none ▸ fraction))
      fun _ none => Nat.le_zero.mp (none ▸ exponent)

end Corvid.Token
