import Corvid.Eval.Literal
import Corvid.Proofs.Token.Lexeme
import Mathlib.Algebra.Group.Nat.Even

/-!
String literals. The inside of a literal is read in units, plain characters and pairs of a backslash and a character,
and only a quote has to be written as a pair. A literal is decoded without looking at units: every backslash before a
quote is dropped. The two agree, for a quote inside a literal is always the second half of a pair. So literals
that are written differently stand for different texts; which texts they stand for is seen from the runs of backslashes
in them.
-/
namespace Corvid

/-- What is read at once inside a string literal. -/
inductive StringUnit where
  | plain (c : Char)
  /-- A backslash and the character after it. -/
  | escape (c : Char)

namespace StringUnit

def written : StringUnit → List Char
  | plain c => [c]
  | escape c => ['\\', c]

/-- An escaped quote stands for a quote, any other unit for itself. -/
def meaning : StringUnit → List Char
  | plain c => [c]
  | escape c => if c = '"' then ['"'] else ['\\', c]

/-- The units that may stand inside a string literal. -/
def Proper : StringUnit → Prop
  | plain c => c ≠ '"' ∧ c ≠ '\\' ∧ c ≠ '\n'
  | escape c => c ≠ '\n'

/-- The units of the inside of a literal, from left to right. -/
def read : List Char → List StringUnit
  | '\\' :: c :: rest => escape c :: read rest
  | c :: rest => plain c :: read rest
  | [] => []

/-- The units that stand for a text, from left to right. -/
def spell : List Char → List StringUnit
  | '"' :: rest => escape '"' :: spell rest
  | '\\' :: c :: rest => escape c :: spell rest
  | c :: rest => plain c :: spell rest
  | [] => []

/-! Writing and reading -/

theorem read_plain {c : Char} (other : c ≠ '\\') (rest : List Char) : read (c :: rest) = plain c :: read rest := by
  rw [read]
  rintro _ _ rfl
  contradiction

theorem read_written {units : List StringUnit} (proper : ∀ unit ∈ units, unit.Proper) :
    read (units.flatMap written) = units := by
  induction units with
  | nil => rfl
  | cons unit units ih =>
    obtain ⟨first, others⟩ := List.forall_mem_cons.mp proper
    cases unit with
    | plain c => exact (read_plain first.2.1 _).trans (congrArg _ (ih others))
    | escape c => exact congrArg _ (ih others)

theorem spell_plain {c : Char} (other : c ≠ '"' ∧ c ≠ '\\') (rest : List Char) :
    spell (c :: rest) = plain c :: spell rest := by
  rw [spell]
  · rintro rfl
    exact other.1 rfl
  · rintro _ _ rfl
    exact absurd rfl other.2

theorem spell_meaning {units : List StringUnit} (proper : ∀ unit ∈ units, unit.Proper) :
    spell (units.flatMap meaning) = units := by
  induction units with
  | nil => rfl
  | cons unit units ih =>
    obtain ⟨first, others⟩ := List.forall_mem_cons.mp proper
    rw [List.flatMap_cons]
    cases unit with
    | plain c => exact (spell_plain ⟨first.1, first.2.1⟩ _).trans (congrArg _ (ih others))
    | escape c =>
      rw [meaning]
      split
      · next quote => rw [quote, List.singleton_append, spell, ih others]
      · exact congrArg _ (ih others)

/-- Inside a literal no unit is written with a quote at its front. -/
theorem head?_written_ne {units : List StringUnit} (proper : ∀ unit ∈ units, unit.Proper) :
    (units.flatMap written).head? ≠ some '"' := by
  cases units with
  | nil => exact (Option.some_ne_none _).symm
  | cons unit units =>
    have first := proper unit List.mem_cons_self
    cases unit with
    | plain c => exact fun same => first.1 (Option.some.inj same)
    | escape c => exact fun same => absurd (Option.some.inj same) (by decide)

end StringUnit

open StringUnit

theorem unescapeQuotes_cons {c : Char} {rest : List Char} (keeps : c ≠ '\\' ∨ rest.head? ≠ some '"') :
    unescapeQuotes (c :: rest) = c :: unescapeQuotes rest := by
  rw [unescapeQuotes]
  rintro more rfl rfl
  exact keeps.elim (absurd rfl) (absurd rfl)

/-- To drop the backslashes before quotes is to read units and take each for what it stands for. -/
theorem unescapeQuotes_written {units : List StringUnit} (proper : ∀ unit ∈ units, unit.Proper) :
    unescapeQuotes (units.flatMap written) = units.flatMap meaning := by
  induction units with
  | nil => rfl
  | cons unit units ih =>
    obtain ⟨first, others⟩ := List.forall_mem_cons.mp proper
    have later := ih others
    rw [List.flatMap_cons, List.flatMap_cons, ← later]
    cases unit with
    | plain c => exact unescapeQuotes_cons (.inl first.2.1)
    | escape c =>
      rw [meaning]
      split
      · next quote => rw [quote]; rfl
      · next other =>
        -- the second half of the pair may be a backslash, but no quote follows it
        have outer : unescapeQuotes ('\\' :: c :: units.flatMap written) =
            '\\' :: unescapeQuotes (c :: units.flatMap written) :=
          unescapeQuotes_cons (.inr fun same => other (Option.some.inj same))
        exact outer.trans (congrArg _ (unescapeQuotes_cons (.inr (head?_written_ne others))))

/-- The inside of a literal, closing quote included, is proper units and a quote. -/
theorem Token.quoted_iff {inside : List Char} : Token.Quoted inside ↔
    ∃ units : List StringUnit, (∀ unit ∈ units, unit.Proper) ∧ inside = units.flatMap written ++ ['"'] := by
  constructor
  · intro quoted
    induction quoted with
    | close => exact ⟨[], List.forall_mem_nil _, rfl⟩
    | @plain c text other _ ih =>
      obtain ⟨units, proper, rfl⟩ := ih
      exact ⟨.plain c :: units, List.forall_mem_cons.mpr ⟨other, proper⟩, rfl⟩
    | @escape c text inLine _ ih =>
      obtain ⟨units, proper, rfl⟩ := ih
      exact ⟨.escape c :: units, List.forall_mem_cons.mpr ⟨inLine, proper⟩, rfl⟩
  · rintro ⟨units, proper, rfl⟩
    induction units with
    | nil => exact .close
    | cons unit units ih =>
      obtain ⟨first, others⟩ := List.forall_mem_cons.mp proper
      cases unit with
      | plain c => exact .plain first (ih others)
      | escape c => exact .escape first (ih others)

theorem Token.lexeme_string_iff {text : List Char} : Token.Lexeme .string text ↔
    ∃ units : List StringUnit, (∀ unit ∈ units, unit.Proper) ∧ text = '"' :: (units.flatMap written ++ ['"']) := by
  constructor
  · intro lexeme
    cases lexeme with
    | string quoted =>
      obtain ⟨units, proper, rfl⟩ := quoted_iff.mp quoted
      exact ⟨units, proper, rfl⟩
  · rintro ⟨units, proper, rfl⟩
    exact .string (quoted_iff.mpr ⟨units, proper, rfl⟩)

/-- A literal stands for what its units stand for. -/
theorem literalValue_of_units {lexeme : String} {units : List StringUnit} (proper : ∀ unit ∈ units, unit.Proper)
    (text_eq : lexeme.toList = '"' :: (units.flatMap written ++ ['"'])) :
    literalValue .string lexeme = .ok (.text (String.ofList (units.flatMap meaning))) := by
  have body : stringBody? lexeme.toList = some (units.flatMap written) := by simp [stringBody?, text_eq]
  simp only [literalValue, body, unescapeQuotes_written proper]

/-! The texts that literals stand for -/

/-- Wherever a whole run of backslashes ends before a quote or at the end of the text, it has even length. -/
def EvenRuns (content : List Char) : Prop :=
  ∀ (front : List Char) (count : Nat) (rest : List Char),
    content = front ++ (List.replicate count '\\' ++ rest) → front.getLast? ≠ some '\\' →
    (rest = [] ∨ rest.head? = some '"') → Even count

theorem evenRuns_nil : EvenRuns [] := by
  intro front count rest content_eq _ _
  have none := (List.append_eq_nil_iff.mp (List.append_eq_nil_iff.mp content_eq.symm).2).1
  rw [(List.replicate_eq_nil_iff _).mp none]
  exact Even.zero

/-- A character other than a backslash ends every run before it. -/
theorem evenRuns_cons {c : Char} (other : c ≠ '\\') (content : List Char) :
    EvenRuns (c :: content) ↔ EvenRuns content := by
  constructor
  · intro even front count rest content_eq whole ends
    refine even (c :: front) count rest (congrArg _ content_eq) ?_ ends
    cases front with
    | nil => exact fun same => other (Option.some.inj same)
    | cons d front => rwa [List.getLast?_cons_cons]
  · intro even front count rest content_eq whole ends
    cases front with
    | nil =>
      cases count with
      | zero => exact Even.zero
      | succ count =>
        cases content_eq
        contradiction
    | cons d front =>
      cases content_eq
      refine even front count rest rfl (fun last => ?_) ends
      obtain ⟨more, rfl⟩ := List.getLast?_eq_some_iff.mp last
      exact whole (by simp [List.getLast?_cons])

/-- A backslash and the character after it leave the runs behind them as they are. -/
theorem evenRuns_pair (c : Char) (content : List Char) :
    EvenRuns ('\\' :: c :: content) ↔ c ≠ '"' ∧ EvenRuns content := by
  constructor
  · intro even
    constructor
    · rintro rfl
      exact absurd (even [] 1 ('"' :: content) rfl (Option.some_ne_none _).symm (.inr rfl)) (by decide)
    · intro front count rest content_eq whole ends
      by_cases run : c = '\\' ∧ front = []
      · -- the run is two longer in the whole text
        obtain ⟨rfl, rfl⟩ := run
        have longer := even [] (count + 2) rest (by rw [content_eq]; rfl) (Option.some_ne_none _).symm ends
        rw [Nat.even_iff] at longer ⊢
        omega
      · refine even ('\\' :: c :: front) count rest (by rw [content_eq]; rfl) ?_ ends
        cases front with
        | nil => exact fun same => run ⟨Option.some.inj same, rfl⟩
        | cons d front => rwa [List.getLast?_cons_cons, List.getLast?_cons_cons]
  · rintro ⟨unquoted, even⟩ front count rest content_eq whole ends
    cases front with
    | nil =>
      cases count with
      | zero => exact Even.zero
      | succ count =>
        cases count with
        | zero =>
          simp only [List.nil_append, zero_add, List.replicate_one, List.singleton_append, List.cons.injEq,
            true_and] at content_eq
          subst content_eq
          exact ends.elim (absurd · (List.cons_ne_nil _ _)) fun same => absurd (Option.some.inj same) unquoted
        | succ count =>
          simp only [List.nil_append, List.replicate_succ, List.cons_append, List.cons.injEq, true_and] at content_eq
          have shorter := even [] count rest content_eq.2 (Option.some_ne_none _).symm ends
          rw [Nat.even_iff] at shorter ⊢
          omega
    | cons d front =>
      rw [List.cons_append, List.cons.injEq] at content_eq
      obtain ⟨rfl, content_eq⟩ := content_eq
      cases front with
      | nil => exact absurd rfl whole
      | cons e front =>
        rw [List.cons_append, List.cons.injEq] at content_eq
        refine even front count rest content_eq.2 (fun last => ?_) ends
        obtain ⟨more, rfl⟩ := List.getLast?_eq_some_iff.mp last
        exact whole (by simp [List.getLast?_cons])

/-- What proper units stand for has no line end and only even runs. -/
theorem evenRuns_meaning {units : List StringUnit} (proper : ∀ unit ∈ units, unit.Proper) :
    '\n' ∉ units.flatMap meaning ∧ EvenRuns (units.flatMap meaning) := by
  induction units with
  | nil => exact ⟨List.not_mem_nil, evenRuns_nil⟩
  | cons unit units ih =>
    obtain ⟨first, others⟩ := List.forall_mem_cons.mp proper
    obtain ⟨inLine, even⟩ := ih others
    rw [List.flatMap_cons]
    cases unit with
    | plain c =>
      exact ⟨List.not_mem_cons_of_ne_of_not_mem first.2.2.symm inLine, (evenRuns_cons first.2.1 _).mpr even⟩
    | escape c =>
      have inLine' : c ≠ '\n' := first
      rw [meaning]
      split
      · exact ⟨List.not_mem_cons_of_ne_of_not_mem (by decide) inLine, (evenRuns_cons (by decide) _).mpr even⟩
      · next unquoted =>
        refine ⟨?_, (evenRuns_pair c _).mpr ⟨unquoted, even⟩⟩
        have later := List.not_mem_cons_of_ne_of_not_mem inLine'.symm inLine
        exact List.not_mem_cons_of_ne_of_not_mem (by decide) later

/-- Such a text is spelled by proper units. -/
theorem spell_proper {content : List Char} (inLine : '\n' ∉ content) (even : EvenRuns content) :
    (∀ unit ∈ spell content, unit.Proper) ∧ (spell content).flatMap meaning = content := by
  fun_induction spell content with
  | case1 rest ih =>
    obtain ⟨proper, same⟩ := ih (fun member => inLine (List.mem_cons_of_mem _ member))
      ((evenRuns_cons (by decide) rest).mp even)
    refine ⟨List.forall_mem_cons.mpr ⟨?_, proper⟩, ?_⟩
    · exact fun same : '"' = '\n' => absurd same (by decide)
    · rw [List.flatMap_cons, same]
      rfl
  | case2 c rest ih =>
    obtain ⟨unquoted, later⟩ := (evenRuns_pair c rest).mp even
    simp only [List.mem_cons, not_or] at inLine
    obtain ⟨proper, same⟩ := ih inLine.2.2 later
    refine ⟨List.forall_mem_cons.mpr ⟨Ne.symm inLine.2.1, proper⟩, ?_⟩
    rw [List.flatMap_cons, same, meaning, if_neg unquoted]
    rfl
  | case3 c rest quote pair ih =>
    simp only [List.mem_cons, not_or] at inLine
    have other : c ≠ '\\' := by
      rintro rfl
      cases rest with
      | nil => exact absurd (even [] 1 [] rfl (Option.some_ne_none _).symm (.inl rfl)) (by decide)
      | cons d rest => exact pair d rest rfl rfl
    obtain ⟨proper, same⟩ := ih inLine.2 ((evenRuns_cons other rest).mp even)
    refine ⟨List.forall_mem_cons.mpr ⟨⟨quote, other, Ne.symm inLine.1⟩, proper⟩, ?_⟩
    rw [List.flatMap_cons, same]
    rfl
  | case4 => exact ⟨List.forall_mem_nil _, rfl⟩

/-- The value of a string literal is what its units stand for, read from left to right as they are written. Different
literals have different values, and a text is the value of a literal if it has no line end and every whole run of
backslashes before a quote or at its end has even length. -/
theorem literalValue_string_faithful :
    (∀ lexeme : String, Token.Lexeme .string lexeme.toList → ∃ body : List Char,
      lexeme.toList = '"' :: (body ++ ['"']) ∧ (StringUnit.read body).flatMap written = body ∧
      (∀ unit ∈ StringUnit.read body, unit.Proper) ∧
      literalValue .string lexeme = .ok (.text (String.ofList ((StringUnit.read body).flatMap meaning)))) ∧
    (∀ lexeme lexeme' : String, Token.Lexeme .string lexeme.toList → Token.Lexeme .string lexeme'.toList →
      literalValue .string lexeme = literalValue .string lexeme' → lexeme = lexeme') ∧
    ∀ content : String, (∃ lexeme : String, Token.Lexeme .string lexeme.toList ∧
      literalValue .string lexeme = .ok (.text content)) ↔ '\n' ∉ content.toList ∧ EvenRuns content.toList := by
  refine ⟨fun lexeme spelled => ?_, fun lexeme lexeme' spelled spelled' same => ?_, fun content => ⟨?_, ?_⟩⟩
  · obtain ⟨units, proper, text_eq⟩ := Token.lexeme_string_iff.mp spelled
    refine ⟨units.flatMap written, text_eq, ?_⟩
    rw [read_written proper]
    exact ⟨rfl, proper, literalValue_of_units proper text_eq⟩
  · obtain ⟨units, proper, text_eq⟩ := Token.lexeme_string_iff.mp spelled
    obtain ⟨units', proper', text_eq'⟩ := Token.lexeme_string_iff.mp spelled'
    rw [literalValue_of_units proper text_eq, literalValue_of_units proper' text_eq'] at same
    simp only [Except.ok.injEq, Value.text.injEq, String.ofList_inj] at same
    have units_eq : units = units' := by rw [← spell_meaning proper, same, spell_meaning proper']
    exact String.toList_inj.mp (by rw [text_eq, text_eq', units_eq])
  · rintro ⟨lexeme, spelled, value⟩
    obtain ⟨units, proper, text_eq⟩ := Token.lexeme_string_iff.mp spelled
    rw [literalValue_of_units proper text_eq] at value
    cases value
    rw [String.toList_ofList]
    exact evenRuns_meaning proper
  · rintro ⟨inLine, even⟩
    obtain ⟨proper, same⟩ := spell_proper inLine even
    have text_eq := String.toList_ofList (l := '"' :: ((spell content.toList).flatMap written ++ ['"']))
    refine ⟨_, Token.lexeme_string_iff.mpr ⟨_, proper, text_eq⟩, ?_⟩
    rw [literalValue_of_units proper text_eq, same, String.ofList_toList]

/-- Three backslashes before a quote are a pair and an escaped quote; a text with a single backslash at its end is the
value of no literal. -/
theorem literalValue_string_faithful_escapes :
    Token.Lexeme .string "\"a\\\\\\\"\"".toList ∧
      (∃ body, (StringUnit.read body).map written = [['a'], ['\\', '\\'], ['\\', '"']] ∧
        literalValue .string "\"a\\\\\\\"\"" = .ok (.text (String.ofList ((StringUnit.read body).flatMap meaning)))) ∧
      literalValue .string "\"a\\\\\\\"\"" = .ok (.text "a\\\\\"") ∧
      ¬∃ lexeme : String, Token.Lexeme .string lexeme.toList ∧ literalValue .string lexeme = .ok (.text "a\\") := by
  have spelled : Token.Lexeme .string "\"a\\\\\\\"\"".toList :=
    .string (.plain (by decide) (.escape (by decide) (.escape (by decide) .close)))
  obtain ⟨decodes, _, denoted⟩ := literalValue_string_faithful
  refine ⟨spelled, ?_, rfl, fun exists_literal => ?_⟩
  · obtain ⟨body, text_eq, _, _, value⟩ := decodes _ spelled
    refine ⟨body, ?_, value⟩
    have body_eq : body ++ ['"'] = ['a', '\\', '\\', '\\', '"'] ++ ['"'] := (List.cons.inj text_eq).2.symm
    rw [List.append_cancel_right body_eq]
    rfl
  · have even := ((denoted "a\\").mp exists_literal).2
    exact absurd (even ['a'] 1 [] rfl (by decide) (.inl rfl)) (by decide)

end Corvid
