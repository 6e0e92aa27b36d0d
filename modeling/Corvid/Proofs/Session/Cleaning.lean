import Corvid.Proofs.Printing.Spread
import Corvid.Proofs.Token.Following
import Corvid.Proofs.Token.Joining
import Corvid.Session.Buffer
import Mathlib.Data.List.DropRight

/-!
Cleaning a text and splitting it. The characters that cleaning takes out stand between tokens, in separators or in
strings. A string changes with them, and two tokens that only carriage returns kept apart may become one. Where neither
happens, the cleaned text has the same tokens, places and the texts of separators aside.
-/
namespace Corvid.Token

/-- A number with a fraction is not followed by a word that could be its exponent. -/
def Ended (first second : Token) : Prop :=
  first.kind = .float → second.kind ≠ .name ∧ second.kind ≠ .keyword .kwElse

/-- The words that begin like an exponent are names and `else`. -/
theorem Starts.not_exponent {c : Char} {text : List Char} {kind : Kind} {more : Nat} (starts : Starts c text kind more)
    (other : kind ≠ .name ∧ kind ≠ .keyword .kwElse) : c ≠ 'e' ∧ c ≠ 'E' := by
  have letters : c = 'e' ∨ c = 'E' → False := by
    intro letter
    cases starts with
    | separator opens => obtain rfl | rfl := letter <;> simp at opens
    | word =>
      rw [wordKind] at other
      split at other
      · next word found =>
        have same : word.text.toList = c :: text.takeWhile isNamePart := by simpa using List.find?_some found
        cases word <;> obtain rfl | rfl := letter <;> simp_all [Keyword.text]
      · exact other.1 rfl
    | int digit | float digit => obtain rfl | rfl := letter <;> contradiction
    | string quote => obtain rfl | rfl := letter <;> contradiction
    | symbol known =>
      have head := symbolAt?_head known
      obtain rfl | rfl := letter <;> contradiction
  exact ⟨fun same => letters (.inl same), fun same => letters (.inr same)⟩

/-- A token that begins with a point is the symbol of two points. -/
theorem Starts.point {text : List Char} {kind : Kind} {more : Nat} (starts : Starts '.' text kind more) :
    ∃ rest, text = '.' :: rest := by
  cases starts with
  | separator opens => simp at opens
  | word letter => contradiction
  | int digit | float digit => contradiction
  | string quote => contradiction
  | @symbol symbol known =>
    obtain ⟨rest, found⟩ := symbolAt?_front known
    cases symbol <;> simp [Symbol.text] at found
    exact ⟨rest, found.symm⟩

theorem exists_splits_cons {c : Char} {inside rest : List Char} {kind : Kind} {wordings : List (Kind × String)}
    (starts : Starts c (inside ++ rest) kind inside.length)
    (later : ∀ position, ∃ found, Splits position rest found ∧ found.map wording = wordings) (position : Position) :
    ∃ found, Splits position (c :: (inside ++ rest)) found ∧
      found.map wording = worded (kind, String.ofList (c :: inside)) :: wordings := by
  obtain ⟨found, splits, same⟩ := later (position.after (c :: inside))
  refine ⟨⟨kind, String.ofList (c :: inside), position⟩ :: found, ?_, ?_⟩
  · have taken : (inside ++ rest).take inside.length = inside := List.take_left
    have dropped : (inside ++ rest).drop inside.length = rest := List.drop_left
    have whole : Splits position (c :: (inside ++ rest)) (_ :: found) := .token starts (by rwa [taken, dropped])
    rwa [taken] at whole
  · rw [List.map_cons, same]
    rfl

end Corvid.Token

namespace Corvid.Session
open Token

/-- The characters that stay when a text is cleaned. -/
def visible (text : List Char) : List Char := text.filter (!isInvisible ·)

theorem toList_cleaned (text : String) : (cleaned text).toList = visible text.toList := String.toList_ofList

theorem visible_cons {c : Char} (seen : isInvisible c = false) (text : List Char) :
    visible (c :: text) = c :: visible text := by
  simp [visible, seen]

theorem visible_cons_of_invisible {c : Char} (unseen : isInvisible c = true) (text : List Char) :
    visible (c :: text) = visible text := by
  simp [visible, unseen]

theorem visible_append (front rest : List Char) : visible (front ++ rest) = visible front ++ visible rest :=
  List.filter_append front rest

theorem visible_eq_self {text : List Char} (seen : ∀ c ∈ text, isInvisible c = false) : visible text = text :=
  List.filter_eq_self.mpr fun c member => by simp [seen c member]

/-- All invisible characters. -/
def invisibles : List Char := ['\u200b', '\u200c', '\u200d', '\ufeff', '\u00a0', '\r']

theorem mem_invisibles {c : Char} (unseen : isInvisible c = true) : c ∈ invisibles := by
  simpa [isInvisible, invisibles, or_assoc] using unseen

theorem of_isInvisible {p : Char → Prop} [DecidablePred p] (all : invisibles.all (fun d => p d) = true) {c : Char}
    (unseen : isInvisible c = true) : p c :=
  of_decide_eq_true (List.all_eq_true.mp all c (mem_invisibles unseen))

/-- The carriage return is the only invisible character among the blanks between tokens. -/
theorem eq_return_of_isSpace {c : Char} (blank : isSpace c = true) (unseen : isInvisible c = true) : c = '\r' := by
  exact of_isInvisible (p := fun d => isSpace d = true → d = '\r') (by decide) unseen blank

theorem visible_of_isNamePart {c : Char} (part : isNamePart c = true) : isInvisible c = false := by
  by_contra unseen
  rw [Bool.not_eq_false] at unseen
  have other := of_isInvisible (p := fun d => isNamePart d = false) (by decide) unseen
  rw [other] at part
  contradiction

/-- No token but a string has an invisible character in it. -/
theorem visible_of_lexeme {kind : Kind} {text : List Char} (lexeme : Lexeme kind text) (plain : kind ≠ .string) :
    ∀ c ∈ text, isInvisible c = false := by
  have digits {text : List Char} (number : Digits text) : ∀ c ∈ text, isInvisible c = false :=
    fun c member => visible_of_isNamePart (by simp [isNamePart, number.2 c member])
  have spelled {text : List Char} (all : text.all (!isInvisible ·) = true) : ∀ c ∈ text, isInvisible c = false :=
    fun c member => by simpa using List.all_eq_true.mp all c member
  cases lexeme with
  | name letter parts =>
    rw [List.forall_mem_cons]
    exact ⟨visible_of_isNamePart (by simp [isNamePart, letter]), fun c member => visible_of_isNamePart (parts c member)⟩
  | int number => exact digits number
  | @float whole fraction exponent number broken scaled =>
    have last : ∀ c ∈ exponent, isInvisible c = false := by
      cases scaled with
      | absent => exact List.forall_mem_nil _
      | plain known number => obtain rfl | rfl := known <;> exact List.forall_mem_cons.mpr ⟨rfl, digits number⟩
      | signed known known' number =>
        obtain rfl | rfl := known <;> obtain rfl | rfl := known' <;>
          exact List.forall_mem_cons.mpr ⟨rfl, List.forall_mem_cons.mpr ⟨rfl, digits number⟩⟩
    simp only [List.forall_mem_append, List.forall_mem_cons]
    exact ⟨digits number, rfl, digits broken, last⟩
  | string => contradiction
  | keyword word => exact spelled (by cases word <;> decide)
  | symbol sign => exact spelled (by cases sign <;> decide)

/-- No token begins with an invisible character. -/
theorem visible_of_starts {c : Char} {text : List Char} {kind : Kind} {more : Nat} (starts : Starts c text kind more) :
    isInvisible c = false := by
  cases starts with
  | separator opens => obtain rfl | rfl | rfl := opens <;> rfl
  | word letter => exact visible_of_isNamePart (by simp [isNamePart, letter])
  | int digit | float digit => exact visible_of_isNamePart (by simp [isNamePart, digit])
  | string quote =>
    subst quote
    rfl
  | symbol known =>
    have all : symbolHeads.all (!isInvisible ·) = true := by decide
    simpa using List.all_eq_true.mp all c (symbolAt?_head known)

/-- Separator text goes on over an invisible character as if it were not there. -/
theorem continuation?_of_invisible {comment inside : Bool} {c : Char} (unseen : isInvisible c = true)
    (going : continuation? comment c = some inside) : inside = comment := by
  exact of_isInvisible (p := fun d => continuation? comment d = some inside → inside = comment)
    (by cases comment <;> cases inside <;> decide) unseen going

/-- The separator text of a cleaned text is the cleaned separator text, if what follows it is not taken out. -/
theorem separatorLength_visible {comment : Bool} {text : List Char}
    (seen : ∀ c ∈ (text.drop (separatorLength comment text)).head?, isInvisible c = false) :
    separatorLength comment (visible text) = (visible (text.take (separatorLength comment text))).length := by
  induction text generalizing comment with
  | nil => rfl
  | cons c text ih =>
    rw [separatorLength_cons] at seen ⊢
    cases going : continuation? comment c with
    | none =>
      rw [going] at seen
      rw [visible_cons (seen c rfl), separatorLength_cons, going]
      rfl
    | some inside =>
      rw [going] at seen
      have later := ih seen
      simp only [List.take_succ_cons]
      cases unseen : isInvisible c with
      | true =>
        obtain rfl := continuation?_of_invisible unseen going
        rw [visible_cons_of_invisible unseen, visible_cons_of_invisible unseen, later]
      | false =>
        rw [visible_cons unseen, visible_cons unseen, separatorLength_cons, going, List.length_cons, ← later]

/-- If only carriage returns stand between a token and the next one, the two written together still begin with the
first. -/
def Apart (c : Char) (inside : List Char) (kind : Kind) (rest : List Char) : Prop :=
  ∀ gap d inside' after kind', rest = gap ++ d :: (inside' ++ after) → gap ≠ [] → (∀ b ∈ gap, b = '\r') →
    Starts d (inside' ++ after) kind' inside'.length → Starts c (inside ++ d :: inside') kind inside.length

/-- No carriage return follows the token. -/
theorem apart_of_ne {c d : Char} {inside rest : List Char} {kind : Kind} (other : d ≠ '\r') :
    Apart c inside kind (d :: rest) := by
  intro gap e inside' after kind' text_eq filled returns _
  obtain ⟨first, gap, rfl⟩ := List.exists_cons_of_ne_nil filled
  cases text_eq
  exact absurd (returns d List.mem_cons_self) other

/-- A carriage return before a character that continues no token, such as a line end, keeps nothing apart. -/
theorem apart_return {c d : Char} {inside rest : List Char} {kind : Kind}
    (alone : Starts c inside kind inside.length) (solid : kind ≠ .separator) (inert : Inert d)
    (other : d ≠ '\r') : Apart c inside kind ('\r' :: d :: rest) := by
  intro gap e inside' after kind' text_eq filled returns _
  obtain ⟨first, gap, rfl⟩ := List.exists_cons_of_ne_nil filled
  cases gap with
  | nil =>
    simp only [List.cons_append, List.nil_append, List.cons.injEq] at text_eq
    obtain ⟨_, rfl, _⟩ := text_eq
    exact alone.append inside' inert solid
  | cons second gap =>
    simp only [List.cons_append, List.cons.injEq] at text_eq
    obtain ⟨_, rfl, _⟩ := text_eq
    exact absurd (returns d (by simp)) other

/-- Cleaning does no harm to the tokens of a text: no string has an invisible character in it, and no two tokens run
into one another. -/
inductive Intact : List Char → Prop where
  | nil : Intact []
  | space {c : Char} {text : List Char} (blank : isSpace c = true) (later : Intact text) : Intact (c :: text)
  | token {c : Char} {inside rest : List Char} {kind : Kind} (starts : Starts c (inside ++ rest) kind inside.length)
      (whole : kind = .string → ∀ d ∈ inside, isInvisible d = false) (apart : Apart c inside kind rest)
      (later : Intact rest) : Intact (c :: (inside ++ rest))

/-- A cleaned text begins with a blank, or with a token before which only carriage returns have been taken out. -/
theorem Intact.exists_head {text : List Char} (intact : Intact text) {d : Char} {others : List Char}
    (cleaned : visible text = d :: others) :
    Inert d ∨ ∃ gap inside after kind, text = gap ++ d :: (inside ++ after) ∧ (∀ b ∈ gap, b = '\r') ∧
      Starts d (inside ++ after) kind inside.length ∧ others = visible (inside ++ after) := by
  induction intact with
  | nil => cases cleaned
  | @space c text blank _ ih =>
    cases unseen : isInvisible c with
    | true =>
      rw [visible_cons_of_invisible unseen] at cleaned
      refine (ih cleaned).imp_right ?_
      rintro ⟨gap, inside, after, kind, rfl, returns, starts, same⟩
      exact ⟨c :: gap, inside, after, kind, rfl,
        List.forall_mem_cons.mpr ⟨eq_return_of_isSpace blank unseen, returns⟩, starts, same⟩
    | false =>
      rw [visible_cons unseen] at cleaned
      cases cleaned
      left
      simp only [isSpace, Bool.or_eq_true, beq_iff_eq] at blank
      obtain ((rfl | rfl) | rfl) | rfl := blank <;> decide
  | @token c inside rest kind starts _ _ _ _ =>
    rw [visible_cons (visible_of_starts starts)] at cleaned
    cases cleaned
    exact .inr ⟨[], inside, rest, kind, rfl, List.forall_mem_nil _, starts, rfl⟩

/-- After a separator comes no invisible character. -/
theorem Intact.visible_after_separator {c : Char} {inside rest : List Char} (intact : Intact rest)
    (starts : Starts c (inside ++ rest) .separator inside.length) : ∀ d ∈ rest.head?, isInvisible d = false := by
  obtain ⟨_, size⟩ := starts.separator_inv
  cases intact with
  | nil => simp
  | @space d rest blank _ =>
    have within : separatorLength (c == '#') (inside ++ d :: rest) < (inside ++ d :: rest).length := by
      rw [← size]
      simp
    obtain ⟨stop, after, found, stops⟩ := continuation?_of_separatorLength_lt within
    rw [← size, List.drop_left] at found
    cases found
    rw [continuation?_space blank] at stops
    cases stops
  | token next => simpa using visible_of_starts next

/-- A separator is read from the cleaned text with its invisible characters taken out. -/
theorem Intact.separator_visible {c : Char} {inside rest : List Char} (intact : Intact rest)
    (starts : Starts c (inside ++ rest) .separator inside.length) :
    Starts c (visible inside ++ visible rest) .separator (visible inside).length := by
  obtain ⟨opens, size⟩ := starts.separator_inv
  have seen := intact.visible_after_separator starts
  have length := @separatorLength_visible (c == '#') (inside ++ rest)
  rw [← size, List.drop_left, List.take_left, visible_append] at length
  rw [← length seen]
  exact .separator opens

/-- Any other token is read from the cleaned text as before. -/
theorem Intact.starts_visible {c : Char} {inside rest : List Char} {kind : Kind} (intact : Intact rest)
    (starts : Starts c (inside ++ rest) kind inside.length) (solid : kind ≠ .separator)
    (apart : Apart c inside kind rest)
    (ended : ∀ gap d after kind' more, rest = gap ++ d :: after → (∀ b ∈ gap, b = '\r') → Starts d after kind' more →
      kind = .float → kind' ≠ .name ∧ kind' ≠ .keyword .kwElse) :
    Starts c (inside ++ visible rest) kind inside.length := by
  have alone := starts.alone solid
  cases cleaned : visible rest with
  | nil => rwa [List.append_nil]
  | cons d others =>
    obtain inert | ⟨gap, inside', after, kind', rfl, returns, next, rfl⟩ := intact.exists_head cleaned
    · exact alone.append others inert solid
    · -- the token is read from some text that goes on with the same character
      obtain ⟨other, read⟩ : ∃ other, Starts c (inside ++ d :: other) kind inside.length := by
        cases gap with
        | nil => exact ⟨_, starts⟩
        | cons b gap => exact ⟨_, apart _ d inside' after kind' rfl (List.cons_ne_nil _ _) returns next⟩
      have point (_ : fractionLength (d :: other) = 0) : fractionLength (d :: visible (inside' ++ after)) = 0 := by
        rw [fractionLength_cons]
        refine if_neg fun ⟨same, digits⟩ => ?_
        subst same
        obtain ⟨others, same⟩ := next.point
        rw [same, visible_cons rfl] at digits
        exact digits rfl
      refine read.followed _ solid point fun float _ => ?_
      have plain := next.not_exponent (ended gap d (inside' ++ after) kind' _ rfl returns next float)
      simp [exponentLength, plain]

/-- Carriage returns do not count for which token comes first. -/
theorem exists_first {position : Position} {gap after : List Char} {d : Char} {kind : Kind} {more : Nat}
    {tokens : List Token} (splits : Splits position (gap ++ d :: after) tokens) (returns : ∀ b ∈ gap, b = '\r')
    (starts : Starts d after kind more) : ∃ first rest, tokens = first :: rest ∧ first.kind = kind := by
  induction gap generalizing position with
  | nil =>
    cases splits with
    | space blank => exact absurd blank starts.not_isSpace
    | token starts' => exact ⟨_, _, rfl, (starts'.unique starts).1⟩
  | cons b gap ih =>
    obtain ⟨rfl, others⟩ := List.forall_mem_cons.mp returns
    cases splits with
    | space _ rest => exact ih rest others
    | token starts' => exact absurd rfl starts'.not_isSpace

/-- The tokens of an intact text are those of the cleaned text, places and the texts of separators aside. -/
theorem Intact.exists_splits {text : List Char} (intact : Intact text) {position : Position} {tokens : List Token}
    (splits : Splits position text tokens) (ended : tokens.IsChain Ended) (position' : Position) :
    ∃ found, Splits position' (visible text) found ∧ found.map wording = tokens.map wording := by
  induction intact generalizing position tokens position' with
  | nil =>
    cases splits
    exact ⟨[], .nil _, rfl⟩
  | @space c text blank _ ih =>
    cases splits with
    | token starts => exact absurd blank starts.not_isSpace
    | space _ splits =>
      cases unseen : isInvisible c with
      | true =>
        rw [visible_cons_of_invisible unseen]
        exact ih splits ended position'
      | false =>
        obtain ⟨found, again, same⟩ := ih splits ended (position'.next c)
        rw [visible_cons unseen]
        exact ⟨found, .space blank again, same⟩
  | @token c inside rest kind starts whole apart intact ih =>
    cases splits with
    | space blank => exact absurd blank starts.not_isSpace
    | @token _ _ _ kind' _ others starts' splits =>
      obtain ⟨rfl, rfl⟩ := starts'.unique starts
      rw [List.drop_left] at splits
      have later := ih splits ended.tail
      rw [visible_cons (visible_of_starts starts), visible_append, List.take_left]
      by_cases separator : kind' = .separator
      · subst separator
        exact exists_splits_cons (intact.separator_visible starts) later position'
      · have seen : visible inside = inside := by
          apply visible_eq_self
          by_cases string : kind' = .string
          · exact whole string
          · have lexeme := starts.lexeme separator
            rw [List.take_left] at lexeme
            exact (List.forall_mem_cons.mp (visible_of_lexeme lexeme string)).2
        rw [seen]
        refine exists_splits_cons (intact.starts_visible starts separator apart ?_) later position'
        rintro gap d after next more rfl returns begins float
        obtain ⟨first, others, rfl, rfl⟩ := exists_first splits returns begins
        exact ended.rel float

/-! The front of a text -/

/-- Characters that cleaning and stripping take away from the front of a text. -/
def isFaint (c : Char) : Bool := isInvisible c || Text.isBlank c

/-- Stripping the front of a cleaned text is cleaning what is left without its faint front. -/
theorem dropWhile_visible (text : List Char) :
    (visible text).dropWhile Text.isBlank = visible (text.dropWhile isFaint) := by
  induction text with
  | nil => rfl
  | cons c text ih =>
    cases unseen : isInvisible c with
    | true =>
      have faint : isFaint c = true := by simp [isFaint, unseen]
      rw [visible_cons_of_invisible unseen, List.dropWhile_cons_of_pos faint, ih]
    | false =>
      rw [visible_cons unseen]
      cases blank : Text.isBlank c with
      | true =>
        have faint : isFaint c = true := by simp [isFaint, blank]
        rw [List.dropWhile_cons_of_pos blank, List.dropWhile_cons_of_pos faint, ih]
      | false =>
        have plain : ¬isFaint c = true := by simp [isFaint, unseen, blank]
        rw [List.dropWhile_cons_of_neg (by simp [blank]), List.dropWhile_cons_of_neg plain, visible_cons unseen]

/-- What a text begins with when it has been cleaned and stripped. -/
theorem head?_stripped (text : List Char) : (Text.stripped (visible text)).head? = (text.dropWhile isFaint).head? := by
  have whole : Text.stripped (visible text) = (visible (text.dropWhile isFaint)).rdropWhile Text.isBlank := by
    rw [← dropWhile_visible]
    rfl
  rw [whole]
  cases left : text.dropWhile isFaint with
  | nil => rfl
  | cons c rest =>
    have plain : isFaint c = false := by
      have first := List.head?_dropWhile_not isFaint text
      rw [left] at first
      exact first
    obtain ⟨seen, solid⟩ := Bool.or_eq_false_iff.mp plain
    rw [visible_cons seen]
    cases stripped : (c :: visible rest).rdropWhile Text.isBlank with
    | nil =>
      have blank := List.rdropWhile_eq_nil_iff.mp stripped c List.mem_cons_self
      rw [solid] at blank
      contradiction
    | cons d others =>
      have front := List.rdropWhile_prefix Text.isBlank (c :: visible rest)
      rw [stripped] at front
      exact congrArg some (List.cons_prefix_cons.mp front).1

/-- Separator text at the front of a text is its faint front, or ends before a character that begins no token. -/
theorem drop_separatorLength {text : List Char} (plain : ∀ c ∈ (text.dropWhile isFaint).head?, c ≠ '#' ∧ c ≠ ';') :
    text.drop (separatorLength false text) = text.dropWhile isFaint ∨
      ∃ c rest, text.drop (separatorLength false text) = c :: rest ∧ isInvisible c = true ∧
        Text.isBlank c = false := by
  induction text with
  | nil => exact .inl rfl
  | cons c text ih =>
    rw [separatorLength_cons]
    cases blank : Text.isBlank c with
    | true =>
      have faint : isFaint c = true := by simp [isFaint, blank]
      have going : continuation? false c = some false := by
        have text : c ≠ '#' := by
          rintro rfl
          contradiction
        simp [continuation?, text, blank]
      rw [List.dropWhile_cons_of_pos faint] at plain ⊢
      rw [going]
      exact ih plain
    | false =>
      cases unseen : isInvisible c with
      | true =>
        have stops := of_isInvisible (p := fun d => Text.isBlank d = false → continuation? false d = none)
          (by decide) unseen blank
        rw [stops]
        exact .inr ⟨c, text, rfl, unseen, blank⟩
      | false =>
        have solid : ¬isFaint c = true := by simp [isFaint, unseen, blank]
        rw [List.dropWhile_cons_of_neg solid] at plain ⊢
        obtain ⟨comment, divider⟩ := plain c rfl
        have stops : continuation? false c = none := by simp [continuation?, comment, divider, blank]
        rw [stops]
        exact .inl rfl

/-- Without its faint front, a text has the same tokens but a leading separator. -/
theorem exists_splits_dropWhile {position : Position} {text : List Char} {tokens : List Token}
    (splits : Splits position text tokens)
    (plain : ∀ c ∈ (text.dropWhile isFaint).head?, c ≠ '#' ∧ c ≠ ';') :
    ∃ position', Splits position' (text.dropWhile isFaint) (withoutLead tokens) := by
  have lead := splits.withoutLead
  obtain same | ⟨c, rest, found, unseen, solid⟩ := drop_separatorLength plain
  · rw [same] at lead
    exact ⟨_, lead⟩
  · rw [found] at lead
    generalize Token.withoutLead tokens = others at lead
    cases lead with
    | space blank =>
      rw [isBlank_of_isSpace blank] at solid
      contradiction
    | token starts =>
      rw [visible_of_starts starts] at unseen
      contradiction

end Corvid.Session
