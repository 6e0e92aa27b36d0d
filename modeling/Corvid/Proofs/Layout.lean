import Corvid.Proofs.Session.Agreement

/-!
Layout. Blanks may be put wherever one token ends and the next has not begun, and a comment before any line end or at
the end of a text. A token stays what it is, since the text behind it is only cut off and goes on with a blank or a
comment; a separator takes in what is put behind it. So the tokens are the same, places and the texts of separators
aside, and so is the program; only at the end of a text a comment may make one more separator, which means nothing.
-/
namespace Corvid

namespace Token

/-- A place in a text, between what stands before it and what stands after it, that is inside no token: before it
there are only blanks and whole tokens of the text. -/
inductive Boundary : List Char → List Char → Prop where
  | start (text : List Char) : Boundary [] text
  | space {c : Char} {front back : List Char} (blank : isSpace c = true) (later : Boundary front back) :
      Boundary (c :: front) back
  | token {c : Char} {inside front back : List Char} {kind : Kind}
      (starts : Starts c (inside ++ (front ++ back)) kind inside.length) (later : Boundary front back) :
      Boundary (c :: (inside ++ front)) back

/-- Where a text begins does not count for its tokens. -/
theorem Splits.exists_at {position : Position} {text : List Char} {tokens : List Token}
    (splits : Splits position text tokens) (position' : Position) :
    ∃ found, Splits position' text found ∧ found.map wording = tokens.map wording := by
  induction splits generalizing position' with
  | nil => exact ⟨[], .nil _, rfl⟩
  | space blank _ ih =>
    obtain ⟨found, again, same⟩ := ih (position'.next _)
    exact ⟨found, .space blank again, same⟩
  | @token _ c text kind more _ starts _ ih =>
    obtain ⟨found, again, same⟩ := ih (position'.after (c :: text.take more))
    refine ⟨_, .token starts again, ?_⟩
    rw [List.map_cons, List.map_cons, same]
    rfl

/-! Blanks -/

theorem Splits.blanks {blanks : List Char} (blank : ∀ c ∈ blanks, isSpace c = true) {text : List Char}
    {wordings : List (Kind × String)}
    (later : ∀ position, ∃ found, Splits position text found ∧ found.map wording = wordings) (position : Position) :
    ∃ found, Splits position (blanks ++ text) found ∧ found.map wording = wordings := by
  induction blanks generalizing position with
  | nil => exact later position
  | cons c blanks ih =>
    obtain ⟨first, others⟩ := List.forall_mem_cons.mp blank
    obtain ⟨found, splits, same⟩ := ih others (position.next c)
    exact ⟨found, .space first splits, same⟩

theorem inert_of_isSpace {c : Char} (blank : isSpace c = true) : Inert c := by
  simp only [isSpace, Bool.or_eq_true, beq_iff_eq] at blank
  obtain ((rfl | rfl) | rfl) | rfl := blank <;> decide

/-- Separator text goes on with a blank, in a comment or not. -/
theorem continuation?_blank {c : Char} (blank : isSpace c = true) (comment : Bool) :
    continuation? comment c = some comment := by
  simp only [isSpace, Bool.or_eq_true, beq_iff_eq] at blank
  obtain ((rfl | rfl) | rfl) | rfl := blank <;> cases comment <;> decide

/-- Blanks behind separator text belong to it. -/
theorem separatorLength_blanks {comment : Bool} {inside blanks back : List Char}
    (ends : separatorLength comment (inside ++ back) = inside.length) (blank : ∀ c ∈ blanks, isSpace c = true) :
    separatorLength comment (inside ++ (blanks ++ back)) = (inside ++ blanks).length := by
  induction inside generalizing comment with
  | nil =>
    induction blanks with
    | nil => exact ends
    | cons c blanks ih =>
      obtain ⟨first, others⟩ := List.forall_mem_cons.mp blank
      have later := ih others
      rw [List.nil_append, List.nil_append] at later ⊢
      rw [List.cons_append, separatorLength_cons, continuation?_blank first, List.length_cons]
      exact congrArg _ later
  | cons c inside ih =>
    rw [List.cons_append, separatorLength_cons] at ends ⊢
    cases going : continuation? comment c with
    | none => simp [going] at ends
    | some mode =>
      rw [going, List.length_cons] at ends
      exact congrArg _ (ih (Nat.succ.inj ends))

/-- Where separator text ends is settled by the character after it. -/
theorem separatorLength_followed {comment : Bool} {d : Char} {inside rest : List Char} (rest' : List Char)
    (ends : separatorLength comment (inside ++ d :: rest) = inside.length) :
    separatorLength comment (inside ++ d :: rest') = inside.length := by
  induction inside generalizing comment with
  | nil =>
    rw [List.nil_append, separatorLength_cons] at ends ⊢
    cases going : continuation? comment d with
    | none => rfl
    | some mode => simp [going] at ends
  | cons c inside ih =>
    rw [List.cons_append, separatorLength_cons] at ends ⊢
    cases going : continuation? comment c with
    | none => simp [going] at ends
    | some mode =>
      rw [going, List.length_cons] at ends
      exact congrArg _ (ih (Nat.succ.inj ends))

/-- A token before such a place stays what it is; a separator takes blanks in that stand right behind it. -/
theorem Starts.blanks {c : Char} {inside front back blanks : List Char} {kind : Kind}
    (starts : Starts c (inside ++ (front ++ back)) kind inside.length) (blank : ∀ c ∈ blanks, isSpace c = true)
    (apart : kind = .separator → front ≠ []) :
    Starts c (inside ++ (front ++ (blanks ++ back))) kind inside.length := by
  by_cases separator : kind = .separator
  · obtain ⟨d, front, rfl⟩ := List.exists_cons_of_ne_nil (apart separator)
    subst separator
    obtain ⟨opens, size⟩ := starts.separator_inv
    have length := separatorLength_followed (front ++ (blanks ++ back)) size.symm
    rw [List.cons_append]
    generalize inside.length = more at length ⊢
    rw [← length]
    exact .separator opens
  · cases blanks with
    | nil => exact starts
    | cons b blanks =>
      have inert := inert_of_isSpace (blank b List.mem_cons_self)
      have whole := (starts.cut separator).append (blanks ++ back) inert separator
      rwa [List.append_assoc] at whole

/-- Blanks at a place inside no token leave the tokens as they are. -/
theorem Boundary.exists_splits {front back : List Char} (boundary : Boundary front back) {position : Position}
    {tokens : List Token} (splits : Splits position (front ++ back) tokens) {blanks : List Char}
    (blank : ∀ c ∈ blanks, isSpace c = true) (position' : Position) :
    ∃ found, Splits position' (front ++ (blanks ++ back)) found ∧ found.map wording = tokens.map wording := by
  induction boundary generalizing position tokens position' with
  | start text => exact Splits.blanks blank splits.exists_at position'
  | @space c front back first _ ih =>
    cases splits with
    | token starts => exact absurd first starts.not_isSpace
    | space _ splits =>
      obtain ⟨found, again, same⟩ := ih splits (position'.next c)
      exact ⟨found, .space first again, same⟩
  | @token c inside front back kind starts _ ih =>
    rw [List.cons_append, List.append_assoc] at splits
    cases splits with
    | space first => exact absurd first starts.not_isSpace
    | @token _ _ _ kind' _ others starts' splits =>
      obtain ⟨rfl, rfl⟩ := starts'.unique starts
      rw [List.drop_left] at splits
      rw [List.take_left, List.cons_append, List.append_assoc]
      by_cases takes : kind' = .separator ∧ front = []
      · obtain ⟨rfl, rfl⟩ := takes
        obtain ⟨opens, size⟩ := starts.separator_inv
        have length := separatorLength_blanks size.symm blank
        have longer : Starts c (inside ++ blanks ++ back) .separator (inside ++ blanks).length := by
          rw [← length, ← List.append_assoc]
          exact .separator opens
        obtain ⟨found, again, same⟩ := exists_splits_cons longer splits.exists_at position'
        rw [List.append_assoc] at again
        exact ⟨found, again, same⟩
      · exact exists_splits_cons (starts.blanks blank fun separator nil => takes ⟨separator, nil⟩) (ih splits) position'

/-! Comments -/

/-- No token but a separator goes over the end of a line. -/
theorem Starts.before_newline {c : Char} {front rest : List Char} {kind : Kind} {more : Nat}
    (starts : Starts c (front ++ '\n' :: rest) kind more) (solid : kind ≠ .separator) :
    more ≤ front.length ∧ Starts c front kind more := by
  have within : more ≤ front.length := by
    by_contra beyond
    have inLine := (starts.lexeme solid).inLine
    rw [List.take_append, List.take_of_length_le (by omega)] at inLine
    obtain ⟨extra, size⟩ := Nat.exists_eq_add_of_lt (Nat.lt_of_not_le beyond)
    rw [show more - front.length = extra + 1 by omega] at inLine
    simp at inLine
  have taken : (front.take more).length = more := List.length_take_of_le within
  have parts : front.take more ++ (front.drop more ++ '\n' :: rest) = front ++ '\n' :: rest := by
    rw [← List.append_assoc, List.take_append_drop]
  rw [← taken, ← parts] at starts
  have cut := starts.cut solid
  rw [taken, List.take_append_drop] at cut
  exact ⟨within, cut⟩

/-- What is left of a text that is cut off before a line end falls into tokens as well, and so does what stands behind
the separator to which the line end belongs. -/
theorem Splits.cut_newline {position : Position} {front rest : List Char} {tokens : List Token}
    (splits : Splits position (front ++ '\n' :: rest) tokens) :
    ∃ before following, Splits position front before ∧
      Splits (position.after (front ++ '\n' :: rest.take (separatorLength false rest)))
        (rest.drop (separatorLength false rest)) following := by
  generalize whole : front ++ '\n' :: rest = text at splits
  induction splits generalizing front with
  | nil => simp at whole
  | @space position c text tokens blank _ ih =>
    cases front with
    | nil =>
      cases whole
      contradiction
    | cons d front =>
      rw [List.cons_append, List.cons.injEq] at whole
      obtain ⟨rfl, rfl⟩ := whole
      obtain ⟨before, following, splits, follows⟩ := ih rfl
      exact ⟨before, following, .space blank splits, follows⟩
  | @token position c text kind more tokens starts later ih =>
    cases front with
    | nil =>
      cases whole
      have divides : Starts '\n' rest .separator (separatorLength false rest) := .separator (.inr (.inl rfl))
      obtain ⟨rfl, rfl⟩ := starts.unique divides
      exact ⟨[], tokens, .nil _, later⟩
    | cons d front =>
      rw [List.cons_append, List.cons.injEq] at whole
      obtain ⟨rfl, rfl⟩ := whole
      have inner (within : more ≤ front.length) (starts' : Starts d front kind more) :
          ∃ before following, Splits position (d :: front) before ∧
            Splits (position.after (d :: front ++ '\n' :: rest.take (separatorLength false rest)))
              (rest.drop (separatorLength false rest)) following := by
        obtain ⟨before, following, splits, follows⟩ := ih (List.drop_append_of_le_length within).symm
        rw [List.take_append_of_le_length within] at splits follows
        have place : (position.after (d :: front.take more)).after
            (front.drop more ++ '\n' :: rest.take (separatorLength false rest)) =
            position.after (d :: front ++ '\n' :: rest.take (separatorLength false rest)) := by
          rw [← Position.after_append, List.cons_append, ← List.append_assoc, List.take_append_drop]
          rfl
        exact ⟨_, following, .token starts' splits, place ▸ follows⟩
      by_cases separator : kind = .separator
      · subst separator
        obtain ⟨opens, rfl⟩ := starts.separator_inv
        by_cases reaches : separatorLength (d == '#') front = front.length
        · -- the line end belongs to the separator
          have length := separatorLength_append_divider .newline rest reaches
          rw [length, Nat.add_assoc, List.take_length_add_append, List.drop_length_add_append, Nat.add_comm 1,
            List.take_succ_cons, List.drop_succ_cons] at later
          have only : Splits (position.after (d :: front.take (separatorLength (d == '#') front)))
              (front.drop (separatorLength (d == '#') front)) [] := by
            rw [reaches, List.drop_length]
            exact .nil _
          exact ⟨_, tokens, .token (.separator opens) only, later⟩
        · have inside := Nat.lt_of_le_of_ne (separatorLength_le _ front) reaches
          have length := separatorLength_append_of_lt ('\n' :: rest) inside
          rw [length] at inner
          exact inner (Nat.le_of_lt inside) (.separator opens)
      · obtain ⟨within, starts'⟩ := starts.before_newline separator
        exact inner within starts'

theorem separatorLength_comment {comment : List Char} (inLine : '\n' ∉ comment) :
    separatorLength true comment = comment.length := by
  have length := separatorLength_inLine inLine []
  rwa [List.append_nil] at length

theorem wording_separator {token : Token} (kind : token.kind = .separator) : token.wording = (.separator, "") := by
  simp [wording, worded, spelling, kind]

/-- A comment before a line end belongs to the separator of the line end. -/
theorem Splits.comment_newline {front rest comment : List Char} {tokens : List Token}
    (splits : Splits .start (front ++ '\n' :: rest) tokens) (inLine : '\n' ∉ comment) :
    ∃ found, Splits .start (front ++ '#' :: (comment ++ '\n' :: rest)) found ∧
      found.map wording = tokens.map wording := by
  obtain ⟨before, following, splits', follows⟩ := splits.cut_newline
  obtain ⟨separator, kind, joined⟩ := splits'.append_divider .newline follows
  obtain ⟨rfl, _⟩ := Split.mk.inj (splits.splitFrom_eq.symm.trans joined.splitFrom_eq)
  have length := separatorLength_append_divider .newline rest (separatorLength_comment inLine)
  obtain ⟨following', follows', same⟩ := follows.exists_at
    (Position.start.after (front ++ '#' :: (comment ++ '\n' :: rest.take (separatorLength false rest))))
  obtain ⟨separator', kind', joined'⟩ : ∃ separator' : Token, separator'.kind = .separator ∧
      Splits .start (front ++ '#' :: (comment ++ '\n' :: rest)) (withoutTrail before ++ separator' :: following') := by
    refine splits'.append_divider .comment ?_
    rw [length, Nat.add_assoc, List.take_length_add_append, List.drop_length_add_append, Nat.add_comm 1,
      List.take_succ_cons, List.drop_succ_cons]
    exact follows'
  refine ⟨_, joined', ?_⟩
  simp only [List.map_append, List.map_cons, same, wording_separator kind, wording_separator kind']

/-- A comment at the end of a text belongs to a separator there, which may be new. -/
theorem Splits.comment_end {text comment : List Char} {tokens : List Token} (splits : Splits .start text tokens)
    (inLine : '\n' ∉ comment) : ∃ separator : Token, separator.kind = .separator ∧
      Splits .start (text ++ '#' :: comment) (withoutTrail tokens ++ [separator]) := by
  refine splits.append_divider .comment ?_
  rw [separatorLength_comment inLine, List.drop_length]
  exact .nil _

/-- What may be put into a text between what stands before and after: blanks at a place inside no token, or a comment
before a line end or at the end of the text. -/
inductive Layout (front back : List Char) : List Char → Prop where
  | blanks {blanks : List Char} (boundary : Boundary front back) (blank : ∀ c ∈ blanks, isSpace c = true) :
      Layout front back blanks
  | comment {text : List Char} (inLine : '\n' ∉ text) (ends : back = [] ∨ back.head? = some '\n') :
      Layout front back ('#' :: text)

end Token

namespace Parser

open Grammar

/-- Layout does not change what a text means: it is read as the same program, marks aside. -/
theorem parse_layout {source : String} {tree : Expr} (reads : parse source = .ok tree)
    {front back inserted : List Char} (source_eq : source.toList = front ++ back)
    (layout : Token.Layout front back inserted) :
    ∃ tree', parse (String.ofList (front ++ inserted ++ back)) = .ok tree' ∧ tree'.bare = tree.bare := by
  obtain ⟨derivation, splits, rfl⟩ := parse_eq_ok_iff.mp reads
  rw [source_eq] at splits
  cases layout with
  | blanks boundary blank =>
    obtain ⟨found, splits', same⟩ := boundary.exists_splits splits blank .start
    rw [← List.append_assoc] at splits'
    exact parse_of_derivation derivation (by simpa using splits') same
  | @comment text inLine ends =>
    obtain rfl | newline := ends
    · rw [List.append_nil] at splits
      obtain ⟨separator, kind, splits'⟩ := splits.comment_end inLine
      let longer := derivation.followedBy ⟨separator, kind⟩ (.empty none)
      have whole : Token.Splits .start (String.ofList (front ++ '#' :: text ++ [])).toList longer.tokens := by
        rw [derivation.tokens_followedBy, List.append_nil, String.toList_ofList]
        exact splits'
      obtain ⟨tree', reads', same⟩ := parse_of_derivation longer whole rfl
      refine ⟨tree', reads', same.trans ?_⟩
      simp only [longer, Derivation.program, Expr.bare, Derivation.meaning_followedBy, Derivation.meaning,
        List.append_nil]
    · obtain ⟨rest, rfl⟩ := List.head?_eq_some_iff.mp newline
      obtain ⟨found, splits', same⟩ := splits.comment_newline inLine
      exact parse_of_derivation derivation (by simpa using splits') same

/-- Blanks between a number and the symbol behind it, and a comment before the line end. -/
theorem parse_layout_number :
    let range (column : Nat) := Expr.block (.spot ⟨1, 1⟩) [.join (.spot ⟨1, 1⟩) .range
      (.literal (.spot ⟨1, 1⟩) .int "1") (.literal (.spot ⟨1, column⟩) .int "2")]
    Token.Layout ['1'] ['.', '.', '2', '\n'] ['\t', '\r'] ∧
    Token.Layout ['1', '.', '.', '2'] ['\n'] ['#', '"'] ∧
    parse "1..2\n" = .ok (range 4) ∧ parse "1\t\r..2\n" = .ok (range 6) ∧ parse "1..2#\"\n" = .ok (range 4) ∧
    (range 6).bare = (range 4).bare := by
  intro range
  have boundary : Token.Boundary ['1'] ['.', '.', '2', '\n'] :=
    @Token.Boundary.token '1' [] [] _ .int (.int rfl rfl) (.start _)
  have blanks : Token.Layout ['1'] ['.', '.', '2', '\n'] ['\t', '\r'] := .blanks boundary (by simp [Token.isSpace])
  have comment : Token.Layout ['1', '.', '.', '2'] ['\n'] ['#', '"'] := .comment (by decide) (.inr rfl)
  have reads : parse "1..2\n" = .ok (range 4) := rfl
  have moved : parse "1\t\r..2\n" = .ok (range 6) := rfl
  have remarked : parse "1..2#\"\n" = .ok (range 4) := rfl
  obtain ⟨first, reads', same⟩ := parse_layout reads rfl blanks
  obtain rfl : range 6 = first := Except.ok.inj (moved.symm.trans reads')
  obtain ⟨second, reads'', _⟩ := parse_layout reads rfl comment
  obtain rfl : range 4 = second := Except.ok.inj (remarked.symm.trans reads'')
  exact ⟨blanks, comment, reads, reads', reads'', same⟩

end Parser

end Corvid
