import Corvid.Expr.Outline
import Corvid.Proofs.Expr.Parts
import Corvid.Proofs.Text.Quoted
import Mathlib.Data.List.Nodup

/-!
The outline of a tree shows all of it but its marks. A line tells what it stands for, since no two titles are the same and
none looks like a quoted text. The lines below a node are those up to the next line that is not indented further, so the
lines of an outline are those of a single tree of labels, however many parts each node has. And each line can be taken off
the front of the outline, since its text begins with no blank and ends where the line does.
-/
namespace Corvid

/-- The kinds of nodes that join two operands. -/
inductive Joint.Kind where
  | arithmetic | logical | equality | comparison | concat | range
  deriving DecidableEq

def Joint.kind : Joint → Joint.Kind
  | .arithmetic _ => .arithmetic
  | .logical _ => .logical
  | .equality _ => .equality
  | .comparison _ => .comparison
  | .concat => .concat
  | .range => .range

/-- What a line of an outline stands for: a kind of node, or an operator, a flag, a name or a lexeme of the node above. -/
inductive Label where
  | none | name | assign | list | dict | subscript | store | negate | block | conditional | loop | function | call | print
  | literal (kind : LiteralKind)
  | join (kind : Joint.Kind)
  | operator (op : Operator)
  | comparator (sign : Comparator)
  | flag (value : Bool)
  | text (content : String)
  deriving DecidableEq

def Joint.Kind.title : Joint.Kind → String
  | arithmetic => "Arithmetic"
  | logical => "LogicalOperator"
  | equality => "Equality"
  | comparison => "Compare"
  | concat => "Concatenate"
  | range => "RangeExpr"

namespace Label

def title : Label → String
  | none => "NoneLiteral"
  | name => "Deref"
  | assign => "Assign"
  | list => "ListExpr"
  | dict => "DictExpr"
  | subscript => "CollectionDeref"
  | store => "CollectionAssign"
  | negate => "Negate"
  | block => "Block"
  | conditional => "Conditional"
  | loop => "ForLoop"
  | function => "DeclareFn"
  | call => "InvokeFn"
  | print => "Print"
  | literal kind => kind.title
  | join kind => kind.title
  | operator op => op.title
  | comparator sign => sign.title
  | flag value => if value then "True" else "False"
  | text content => Text.quoted content

/-- The labels with a title of their own. -/
def fixed : List Label :=
  [none, name, assign, list, dict, subscript, store, negate, block, conditional, loop, function, call, print] ++
    [LiteralKind.string, .int, .float, .bool].map literal ++
    [Joint.Kind.arithmetic, .logical, .equality, .comparison, .concat, .range].map join ++
    [Operator.add, .sub, .mul, .div, .and, .or].map operator ++
    [Comparator.lt, .le, .gt, .ge, .eq, .ne].map comparator ++ [flag true, flag false]

theorem fixed_or_text (label : Label) : label ∈ fixed ∨ ∃ content, label = text content := by
  cases label with
  | text content => exact .inr ⟨content, rfl⟩
  | literal kind => cases kind <;> exact .inl (by decide)
  | join kind => cases kind <;> exact .inl (by decide)
  | operator op => cases op <;> exact .inl (by decide)
  | comparator sign => cases sign <;> exact .inl (by decide)
  | flag value => cases value <;> exact .inl (by decide)
  | _ => exact .inl (by decide)

theorem fixed_titles : (fixed.map title).Nodup := by decide +kernel

theorem fixed_letters {label : Label} (own : label ∈ fixed) :
    label.title.toList ≠ [] ∧ ∀ c ∈ label.title.toList, c.isAlpha = true := by
  have all : fixed.all (fun label => label.title.toList != [] && label.title.toList.all Char.isAlpha) = true := by
    decide +kernel
  simpa using List.all_eq_true.mp all label own

/-- A title begins with a letter or with a quote. -/
theorem title_eq_cons (label : Label) : ∃ c rest, label.title.toList = c :: rest ∧
    (label ∈ fixed ∧ c.isAlpha = true ∨ (∃ content, label = text content) ∧ (c = '\'' ∨ c = '"')) := by
  obtain own | ⟨content, rfl⟩ := label.fixed_or_text
  · obtain ⟨filled, letters⟩ := fixed_letters own
    obtain ⟨c, rest, shape⟩ := List.exists_cons_of_ne_nil filled
    exact ⟨c, rest, shape, .inl ⟨own, letters c (shape ▸ List.mem_cons_self)⟩⟩
  · exact ⟨_, _, Text.toList_quoted content, .inr ⟨⟨content, rfl⟩, Text.quoteFor_cases _⟩⟩

/-- A label is known from its title. -/
theorem title_injective : Function.Injective title := by
  intro label label' same
  obtain ⟨c, rest, shape, kind⟩ := label.title_eq_cons
  obtain ⟨c', rest', shape', kind'⟩ := label'.title_eq_cons
  rw [same, shape', List.cons.injEq] at shape
  obtain ⟨rfl, -⟩ := shape
  obtain ⟨own, letter⟩ | ⟨⟨content, rfl⟩, quote⟩ := kind
  · obtain ⟨own', _⟩ | ⟨_, quote'⟩ := kind'
    · exact List.inj_on_of_nodup_map fixed_titles own own' same
    · obtain rfl | rfl := quote' <;> exact absurd letter (by decide)
  · obtain ⟨_, letter'⟩ | ⟨⟨content', rfl⟩, _⟩ := kind'
    · obtain rfl | rfl := quote <;> exact absurd letter' (by decide)
    · exact congrArg text (Text.quoted_injective same)

theorem title_ne_blank (label : Label) : ∃ c rest, label.title.toList = c :: rest ∧ c ≠ ' ' := by
  obtain ⟨c, rest, shape, kind⟩ := label.title_eq_cons
  refine ⟨c, rest, shape, ?_⟩
  rintro rfl
  obtain ⟨_, letter⟩ | ⟨_, quote⟩ := kind
  · exact absurd letter (by decide)
  · exact absurd quote (by decide)

theorem newline_notMem_title (label : Label) : '\n' ∉ label.title.toList := by
  obtain own | ⟨content, rfl⟩ := label.fixed_or_text
  · intro member
    exact absurd ((fixed_letters own).2 _ member) (by decide)
  · exact Text.newline_notMem_quoted content

end Label

/-! Lines and the text they make -/

/-- A line of an outline by its level and what it stands for. -/
structure Row where
  level : Nat
  label : Label

namespace Row

def line (row : Row) : Expr.OutlineLine := ⟨row.level, row.label.title⟩

@[simp] theorem line_mk (level : Nat) (label : Label) : line ⟨level, label⟩ = ⟨level, label.title⟩ := rfl

/-- The characters of a line, indented by two blanks for each level. -/
def chars (row : Row) : List Char := (row.line.render "  ").toList

theorem chars_eq (row : Row) :
    row.chars = List.replicate (2 * row.level) ' ' ++ (row.label.title.toList ++ ['\n']) := by
  have indent (level : Nat) : (String.join (List.replicate level "  ")).toList = List.replicate (2 * level) ' ' := by
    induction level with
    | zero => rfl
    | succ level ih =>
      rw [List.replicate_succ, String.join_cons, String.toList_append, ih]
      rfl
  rw [chars, Expr.OutlineLine.render, String.toList_append, String.toList_append, line, indent, List.append_assoc]
  rfl

/-- Two runs that end at the same place. -/
theorem run_append_inj {p : Char → Prop} {front front' rest rest' : List Char} {c c' : Char}
    (run : ∀ a ∈ front, p a) (run' : ∀ a ∈ front', p a) (ends : ¬p c) (ends' : ¬p c')
    (same : front ++ c :: rest = front' ++ c' :: rest') : front = front' ∧ c :: rest = c' :: rest' := by
  induction front generalizing front' with
  | nil =>
    cases front' with
    | nil => exact ⟨rfl, same⟩
    | cons a front' =>
      cases same
      exact absurd (run' c List.mem_cons_self) ends
  | cons a front ih =>
    cases front' with
    | nil =>
      cases same
      exact absurd (run c' List.mem_cons_self) ends'
    | cons a' front' =>
      rw [List.cons_append, List.cons_append, List.cons.injEq] at same
      obtain ⟨rfl, later⟩ := same
      obtain ⟨rfl, same⟩ := ih (fun b member => run b (List.mem_cons_of_mem _ member))
        (fun b member => run' b (List.mem_cons_of_mem _ member)) later
      exact ⟨rfl, same⟩

/-- A line can be taken off the front of a text. -/
theorem chars_append_inj {row row' : Row} {rest rest' : List Char}
    (same : row.chars ++ rest = row'.chars ++ rest') : row = row' ∧ rest = rest' := by
  have whole (row : Row) (rest : List Char) : row.chars ++ rest =
      (List.replicate (2 * row.level) ' ' ++ row.label.title.toList) ++ '\n' :: rest := by
    rw [chars_eq, List.append_assoc, List.append_assoc, List.append_assoc, List.singleton_append]
  have inLine (row : Row) : ∀ a ∈ List.replicate (2 * row.level) ' ' ++ row.label.title.toList, a ≠ '\n' := by
    intro a member newline
    rw [newline, List.mem_append] at member
    obtain blank | title := member
    · exact absurd (List.eq_of_mem_replicate blank) (by decide)
    · exact row.label.newline_notMem_title title
  rw [whole, whole] at same
  obtain ⟨line, later⟩ := run_append_inj (inLine row) (inLine row') (fun differs => differs rfl)
    (fun differs => differs rfl) same
  obtain ⟨c, front, shape, solid⟩ := row.label.title_ne_blank
  obtain ⟨c', front', shape', solid'⟩ := row'.label.title_ne_blank
  have blank (level : Nat) : ∀ a ∈ List.replicate (2 * level) ' ', a = ' ' := fun a => List.eq_of_mem_replicate
  rw [shape, shape'] at line
  obtain ⟨indent, title⟩ := run_append_inj (blank _) (blank _) solid solid' line
  have level : row.level = row'.level := by
    have size := congrArg List.length indent
    rw [List.length_replicate, List.length_replicate] at size
    omega
  have label : row.label = row'.label := by
    rw [← shape, ← shape', String.toList_inj] at title
    exact Label.title_injective title
  cases row
  cases row'
  cases level
  cases label
  exact ⟨rfl, List.tail_eq_of_cons_eq later⟩

/-- Lines are known from the text they make. -/
theorem flatMap_chars_inj {rows rows' : List Row} (same : rows.flatMap chars = rows'.flatMap chars) :
    rows = rows' := by
  have filled (row : Row) (rest : List Char) : [] ≠ row.chars ++ rest := by
    rw [chars_eq]
    simp
  induction rows generalizing rows' with
  | nil =>
    cases rows' with
    | nil => rfl
    | cons row' rest' => exact absurd same (filled row' _)
  | cons row rest ih =>
    cases rows' with
    | nil => exact absurd same.symm (filled row _)
    | cons row' rest' =>
      rw [List.flatMap_cons, List.flatMap_cons] at same
      obtain ⟨rfl, later⟩ := chars_append_inj same
      rw [ih later]

end Row

/-! Trees of labels -/

/-- A tree of labels, of which an outline shows each one level below the one it belongs to. -/
inductive Sketch where
  | node (label : Label) (below : List Sketch)

namespace Sketch

abbrev leaf (label : Label) : Sketch := node label []

mutual

def rows (level : Nat) : Sketch → List Row
  | node label below => ⟨level, label⟩ :: rowsAll (level + 1) below

def rowsAll (level : Nat) : List Sketch → List Row
  | [] => []
  | sketch :: rest => sketch.rows level ++ rowsAll level rest

end

section Rows

variable (level : Nat)

@[simp] theorem rows_node (label : Label) (below : List Sketch) :
    (node label below).rows level = ⟨level, label⟩ :: rowsAll (level + 1) below := by rw [rows]

@[simp] theorem rowsAll_nil : rowsAll level [] = [] := by rw [rowsAll]

@[simp] theorem rowsAll_cons (sketch : Sketch) (rest : List Sketch) :
    rowsAll level (sketch :: rest) = sketch.rows level ++ rowsAll level rest := by rw [rowsAll]

@[simp] theorem rowsAll_append (front rest : List Sketch) :
    rowsAll level (front ++ rest) = rowsAll level front ++ rowsAll level rest := by
  induction front with
  | nil => simp
  | cons sketch front ih => simp [ih]

@[simp] theorem rowsAll_texts (texts : List String) :
    rowsAll level (texts.map fun name => leaf (.text name)) = texts.map (⟨level, .text ·⟩) := by
  induction texts with
  | nil => simp
  | cons text texts ih => simp [ih]

end Rows

/-- What may follow the lines of one level: nothing, or a line of a lower level. -/
def Ends (level : Nat) (rest : List Row) : Prop := ∀ row ∈ rest.head?, row.level < level

theorem ends_rowsAll {level : Nat} {rest : List Row} (ends : Ends level rest) (sketches : List Sketch) :
    Ends (level + 1) (rowsAll level sketches ++ rest) := by
  cases sketches with
  | nil => exact fun row member => Nat.lt_succ_of_lt (ends row member)
  | cons sketch sketches =>
    cases sketch with
    | node label below =>
      rintro row ⟨⟩
      exact Nat.lt_succ_self level

theorem rowsAll_cons_ne {level : Nat} {rest rest' : List Row} (ends : Ends level rest) (sketch : Sketch)
    (sketches : List Sketch) : rest ≠ rowsAll level (sketch :: sketches) ++ rest' := by
  rintro rfl
  cases sketch with
  | node label below => exact Nat.lt_irrefl level (ends _ rfl)

mutual

/-- The lines of a tree end before the first one that is not indented further. -/
theorem rows_append_inj (level : Nat) : (sketch sketch' : Sketch) → {rest rest' : List Row} →
    Ends (level + 1) rest → Ends (level + 1) rest' →
    sketch.rows level ++ rest = sketch'.rows level ++ rest' → sketch = sketch' ∧ rest = rest'
  | node label below, node label' below', rest, rest', ends, ends', same => by
    rw [rows, rows, List.cons_append, List.cons_append, List.cons.injEq, Row.mk.injEq] at same
    obtain ⟨⟨-, rfl⟩, inside⟩ := same
    obtain ⟨rfl, rfl⟩ := rowsAll_append_inj (level + 1) below below' ends ends' inside
    exact ⟨rfl, rfl⟩

theorem rowsAll_append_inj (level : Nat) : (sketches sketches' : List Sketch) → {rest rest' : List Row} →
    Ends level rest → Ends level rest' →
    rowsAll level sketches ++ rest = rowsAll level sketches' ++ rest' → sketches = sketches' ∧ rest = rest'
  | [], [], rest, rest', _, _, same => ⟨rfl, same⟩
  | [], sketch' :: sketches', rest, rest', ends, _, same => absurd same (rowsAll_cons_ne ends sketch' sketches')
  | sketch :: sketches, [], rest, rest', _, ends', same => absurd same.symm (rowsAll_cons_ne ends' sketch sketches)
  | sketch :: sketches, sketch' :: sketches', rest, rest', ends, ends', same => by
    rw [rowsAll, rowsAll, List.append_assoc, List.append_assoc] at same
    obtain ⟨rfl, later⟩ := rows_append_inj level sketch sketch' (ends_rowsAll ends sketches)
      (ends_rowsAll ends' sketches') same
    obtain ⟨rfl, rfl⟩ := rowsAll_append_inj level sketches sketches' ends ends' later
    exact ⟨rfl, rfl⟩

end

theorem rows_injective (level : Nat) : Function.Injective (rows level) := by
  intro sketch sketch' same
  have nothing : Ends (level + 1) [] := fun _ member => by cases member
  exact (rows_append_inj level sketch sketch' nothing nothing (congrArg (· ++ []) same)).1

end Sketch

/-! The labels of an expression -/

/-- The operator of a joint, where its kind leaves a choice. -/
def Joint.details : Joint → List Sketch
  | .arithmetic op | .logical op => [.leaf (.operator op)]
  | .equality sign | .comparison sign => [.leaf (.comparator sign)]
  | .concat | .range => []

theorem Joint.details_append_iff {joint joint' : Joint} {left right left' right' : Sketch} :
    joint.kind = joint'.kind ∧ joint.details ++ [left, right] = joint'.details ++ [left', right'] ↔
      joint = joint' ∧ left = left' ∧ right = right' := by
  cases joint <;> cases joint' <;> simp [Joint.kind, Joint.details]

namespace Expr

mutual

def sketch : Expr → Sketch
  | none _ => .leaf .none
  | literal _ kind lexeme => .node (.literal kind) [.leaf (.text lexeme)]
  | name _ text => .node .name [.leaf (.text text)]
  | assign _ text value => .node .assign [.leaf (.text text), value.sketch]
  | list _ elements => .node .list (sketchAll elements)
  | dict _ pairs => .node .dict (sketchPairs pairs)
  | subscript _ target index => .node .subscript [target.sketch, index.sketch]
  | store _ target index value => .node .store [target.sketch, index.sketch, value.sketch]
  | join _ joint left right => .node (.join joint.kind) (joint.details ++ [left.sketch, right.sketch])
  | negate _ operand => .node .negate [operand.sketch]
  | block _ body => .node .block (sketchAll body)
  | conditional _ condition yes no => .node .conditional [condition.sketch, yes.sketch, no.sketch]
  | loop _ item source body => .node .loop [.leaf (.text item), source.sketch, body.sketch]
  | function _ text parameters body =>
    .node .function (.leaf (.text text) :: (parameters.map (fun name => .leaf (.text name)) ++ [body.sketch]))
  | call _ text arguments => .node .call (.leaf (.text text) :: sketchAll arguments)
  | print _ shown newline => .node .print [shown.sketch, .leaf (.flag newline)]
  | unknown _ _ => .leaf .none

def sketchAll : List Expr → List Sketch
  | [] => []
  | expr :: rest => expr.sketch :: sketchAll rest

def sketchPairs : List (Expr × Expr) → List Sketch
  | [] => []
  | (key, value) :: rest => key.sketch :: value.sketch :: sketchPairs rest

end

/-- A tree of nodes that the language has. -/
def Known (tree : Expr) : Prop := ∀ node : Expr, node.Within tree → ∀ mark kind, node ≠ unknown mark kind

theorem Known.parts {whole : Expr} (known : whole.Known) : ∀ part ∈ whole.children, part.Known :=
  fun _ below node within => known node (.head below within)

theorem Known.child {whole part : Expr} (known : whole.Known) (below : part ∈ whole.children := by simp [children]) :
    part.Known :=
  known.parts part below

mutual

/-- The lines of an outline are those of the labels. -/
theorem outlineLines_eq (level : Nat) : (expr : Expr) → expr.Known →
    expr.outlineLines level = (expr.sketch.rows level).map Row.line
  | none _, _ | literal .., _ | name .., _ => rfl
  | assign _ _ value, known => by
    have value_eq := outlineLines_eq (level + 1) value known.child
    simp [outlineLines, sketch, Label.title, value_eq]
  | list _ elements, known => congrArg (_ :: ·) (outlineAll_eq (level + 1) elements known.parts)
  | dict _ pairs, known => congrArg (_ :: ·) (outlinePairs_eq (level + 1) pairs known.parts)
  | subscript _ target index, known => by
    have target_eq := outlineLines_eq (level + 1) target known.child
    have index_eq := outlineLines_eq (level + 1) index known.child
    simp [outlineLines, sketch, Label.title, target_eq, index_eq]
  | store _ target index value, known => by
    have target_eq := outlineLines_eq (level + 1) target known.child
    have index_eq := outlineLines_eq (level + 1) index known.child
    have value_eq := outlineLines_eq (level + 1) value known.child
    simp [outlineLines, sketch, Label.title, target_eq, index_eq, value_eq]
  | join _ joint left right, known => by
    have left_eq := outlineLines_eq (level + 1) left known.child
    have right_eq := outlineLines_eq (level + 1) right known.child
    cases joint <;> simp [outlineLines, sketch, Joint.titles, Joint.details, Joint.kind, Joint.Kind.title, Label.title,
      left_eq, right_eq]
  | negate _ operand, known => by
    have operand_eq := outlineLines_eq (level + 1) operand known.child
    simp [outlineLines, sketch, Label.title, operand_eq]
  | block _ body, known => congrArg (_ :: ·) (outlineAll_eq (level + 1) body known.parts)
  | conditional _ condition yes no, known => by
    have condition_eq := outlineLines_eq (level + 1) condition known.child
    have yes_eq := outlineLines_eq (level + 1) yes known.child
    have no_eq := outlineLines_eq (level + 1) no known.child
    simp [outlineLines, sketch, Label.title, condition_eq, yes_eq, no_eq]
  | loop _ _ source body, known => by
    have source_eq := outlineLines_eq (level + 1) source known.child
    have body_eq := outlineLines_eq (level + 1) body known.child
    simp [outlineLines, sketch, Label.title, source_eq, body_eq]
  | function _ _ parameters body, known => by
    have body_eq := outlineLines_eq (level + 1) body known.child
    simp [outlineLines, sketch, Label.title, body_eq, Function.comp_def]
  | call _ text arguments, known => congrArg (_ :: _ :: ·) (outlineAll_eq (level + 1) arguments known.parts)
  | print _ shown newline, known => by
    have shown_eq := outlineLines_eq (level + 1) shown known.child
    simp [outlineLines, sketch, Label.title, shown_eq]
  | unknown mark kind, known => absurd rfl (known _ .refl mark kind)

theorem outlineAll_eq (level : Nat) : (exprs : List Expr) → (∀ expr ∈ exprs, expr.Known) →
    outlineAll level exprs = (Sketch.rowsAll level (sketchAll exprs)).map Row.line
  | [], _ => rfl
  | expr :: rest, known => by
    have first := outlineLines_eq level expr (known expr List.mem_cons_self)
    have later := outlineAll_eq level rest fun other member => known other (List.mem_cons_of_mem _ member)
    rw [outlineAll, sketchAll, Sketch.rowsAll, List.map_append, first, later]

theorem outlinePairs_eq (level : Nat) : (pairs : List (Expr × Expr)) →
    (∀ expr ∈ pairs.flatMap fun pair => [pair.1, pair.2], expr.Known) →
    outlinePairs level pairs = (Sketch.rowsAll level (sketchPairs pairs)).map Row.line
  | [], _ => rfl
  | (key, value) :: rest, known => by
    have key_eq := outlineLines_eq level key (known key (by simp))
    have value_eq := outlineLines_eq level value (known value (by simp))
    have later := outlinePairs_eq level rest fun other member => known other (List.mem_append_right _ member)
    rw [outlinePairs, sketchPairs, Sketch.rowsAll, Sketch.rowsAll, List.map_append, List.map_append, key_eq,
      value_eq, later, List.append_assoc]

end

mutual

/-- Trees have the same labels just if they are equal, marks aside. -/
theorem sketch_eq_iff : (expr expr' : Expr) → expr.Known → expr'.Known →
    (expr.sketch = expr'.sketch ↔ expr.alike expr' = true)
  | none _, expr', _, known' => by
    cases expr' with
    | unknown mark kind => exact absurd rfl (known' _ .refl mark kind)
    | _ => simp [sketch, alike]
  | literal _ kind lexeme, expr', _, _ => by cases expr' <;> simp [sketch, alike]
  | name _ text, expr', _, _ => by cases expr' <;> simp [sketch, alike]
  | assign _ text value, expr', known, known' => by
    cases expr' with
    | assign _ text' value' =>
      have value_iff := sketch_eq_iff value value' known.child known'.child
      simp [sketch, alike, value_iff]
    | _ => simp [sketch, alike]
  | list _ elements, expr', known, known' => by
    cases expr' with
    | list _ elements' =>
      have elements_iff := sketchAll_eq_iff elements elements' known.parts known'.parts
      simp [sketch, alike, elements_iff]
    | _ => simp [sketch, alike]
  | dict _ pairs, expr', known, known' => by
    cases expr' with
    | dict _ pairs' =>
      have pairs_iff := sketchPairs_eq_iff pairs pairs' known.parts known'.parts
      simp [sketch, alike, pairs_iff]
    | _ => simp [sketch, alike]
  | subscript _ target index, expr', known, known' => by
    cases expr' with
    | subscript _ target' index' =>
      have target_iff := sketch_eq_iff target target' known.child known'.child
      have index_iff := sketch_eq_iff index index' known.child known'.child
      simp [sketch, alike, target_iff, index_iff]
    | _ => simp [sketch, alike]
  | store _ target index value, expr', known, known' => by
    cases expr' with
    | store _ target' index' value' =>
      have target_iff := sketch_eq_iff target target' known.child known'.child
      have index_iff := sketch_eq_iff index index' known.child known'.child
      have value_iff := sketch_eq_iff value value' known.child known'.child
      simp [sketch, alike, target_iff, index_iff, value_iff, and_assoc]
    | _ => simp [sketch, alike]
  | join _ joint left right, expr', known, known' => by
    cases expr' with
    | join _ joint' left' right' =>
      have left_iff := sketch_eq_iff left left' known.child known'.child
      have right_iff := sketch_eq_iff right right' known.child known'.child
      simp [sketch, alike, Joint.details_append_iff, left_iff, right_iff, and_assoc]
    | _ => simp [sketch, alike]
  | negate _ operand, expr', known, known' => by
    cases expr' with
    | negate _ operand' =>
      have operand_iff := sketch_eq_iff operand operand' known.child known'.child
      simp [sketch, alike, operand_iff]
    | _ => simp [sketch, alike]
  | block _ body, expr', known, known' => by
    cases expr' with
    | block _ body' =>
      have body_iff := sketchAll_eq_iff body body' known.parts known'.parts
      simp [sketch, alike, body_iff]
    | _ => simp [sketch, alike]
  | conditional _ condition yes no, expr', known, known' => by
    cases expr' with
    | conditional _ condition' yes' no' =>
      have condition_iff := sketch_eq_iff condition condition' known.child known'.child
      have yes_iff := sketch_eq_iff yes yes' known.child known'.child
      have no_iff := sketch_eq_iff no no' known.child known'.child
      simp [sketch, alike, condition_iff, yes_iff, no_iff, and_assoc]
    | _ => simp [sketch, alike]
  | loop _ item source body, expr', known, known' => by
    cases expr' with
    | loop _ item' source' body' =>
      have source_iff := sketch_eq_iff source source' known.child known'.child
      have body_iff := sketch_eq_iff body body' known.child known'.child
      simp [sketch, alike, source_iff, body_iff, and_assoc]
    | _ => simp [sketch, alike]
  | function _ text parameters body, expr', known, known' => by
    cases expr' with
    | function _ text' parameters' body' =>
      have body_iff := sketch_eq_iff body body' known.child known'.child
      simp [sketch, alike, List.map_inj_right, body_iff, and_assoc]
    | _ => simp [sketch, alike]
  | call _ text arguments, expr', known, known' => by
    cases expr' with
    | call _ text' arguments' =>
      have arguments_iff := sketchAll_eq_iff arguments arguments' known.parts known'.parts
      simp [sketch, alike, arguments_iff]
    | _ => simp [sketch, alike]
  | print _ shown newline, expr', known, known' => by
    cases expr' with
    | print _ shown' newline' =>
      have shown_iff := sketch_eq_iff shown shown' known.child known'.child
      simp [sketch, alike, shown_iff, and_comm]
    | _ => simp [sketch, alike]
  | unknown mark kind, _, known, _ => absurd rfl (known _ .refl mark kind)

theorem sketchAll_eq_iff : (exprs exprs' : List Expr) → (∀ expr ∈ exprs, expr.Known) → (∀ expr ∈ exprs', expr.Known) →
    (sketchAll exprs = sketchAll exprs' ↔ alikeAll exprs exprs' = true)
  | [], [], _, _ => by simp [sketchAll, alikeAll]
  | [], _ :: _, _, _ => by simp [sketchAll, alikeAll]
  | _ :: _, [], _, _ => by simp [sketchAll, alikeAll]
  | expr :: rest, expr' :: rest', known, known' => by
    have first := sketch_eq_iff expr expr' (known expr List.mem_cons_self) (known' expr' List.mem_cons_self)
    have later := sketchAll_eq_iff rest rest' (fun other member => known other (List.mem_cons_of_mem _ member))
      fun other member => known' other (List.mem_cons_of_mem _ member)
    simp [sketchAll, alikeAll, first, later]

theorem sketchPairs_eq_iff : (pairs pairs' : List (Expr × Expr)) →
    (∀ expr ∈ pairs.flatMap fun pair => [pair.1, pair.2], expr.Known) →
    (∀ expr ∈ pairs'.flatMap fun pair => [pair.1, pair.2], expr.Known) →
    (sketchPairs pairs = sketchPairs pairs' ↔ alikePairs pairs pairs' = true)
  | [], [], _, _ => by simp [sketchPairs, alikePairs]
  | [], _ :: _, _, _ => by simp [sketchPairs, alikePairs]
  | _ :: _, [], _, _ => by simp [sketchPairs, alikePairs]
  | (key, value) :: rest, (key', value') :: rest', known, known' => by
    have key_iff := sketch_eq_iff key key' (known key (by simp)) (known' key' (by simp))
    have value_iff := sketch_eq_iff value value' (known value (by simp)) (known' value' (by simp))
    have later := sketchPairs_eq_iff rest rest' (fun other member => known other (List.mem_append_right _ member))
      fun other member => known' other (List.mem_append_right _ member)
    simp [sketchPairs, alikePairs, key_iff, value_iff, later, and_assoc]

end

theorem toList_outline {tree : Expr} (known : tree.Known) :
    (tree.outline "  ").toList = (tree.sketch.rows 0).flatMap Row.chars := by
  rw [outline, String.toList_join, outlineLines_eq 0 tree known, List.map_map, List.flatMap_map]
  rfl

/-- Trees have the same outline, indented by two blanks, just if they are equal, marks aside. Names, parameters and
lexemes may be any texts. -/
theorem outline_eq_iff {tree tree' : Expr} (known : tree.Known) (known' : tree'.Known) :
    tree.outline "  " = tree'.outline "  " ↔ tree.alike tree' = true := by
  rw [← sketch_eq_iff tree tree' known known', ← String.toList_inj, toList_outline known, toList_outline known']
  constructor
  · intro same
    exact Sketch.rows_injective 0 (Row.flatMap_chars_inj same)
  · intro same
    rw [same]

/-- Two functions with the same parameter and the same body in other places, and a third one that has what looks like the
lines of that body as a second parameter. -/
theorem outline_eq_iff_parameters :
    let first := function (.spot ⟨1, 1⟩) "f" ["x"] (name (.spot ⟨1, 11⟩) "y'\n  'z")
    let second := function .absent "f" ["x"] (name (.line 3) "y'\n  'z")
    let third := function .absent "f" ["x", "y'\n  'z"] (name .absent "y")
    first.outline "  " = second.outline "  " ∧ first.outline "  " ≠ third.outline "  " := by
  intro first second third
  have known (mark mark' : Mark) (parameters : List String) (text : String) :
      (function mark "f" parameters (name mark' text)).Known := by
    intro node within
    have member : node ∈ [function mark "f" parameters (name mark' text), name mark' text] :=
      within.mem_of_closed (by simp [children]) List.mem_cons_self
    simp only [List.mem_cons, List.not_mem_nil, or_false] at member
    obtain rfl | rfl := member <;> simp
  refine ⟨(outline_eq_iff (known _ _ _ _) (known _ _ _ _)).mpr (by decide), fun same => ?_⟩
  exact absurd ((outline_eq_iff (known _ _ _ _) (known _ _ _ _)).mp same) (by decide)

end Expr

end Corvid
