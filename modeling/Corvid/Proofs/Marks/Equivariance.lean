import Corvid.Proofs.Eval.Literal
import Corvid.Proofs.Marks.Remark

/-!
Evaluation carries marks along and never looks at them: the outcome for a tree and a store whose marks have been
changed is the outcome for the tree and the store as they were, with its marks changed in the same way. The only
thing that evaluation asks of a mark is whether there is one.
-/
namespace Corvid

def Halt.remark (change : Mark → Mark) : Halt → Halt
  | .fault cause mark => .fault cause (change mark)
  | other => other

/-- An outcome with its marks changed; `act` changes those of the result. -/
def remarkOutcome {α : Type} (change : Mark → Mark) (act : α → α) :
    Except Halt α × Store → Except Halt α × Store
  | (.ok a, store) => (.ok (act a), store.remark change)
  | (.error halt, store) => (.error (halt.remark change), store.remark change)

/-- A change that tells apart whether there is a mark. -/
def Faithful (change : Mark → Mark) : Prop := ∀ mark, change mark = .absent ↔ mark = .absent

theorem Faithful.absent {change : Mark → Mark} (faithful : Faithful change) : change .absent = .absent :=
  (faithful _).mpr rfl

theorem Faithful.orElse {change : Mark → Mark} (faithful : Faithful change) (inner outer : Mark) :
    (change inner).orElse (change outer) = change (inner.orElse outer) := by
  by_cases known : inner = .absent
  · rw [known, faithful.absent]
    rfl
  · have known' : change inner ≠ .absent := fun same => known ((faithful inner).mp same)
    have keep {mark : Mark} (present : mark ≠ .absent) (other : Mark) : mark.orElse other = mark := by
      cases mark <;> first | rfl | contradiction
    rw [keep known, keep known']

/-- A change that agrees with how a missing mark is filled in. -/
structure Coherent (change : Mark → Mark) : Prop where
  absent : change .absent = .absent
  orElse : ∀ inner outer : Mark, (change inner).orElse (change outer) = change (inner.orElse outer)

theorem Faithful.coherent {change : Mark → Mark} (faithful : Faithful change) : Coherent change :=
  ⟨faithful.absent, faithful.orElse⟩

/-- One evaluation follows another: on a store with changed marks it has the outcome of the other with changed
marks. -/
def Follows {α : Type} (change : Mark → Mark) (act : α → α) (moved original : Eval α) : Prop :=
  ∀ store : Store, moved (store.remark change) = remarkOutcome change act (original store)

namespace Follows

variable {change : Mark → Mark} {α β : Type} {act : α → α} {act' : β → β}

theorem pure {moved original : α} (same : moved = act original) :
    Follows change act (Pure.pure moved) (Pure.pure original) := by
  subst same
  intro store
  rfl

/-- One evaluation after another; the second may rely on what the first promises of its result. -/
theorem bind_of {promised : α → Prop} {moved original : Eval α} {next next' : α → Eval β}
    (first : Follows change act moved original)
    (keeps : ∀ store a after, original store = (.ok a, after) → promised a)
    (rest : ∀ a, promised a → Follows change act' (next' (act a)) (next a)) :
    Follows change act' (moved >>= next') (original >>= next) := by
  intro store
  change Eval.bind moved next' (store.remark change) = remarkOutcome change act' (Eval.bind original next store)
  rw [Eval.bind, Eval.bind, first store]
  cases found : original store with
  | mk result after =>
    cases result with
    | ok a => exact rest a (keeps store a after found) after
    | error halt => rfl

theorem bind {moved original : Eval α} {next next' : α → Eval β} (first : Follows change act moved original)
    (rest : ∀ a, Follows change act' (next' (act a)) (next a)) :
    Follows change act' (moved >>= next') (original >>= next) :=
  bind_of first (fun _ _ _ _ => trivial) fun a _ => rest a

theorem fail (coherent : Coherent change) (fault : Fault) :
    Follows change act (Eval.fail fault) (Eval.fail fault) := by
  intro store
  simp [Eval.fail, Eval.stop, remarkOutcome, Halt.remark, coherent.absent]

theorem read {view view' : Store → α} (same : ∀ store : Store, view' (store.remark change) = act (view store)) :
    Follows change act (Eval.read view') (Eval.read view) := by
  intro store
  simp [Eval.read, remarkOutcome, same]

theorem update {update update' : Store → Store}
    (same : ∀ store : Store, update' (store.remark change) = (update store).remark change) :
    Follows change id (Eval.change update') (Eval.change update) := by
  intro store
  simp [Eval.change, remarkOutcome, same]

theorem create {make make' : Store → Nat × Store}
    (same : ∀ store : Store, make' (store.remark change) = ((make store).1, (make store).2.remark change)) :
    Follows change id (Eval.create make') (Eval.create make) := by
  intro store
  simp [Eval.create, remarkOutcome, same]

theorem drawTag : Follows change id Eval.drawTag Eval.drawTag := by
  intro store
  rfl

theorem ofExcept (coherent : Coherent change) {result result' : Except Fault α}
    (same : result' = result.map act) : Follows change act (Eval.ofExcept result') (Eval.ofExcept result) := by
  subst same
  cases result with
  | ok a => exact pure rfl
  | error fault => exact fail coherent fault

theorem locate (coherent : Coherent change) {moved original : Eval α} (mark : Mark)
    (inner : Follows change act moved original) :
    Follows change act (Eval.locate (change mark) moved) (Eval.locate mark original) := by
  intro store
  rw [Eval.locate, Eval.locate, inner store]
  cases original store with
  | mk result after =>
    cases result with
    | ok a => rfl
    | error halt =>
      cases halt with
      | fault cause place => simp [remarkOutcome, Halt.remark, coherent.orElse]
      | tooDeep => rfl
      | tooLong => rfl

end Follows

namespace Rule

variable {change : Mark → Mark} {evaluate : Evaluator} {render : Value → Eval String}

/-- An evaluator that carries marks along. -/
def Carries (change : Mark → Mark) (evaluate : Evaluator) : Prop :=
  ∀ expr scope, Follows change (Value.remark change) (evaluate (expr.remark change) scope) (evaluate expr scope)

theorem evalAll_follows (carries : Carries change evaluate) (scope : Nat) (exprs : List Expr) :
    Follows change (List.map (Value.remark change)) (evalAll evaluate scope (Expr.remarkAll change exprs))
      (evalAll evaluate scope exprs) := by
  induction exprs with
  | nil => exact .pure rfl
  | cons expr rest ih =>
    exact .bind (carries expr scope) fun value => .bind ih fun values => .pure rfl

theorem evalBlock_follows (carries : Carries change evaluate) (scope : Nat) (body : List Expr) (last : Value) :
    Follows change (Value.remark change)
      (evalBlock evaluate scope (Expr.remarkAll change body) (last.remark change))
      (evalBlock evaluate scope body last) := by
  induction body generalizing last with
  | nil => exact .pure rfl
  | cons expr rest ih => exact .bind (carries expr scope) fun value => ih value

theorem requireKey_follows (coherent : Coherent change) (value : Value) :
    Follows change id (requireKey (value.remark change)) (requireKey value) := by
  simp only [requireKey, Value.ofValue?_remark, Value.kind_remark]
  cases Key.ofValue? value with
  | some key => exact .pure rfl
  | none => exact .fail coherent _

theorem requireIndex_follows (coherent : Coherent change) (value : Value) :
    Follows change id (requireIndex (value.remark change)) (requireIndex value) := by
  cases value with
  | int => exact .pure rfl
  | _ => exact .fail coherent _

theorem inBounds_follows (coherent : Coherent change) (index : Int) (length : Nat) :
    Follows change id (inBounds index length) (inBounds index length) := by
  rw [inBounds]
  split
  · exact .pure rfl
  · exact .fail coherent _

theorem evalPairs_follows (coherent : Coherent change) (carries : Carries change evaluate) (scope : Nat)
    (pairs : List (Expr × Expr)) (entries : Entries) :
    Follows change (Entries.remark change)
      (evalPairs evaluate scope (Expr.remarkPairs change pairs) (entries.remark change))
      (evalPairs evaluate scope pairs entries) := by
  induction pairs generalizing entries with
  | nil => exact .pure rfl
  | cons pair rest ih =>
    refine .bind (carries pair.1 scope) fun key => .bind (requireKey_follows coherent key) fun key =>
      .bind (carries pair.2 scope) fun value => ?_
    rw [id, Entries.set_remark]
    exact ih _

theorem list_follows (carries : Carries change evaluate) (scope : Nat) (elements : List Expr) :
    Follows change (Value.remark change) (list evaluate scope (Expr.remarkAll change elements))
      (list evaluate scope elements) :=
  .bind (evalAll_follows carries scope elements) fun items =>
    .bind (.create fun store => store.allocate_remark change (.list items)) fun _ => .pure rfl

theorem dict_follows (coherent : Coherent change) (carries : Carries change evaluate) (scope : Nat)
    (pairs : List (Expr × Expr)) :
    Follows change (Value.remark change) (dict evaluate scope (Expr.remarkPairs change pairs))
      (dict evaluate scope pairs) :=
  .bind (evalPairs_follows coherent carries scope pairs []) fun entries =>
    .bind (.create fun store => store.allocate_remark change (.dict entries)) fun _ => .pure rfl

theorem assign_follows (carries : Carries change evaluate) (scope : Nat) (text : String) (expr : Expr) :
    Follows change (Value.remark change) (assign evaluate scope text (expr.remark change))
      (assign evaluate scope text expr) :=
  .bind (carries expr scope) fun value =>
    .bind (.update fun store => store.bind_remark change scope text value) fun _ => .pure rfl

theorem name_follows (coherent : Coherent change) (scope : Nat) (text : String) :
    Follows change (Value.remark change) (name scope text) (name scope text) := by
  refine .bind (.read fun store => store.lookup_remark change scope text) fun found => ?_
  cases found with
  | some value => exact .pure rfl
  | none => exact .fail coherent _

theorem getD_remark (items : List Value) (index : Nat) :
    (items.map (Value.remark change)).getD index .none = (items.getD index .none).remark change := by
  rw [List.getD_eq_getElem?_getD, List.getD_eq_getElem?_getD, List.getElem?_map]
  cases items[index]? <;> rfl

theorem subscript_follows (coherent : Coherent change) (carries : Carries change evaluate) (scope : Nat)
    (target index : Expr) :
    Follows change (Value.remark change)
      (subscript evaluate scope (target.remark change) (index.remark change))
      (subscript evaluate scope target index) := by
  refine .bind (carries target scope) fun value => ?_
  cases value with
  | list handle =>
    refine .bind (carries index scope) fun value => .bind (requireIndex_follows coherent value) fun offset => ?_
    simp only [id]
    split
    · exact .fail coherent _
    · refine .bind (.read fun store => store.items_remark change handle) fun items => ?_
      rw [List.length_map]
      refine .bind (inBounds_follows coherent offset items.length) fun position => .pure ?_
      exact getD_remark items position
  | dict handle =>
    refine .bind (carries index scope) fun value => .bind (requireKey_follows coherent value) fun key =>
      .bind (.read fun store => store.entries_remark change handle) fun entries => .pure ?_
    rw [id, Entries.find?_remark]
    cases Entries.find? entries key <;> rfl
  | _ => exact .fail coherent _

theorem store_follows (coherent : Coherent change) (carries : Carries change evaluate) (scope : Nat)
    (target index expr : Expr) :
    Follows change (Value.remark change)
      (store evaluate scope (target.remark change) (index.remark change) (expr.remark change))
      (store evaluate scope target index expr) := by
  refine .bind (carries target scope) fun value => ?_
  cases value with
  | list handle =>
    refine .bind (carries index scope) fun value => .bind (requireIndex_follows coherent value) fun offset =>
      .bind (carries expr scope) fun value =>
      .bind (.read fun store => store.items_remark change handle) fun items => ?_
    rw [List.length_map]
    exact .bind (inBounds_follows coherent offset items.length) fun position =>
      .bind (.update fun store => store.setItem_remark change handle position value) fun _ => .pure rfl
  | dict handle =>
    exact .bind (carries index scope) fun value => .bind (requireKey_follows coherent value) fun key =>
      .bind (carries expr scope) fun value =>
      .bind (.update fun store => store.setEntry_remark change handle key value) fun _ => .pure rfl
  | _ => exact .fail coherent _

theorem repeated_remark (content : String) (count : Int) :
    repeated content count = (repeated content count).map (Value.remark change) := by
  rw [repeated]
  split <;> rfl

theorem onIntegers_remark (result : Except Fault Int) :
    result.map Value.int = (result.map Value.int).map (Value.remark change) := by
  cases result <;> rfl

/-- Results of arithmetic hold no marks. -/
theorem arithmetic_plain (op : Operator) (fresh : Nat) (left right : Value) :
    arithmetic op fresh left right = (arithmetic op fresh left right).map (Value.remark change) := by
  unfold arithmetic
  split
  · exact repeated_remark _ _
  · exact repeated_remark _ _
  · exact onIntegers_remark _
  · cases left.number with
    | error fault => rfl
    | ok a =>
      cases right.number with
      | error fault => rfl
      | ok b =>
        cases result : op.onNumbers fresh a b <;> simp only [Bind.bind, Except.bind, result] <;> rfl

theorem arithmetic_remark (op : Operator) (fresh : Nat) (left right : Value) :
    arithmetic op fresh (left.remark change) (right.remark change) =
      (arithmetic op fresh left right).map (Value.remark change) := by
  rw [← arithmetic_plain]
  cases left <;> cases right <;> first | rfl | (cases op <;> rfl)

theorem onEquality_plain (comparator : Comparator) (equal : Bool) :
    comparator.onEquality equal = (comparator.onEquality equal).map (Value.remark change) := by
  cases comparator <;> rfl

theorem onOrder_plain (comparator : Comparator) (below equal above : Bool) :
    comparator.onOrder below equal above = (comparator.onOrder below equal above).map (Value.remark change) := by
  cases comparator <;> rfl

theorem equality_remark (comparator : Comparator) (left right : Value) :
    equality comparator (left.remark change) (right.remark change) =
      (equality comparator left right).map (Value.remark change) := by
  cases left <;> cases right <;> first | rfl | exact onEquality_plain _ _

theorem comparison_remark (comparator : Comparator) (left right : Value) :
    comparison comparator (left.remark change) (right.remark change) =
      (comparison comparator left right).map (Value.remark change) := by
  cases left <;> cases right <;> first | rfl | exact onOrder_plain _ _ _ _

theorem logical_remark (op : Operator) (left right : Value) :
    logical op (left.remark change) (right.remark change) = (logical op left right).map (Value.remark change) := by
  cases left <;> cases right <;> first | rfl | (cases op <;> rfl)

theorem rangeBetween_remark (low high : Value) :
    rangeBetween (low.remark change) (high.remark change) = (rangeBetween low high).map (Value.remark change) := by
  cases low <;> cases high <;> rfl

theorem combine_follows (coherent : Coherent change)
    (renders : ∀ value, Follows change id (render (value.remark change)) (render value)) (joint : Joint)
    (left right : Value) :
    Follows change (Value.remark change) (combine render joint (left.remark change) (right.remark change))
      (combine render joint left right) := by
  cases joint with
  | arithmetic op => exact .bind .drawTag fun fresh => .ofExcept coherent (arithmetic_remark op fresh left right)
  | logical op => exact .ofExcept coherent (logical_remark op left right)
  | equality comparator => exact .ofExcept coherent (equality_remark comparator left right)
  | comparison comparator => exact .ofExcept coherent (comparison_remark comparator left right)
  | concat => exact .bind (renders left) fun text => .bind (renders right) fun text' => .pure rfl
  | range => exact .ofExcept coherent (rangeBetween_remark left right)

theorem join_follows (coherent : Coherent change) (carries : Carries change evaluate)
    (renders : ∀ value, Follows change id (render (value.remark change)) (render value)) (scope : Nat)
    (joint : Joint) (left right : Expr) :
    Follows change (Value.remark change)
      (join evaluate render scope joint (left.remark change) (right.remark change))
      (join evaluate render scope joint left right) :=
  .bind (carries left scope) fun a => .bind (carries right scope) fun b =>
    combine_follows coherent renders joint a b

theorem negate_follows (coherent : Coherent change) (carries : Carries change evaluate) (scope : Nat)
    (operand : Expr) :
    Follows change (Value.remark change) (negate evaluate scope (operand.remark change))
      (negate evaluate scope operand) := by
  refine .bind (carries operand scope) fun value => ?_
  cases value with
  | bool => exact .pure rfl
  | _ => exact .fail coherent _

theorem conditional_follows (coherent : Coherent change) (carries : Carries change evaluate) (scope : Nat)
    (condition yes no : Expr) :
    Follows change (Value.remark change)
      (conditional evaluate scope (condition.remark change) (yes.remark change) (no.remark change))
      (conditional evaluate scope condition yes no) := by
  refine .bind (carries condition scope) fun value => ?_
  cases value with
  | bool chosen =>
    cases chosen with
    | true => exact carries yes scope
    | false => exact carries no scope
  | _ => exact .fail coherent _

/-- A course whose items follow the store. -/
def Course.Follows (change : Mark → Mark) (course : Course) : Prop :=
  ∀ (store : Store) (index : Nat), course.item (store.remark change) index = (course.item store index).remark change

theorem turns_follows (carries : Carries change evaluate) (scope : Nat) (text : String) (body : Expr)
    {course : Course} (follows : course.Follows change) (left : Nat) (last : Value) :
    Follows change (Value.remark change)
      (turns evaluate scope text (body.remark change) course left (last.remark change))
      (turns evaluate scope text body course left last) := by
  induction left generalizing last with
  | zero => exact .pure rfl
  | succ left ih =>
    exact .bind (.read fun store => follows store _) fun item =>
      .bind (.update fun store => store.bind_remark change scope text item) fun _ =>
      .bind (carries body scope) fun value => ih value

theorem course_follows (coherent : Coherent change) (source : Value) :
    Follows change id (course (source.remark change)) (course source) := by
  cases source with
  | list handle =>
    refine .bind (.read fun store => store.items_remark change handle) fun items => .pure ?_
    rw [List.length_map, id]
  | dict handle =>
    refine .bind (.read fun store => store.entries_remark change handle) fun entries => .pure ?_
    simp only [Entries.remark, List.map_map]
    rfl
  | range => exact .pure rfl
  | _ => exact .fail coherent _

theorem course_items {source : Value} {store after : Store} {found : Course}
    (gives : course source store = (.ok found, after)) : found.Follows change := by
  cases source with
  | list handle =>
    cases gives
    intro store index
    simp only [Store.items_remark]
    exact getD_remark _ index
  | dict handle =>
    cases gives
    intro _ index
    simp only [Array.getD]
    split
    · simp
    · rfl
  | range =>
    cases gives
    exact fun _ _ => rfl
  | _ => cases gives

theorem loop_follows (coherent : Coherent change) (carries : Carries change evaluate) (scope : Nat)
    (text : String) (source body : Expr) :
    Follows change (Value.remark change)
      (loop evaluate scope text (source.remark change) (body.remark change))
      (loop evaluate scope text source body) :=
  .bind (carries source scope) fun value =>
    .bind_of (course_follows coherent value) (fun _ _ _ gives => course_items gives) fun _ follows =>
      turns_follows carries scope text body follows _ .none

theorem function_follows (scope : Nat) (text : String) (parameters : List String) (body : Expr) :
    Follows change (Value.remark change) (function scope text parameters (body.remark change))
      (function scope text parameters body) :=
  .bind (.update fun store => store.bind_remark change scope text (.function text parameters body)) fun _ =>
    .pure rfl

theorem call_follows (coherent : Coherent change) (carries : Carries change evaluate) (scope : Nat)
    (text : String) (arguments : List Expr) :
    Follows change (Value.remark change) (call evaluate scope text (Expr.remarkAll change arguments))
      (call evaluate scope text arguments) := by
  refine .bind (name_follows coherent scope text) fun value => ?_
  cases value with
  | function _ parameters body =>
    simp only [Value.remark, Expr.remarkAll_eq_map, List.length_map]
    split
    · exact .fail coherent _
    · rw [← Expr.remarkAll_eq_map]
      refine .bind (evalAll_follows carries scope arguments) fun values => ?_
      rw [Bindings.ofPairs_remark]
      exact .bind (.create fun store => store.addCall_remark change scope _) fun inner => carries body inner
  | _ => exact .fail coherent _

theorem printed_follows (carries : Carries change evaluate)
    (renders : ∀ value, Follows change id (render (value.remark change)) (render value)) (scope : Nat)
    (expr : Expr) :
    Follows change id (printed evaluate render scope (expr.remark change)) (printed evaluate render scope expr) := by
  cases expr with
  | none => exact .pure rfl
  | _ => exact .bind (carries _ scope) fun value => renders value

theorem print_follows (carries : Carries change evaluate)
    (renders : ∀ value, Follows change id (render (value.remark change)) (render value)) (scope : Nat)
    (expr : Expr) (newline : Bool) :
    Follows change (Value.remark change) (print evaluate render scope (expr.remark change) newline)
      (print evaluate render scope expr newline) :=
  .bind (printed_follows carries renders scope expr) fun _ =>
    .bind (.update fun store => store.write_remark change scope _) fun _ => .pure rfl

theorem literal_follows (coherent : Coherent change) (kind : LiteralKind) (lexeme : String) :
    Follows change (Value.remark change) (literal kind lexeme) (literal kind lexeme) := by
  have outcome := literalValue_outcome kind lexeme
  rw [literal]
  generalize literalValue kind lexeme = result at outcome
  cases outcome with
  | text | int | float | bool => exact .pure rfl
  | tooLong => exact fun _ => rfl
  | malformed => exact .fail coherent _

theorem apply_follows (coherent : Coherent change) (carries : Carries change evaluate)
    (renders : ∀ value, Follows change id (render (value.remark change)) (render value)) (scope : Nat)
    (expr : Expr) :
    Follows change (Value.remark change) (apply evaluate render scope (expr.remark change))
      (apply evaluate render scope expr) := by
  cases expr with
  | none => exact .pure rfl
  | literal _ kind lexeme => exact literal_follows coherent kind lexeme
  | name _ text => exact name_follows coherent scope text
  | assign _ text value => exact assign_follows carries scope text value
  | list _ elements => exact list_follows carries scope elements
  | dict _ pairs => exact dict_follows coherent carries scope pairs
  | subscript _ target index => exact subscript_follows coherent carries scope target index
  | store _ target index value => exact store_follows coherent carries scope target index value
  | join _ joint left right => exact join_follows coherent carries renders scope joint left right
  | negate _ operand => exact negate_follows coherent carries scope operand
  | block _ body => exact evalBlock_follows carries scope body .none
  | conditional _ condition yes no => exact conditional_follows coherent carries scope condition yes no
  | loop _ item source body => exact loop_follows coherent carries scope item source body
  | function _ text parameters body => exact function_follows scope text parameters body
  | call _ text arguments => exact call_follows coherent carries scope text arguments
  | print _ shown newline => exact print_follows carries renders scope shown newline
  | unknown => exact .fail coherent _

end Rule

variable {change : Mark → Mark}

theorem showWithin_follows (depth : Nat) (value : Value) :
    Follows change id (showWithin depth (value.remark change)) (showWithin depth value) := by
  intro store
  simp only [showWithin, Store.text?_remark]
  cases store.text? depth value <;> rfl

/-- Evaluation carries marks along. -/
theorem evalWithin_follows (coherent : Coherent change) (depth : Nat) :
    Rule.Carries change (evalWithin depth) := by
  induction depth with
  | zero => exact fun _ _ _ => rfl
  | succ depth ih =>
    intro expr scope
    rw [evalWithin, evalWithin, Expr.mark_remark]
    exact .locate coherent expr.mark (Rule.apply_follows coherent ih (showWithin_follows depth) scope expr)

end Corvid
