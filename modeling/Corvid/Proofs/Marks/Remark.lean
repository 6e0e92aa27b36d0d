import Corvid.Eval

/-!
Changing the marks of trees, and of the functions that values and stores hold. What a store contains is looked up,
changed and written out in the same way whatever the marks are.
-/
namespace Corvid

namespace Expr

mutual

/-- The tree with every mark changed. -/
def remark (change : Mark → Mark) : Expr → Expr
  | none mark => none (change mark)
  | literal mark kind lexeme => literal (change mark) kind lexeme
  | name mark text => name (change mark) text
  | assign mark text value => assign (change mark) text (value.remark change)
  | list mark elements => list (change mark) (remarkAll change elements)
  | dict mark pairs => dict (change mark) (remarkPairs change pairs)
  | subscript mark target index => subscript (change mark) (target.remark change) (index.remark change)
  | store mark target index value =>
    store (change mark) (target.remark change) (index.remark change) (value.remark change)
  | join mark joint left right => join (change mark) joint (left.remark change) (right.remark change)
  | negate mark operand => negate (change mark) (operand.remark change)
  | block mark body => block (change mark) (remarkAll change body)
  | conditional mark condition yes no =>
    conditional (change mark) (condition.remark change) (yes.remark change) (no.remark change)
  | loop mark item source body => loop (change mark) item (source.remark change) (body.remark change)
  | function mark text parameters body => function (change mark) text parameters (body.remark change)
  | call mark text arguments => call (change mark) text (remarkAll change arguments)
  | print mark shown newline => print (change mark) (shown.remark change) newline
  | unknown mark kind => unknown (change mark) kind

def remarkAll (change : Mark → Mark) : List Expr → List Expr
  | [] => []
  | expr :: rest => expr.remark change :: remarkAll change rest

def remarkPairs (change : Mark → Mark) : List (Expr × Expr) → List (Expr × Expr)
  | [] => []
  | (key, value) :: rest => (key.remark change, value.remark change) :: remarkPairs change rest

end

variable (change : Mark → Mark)

@[simp] theorem remarkAll_eq_map (exprs : List Expr) : remarkAll change exprs = exprs.map (remark change) := by
  induction exprs with
  | nil => rfl
  | cons expr rest ih => rw [remarkAll, ih, List.map_cons]

@[simp] theorem remarkPairs_eq_map (pairs : List (Expr × Expr)) :
    remarkPairs change pairs = pairs.map fun pair => (pair.1.remark change, pair.2.remark change) := by
  induction pairs with
  | nil => rfl
  | cons pair rest ih => rw [remarkPairs, ih, List.map_cons]

@[simp] theorem mark_remark (expr : Expr) : (expr.remark change).mark = change expr.mark := by
  cases expr <;> rfl

mutual

theorem remark_id : (expr : Expr) → expr.remark id = expr
  | none _ | literal .. | name .. | unknown .. => rfl
  | assign _ _ value => by simp [remark, remark_id value]
  | list _ elements => by rw [remark, remarkAll_id elements, id]
  | dict _ pairs => by rw [remark, remarkPairs_id pairs, id]
  | subscript _ target index => by simp [remark, remark_id target, remark_id index]
  | store _ target index value => by simp [remark, remark_id target, remark_id index, remark_id value]
  | join _ _ left right => by simp [remark, remark_id left, remark_id right]
  | negate _ operand => by simp [remark, remark_id operand]
  | block _ body => by rw [remark, remarkAll_id body, id]
  | conditional _ condition yes no => by simp [remark, remark_id condition, remark_id yes, remark_id no]
  | loop _ _ source body => by simp [remark, remark_id source, remark_id body]
  | function _ _ _ body => by simp [remark, remark_id body]
  | call _ _ arguments => by rw [remark, remarkAll_id arguments, id]
  | print _ shown _ => by simp [remark, remark_id shown]

theorem remarkAll_id : (exprs : List Expr) → remarkAll id exprs = exprs
  | [] => rfl
  | expr :: rest => by rw [remarkAll, remark_id expr, remarkAll_id rest]

theorem remarkPairs_id : (pairs : List (Expr × Expr)) → remarkPairs id pairs = pairs
  | [] => rfl
  | (key, value) :: rest => by rw [remarkPairs, remark_id key, remark_id value, remarkPairs_id rest]

end

variable (again : Mark → Mark)

mutual

theorem remark_remark : (expr : Expr) → (expr.remark change).remark again = expr.remark (again ∘ change)
  | none _ | literal .. | name .. | unknown .. => rfl
  | assign _ _ value => by simp [remark, remark_remark value]
  | list _ elements => by simp only [remark, remarkAll_remarkAll elements, Function.comp]
  | dict _ pairs => by simp only [remark, remarkPairs_remarkPairs pairs, Function.comp]
  | subscript _ target index => by simp [remark, remark_remark target, remark_remark index]
  | store _ target index value => by
    simp [remark, remark_remark target, remark_remark index, remark_remark value]
  | join _ _ left right => by simp [remark, remark_remark left, remark_remark right]
  | negate _ operand => by simp [remark, remark_remark operand]
  | block _ body => by simp only [remark, remarkAll_remarkAll body, Function.comp]
  | conditional _ condition yes no => by
    simp [remark, remark_remark condition, remark_remark yes, remark_remark no]
  | loop _ _ source body => by simp [remark, remark_remark source, remark_remark body]
  | function _ _ _ body => by simp [remark, remark_remark body]
  | call _ _ arguments => by simp only [remark, remarkAll_remarkAll arguments, Function.comp]
  | print _ shown _ => by simp [remark, remark_remark shown]

theorem remarkAll_remarkAll : (exprs : List Expr) →
    remarkAll again (remarkAll change exprs) = remarkAll (again ∘ change) exprs
  | [] => rfl
  | expr :: rest => by rw [remarkAll, remarkAll, remarkAll, remark_remark expr, remarkAll_remarkAll rest]

theorem remarkPairs_remarkPairs : (pairs : List (Expr × Expr)) →
    remarkPairs again (remarkPairs change pairs) = remarkPairs (again ∘ change) pairs
  | [] => rfl
  | (key, value) :: rest => by
    rw [remarkPairs, remarkPairs, remarkPairs, remark_remark key, remark_remark value,
      remarkPairs_remarkPairs rest]

end

/-- Changes of marks that cancel out leave the tree as it was. -/
theorem remark_remark_cancel {change again : Mark → Mark} (cancel : ∀ mark, again (change mark) = mark)
    (expr : Expr) : (expr.remark change).remark again = expr := by
  have same : again ∘ change = id := funext cancel
  rw [remark_remark, same, remark_id]

end Expr

/-- Forgets a mark. -/
def unmark (_ : Mark) : Mark := .absent

namespace Expr

mutual

theorem bare_eq_remark : (expr : Expr) → expr.bare = expr.remark unmark
  | none _ | literal .. | name .. | unknown .. => rfl
  | assign _ _ value => by rw [bare, remark, bare_eq_remark value]; rfl
  | list _ elements => by rw [bare, remark, bareAll_eq_remarkAll elements]; rfl
  | dict _ pairs => by rw [bare, remark, barePairs_eq_remarkPairs pairs]; rfl
  | subscript _ target index => by rw [bare, remark, bare_eq_remark target, bare_eq_remark index]; rfl
  | store _ target index value => by
    rw [bare, remark, bare_eq_remark target, bare_eq_remark index, bare_eq_remark value]; rfl
  | join _ _ left right => by rw [bare, remark, bare_eq_remark left, bare_eq_remark right]; rfl
  | negate _ operand => by rw [bare, remark, bare_eq_remark operand]; rfl
  | block _ body => by rw [bare, remark, bareAll_eq_remarkAll body]; rfl
  | conditional _ condition yes no => by
    rw [bare, remark, bare_eq_remark condition, bare_eq_remark yes, bare_eq_remark no]; rfl
  | loop _ _ source body => by rw [bare, remark, bare_eq_remark source, bare_eq_remark body]; rfl
  | function _ _ _ body => by rw [bare, remark, bare_eq_remark body]; rfl
  | call _ _ arguments => by rw [bare, remark, bareAll_eq_remarkAll arguments]; rfl
  | print _ shown _ => by rw [bare, remark, bare_eq_remark shown]; rfl

theorem bareAll_eq_remarkAll : (exprs : List Expr) → bareAll exprs = remarkAll unmark exprs
  | [] => rfl
  | expr :: rest => by rw [bareAll, remarkAll, bare_eq_remark expr, bareAll_eq_remarkAll rest]

theorem barePairs_eq_remarkPairs : (pairs : List (Expr × Expr)) → barePairs pairs = remarkPairs unmark pairs
  | [] => rfl
  | (key, value) :: rest => by
    rw [barePairs, remarkPairs, bare_eq_remark key, bare_eq_remark value, barePairs_eq_remarkPairs rest]

end

end Expr

variable (change : Mark → Mark)

namespace Value

def remark : Value → Value
  | .function name parameters body => .function name parameters (body.remark change)
  | other => other

@[simp] theorem kind_remark (value : Value) : (value.remark change).kind = value.kind := by
  cases value <;> rfl

@[simp] theorem memberText?_remark (value : Value) : (value.remark change).memberText? = value.memberText? := by
  cases value <;> rfl

@[simp] theorem remark_toValue (key : Key) : key.toValue.remark change = key.toValue := by
  cases key <;> rfl

@[simp] theorem ofValue?_remark (value : Value) : Key.ofValue? (value.remark change) = Key.ofValue? value := by
  cases value <;> rfl

end Value

/-- The entries with the marks of their values changed; keys have none. -/
def Entries.remark (entries : Entries) : Entries := entries.map fun entry => (entry.1, entry.2.remark change)

theorem Entries.find?_remark (entries : Entries) (key : Key) :
    Entries.find? (entries.remark change) key = (entries.find? key).map (Value.remark change) := by
  induction entries with
  | nil => rfl
  | cons entry rest ih =>
    simp only [Entries.remark, List.map_cons, Entries.find?] at ih ⊢
    split
    · rfl
    · exact ih

theorem Entries.set_remark (entries : Entries) (key : Key) (value : Value) :
    Entries.set (entries.remark change) key (value.remark change) = (entries.set key value).remark change := by
  induction entries with
  | nil => rfl
  | cons entry rest ih =>
    simp only [Entries.remark, List.map_cons, Entries.set] at ih ⊢
    split
    · rfl
    · rw [ih, List.map_cons]

def Bindings.remark (bindings : Bindings) : Bindings := bindings.map fun pair => (pair.1, pair.2.remark change)

theorem Bindings.find?_remark (bindings : Bindings) (name : String) :
    Bindings.find? (bindings.remark change) name = (bindings.find? name).map (Value.remark change) := by
  induction bindings with
  | nil => rfl
  | cons pair rest ih =>
    simp only [Bindings.remark, List.map_cons, Bindings.find?] at ih ⊢
    split
    · rfl
    · exact ih

theorem Bindings.set_remark (bindings : Bindings) (name : String) (value : Value) :
    Bindings.set (bindings.remark change) name (value.remark change) = (bindings.set name value).remark change := by
  induction bindings with
  | nil => rfl
  | cons pair rest ih =>
    simp only [Bindings.remark, List.map_cons, Bindings.set] at ih ⊢
    split
    · rfl
    · rw [ih, List.map_cons]

theorem Bindings.ofPairs_remark (names : List String) (values : List Value) :
    Bindings.ofPairs (names.zip (values.map (Value.remark change))) =
      (Bindings.ofPairs (names.zip values)).remark change := by
  have general (pairs : List (String × Value)) (bindings : Bindings) :
      (pairs.map fun pair => (pair.1, pair.2.remark change)).foldl
          (fun bindings pair => Bindings.set bindings pair.1 pair.2) (bindings.remark change) =
        (pairs.foldl (fun bindings pair => Bindings.set bindings pair.1 pair.2) bindings).remark change := by
    induction pairs generalizing bindings with
    | nil => rfl
    | cons pair rest ih => rw [List.map_cons, List.foldl_cons, List.foldl_cons, set_remark, ih]
  have zipped : names.zip (values.map (Value.remark change)) =
      (names.zip values).map fun pair => (pair.1, pair.2.remark change) := by
    rw [List.zip_map_right]
    rfl
  rw [zipped]
  exact general _ []

def Container.remark : Container → Container
  | .list items => .list (items.map (Value.remark change))
  | .dict entries => .dict (entries.remark change)

def Scope.remark (scope : Scope) : Scope := { scope with bindings := scope.bindings.remark change }

namespace Store

/-- The store with the marks of all its functions changed. -/
def remark (store : Store) : Store :=
  { store with
    containers := store.containers.map (Container.remark change)
    scopes := store.scopes.map (Scope.remark change) }

variable (store : Store)

@[simp] theorem items_remark (handle : Nat) :
    (store.remark change).items handle = (store.items handle).map (Value.remark change) := by
  simp only [items, remark, Array.getElem?_map]
  cases store.containers[handle]? with
  | none => rfl
  | some container => cases container <;> rfl

@[simp] theorem entries_remark (handle : Nat) :
    (store.remark change).entries handle = (store.entries handle).remark change := by
  simp only [entries, remark, Array.getElem?_map]
  cases store.containers[handle]? with
  | none => rfl
  | some container => cases container <;> rfl

theorem allocate_remark (container : Container) :
    (store.remark change).allocate (container.remark change) =
      ((store.allocate container).1, (store.allocate container).2.remark change) := by
  simp [allocate, remark]

theorem setContainer_remark (handle : Nat) (container : Container) :
    (store.remark change).setContainer handle (container.remark change) =
      (store.setContainer handle container).remark change := by
  simp [setContainer, remark, Array.map_setIfInBounds]

theorem setItem_remark (handle index : Nat) (value : Value) :
    (store.remark change).setItem handle index (value.remark change) =
      (store.setItem handle index value).remark change := by
  rw [setItem, items_remark, ← List.map_set]
  exact setContainer_remark change store handle (.list _)

theorem setEntry_remark (handle : Nat) (key : Key) (value : Value) :
    (store.remark change).setEntry handle key (value.remark change) =
      (store.setEntry handle key value).remark change := by
  rw [setEntry, entries_remark, Entries.set_remark]
  exact setContainer_remark change store handle (.dict _)

theorem findFrom_remark (scopes : Array Scope) (name : String) (steps scope : Nat) :
    findFrom (scopes.map (Scope.remark change)) name steps scope =
      (findFrom scopes name steps scope).map (Value.remark change) := by
  induction steps generalizing scope with
  | zero => rfl
  | succ steps ih =>
    simp only [findFrom, Array.getElem?_map]
    cases scopes[scope]? with
    | none => rfl
    | some found =>
      simp only [Option.map_some, Scope.remark, Bindings.find?_remark]
      cases Bindings.find? found.bindings name with
      | some value => rfl
      | none =>
        cases found.parent with
        | none => rfl
        | some parent => exact ih parent

@[simp] theorem lookup_remark (scope : Nat) (name : String) :
    (store.remark change).lookup scope name = (store.lookup scope name).map (Value.remark change) :=
  findFrom_remark change store.scopes name (scope + 1) scope

theorem rootFrom_remark (scopes : Array Scope) (steps scope : Nat) :
    rootFrom (scopes.map (Scope.remark change)) steps scope = rootFrom scopes steps scope := by
  induction steps generalizing scope with
  | zero => rfl
  | succ steps ih =>
    simp only [rootFrom, Array.getElem?_map]
    cases scopes[scope]? with
    | none => rfl
    | some found =>
      simp only [Option.map_some, Scope.remark]
      cases found.parent with
      | none => rfl
      | some parent => exact ih parent

@[simp] theorem root_remark (scope : Nat) : (store.remark change).root scope = store.root scope :=
  rootFrom_remark change store.scopes (scope + 1) scope

@[simp] theorem scopingOf_remark (scope : Nat) : (store.remark change).scopingOf scope = store.scopingOf scope := by
  simp only [scopingOf, remark, Array.getElem?_map]
  cases store.scopes[scope]? <;> rfl

@[simp] theorem sinkOf_remark (scope : Nat) : (store.remark change).sinkOf scope = store.sinkOf scope := by
  simp only [sinkOf, remark, Array.getElem?_map]
  cases store.scopes[scope]? <;> rfl

theorem bind_remark (scope : Nat) (name : String) (value : Value) :
    (store.remark change).bind scope name (value.remark change) = (store.bind scope name value).remark change := by
  simp only [bind, updateScope, remark, Store.mk.injEq, true_and, and_true]
  apply Array.ext_getElem?
  intro index
  simp only [Array.getElem?_modify, Array.getElem?_map]
  cases store.scopes[index]? with
  | none => simp
  | some found =>
    by_cases same : scope = index
    · simp [same, Scope.remark, Bindings.set_remark]
    · simp [same]

theorem addChild_remark (parent : Nat) (bindings : Bindings) :
    (store.remark change).addChild parent (bindings.remark change) =
      ((store.addChild parent bindings).1, (store.addChild parent bindings).2.remark change) := by
  simp only [addChild, addNested, sinkOf_remark, scopingOf_remark]
  simp [addScope, remark, Scope.remark]

theorem addCall_remark (caller : Nat) (bindings : Bindings) :
    (store.remark change).addCall caller (bindings.remark change) =
      ((store.addCall caller bindings).1, (store.addCall caller bindings).2.remark change) := by
  simp only [addCall, scopingOf_remark, root_remark, addChild_remark]
  split <;> rfl

theorem write_remark (scope : Nat) (text : String) :
    (store.remark change).write scope text = (store.write scope text).remark change := by
  simp only [write, sinkOf_remark]
  rfl

theorem memberText?_remark (depth : Nat) (value : Value) :
    (store.remark change).memberText? depth (value.remark change) = store.memberText? depth value := by
  induction depth generalizing value with
  | zero => simp [memberText?]
  | succ depth ih =>
    cases value with
    | list handle =>
      have members : (store.remark change).memberText? depth ∘ Value.remark change = store.memberText? depth :=
        funext ih
      simp only [Value.remark, memberText?, items_remark, List.mapM_map, members]
    | dict handle =>
      change (store.remark change).memberText? (depth + 1) (.dict handle) = _
      simp only [memberText?, entries_remark, Entries.remark, List.mapM_map]
      congr 2
      funext pair
      simp only [Function.comp, ih]
    | _ => rfl

theorem text?_remark (depth : Nat) (value : Value) :
    (store.remark change).text? depth (value.remark change) = store.text? depth value := by
  cases value with
  | text content => rfl
  | _ => exact memberText?_remark change store depth _

/-- Changes of marks that cancel out leave the store as it was. -/
theorem remark_remark_cancel {change again : Mark → Mark} (cancel : ∀ mark, again (change mark) = mark)
    (store : Store) : (store.remark change).remark again = store := by
  have value (value : Value) : (value.remark change).remark again = value := by
    cases value with
    | function name parameters body =>
      exact congrArg (Value.function name parameters) (Expr.remark_remark_cancel cancel body)
    | _ => rfl
  have entries (entries : Entries) : (entries.remark change).remark again = entries := by
    simp [Entries.remark, Function.comp_def, value]
  have bindings (bindings : Bindings) : (bindings.remark change).remark again = bindings := by
    simp [Bindings.remark, Function.comp_def, value]
  have container (container : Container) : (container.remark change).remark again = container := by
    cases container with
    | list items => simp [Container.remark, Function.comp_def, value]
    | dict pairs => simp [Container.remark, entries]
  have scope (scope : Scope) : (scope.remark change).remark again = scope := by
    simp [Scope.remark, bindings]
  simp [remark, Function.comp_def, container, scope]

end Store

end Corvid
