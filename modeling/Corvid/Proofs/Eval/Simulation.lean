import Corvid.Eval
import Corvid.Proofs.Eval.Alike
import Corvid.Proofs.Expr.Parts

/-!
Two runs of evaluation side by side. A simulation says which stores correspond, in a world that says what corresponds
to what and that only grows, and which expressions may be evaluated in which scopes of the two runs. It has to be kept
by the few things that rules do to a store on their own; then two evaluations that start from corresponding stores end
alike, in corresponding stores.
-/
namespace Corvid

/-- What corresponds to what in two runs, with the laws that this has to obey. -/
structure Simulation where
  World : Type
  /-- What one world has, the other has too. -/
  later : World → World → Prop
  pairing : World → Pairing
  stores : World → Store → Store → Prop
  /-- What may be evaluated in a scope of the one run and in a scope of the other. -/
  admits : World → Expr → Nat → Nat → Prop
  /-- Whether nothing is said if the first run goes too deep. -/
  excused : Prop
  refl : ∀ world, later world world
  trans : ∀ {first second third}, later first second → later second third → later first third
  extended : ∀ {world world'}, later world world' → (pairing world).Extends (pairing world')
  kept : ∀ {world world' expr scope scope'}, later world world' → admits world expr scope scope' →
    admits world' expr scope scope'
  operand : ∀ {world whole part scope scope'}, admits world whole scope scope' → part ∈ whole.operands →
    admits world part scope scope'
  declared : ∀ {world mark name parameters body scope scope'},
    admits world (.function mark name parameters body) scope scope' → (pairing world).functions parameters body
  lookup : ∀ {world expr scope scope' store store' name}, stores world store store' →
    admits world expr scope scope' → expr.reads? = some name →
    Option.Rel (Value.Alike (pairing world)) (store.lookup scope name) (store'.lookup scope' name)
  items : ∀ {world store store' handle handle'}, stores world store store' →
    (pairing world).handles handle handle' →
    List.Forall₂ (Value.Alike (pairing world)) (store.items handle) (store'.items handle')
  entries : ∀ {world store store' handle handle'}, stores world store store' →
    (pairing world).handles handle handle' →
    (store.entries handle).Alike (pairing world) (store'.entries handle')
  bind : ∀ {world expr scope scope' store store' name value value'}, stores world store store' →
    admits world expr scope scope' → expr.binds? = some name → value.Alike (pairing world) value' →
    ∃ world', later world world' ∧ stores world' (store.bind scope name value) (store'.bind scope' name value')
  allocate : ∀ {world store store' container container'}, stores world store store' →
    container.Alike (pairing world) container' →
    ∃ world', later world world' ∧ stores world' (store.allocate container).2 (store'.allocate container').2 ∧
      (pairing world').handles (store.allocate container).1 (store'.allocate container').1
  setItem : ∀ {world mark target place expr scope scope' store store' handle handle' index value value'},
    stores world store store' → admits world (.store mark target place expr) scope scope' →
    (pairing world).handles handle handle' → value.Alike (pairing world) value' →
    ∃ world', later world world' ∧
      stores world' (store.setItem handle index value) (store'.setItem handle' index value')
  setEntry : ∀ {world mark target place expr scope scope' store store' handle handle' key key' value value'},
    stores world store store' → admits world (.store mark target place expr) scope scope' →
    (pairing world).handles handle handle' → key.Alike (pairing world) key' → value.Alike (pairing world) value' →
    ∃ world', later world world' ∧
      stores world' (store.setEntry handle key value) (store'.setEntry handle' key' value')
  write : ∀ {world mark shown newline scope scope' store store'} (text : String), stores world store store' →
    admits world (.print mark shown newline) scope scope' →
    ∃ world', later world world' ∧ stores world' (store.write scope text) (store'.write scope' text)
  draw : ∀ {world store store'}, stores world store store' →
    ∃ world', later world world' ∧
      stores world' { store with nans := store.nans + 1 } { store' with nans := store'.nans + 1 } ∧
      (pairing world').tags store.nans store'.nans
  call : ∀ {world mark name arguments scope scope' store store' parameters body values values'},
    stores world store store' → admits world (.call mark name arguments) scope scope' →
    (pairing world).functions parameters body → List.Forall₂ (Value.Alike (pairing world)) values values' →
    parameters.length = values.length →
    ∃ world', later world world' ∧
      stores world' (store.addCall scope (Bindings.ofPairs (parameters.zip values))).2
        (store'.addCall scope' (Bindings.ofPairs (parameters.zip values'))).2 ∧
      admits world' body (store.addCall scope (Bindings.ofPairs (parameters.zip values))).1
        (store'.addCall scope' (Bindings.ofPairs (parameters.zip values'))).1

namespace Simulation

variable (sim : Simulation)

/-- How two computations end: with corresponding results in corresponding stores, in some later world. -/
def Ends {α : Type} (rel : sim.World → α → α → Prop) (world : sim.World)
    (left right : Except Halt α × Store) : Prop :=
  (sim.excused ∧ left.1 = .error .tooDeep) ∨
    ∃ world', sim.later world world' ∧ sim.stores world' left.2 right.2 ∧ Agree (rel world') left.1 right.1

/-- Two computations that end alike from corresponding stores, now and in every later world. -/
def Tracks {α : Type} (rel : sim.World → α → α → Prop) (world : sim.World) (left right : Eval α) : Prop :=
  ∀ (now : sim.World) (store store' : Store), sim.later world now → sim.stores now store store' →
    sim.Ends rel now (left store) (right store')

/-- Values that correspond. -/
abbrev alike (world : sim.World) : Value → Value → Prop := Value.Alike (sim.pairing world)

/-- Results that are the same in both runs. -/
abbrev same {α : Type} (_ : sim.World) : α → α → Prop := Eq

variable {sim}

theorem alike_later {world world' : sim.World} {value value' : Value} (later : sim.later world world')
    (alike : sim.alike world value value') : sim.alike world' value value' :=
  Value.Alike.mono (sim.extended later) alike

theorem all_alike_later {world world' : sim.World} {values values' : List Value} (later : sim.later world world')
    (alike : List.Forall₂ (sim.alike world) values values') : List.Forall₂ (sim.alike world') values values' :=
  alike.imp fun _ _ => alike_later later

namespace Tracks

variable {α β : Type} {rel : sim.World → α → α → Prop} {rel' : sim.World → β → β → Prop} {world : sim.World}

theorem pure {a a' : α} (related : ∀ {now}, sim.later world now → rel now a a') :
    sim.Tracks rel world (Pure.pure a) (Pure.pure a') :=
  fun _ _ _ onward stored => .inr ⟨_, sim.refl _, stored, .ok (related onward)⟩

theorem stop (halt : Halt) : sim.Tracks rel world (Eval.stop halt) (Eval.stop halt) :=
  fun _ _ _ _ stored => .inr ⟨_, sim.refl _, stored, .error halt⟩

theorem fail (fault : Fault) : sim.Tracks rel world (Eval.fail fault) (Eval.fail fault) := .stop _

theorem value {value value' : Value} (alike : sim.alike world value value') :
    sim.Tracks sim.alike world (Pure.pure value) (Pure.pure value') :=
  .pure fun later => alike_later later alike

theorem ofExcept {result result' : Except Fault Value} (agree : Agree (sim.alike world) result result') :
    sim.Tracks sim.alike world (Eval.ofExcept result) (Eval.ofExcept result') := by
  cases agree with
  | ok related => exact .value related
  | error fault => exact .fail fault

theorem bind {first first' : Eval α} {next next' : α → Eval β} (tracks : sim.Tracks rel world first first')
    (rest : ∀ {now a a'}, sim.later world now → rel now a a' → sim.Tracks rel' now (next a) (next' a')) :
    sim.Tracks rel' world (first >>= next) (first' >>= next') := by
  intro now store store' onward stored
  change sim.Ends rel' now (Eval.bind first next store) (Eval.bind first' next' store')
  have ends := tracks now store store' onward stored
  unfold Eval.bind
  generalize first store = outcome, first' store' = outcome' at ends
  obtain ⟨result, after⟩ := outcome
  obtain ⟨result', after'⟩ := outcome'
  obtain ⟨excused, deep⟩ | ⟨world', later, stored', agree⟩ := ends
  · cases deep
    exact .inl ⟨excused, rfl⟩
  · simp only at agree stored'
    cases agree with
    | error halt => exact .inr ⟨world', later, stored', .error halt⟩
    | ok related =>
      obtain ⟨excused, deep⟩ | ⟨world'', later', stored'', agree⟩ :=
        rest (sim.trans onward later) related world' after after' (sim.refl world') stored'
      · exact .inl ⟨excused, deep⟩
      · exact .inr ⟨world'', sim.trans later later', stored'', agree⟩

theorem read {view view' : Store → α}
    (related : ∀ {now store store'}, sim.later world now → sim.stores now store store' →
      rel now (view store) (view' store')) : sim.Tracks rel world (Eval.read view) (Eval.read view') :=
  fun _ _ _ onward stored => .inr ⟨_, sim.refl _, stored, .ok (related onward stored)⟩

theorem change {update update' : Store → Store}
    (kept : ∀ {now store store'}, sim.later world now → sim.stores now store store' →
      ∃ world', sim.later now world' ∧ sim.stores world' (update store) (update' store')) :
    sim.Tracks (fun _ _ _ => True) world (Eval.change update) (Eval.change update') := by
  intro now store store' onward stored
  obtain ⟨world', later, stored'⟩ := kept onward stored
  exact .inr ⟨world', later, stored', .ok trivial⟩

theorem create {rel : sim.World → Nat → Nat → Prop} {make make' : Store → Nat × Store}
    (made : ∀ {now store store'}, sim.later world now → sim.stores now store store' →
      ∃ world', sim.later now world' ∧ sim.stores world' (make store).2 (make' store').2 ∧
        rel world' (make store).1 (make' store').1) :
    sim.Tracks rel world (Eval.create make) (Eval.create make') := by
  intro now store store' onward stored
  obtain ⟨world', later, stored', related⟩ := made onward stored
  exact .inr ⟨world', later, stored', .ok related⟩

theorem drawTag : sim.Tracks (fun now => (sim.pairing now).tags) world Eval.drawTag Eval.drawTag := by
  intro now store store' onward stored
  obtain ⟨world', later, stored', paired⟩ := sim.draw stored
  exact .inr ⟨world', later, stored', .ok paired⟩

theorem locate (mark : Mark) {inner inner' : Eval α} (tracks : sim.Tracks rel world inner inner') :
    sim.Tracks rel world (Eval.locate mark inner) (Eval.locate mark inner') := by
  intro now store store' onward stored
  have ends := tracks now store store' onward stored
  unfold Eval.locate
  generalize inner store = outcome, inner' store' = outcome' at ends
  obtain ⟨result, after⟩ := outcome
  obtain ⟨result', after'⟩ := outcome'
  obtain ⟨excused, deep⟩ | ⟨world', later, stored', agree⟩ := ends
  · cases deep
    exact .inl ⟨excused, rfl⟩
  · simp only at agree stored'
    cases agree with
    | ok related => exact .inr ⟨world', later, stored', .ok related⟩
    | error halt => cases halt <;> exact .inr ⟨world', later, stored', .error _⟩

end Tracks

/-! The rules -/

variable (sim) in
/-- Two evaluators that give corresponding values. -/
def Evaluates (evaluate evaluate' : Rule.Evaluator) : Prop :=
  ∀ {world : sim.World} {expr : Expr} {scope scope' : Nat}, sim.admits world expr scope scope' →
    sim.Tracks sim.alike world (evaluate expr scope) (evaluate' expr scope')

variable (sim) in
/-- Two ways to write values out that give the same text. -/
def Renders (render render' : Value → Eval String) : Prop :=
  ∀ {world : sim.World} {value value' : Value}, sim.alike world value value' →
    sim.Tracks sim.same world (render value) (render' value')

section Rules

variable {evaluate evaluate' : Rule.Evaluator} {render render' : Value → Eval String} {world : sim.World}
  {scope scope' : Nat}

theorem evalAll_tracks (evaluates : sim.Evaluates evaluate evaluate') {exprs : List Expr}
    (fine : ∀ expr ∈ exprs, sim.admits world expr scope scope') :
    sim.Tracks (fun now values values' => List.Forall₂ (sim.alike now) values values' ∧ values.length = exprs.length)
      world (Rule.evalAll evaluate scope exprs) (Rule.evalAll evaluate' scope' exprs) := by
  induction exprs generalizing world with
  | nil => exact .pure fun _ => ⟨.nil, rfl⟩
  | cons expr rest ih =>
    obtain ⟨first, others⟩ := List.forall_mem_cons.mp fine
    refine .bind (evaluates first) fun later alike => ?_
    refine .bind (ih fun part member => sim.kept later (others part member)) fun later' ⟨alikes, size⟩ => ?_
    refine .pure fun onward => ⟨?_, congrArg Nat.succ size⟩
    exact .cons (alike_later (sim.trans later' onward) alike) (all_alike_later onward alikes)

theorem evalBlock_tracks (evaluates : sim.Evaluates evaluate evaluate') {body : List Expr}
    (fine : ∀ expr ∈ body, sim.admits world expr scope scope') {last last' : Value}
    (alike : sim.alike world last last') :
    sim.Tracks sim.alike world (Rule.evalBlock evaluate scope body last)
      (Rule.evalBlock evaluate' scope' body last') := by
  induction body generalizing world last last' with
  | nil => exact .value alike
  | cons expr rest ih =>
    obtain ⟨first, others⟩ := List.forall_mem_cons.mp fine
    exact .bind (evaluates first) fun later alike =>
      ih (fun part member => sim.kept later (others part member)) alike

theorem requireKey_tracks {value value' : Value} (alike : sim.alike world value value') :
    sim.Tracks (fun now => Key.Alike (sim.pairing now)) world (Rule.requireKey value) (Rule.requireKey value') := by
  have keys := alike.key
  have kinds := alike.kind_eq
  unfold Rule.requireKey
  rw [kinds]
  generalize Key.ofValue? value = key, Key.ofValue? value' = key' at keys
  cases keys with
  | none => exact .fail _
  | some same => exact .pure fun later => same.mono (sim.extended later)

theorem requireIndex_tracks {value value' : Value} (alike : sim.alike world value value') :
    sim.Tracks sim.same world (Rule.requireIndex value) (Rule.requireIndex value') := by
  cases alike with
  | int n => exact .pure fun _ => rfl
  | _ => exact .fail _

theorem inBounds_tracks (index : Int) (length : Nat) :
    sim.Tracks sim.same world (Rule.inBounds index length) (Rule.inBounds index length) := by
  unfold Rule.inBounds
  split
  · exact .pure fun _ => rfl
  · exact .fail _

theorem evalPairs_tracks (evaluates : sim.Evaluates evaluate evaluate') {pairs : List (Expr × Expr)}
    (fine : ∀ pair ∈ pairs, sim.admits world pair.1 scope scope' ∧ sim.admits world pair.2 scope scope')
    {entries entries' : Entries} (alike : entries.Alike (sim.pairing world) entries') :
    sim.Tracks (fun now => Entries.Alike (sim.pairing now)) world (Rule.evalPairs evaluate scope pairs entries)
      (Rule.evalPairs evaluate' scope' pairs entries') := by
  induction pairs generalizing world entries entries' with
  | nil => exact .pure fun later => alike.mono (sim.extended later)
  | cons pair rest ih =>
    obtain ⟨⟨key, value⟩, others⟩ := List.forall_mem_cons.mp fine
    refine .bind (evaluates key) fun later first => .bind (requireKey_tracks first) fun later' first => ?_
    have before := sim.trans later later'
    refine .bind (evaluates (sim.kept before value)) fun later'' second => ?_
    have onward := sim.trans before later''
    refine ih (fun pair member => ?_) ?_
    · exact ⟨sim.kept onward (others pair member).1, sim.kept onward (others pair member).2⟩
    · exact (alike.mono (sim.extended onward)).set (first.mono (sim.extended later'')) second

theorem list_tracks (evaluates : sim.Evaluates evaluate evaluate') {elements : List Expr}
    (fine : ∀ expr ∈ elements, sim.admits world expr scope scope') :
    sim.Tracks sim.alike world (Rule.list evaluate scope elements) (Rule.list evaluate' scope' elements) := by
  refine .bind (evalAll_tracks evaluates fine) fun _ ⟨alikes, _⟩ => ?_
  refine .bind (.create fun onward stored => sim.allocate stored (.list (all_alike_later onward alikes)))
    fun _ paired => ?_
  exact .value (.list paired)

theorem dict_tracks (evaluates : sim.Evaluates evaluate evaluate') {pairs : List (Expr × Expr)}
    (fine : ∀ pair ∈ pairs, sim.admits world pair.1 scope scope' ∧ sim.admits world pair.2 scope scope') :
    sim.Tracks sim.alike world (Rule.dict evaluate scope pairs) (Rule.dict evaluate' scope' pairs) := by
  refine .bind (evalPairs_tracks evaluates fine .nil) fun _ alikes => ?_
  refine .bind (.create fun onward stored => sim.allocate stored (.dict (alikes.mono (sim.extended onward))))
    fun _ paired => ?_
  exact .value (.dict paired)

/-- A node binds a name in its scope. -/
theorem bind_tracks {expr : Expr} (fine : sim.admits world expr scope scope') {text : String}
    (binds : expr.binds? = some text) {value value' : Value} (alike : sim.alike world value value') :
    sim.Tracks (fun _ _ _ => True) world (Eval.change (·.bind scope text value))
      (Eval.change (·.bind scope' text value')) :=
  .change fun onward stored => sim.bind stored (sim.kept onward fine) binds (alike_later onward alike)

theorem assign_tracks (evaluates : sim.Evaluates evaluate evaluate') {mark : Mark} {text : String} {expr : Expr}
    (fine : sim.admits world (.assign mark text expr) scope scope') :
    sim.Tracks sim.alike world (Rule.assign evaluate scope text expr) (Rule.assign evaluate' scope' text expr) := by
  refine .bind (evaluates (sim.operand fine (by simp [Expr.operands, Expr.children]))) fun later alike => ?_
  refine .bind (bind_tracks (sim.kept later fine) rfl alike) fun later' _ => ?_
  exact .value (alike_later later' alike)

theorem name_tracks {expr : Expr} (fine : sim.admits world expr scope scope') {text : String}
    (reads : expr.reads? = some text) :
    sim.Tracks sim.alike world (Rule.name scope text) (Rule.name scope' text) := by
  refine .bind (.read fun onward stored => sim.lookup stored (sim.kept onward fine) reads) fun _ found => ?_
  cases found with
  | none => exact .fail _
  | some alike => exact .value alike

theorem items_tracks {handle handle' : Nat} (paired : (sim.pairing world).handles handle handle') :
    sim.Tracks (fun now => List.Forall₂ (sim.alike now)) world (Eval.read (·.items handle))
      (Eval.read (·.items handle')) :=
  .read fun onward stored => sim.items stored ((sim.extended onward).handles paired)

theorem entries_tracks {handle handle' : Nat} (paired : (sim.pairing world).handles handle handle') :
    sim.Tracks (fun now => Entries.Alike (sim.pairing now)) world (Eval.read (·.entries handle))
      (Eval.read (·.entries handle')) :=
  .read fun onward stored => sim.entries stored ((sim.extended onward).handles paired)

theorem subscript_tracks (evaluates : sim.Evaluates evaluate evaluate') {target place : Expr}
    (first : sim.admits world target scope scope') (second : sim.admits world place scope scope') :
    sim.Tracks sim.alike world (Rule.subscript evaluate scope target place)
      (Rule.subscript evaluate' scope' target place) := by
  refine .bind (evaluates first) fun later alike => ?_
  cases alike with
  | list paired =>
    refine .bind (evaluates (sim.kept later second)) fun placed alike => ?_
    refine .bind (requireIndex_tracks alike) fun checked same => ?_
    cases same
    split
    · exact .fail _
    · have paired := (sim.extended (sim.trans placed checked)).handles paired
      refine .bind (items_tracks paired) fun _ items => ?_
      rw [items.length_eq]
      refine .bind (inBounds_tracks _ _) fun onward same => ?_
      cases same
      exact .value (getD_alike (all_alike_later onward items) _)
  | dict paired =>
    refine .bind (evaluates (sim.kept later second)) fun placed alike => ?_
    refine .bind (requireKey_tracks alike) fun checked key => ?_
    have paired := (sim.extended (sim.trans placed checked)).handles paired
    refine .bind (entries_tracks paired) fun onward entries => ?_
    exact .value (entries.getD_find? (key.mono (sim.extended onward)))
  | _ => exact .fail _

theorem store_tracks (evaluates : sim.Evaluates evaluate evaluate') {mark : Mark} {target place expr : Expr}
    (fine : sim.admits world (.store mark target place expr) scope scope') :
    sim.Tracks sim.alike world (Rule.store evaluate scope target place expr)
      (Rule.store evaluate' scope' target place expr) := by
  have part {now : sim.World} (later : sim.later world now) {part : Expr} (member : part ∈ [target, place, expr]) :
      sim.admits now part scope scope' := sim.kept later (sim.operand fine member)
  refine .bind (evaluates (part (sim.refl world) (by simp))) fun later alike => ?_
  cases alike with
  | list paired =>
    refine .bind (evaluates (part later (by simp))) fun placed alike => ?_
    refine .bind (requireIndex_tracks alike) fun checked same => ?_
    cases same
    have before := sim.trans placed checked
    refine .bind (evaluates (part (sim.trans later before) (by simp))) fun given alike => ?_
    have paired := (sim.extended (sim.trans before given)).handles paired
    refine .bind (items_tracks paired) fun seen items => ?_
    rw [items.length_eq]
    refine .bind (inBounds_tracks _ _) fun bounded same => ?_
    cases same
    have since := sim.trans seen bounded
    have whole := sim.trans (sim.trans later before) (sim.trans given since)
    refine .bind (.change fun onward stored => sim.setItem stored (sim.kept (sim.trans whole onward) fine)
      ((sim.extended (sim.trans since onward)).handles paired) (alike_later (sim.trans since onward) alike))
      fun onward _ => ?_
    exact .value (alike_later (sim.trans since onward) alike)
  | dict paired =>
    refine .bind (evaluates (part later (by simp))) fun placed alike => ?_
    refine .bind (requireKey_tracks alike) fun checked key => ?_
    have before := sim.trans placed checked
    refine .bind (evaluates (part (sim.trans later before) (by simp))) fun given alike => ?_
    have whole := sim.trans (sim.trans later before) given
    have paired := (sim.extended (sim.trans before given)).handles paired
    have key := key.mono (sim.extended given)
    refine .bind (.change fun onward stored => sim.setEntry stored (sim.kept (sim.trans whole onward) fine)
      ((sim.extended onward).handles paired) (key.mono (sim.extended onward)) (alike_later onward alike))
      fun onward _ => ?_
    exact .value (alike_later onward alike)
  | _ => exact .fail _

theorem combine_tracks (renders : sim.Renders render render') (joint : Joint) {left left' right right' : Value}
    (alike : sim.alike world left left') (alike' : sim.alike world right right') :
    sim.Tracks sim.alike world (Rule.combine render joint left right) (Rule.combine render' joint left' right') := by
  cases joint with
  | arithmetic op =>
    exact .bind .drawTag fun later paired =>
      .ofExcept (arithmetic_agree op paired (alike_later later alike) (alike_later later alike'))
  | logical op => exact .ofExcept (logical_agree op alike alike')
  | equality comparator => exact .ofExcept (equality_agree comparator alike alike')
  | comparison comparator => exact .ofExcept (comparison_agree comparator alike alike')
  | concat =>
    refine .bind (renders alike) fun later same => .bind (renders (alike_later later alike')) fun _ same' => ?_
    cases same
    cases same'
    exact .value (.text _)
  | range => exact .ofExcept (rangeBetween_agree alike alike')

theorem join_tracks (evaluates : sim.Evaluates evaluate evaluate') (renders : sim.Renders render render')
    (joint : Joint) {left right : Expr} (first : sim.admits world left scope scope')
    (second : sim.admits world right scope scope') :
    sim.Tracks sim.alike world (Rule.join evaluate render scope joint left right)
      (Rule.join evaluate' render' scope' joint left right) :=
  .bind (evaluates first) fun later alike => .bind (evaluates (sim.kept later second)) fun later' alike' =>
    combine_tracks renders joint (alike_later later' alike) alike'

theorem negate_tracks (evaluates : sim.Evaluates evaluate evaluate') {operand : Expr}
    (fine : sim.admits world operand scope scope') :
    sim.Tracks sim.alike world (Rule.negate evaluate scope operand) (Rule.negate evaluate' scope' operand) := by
  refine .bind (evaluates fine) fun _ alike => ?_
  cases alike with
  | bool b => exact .value (.bool _)
  | _ => exact .fail _

theorem conditional_tracks (evaluates : sim.Evaluates evaluate evaluate') {condition yes no : Expr}
    (first : sim.admits world condition scope scope') (second : sim.admits world yes scope scope')
    (third : sim.admits world no scope scope') :
    sim.Tracks sim.alike world (Rule.conditional evaluate scope condition yes no)
      (Rule.conditional evaluate' scope' condition yes no) := by
  refine .bind (evaluates first) fun later alike => ?_
  cases alike with
  | bool chosen =>
    cases chosen with
    | true => exact evaluates (sim.kept later second)
    | false => exact evaluates (sim.kept later third)
  | _ => exact .fail _

variable (sim) in
/-- Two courses of the same length whose items correspond, whenever they are looked at. -/
def Courses (world : sim.World) (course course' : Rule.Course) : Prop :=
  course.count = course'.count ∧ ∀ {now : sim.World} {store store' : Store}, sim.later world now →
    sim.stores now store store' → ∀ index, sim.alike now (course.item store index) (course'.item store' index)

theorem course_tracks {source source' : Value} (alike : sim.alike world source source') :
    sim.Tracks sim.Courses world (Rule.course source) (Rule.course source') := by
  cases alike with
  | list paired =>
    refine .bind (items_tracks paired) fun later items => .pure fun later' => ⟨items.length_eq, ?_⟩
    intro now store store' onward stored index
    have paired := (sim.extended (sim.trans (sim.trans later later') onward)).handles paired
    exact getD_alike (sim.items stored paired) index
  | dict paired =>
    refine .bind (entries_tracks paired) fun _ entries => .pure fun later' => ⟨?_, ?_⟩
    · simpa using entries.length_eq
    · intro now store store' onward _ index
      have keys := all_alike_later (sim.trans later' onward) entries.keys
      simpa [List.getD_eq_getElem?_getD, Array.getD_eq_getD_getElem?] using getD_alike keys index
  | range first last => exact .pure fun _ => ⟨rfl, fun _ _ index => .int _⟩
  | _ => exact .fail _

theorem turns_tracks (evaluates : sim.Evaluates evaluate evaluate') {mark : Mark} {text : String}
    {source body : Expr} (fine : sim.admits world (.loop mark text source body) scope scope')
    {course course' : Rule.Course} (courses : sim.Courses world course course') (left : Nat) {last last' : Value}
    (alike : sim.alike world last last') :
    sim.Tracks sim.alike world (Rule.turns evaluate scope text body course left last)
      (Rule.turns evaluate' scope' text body course' left last') := by
  induction left generalizing world last last' with
  | zero => exact .value alike
  | succ left ih =>
    unfold Rule.turns
    rw [courses.1]
    refine .bind (.read fun onward stored => courses.2 onward stored _) fun later alike => ?_
    refine .bind (bind_tracks (sim.kept later fine) rfl alike) fun later' _ => ?_
    have before := sim.trans later later'
    have inside : body ∈ (Expr.loop mark text source body).operands := by simp [Expr.operands, Expr.children]
    refine .bind (evaluates (sim.kept before (sim.operand fine inside))) fun later'' alike => ?_
    have whole := sim.trans before later''
    exact ih (sim.kept whole fine) ⟨courses.1, fun onward => courses.2 (sim.trans whole onward)⟩ alike

theorem loop_tracks (evaluates : sim.Evaluates evaluate evaluate') {mark : Mark} {text : String}
    {source body : Expr} (fine : sim.admits world (.loop mark text source body) scope scope') :
    sim.Tracks sim.alike world (Rule.loop evaluate scope text source body)
      (Rule.loop evaluate' scope' text source body) := by
  refine .bind (evaluates (sim.operand fine (by simp [Expr.operands, Expr.children]))) fun later alike => ?_
  refine .bind (course_tracks alike) fun later' courses => ?_
  rw [courses.1]
  exact turns_tracks evaluates (sim.kept (sim.trans later later') fine) courses _ .none

theorem function_tracks {mark : Mark} {text : String} {parameters : List String} {body : Expr}
    (fine : sim.admits world (.function mark text parameters body) scope scope') :
    sim.Tracks sim.alike world (Rule.function scope text parameters body)
      (Rule.function scope' text parameters body) := by
  have alike : sim.alike world (.function text parameters body) (.function text parameters body) :=
    .function text (sim.declared fine)
  exact .bind (bind_tracks fine rfl alike) fun later _ => .value (alike_later later alike)

theorem call_tracks (evaluates : sim.Evaluates evaluate evaluate') {mark : Mark} {text : String}
    {arguments : List Expr} (fine : sim.admits world (.call mark text arguments) scope scope') :
    sim.Tracks sim.alike world (Rule.call evaluate scope text arguments)
      (Rule.call evaluate' scope' text arguments) := by
  refine .bind (name_tracks fine rfl) fun later alike => ?_
  cases alike with
  | @function _ parameters body known =>
    dsimp only
    split
    · exact .fail _
    · next sized =>
      refine .bind (evalAll_tracks evaluates fun part member => sim.kept later (sim.operand fine member))
        fun later' ⟨alikes, size⟩ => ?_
      have fine := sim.kept (sim.trans later later') fine
      have known := (sim.extended later').functions known
      refine .bind (.create fun onward stored => sim.call stored (sim.kept onward fine)
        ((sim.extended onward).functions known) (all_alike_later onward alikes) ?_) fun _ inside => evaluates inside
      rw [size]
      exact not_not.mp sized
  | _ => exact .fail _

theorem print_tracks (evaluates : sim.Evaluates evaluate evaluate') (renders : sim.Renders render render')
    {mark : Mark} {shown : Expr} {newline : Bool} (fine : sim.admits world (.print mark shown newline) scope scope') :
    sim.Tracks sim.alike world (Rule.print evaluate render scope shown newline)
      (Rule.print evaluate' render' scope' shown newline) := by
  have inside : sim.admits world shown scope scope' := sim.operand fine (by simp [Expr.operands, Expr.children])
  have printed : sim.Tracks sim.same world (Rule.printed evaluate render scope shown)
      (Rule.printed evaluate' render' scope' shown) := by
    cases shown with
    | none => exact .pure fun _ => rfl
    | _ => exact .bind (evaluates inside) fun _ alike => renders alike
  refine .bind printed fun later same => ?_
  cases same
  exact .bind (.change fun onward stored => sim.write _ stored (sim.kept (sim.trans later onward) fine))
    fun _ _ => .value .none

theorem literal_tracks (kind : LiteralKind) (lexeme : String) :
    sim.Tracks sim.alike world (Rule.literal kind lexeme) (Rule.literal kind lexeme) := by
  have agree : Agree (sim.alike world) (literalValue kind lexeme) (literalValue kind lexeme) :=
    literal_agree kind lexeme
  unfold Rule.literal
  generalize literalValue kind lexeme = result at agree
  cases agree with
  | ok alike => exact .value alike
  | error halt => exact .stop halt

/-- Every rule tracks itself if evaluation and writing out do. -/
theorem apply_tracks (evaluates : sim.Evaluates evaluate evaluate') (renders : sim.Renders render render')
    {expr : Expr} (fine : sim.admits world expr scope scope') :
    sim.Tracks sim.alike world (Rule.apply evaluate render scope expr)
      (Rule.apply evaluate' render' scope' expr) := by
  cases expr with
  | none => exact .value .none
  | literal _ kind lexeme => exact literal_tracks kind lexeme
  | name _ text => exact name_tracks fine rfl
  | assign _ text value => exact assign_tracks evaluates fine
  | list _ elements => exact list_tracks evaluates fun part member => sim.operand fine member
  | dict _ pairs =>
    refine dict_tracks evaluates fun pair member => ⟨sim.operand fine ?_, sim.operand fine ?_⟩
    · exact List.mem_flatMap.mpr ⟨pair, member, by simp⟩
    · exact List.mem_flatMap.mpr ⟨pair, member, by simp⟩
  | subscript _ target place =>
    exact subscript_tracks evaluates (sim.operand fine (by simp [Expr.operands, Expr.children]))
      (sim.operand fine (by simp [Expr.operands, Expr.children]))
  | store _ target place value => exact store_tracks evaluates fine
  | join _ joint left right =>
    exact join_tracks evaluates renders joint (sim.operand fine (by simp [Expr.operands, Expr.children]))
      (sim.operand fine (by simp [Expr.operands, Expr.children]))
  | negate _ operand => exact negate_tracks evaluates (sim.operand fine (by simp [Expr.operands, Expr.children]))
  | block _ body => exact evalBlock_tracks evaluates (fun part member => sim.operand fine member) .none
  | conditional _ condition yes no =>
    exact conditional_tracks evaluates (sim.operand fine (by simp [Expr.operands, Expr.children]))
      (sim.operand fine (by simp [Expr.operands, Expr.children]))
      (sim.operand fine (by simp [Expr.operands, Expr.children]))
  | loop _ item source body => exact loop_tracks evaluates fine
  | function _ text parameters body => exact function_tracks fine
  | call _ text arguments => exact call_tracks evaluates fine
  | print _ shown newline => exact print_tracks evaluates renders fine
  | unknown => exact .fail _

end Rules

/-! Writing out, and evaluation -/

/-- Members that have the same texts one by one have the same texts. -/
theorem mapM_eq {α β : Type} {rel : α → α → Prop} {text text' : α → Option β} {members members' : List α}
    (alike : List.Forall₂ rel members members')
    (same : ∀ {member member'}, rel member member' → text member = text' member') :
    members.mapM text = members'.mapM text' := by
  induction alike with
  | nil => rfl
  | cons first _ ih => rw [List.mapM_cons, List.mapM_cons, same first, ih]

theorem memberText?_eq {world : sim.World} {store store' : Store} (stored : sim.stores world store store')
    (depth : Nat) {value value' : Value} (alike : sim.alike world value value') :
    store.memberText? depth value = store'.memberText? depth value' := by
  induction depth generalizing value value' with
  | zero =>
    unfold Store.memberText?
    exact alike.memberText?_eq
  | succ depth ih =>
    have plain := alike.memberText?_eq
    cases alike with
    | list paired =>
      simp only [Store.memberText?]
      rw [mapM_eq (sim.items stored paired) ih]
    | dict paired =>
      simp only [Store.memberText?]
      rw [mapM_eq (sim.entries stored paired)]
      rintro entry entry' ⟨key, value⟩
      rw [key.toValue.memberText?_eq, ih value]
    | _ => exact plain

theorem text?_eq {world : sim.World} {store store' : Store} (stored : sim.stores world store store')
    (depth : Nat) {value value' : Value} (alike : sim.alike world value value') :
    store.text? depth value = store'.text? depth value' := by
  have member := memberText?_eq stored depth alike
  cases alike with
  | text content => rfl
  | _ => exact member

theorem showWithin_renders (depth : Nat) : sim.Renders (showWithin depth) (showWithin depth) := by
  intro world value value' alike now store store' onward stored
  have same := text?_eq stored depth (alike_later onward alike)
  unfold showWithin
  rw [same]
  split
  · exact .inr ⟨now, sim.refl now, stored, .ok rfl⟩
  · exact .inr ⟨now, sim.refl now, stored, .error _⟩

/-- Evaluation to the same depth tracks itself. -/
theorem evalWithin_evaluates (depth : Nat) : sim.Evaluates (evalWithin depth) (evalWithin depth) := by
  induction depth with
  | zero => exact fun _ => .stop .tooDeep
  | succ depth ih => exact fun fine => .locate _ (apply_tracks ih (showWithin_renders depth) fine)

/-- Two evaluations from corresponding stores end alike, in corresponding stores. -/
theorem evalWithin_agree (strict : ¬sim.excused) (depth : Nat) {world : sim.World} {expr : Expr} {scope scope' : Nat}
    (fine : sim.admits world expr scope scope') {store store' : Store} (stored : sim.stores world store store') :
    ∃ world', sim.later world world' ∧
      sim.stores world' (evalWithin depth expr scope store).2 (evalWithin depth expr scope' store').2 ∧
      Agree (sim.alike world') (evalWithin depth expr scope store).1 (evalWithin depth expr scope' store').1 := by
  obtain ⟨excused, _⟩ | ends := evalWithin_evaluates depth fine world store store' (sim.refl world) stored
  · exact absurd excused strict
  · exact ends

end Simulation

end Corvid
