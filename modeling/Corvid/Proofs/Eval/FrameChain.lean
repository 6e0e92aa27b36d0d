import Corvid.Proofs.Eval.Policies
import Corvid.Proofs.Eval.Visits

/-!
The frames and the output of a run that starts in a root. Every frame that is made on the way is made for a call, with
the sink and the policy of the frame inside which it stands, so all have those of the root. Frames stay as they are
made, and output only grows; what is written to the root's sink is what the nodes of the run print, in the order of
their evaluation.
-/
namespace Corvid

/-- The texts that an evaluation prints, in order: those of the evaluations that its rule asks for, one after another,
and then its own. -/
def Transcript : (depth : Nat) → Request → List String → Prop
  | 0, _, texts => texts = []
  | depth + 1, request, texts =>
    ∃ parts last logs, Rule.Path (evalWithin depth) request.expr request.scope request.store parts last ∧
      (∀ part, request.Asks depth part ↔ part ∈ parts) ∧ List.Forall₂ (Transcript depth) parts logs ∧
      texts = logs.flatten ++ (request.line? depth).toList

/-- The stores that a run comes through: those in which an evaluation begins or ends. -/
def PassesThrough (depth : Nat) (run : Request) (moment : Store) : Prop :=
  ∃ left inner, Visits depth run left inner ∧ (moment = inner.store ∨ moment = (inner.answer (evalWithin left)).2)

/-- In a run, a call that is evaluated in one scope has the body of its function evaluated in another. -/
def CalledFrom (depth : Nat) (run : Request) (caller scope : Nat) : Prop :=
  ∃ left call body, Visits depth run (left + 1) call ∧ call.expr.Calls ∧ call.Asks left body ∧
    call.scope = caller ∧ body.scope = scope ∧ scope ≠ caller

theorem CalledFrom.onward {depth caller scope : Nat} {request part : Request} (asks : request.Asks depth part)
    (called : CalledFrom depth part caller scope) : CalledFrom (depth + 1) request caller scope := by
  obtain ⟨left, call, body, visits, rest⟩ := called
  exact ⟨left, call, body, .onward asks visits, rest⟩

namespace Store

theorem sinks_append_append (store : Store) (sink : Nat) (text more : String) :
    ((store.append sink text).append sink more).sinks = (store.append sink (text ++ more)).sinks := by
  apply Array.ext_getElem?
  intro index
  simp only [append, Array.getElem?_modify]
  split
  · simp [Function.comp_def, String.append_assoc]
  · rfl

theorem sinks_append_empty (store : Store) (sink : Nat) : (store.append sink "").sinks = store.sinks := by
  apply Array.ext_getElem?
  intro index
  simp [append, Array.getElem?_modify]

/-- What may become of a store in a run: frames stay, and text is added to one sink. -/
structure Follows (sink : Nat) (before after : Store) : Prop where
  frames : ∀ (index : Nat) frame, before.scopes[index]?.map Scope.frame = some frame →
    after.scopes[index]?.map Scope.frame = some frame
  sinks : ∃ text, after.sinks = (before.append sink text).sinks

namespace Follows

variable {sink : Nat} {before after : Store}

theorem of_still (still : before.Still after) : Follows sink before after where
  frames index _ known := (still.frames index).trans known
  sinks := ⟨"", still.sinks.trans (before.sinks_append_empty sink).symm⟩

theorem refl (store : Store) : Follows sink store store := of_still (.refl store)

theorem trans {first second third : Store} (follows : Follows sink first second)
    (follows' : Follows sink second third) :
    Follows sink first third where
  frames index frame known := follows'.frames index frame (follows.frames index frame known)
  sinks := by
    obtain ⟨text, written⟩ := follows.sinks
    obtain ⟨more, written'⟩ := follows'.sinks
    refine ⟨text ++ more, ?_⟩
    rw [← sinks_append_append, written', append, append, written]

theorem lt_size (follows : Follows sink before after) {index : Nat} (inside : index < before.scopes.size) :
    index < after.scopes.size := by
  have known : before.scopes[index]?.map Scope.frame = some before.scopes[index].frame := by
    rw [Array.getElem?_eq_getElem inside, Option.map_some]
  obtain ⟨_, there, _⟩ := Option.map_eq_some_iff.mp (follows.frames index _ known)
  exact (Array.getElem?_eq_some_iff.mp there).1

theorem addScope (store : Store) (scope : Scope) : Follows sink store (store.addScope scope).2 where
  frames index frame known := by
    obtain ⟨found, there, _⟩ := Option.map_eq_some_iff.mp known
    have inside := (Array.getElem?_eq_some_iff.mp there).1
    rw [Store.addScope, Array.getElem?_push, if_neg (Nat.ne_of_lt inside)]
    exact known
  sinks := ⟨"", (store.sinks_append_empty sink).symm⟩

end Follows

end Store

namespace Rule.Path

/-- A scope that is not there at the start of a path is made in one of its parts. -/
theorem exists_maker {evaluate : Evaluator} {expr : Expr} {scope : Nat} {before after : Store} {parts : List Request}
    (path : Path evaluate expr scope before parts after) {rel : Store → Store → Prop}
    (kept : Kept evaluate expr scope rel) {index : Nat} (later : before.scopes.size ≤ index)
    (there : index < after.scopes.size) :
    ∃ part ∈ parts, ∃ reached, Begins expr scope reached part ∧ rel before reached ∧ reached.scopes.size ≤ index ∧
      index < (part.answer evaluate).2.scopes.size := by
  induction path with
  | still still =>
    rw [still.size_eq] at there
    omega
  | part begins => exact ⟨_, List.mem_singleton_self _, _, begins, kept.still (.refl _), later, there⟩
  | @append first middle last _ _ path path' ih ih' =>
    by_cases early : index < middle.scopes.size
    · obtain ⟨part, among, made⟩ := ih later early
      exact ⟨part, List.mem_append_left _ among, made⟩
    · obtain ⟨part, among, reached, begins, onward, made⟩ := ih' (by omega) there
      exact ⟨part, List.mem_append_right _ among, reached, begins, kept.trans (path.relates kept).1 onward, made⟩

end Rule.Path

namespace Program

variable {program : Program}

/-- The policy of a program is that of its root. -/
def policy (program : Program) : Scoping := program.store.scopingOf program.root

/-- The output of a program is that of its root. -/
def sink (program : Program) : Nat := program.store.sinkOf program.root

/-- The evaluation of a program. -/
def run (program : Program) : Request := ⟨program.tree, program.root, program.store⟩

/-- What is known of a store in which a program evaluates something in a scope. -/
structure Fits (program : Program) (scope : Nat) (store : Store) : Prop where
  nested : program.Nested program.policy store
  uses : program.Uses scope
  inside : scope < store.scopes.size

namespace Fits

variable {scope : Nat} {store : Store}

theorem start (program : Program) : program.Fits program.root program.store where
  nested := ⟨Nat.le_refl _, program.top, rfl, rfl, fun index found new there => by
    rw [Array.getElem?_eq_none new] at there
    cases there⟩
  uses := .inl rfl
  inside := program.inside

theorem still (fits : program.Fits scope store) {after : Store} (still : store.Still after) :
    program.Fits scope after :=
  ⟨fits.nested.of_frames still.frames still.size_eq, fits.uses, still.size_eq ▸ fits.inside⟩

theorem write (fits : program.Fits scope store) (text : String) :
    store.write scope text = store.append program.sink text := by
  rw [Store.write, fits.nested.sinkOf_eq fits.uses fits.inside, sink]

/-- The frame that is made for a call. -/
theorem addCall (fits : program.Fits scope store) (bindings : Bindings) :
    store.addCall scope bindings = store.addScope ⟨bindings,
      some (match program.policy with | .dynamic => scope | .global => program.root), program.sink,
      program.policy⟩ := by
  have scoping := fits.nested.scopingOf_eq fits.uses fits.inside
  cases known : program.policy with
  | dynamic =>
    rw [known] at scoping
    rw [Store.addCall_of_dynamic scoping, fits.nested.sinkOf_eq fits.uses fits.inside, sink]
  | global =>
    rw [known] at scoping
    rw [Store.addCall_of_global scoping, fits.nested.root_eq fits.uses fits.inside known, fits.nested.sink,
      fits.nested.scoping, known, sink]

/-- Whatever a node asks for fits as well. -/
theorem begins (fits : program.Fits scope store) {expr : Expr} {part : Request}
    (begins : Rule.Begins expr scope store part) :
    program.Fits part.scope part.store ∧ store.Follows program.sink part.store := by
  cases begins with
  | operand below => exact ⟨fits, .refl store⟩
  | enter calls bindings body =>
    obtain ⟨_, made, _, nested⟩ := fits.nested.call fits.uses fits.inside bindings
    rw [made]
    refine ⟨⟨nested, .inr fits.nested.grown, ?_⟩, .addScope store _⟩
    simp [Store.addScope]

end Fits

/-- What a program makes of a store in which it evaluates something in a scope. -/
def Goes (program : Program) (scope : Nat) (before after : Store) : Prop :=
  program.Fits scope before → program.Fits scope after ∧ before.Follows program.sink after

/-- All that rules do is such, if evaluation to a lesser depth is. -/
theorem kept {depth : Nat}
    (ih : ∀ request : Request, program.Goes request.scope request.store (request.answer (evalWithin depth)).2)
    (expr : Expr) (scope : Nat) : Rule.Kept (evalWithin depth) expr scope (program.Goes scope) where
  trans goes goes' fits := by
    obtain ⟨fits', follows⟩ := goes fits
    obtain ⟨fits'', follows'⟩ := goes' fits'
    exact ⟨fits'', follows.trans follows'⟩
  still still fits := ⟨fits.still still, .of_still still⟩
  write before text fits := by
    rw [fits.write]
    exact ⟨⟨fits.nested.of_frames (fun _ => rfl) rfl, fits.uses, fits.inside⟩, fun _ _ => id, text, rfl⟩
  part {reached part} begins fits := by
    obtain ⟨fits', follows⟩ := fits.begins begins
    obtain ⟨fits'', follows'⟩ := ih part fits'
    have whole := follows.trans follows'
    exact ⟨⟨fits''.nested, fits.uses, whole.lt_size fits.inside⟩, whole⟩

theorem goes (depth : Nat) (request : Request) :
    program.Goes request.scope request.store (request.answer (evalWithin depth)).2 := by
  induction depth generalizing request with
  | zero => exact fun fits => ⟨fits, .refl _⟩
  | succ depth ih => exact (request.relates (kept ih request.expr request.scope)).1

/-- Whatever is evaluated on the way begins in a store that fits, and after that it goes on to the end of the whole. -/
theorem Fits.visits {depth left : Nat} {request inner : Request} (fits : program.Fits request.scope request.store)
    (visits : Visits depth request left inner) :
    program.Fits inner.scope inner.store ∧ request.store.Follows program.sink inner.store ∧
      (inner.answer (evalWithin left)).2.Follows program.sink (request.answer (evalWithin depth)).2 := by
  induction visits with
  | here => exact ⟨fits, .refl _, .refl _⟩
  | @onward depth left request part inner asks visits ih =>
    have keeps := kept (program.goes depth) request.expr request.scope
    obtain ⟨reached, begins, goes, goes'⟩ := (request.relates keeps).2 part asks
    obtain ⟨there, follows⟩ := goes fits
    obtain ⟨fits', begun⟩ := there.begins begins
    obtain ⟨within, onward, ends⟩ := ih fits'
    obtain ⟨_, finish⟩ := goes' (keeps.part begins there).1
    exact ⟨within, (follows.trans begun).trans onward, ends.trans finish⟩

/-! Calls -/

/-- Every scope that is made in an evaluation is made for a call. -/
theorem Fits.exists_caller {depth : Nat} {request : Request} (fits : program.Fits request.scope request.store)
    {index : Nat} (later : request.store.scopes.size ≤ index)
    (there : index < (request.answer (evalWithin depth)).2.scopes.size) :
    ∃ caller, CalledFrom depth request caller index := by
  induction depth generalizing request with
  | zero => exact absurd there (Nat.not_lt.mpr later)
  | succ depth ih =>
    obtain ⟨parts, last, path, asked, ends⟩ := request.sequence depth
    have size : (request.answer (evalWithin (depth + 1))).2.scopes.size = last.scopes.size := by
      rw [ends]
      split <;> rfl
    rw [size] at there
    obtain ⟨part, among, reached, begins, goes, older, younger⟩ :=
      path.exists_maker (kept (program.goes depth) request.expr request.scope) later there
    have asks := (asked part).mpr among
    have fits' := (goes fits).1
    have fits'' := (fits'.begins begins).1
    cases begins with
    | operand below =>
      obtain ⟨caller, called⟩ := ih fits'' older younger
      exact ⟨caller, called.onward asks⟩
    | enter calls bindings body =>
      have made := fits'.addCall bindings
      by_cases own : index = reached.scopes.size
      · refine ⟨request.scope, depth, request, _, .here _ _, calls, asks, rfl, ?_, ?_⟩
        · rw [made, own]
          rfl
        · have inside := fits'.inside
          omega
      · have beyond : (reached.addCall request.scope bindings).2.scopes.size ≤ index := by
          rw [made, Store.addScope, Array.size_push]
          omega
        obtain ⟨caller, called⟩ := ih fits'' beyond younger
        exact ⟨caller, called.onward asks⟩

/-- The frame that a call has at the end of a run. -/
theorem Fits.frame_of_called {depth caller index : Nat} {request : Request}
    (fits : program.Fits request.scope request.store) (called : CalledFrom depth request caller index) :
    (request.answer (evalWithin depth)).2.scopes[index]?.map Scope.frame =
      some (some (match program.policy with | .dynamic => caller | .global => program.root), program.sink,
        program.policy) := by
  obtain ⟨left, call, body, visits, calls, asks, rfl, rfl, other⟩ := called
  obtain ⟨fits', _, _⟩ := fits.visits visits
  obtain ⟨fitting, _, ends⟩ := fits.visits (visits.ask asks)
  have onward := (program.goes left body fitting).2.trans ends
  apply onward.frames
  obtain ⟨reached, begins, goes, _⟩ := (call.relates (kept (program.goes left) call.expr call.scope)).2 body asks
  cases begins with
  | operand => exact absurd rfl other
  | enter calls bindings body =>
    dsimp only
    rw [(goes fits').1.addCall bindings, Store.addScope, Array.getElem?_push_size]
    rfl

/-! Output -/

/-- Nothing is written between the evaluations on a path, so the texts that they print follow one another. -/
theorem Fits.logs {depth scope : Nat} {expr : Expr} {before after : Store} {parts : List Request}
    (fits : program.Fits scope before) (path : Rule.Path (evalWithin depth) expr scope before parts after)
    (told : ∀ part : Request, program.Fits part.scope part.store → ∃ texts, Transcript depth part texts ∧
      (part.answer (evalWithin depth)).2.sinks = (part.store.append program.sink (String.join texts)).sinks) :
    ∃ logs, List.Forall₂ (Transcript depth) parts logs ∧
      after.sinks = (before.append program.sink (String.join logs.flatten)).sinks := by
  induction path with
  | still still => exact ⟨[], .nil, still.sinks.trans (Store.sinks_append_empty ..).symm⟩
  | @part before part begins =>
    obtain ⟨texts, transcript, written⟩ := told part (fits.begins begins).1
    refine ⟨[texts], .cons transcript .nil, ?_⟩
    have silent : part.store.sinks = before.sinks := by
      cases begins with
      | operand => rfl
      | enter calls bindings body =>
        dsimp only
        rw [fits.addCall]
        rfl
    rw [written, Store.append, Store.append, silent, List.flatten_singleton]
  | append path path' ih ih' =>
    have onward := (path.relates (kept (program.goes depth) expr scope)).1
    obtain ⟨logs, transcripts, written⟩ := ih fits
    obtain ⟨logs', transcripts', written'⟩ := ih' (onward fits).1
    refine ⟨logs ++ logs', List.rel_append transcripts transcripts', ?_⟩
    rw [List.flatten_append, String.join_append, ← Store.sinks_append_append, written', Store.append, Store.append,
      written]

/-- What a program prints in an evaluation goes to its own sink, in order. -/
theorem Fits.transcript {depth : Nat} {request : Request} (fits : program.Fits request.scope request.store) :
    ∃ texts, Transcript depth request texts ∧ (request.answer (evalWithin depth)).2.sinks =
      (request.store.append program.sink (String.join texts)).sinks := by
  induction depth generalizing request with
  | zero => exact ⟨[], rfl, (Store.sinks_append_empty ..).symm⟩
  | succ depth ih =>
    obtain ⟨parts, last, path, asked, ends⟩ := request.sequence depth
    obtain ⟨logs, transcripts, written⟩ := fits.logs path fun part => ih
    refine ⟨_, ⟨parts, last, logs, path, asked, transcripts, rfl⟩, ?_⟩
    have fits' := ((path.relates (kept (program.goes depth) request.expr request.scope)).1 fits).1
    rw [ends, String.join_append, ← Store.sinks_append_append]
    cases request.line? depth with
    | none =>
      dsimp only
      rw [Option.toList_none, String.join_nil, Store.sinks_append_empty, written]
    | some line =>
      dsimp only
      rw [fits'.write, Option.toList_some, String.join_cons, String.join_nil, String.append_empty, Store.append,
        Store.append, written]

end Program

/-- At every moment of a run that starts in a root, each frame that was made since has the sink and the policy of the
root; it was made for a call, and its parent is the frame from which that call was made under the dynamic policy, the
root under the global one. Output is only added to the root's sink, and at the end it has what the nodes of the run
have printed, in the order of their evaluation. -/
theorem evalWithin_frame_chain (program : Program) (depth : Nat) :
    (∀ moment, PassesThrough depth program.run moment → ∀ (index : Nat) (found : Scope), program.New index →
      moment.scopes[index]? = some found →
        found.sink = program.sink ∧ found.scoping = program.policy ∧
        (∃ caller, CalledFrom depth program.run caller index) ∧
        ∀ caller, CalledFrom depth program.run caller index →
          found.parent = some (match program.policy with | .dynamic => caller | .global => program.root)) ∧
    (∀ moment, PassesThrough depth program.run moment → ∃ front rest,
      moment.sinks = (program.store.append program.sink front).sinks ∧
      (evalWithin depth program.tree program.root program.store).2.sinks = (moment.append program.sink rest).sinks) ∧
    ∃ texts, Transcript depth program.run texts ∧
      (evalWithin depth program.tree program.root program.store).2.sinks =
        (program.store.append program.sink (String.join texts)).sinks := by
  have fits : program.Fits program.run.scope program.run.store := .start program
  have passed (moment : Store) (passes : PassesThrough depth program.run moment) :
      program.Nested program.policy moment ∧ program.store.Follows program.sink moment ∧
        moment.Follows program.sink (program.run.answer (evalWithin depth)).2 := by
    obtain ⟨left, inner, visits, same⟩ := passes
    obtain ⟨fits', begun, ends⟩ := fits.visits visits
    obtain ⟨fits'', within⟩ := program.goes left inner fits'
    obtain rfl | rfl := same
    · exact ⟨fits'.nested, begun, within.trans ends⟩
    · exact ⟨fits''.nested, begun.trans within, ends⟩
  refine ⟨fun moment passes index found new there => ?_, fun moment passes => ?_, fits.transcript⟩
  · obtain ⟨nested, _, ends⟩ := passed moment passes
    obtain ⟨scoping, sink, _⟩ := nested.calls index found new there
    have inside := ends.lt_size (Array.getElem?_eq_some_iff.mp there).1
    refine ⟨sink, scoping, fits.exists_caller new inside, fun caller called => ?_⟩
    -- the frame is the same at the end, where it is known from its call
    have frame := ends.frames index found.frame (by rw [there, Option.map_some])
    rw [fits.frame_of_called called, Option.some_inj] at frame
    exact (congrArg Prod.fst frame).symm
  · obtain ⟨_, begun, ends⟩ := passed moment passes
    obtain ⟨front, written⟩ := begun.sinks
    obtain ⟨rest, written'⟩ := ends.sinks
    exact ⟨front, rest, written, written'⟩

/-- A function that prints and calls another one, which prints too. Under the dynamic policy the second call is made
from the frame of the first. -/
theorem evalWithin_frame_chain_twice :
    let inner := Expr.print .absent (.literal .absent .int "2") true
    let outer := Expr.block .absent [.print .absent (.literal .absent .int "1") true, .call .absent "g" []]
    let tree := Expr.call .absent "f" []
    let store := (Store.empty.addRoot [("f", .function "f" [] outer), ("g", .function "g" [] inner)]
      Store.standardSink .dynamic).2
    ∃ program : Program, program.tree = tree ∧ program.store = store ∧ program.root = 0 ∧
      (evalWithin 9 tree 0 store).2.sinks = #["1\n2\n"] ∧
      (evalWithin 9 tree 0 store).2.scopes.size = 3 ∧ (evalWithin 9 tree 0 store).2.parentOf 2 = some 1 ∧
      CalledFrom 9 program.run 1 2 := by
  intro inner outer tree store
  have formed : store.WellFormed :=
    (Store.addRoot_keeps Store.empty_wellFormed (by simp [Value.WellFormed]) _ _).1
  let program : Program := ⟨tree, store, 0, formed, by decide, rfl⟩
  refine ⟨program, rfl, rfl, rfl, rfl, rfl, rfl, ?_⟩
  have passes : PassesThrough 9 program.run (evalWithin 9 tree 0 store).2 := ⟨9, program.run, .here _ _, .inr rfl⟩
  have there : (evalWithin 9 tree 0 store).2.scopes[2]? = some ⟨[], some 1, 0, .dynamic⟩ := rfl
  obtain ⟨_, _, ⟨caller, called⟩, parent⟩ :=
    (evalWithin_frame_chain program 9).1 _ passes 2 _ (Nat.le_succ 1) there
  obtain rfl : 1 = caller := Option.some_inj.mp (parent caller called)
  exact called

end Corvid
