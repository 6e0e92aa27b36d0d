import Corvid.Eval

/-!
What a computation asks for. The rules get evaluation as an argument and use it in one way only: they ask for the
evaluation of an expression in a scope, and stop if that stops. So when such a computation stops, it does so on its
own account or because an evaluation that it asked for has stopped, and then as that one did.
-/
namespace Corvid

/-- An evaluation: an expression, the scope it is evaluated in and the store that it starts from. -/
structure Request where
  expr : Expr
  scope : Nat
  store : Store

/-- How an evaluation ends. -/
def Request.answer (request : Request) (evaluate : Rule.Evaluator) : Except Halt Value × Store :=
  evaluate request.expr request.scope request.store

namespace Eval

variable {α β : Type} {first : Eval α} {next : α → Eval β} {store after : Store}

theorem bind_of_ok {a : α} (found : first store = (.ok a, after)) : (first >>= next) store = next a after := by
  change Eval.bind first next store = next a after
  rw [Eval.bind, found]

theorem bind_of_error {halt : Halt} (found : first store = (.error halt, after)) :
    (first >>= next) store = (.error halt, after) := by
  change Eval.bind first next store = (.error halt, after)
  rw [Eval.bind, found]

theorem bind_eq_ok_iff {result : β} :
    (first >>= next) store = (.ok result, after) ↔
      ∃ a middle, first store = (.ok a, middle) ∧ next a middle = (.ok result, after) := by
  constructor
  · intro gives
    cases found : first store with
    | mk outcome middle =>
      cases outcome with
      | ok a => exact ⟨a, middle, rfl, (bind_of_ok found).symm.trans gives⟩
      | error halt =>
        have stops := (bind_of_error found).symm.trans gives
        cases stops
  · rintro ⟨a, middle, found, gives⟩
    rw [bind_of_ok found, gives]

end Eval

namespace Rule

open Classical in
/-- An evaluator that stops at one request, in some way, and answers all others as before. -/
noncomputable def stopping (evaluate : Evaluator) (request : Request) (halt : Halt) (after : Store) : Evaluator :=
  fun expr scope store => if ⟨expr, scope, store⟩ = request then (.error halt, after) else evaluate expr scope store

theorem answer_stopping (evaluate : Evaluator) (request : Request) (halt : Halt) (after : Store) :
    request.answer (stopping evaluate request halt after) = (.error halt, after) := by
  simp [Request.answer, stopping]

theorem answer_stopping_of_ne (evaluate : Evaluator) {request other : Request} (halt : Halt) (after : Store)
    (differs : other ≠ request) : other.answer (stopping evaluate request halt after) = other.answer evaluate := by
  simp [Request.answer, stopping, differs]

/-- To stop where an evaluator stops anyway changes nothing. -/
theorem stopping_eq_self {evaluate : Evaluator} {request : Request} {halt : Halt} {after : Store}
    (stops : request.answer evaluate = (.error halt, after)) : stopping evaluate request halt after = evaluate := by
  funext expr scope store
  by_cases same : (⟨expr, scope, store⟩ : Request) = request
  · subst same
    exact (answer_stopping evaluate _ halt after).trans stops.symm
  · exact answer_stopping_of_ne evaluate halt after same

variable {α β : Type}

/-- A computation asks for an evaluation if it would stop with it, however that evaluation stopped. -/
def Asks (computation : Evaluator → Eval α) (evaluate : Evaluator) (store : Store) (request : Request) : Prop :=
  ∀ halt after, computation (stopping evaluate request halt after) store = (.error halt, after)

theorem Asks.stops {computation : Evaluator → Eval α} {evaluate : Evaluator} {store after : Store}
    {request : Request} {halt : Halt} (asks : Asks computation evaluate store request)
    (stops : request.answer evaluate = (.error halt, after)) :
    computation evaluate store = (.error halt, after) := by
  have same := asks halt after
  rwa [stopping_eq_self stops] at same

/-- A computation that uses its evaluator in no other way than by asking it. What it stops with on its own account is
described by `own`. -/
inductive Uniform (own : Halt → Prop) : {α : Type} → (Evaluator → Eval α) → Prop where
  | step {α : Type} {inner : Eval α} (owned : ∀ store halt after, inner store = (.error halt, after) → own halt) :
      Uniform own fun _ => inner
  | ask (expr : Expr) (scope : Nat) : Uniform own fun evaluate => evaluate expr scope
  | bind {α β : Type} {first : Evaluator → Eval α} {next : α → Evaluator → Eval β} (before : Uniform own first)
      (behind : ∀ a, Uniform own (next a)) : Uniform own fun evaluate => first evaluate >>= fun a => next a evaluate

namespace Uniform

variable {own : Halt → Prop} {computation : Evaluator → Eval α}

/-- An evaluation that is not asked for has no effect on the computation. -/
theorem asks_or_ignores (uniform : Uniform own computation) (evaluate : Evaluator) (store : Store)
    (request : Request) : Asks computation evaluate store request ∨
      ∀ halt after, computation (stopping evaluate request halt after) store = computation evaluate store := by
  induction uniform generalizing store with
  | step owned => exact .inr fun _ _ => rfl
  | ask expr scope =>
    by_cases same : (⟨expr, scope, store⟩ : Request) = request
    · subst same
      exact .inl (answer_stopping evaluate _)
    · exact .inr fun halt after => answer_stopping_of_ne evaluate halt after same
  | @bind _ _ first next before behind ih ih' =>
    obtain asks | ignores := ih store
    · exact .inl fun halt after => Eval.bind_of_error (asks halt after)
    · cases found : first evaluate store with
      | mk result middle =>
        cases result with
        | error halt =>
          right
          intro halt' after
          have first_stops := (ignores halt' after).trans found
          exact (Eval.bind_of_error first_stops).trans (Eval.bind_of_error found).symm
        | ok a =>
          obtain asks | ignores' := ih' a middle
          · left
            intro halt after
            have goes_on := (ignores halt after).trans found
            exact (Eval.bind_of_ok goes_on).trans (asks halt after)
          · right
            intro halt after
            have goes_on := (ignores halt after).trans found
            exact ((Eval.bind_of_ok goes_on).trans (ignores' halt after)).trans (Eval.bind_of_ok found).symm

end Uniform

/-! What a computation asks for, by how it is composed -/

section

variable {evaluate : Evaluator} {store : Store} {part : Request}

/-- A step asks for nothing: it could not stop in two ways. -/
theorem not_asks_step {inner : Eval α} : ¬Asks (fun _ => inner) evaluate store part := by
  intro asks
  have two_ends := (asks .tooDeep store).symm.trans (asks .tooLong store)
  cases two_ends

theorem asks_evaluate {expr : Expr} {scope : Nat} :
    Asks (fun evaluate => evaluate expr scope) evaluate store ⟨expr, scope, store⟩ :=
  answer_stopping evaluate _

theorem eq_of_asks_evaluate {expr : Expr} {scope : Nat}
    (asks : Asks (fun evaluate => evaluate expr scope) evaluate store part) : part = ⟨expr, scope, store⟩ := by
  by_cases same : part = ⟨expr, scope, store⟩
  · exact same
  · have ignored (halt : Halt) : evaluate expr scope store = (.error halt, store) :=
      (answer_stopping_of_ne evaluate halt store (Ne.symm same)).symm.trans (asks halt store)
    have two_ends := (ignored .tooDeep).symm.trans (ignored .tooLong)
    cases two_ends

variable {first : Evaluator → Eval α} {next : α → Evaluator → Eval β}

theorem Asks.bind_left (asks : Asks first evaluate store part) :
    Asks (fun evaluate => first evaluate >>= fun a => next a evaluate) evaluate store part :=
  fun halt after => Eval.bind_of_error (asks halt after)

variable {own : Halt → Prop} (before : Uniform own first)

include before

theorem Asks.bind_right {a : α} {middle : Store} (found : first evaluate store = (.ok a, middle))
    (asks : Asks (next a) evaluate middle part) :
    Asks (fun evaluate => first evaluate >>= fun a => next a evaluate) evaluate store part := by
  intro halt after
  obtain earlier | ignores := before.asks_or_ignores evaluate store part
  -- a request that comes back later may have been asked for in the first part already
  · exact Eval.bind_of_error (earlier halt after)
  · exact (Eval.bind_of_ok ((ignores halt after).trans found)).trans (asks halt after)

theorem Asks.of_bind
    (asks : Asks (fun evaluate => first evaluate >>= fun a => next a evaluate) evaluate store part) :
    Asks first evaluate store part ∨
      ∃ a middle, first evaluate store = (.ok a, middle) ∧ Asks (next a) evaluate middle part := by
  obtain earlier | ignores := before.asks_or_ignores evaluate store part
  · exact .inl earlier
  · cases found : first evaluate store with
    | mk result middle =>
      cases result with
      | ok a =>
        refine .inr ⟨a, middle, rfl, fun halt after => ?_⟩
        exact (Eval.bind_of_ok ((ignores halt after).trans found)).symm.trans (asks halt after)
      | error halt =>
        have stops (other : Halt) : (.error halt, middle) = (Except.error other, store) :=
          (Eval.bind_of_error ((ignores other store).trans found)).symm.trans (asks other store)
        have two_ends := (stops .tooDeep).symm.trans (stops .tooLong)
        cases two_ends

end

namespace Uniform

variable {own : Halt → Prop} {computation : Evaluator → Eval α}

/-- A computation stops on its own account or with an evaluation that it asks for. -/
theorem blames (uniform : Uniform own computation) {evaluate : Evaluator} {store after : Store} {halt : Halt}
    (stops : computation evaluate store = (.error halt, after)) :
    own halt ∨ ∃ request, Asks computation evaluate store request ∧
      request.answer evaluate = (.error halt, after) := by
  induction uniform generalizing store with
  | step owned => exact .inl (owned store halt after stops)
  | ask expr scope => exact .inr ⟨⟨expr, scope, store⟩, asks_evaluate, stops⟩
  | @bind _ _ first next before behind ih ih' =>
    cases found : first evaluate store with
    | mk result middle =>
      cases result with
      | error reason =>
        have same := stops.symm.trans (Eval.bind_of_error found)
        cases same
        apply (ih found).imp_right
        rintro ⟨request, asks, answer⟩
        exact ⟨request, asks.bind_left, answer⟩
      | ok a =>
        have later := (Eval.bind_of_ok found).symm.trans stops
        apply (ih' a later).imp_right
        rintro ⟨request, asks, answer⟩
        exact ⟨request, .bind_right before found asks, answer⟩

theorem update (change : Store → Store) : Uniform own fun _ => Eval.change change :=
  .step fun _ _ _ stops => nomatch stops

theorem create (make : Store → Nat × Store) : Uniform own fun _ => Eval.create make :=
  .step fun _ _ _ stops => nomatch stops

end Uniform

end Rule

end Corvid
