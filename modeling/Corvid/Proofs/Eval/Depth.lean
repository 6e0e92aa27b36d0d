import Corvid.Proofs.Eval.Plan

/-!
The depth that an evaluation may use. It is given out to what is nested in the evaluation, and running out of it is the
only thing that it can bring about: no rule goes on after something that it asked for was too deep, and none makes
another outcome of it. So an evaluation that ends in any other way ends in the same way if more depth is allowed.
-/
namespace Corvid

/-- A computation that ends as another one does, unless that one was too deep. -/
def Eval.Deepens {α : Type} (shallow deep : Eval α) : Prop :=
  ∀ store, (shallow store).1 ≠ .error .tooDeep → deep store = shallow store

namespace Eval.Deepens

variable {α β : Type}

theorem refl (inner : Eval α) : Deepens inner inner := fun _ _ => rfl

theorem bind {first first' : Eval α} {next next' : α → Eval β} (before : Deepens first first')
    (behind : ∀ a, Deepens (next a) (next' a)) : Deepens (first >>= next) (first' >>= next') := by
  intro store ends
  cases found : first store with
  | mk outcome middle =>
    have same (other : outcome ≠ .error .tooDeep) : first' store = (outcome, middle) := by
      rw [before store (by rw [found]; exact other), found]
    cases outcome with
    | error halt =>
      have stops : (first >>= next) store = (.error halt, middle) := Eval.bind_of_error found
      rw [stops] at ends ⊢
      have other : halt ≠ .tooDeep := fun deep => ends (congrArg Except.error deep)
      exact Eval.bind_of_error (same (by simpa using other))
    | ok a =>
      have goes : (first >>= next) store = next a middle := Eval.bind_of_ok found
      have goes' : (first' >>= next') store = next' a middle := Eval.bind_of_ok (same (by simp))
      rw [goes] at ends ⊢
      rw [goes', behind a middle ends]

/-- The place that a fault gets makes no difference: want of depth gets none. -/
theorem locate (mark : Mark) {shallow deep : Eval α} (deepens : Deepens shallow deep) :
    Deepens (Eval.locate mark shallow) (Eval.locate mark deep) := by
  intro store ends
  have inner : (shallow store).1 ≠ .error .tooDeep := by
    intro stopped
    apply ends
    have stops : shallow store = (.error .tooDeep, (shallow store).2) := Prod.ext stopped rfl
    unfold Eval.locate
    rw [stops]
  unfold Eval.locate
  rw [deepens store inner]

end Eval.Deepens

/-- A rule passes on that something was too deep, whatever it does otherwise. -/
theorem Rule.Plan.deepens {expr : Expr} {scope : Nat} {α : Type}
    {computation : Evaluator → (Value → Eval String) → Eval α} (plan : Plan expr scope computation)
    {evaluate evaluate' : Evaluator} (evaluates : ∀ part inner, (evaluate part inner).Deepens (evaluate' part inner))
    {render render' : Value → Eval String} (renders : ∀ value, (render value).Deepens (render' value)) :
    (computation evaluate render).Deepens (computation evaluate' render') := by
  induction plan with
  | own calm => exact .refl _
  | @operand part below => exact evaluates part scope
  | render shows value => exact renders value
  | write prints text => exact .refl _
  | enter calls bindings body => exact .bind (.refl _) (evaluates body)
  | bind before behind ih ih' => exact .bind ih ih'

namespace Store

/-- Members that all have a text have the same texts where each of them has the same. -/
theorem mapM_eq_some_of_imp {α β : Type} {text? text'? : α → Option β} {members : List α} {texts : List β}
    (known : members.mapM text? = some texts)
    (same : ∀ member text, text? member = some text → text'? member = some text) :
    members.mapM text'? = some texts := by
  induction members generalizing texts with
  | nil => exact known
  | cons first rest ih =>
    rw [List.mapM_cons] at known ⊢
    obtain ⟨text, shown, known⟩ := Option.bind_eq_some_iff.mp known
    obtain ⟨more, others, known⟩ := Option.bind_eq_some_iff.mp known
    rw [same first text shown, Option.bind_eq_bind, Option.bind_some, ih others]
    exact known

theorem memberText?_deeper {store : Store} {depth deeper : Nat} (le : depth ≤ deeper) {value : Value} {text : String}
    (shown : store.memberText? depth value = some text) : store.memberText? deeper value = some text := by
  induction depth generalizing deeper value text with
  | zero =>
    -- what has a text at no depth at all is no container
    cases value with
    | list | dict => cases shown
    | _ => cases deeper <;> exact shown
  | succ depth ih =>
    obtain ⟨deeper, rfl⟩ : ∃ less, deeper = less + 1 := ⟨deeper - 1, by omega⟩
    have inner (member : Value) (text : String) (known : store.memberText? depth member = some text) :
        store.memberText? deeper member = some text := ih (by omega) known
    cases value with
    | list handle =>
      simp only [memberText?, Option.map_eq_some_iff] at shown ⊢
      obtain ⟨texts, known, enclosed⟩ := shown
      exact ⟨texts, mapM_eq_some_of_imp known inner, enclosed⟩
    | dict handle =>
      simp only [memberText?, Option.map_eq_some_iff] at shown ⊢
      obtain ⟨texts, known, enclosed⟩ := shown
      refine ⟨texts, mapM_eq_some_of_imp known fun pair text known => ?_, enclosed⟩
      obtain ⟨key, named, known⟩ := Option.bind_eq_some_iff.mp known
      obtain ⟨member, held, known⟩ := Option.bind_eq_some_iff.mp known
      rw [named, Option.bind_eq_bind, Option.bind_some, inner pair.2 member held]
      exact known
    | _ => exact shown

theorem text?_deeper {store : Store} {depth deeper : Nat} (le : depth ≤ deeper) {value : Value} {text : String}
    (shown : store.text? depth value = some text) : store.text? deeper value = some text := by
  cases value with
  | text content => exact shown
  | _ => exact memberText?_deeper le shown

end Store

theorem showWithin_deepens {depth deeper : Nat} (le : depth ≤ deeper) (value : Value) :
    (showWithin depth value).Deepens (showWithin deeper value) := by
  intro store ends
  unfold showWithin at ends ⊢
  cases shown : store.text? depth value with
  | none =>
    rw [shown] at ends
    exact absurd rfl ends
  | some text => rw [Store.text?_deeper le shown]

theorem evalWithin_deepens {depth deeper : Nat} (le : depth ≤ deeper) (expr : Expr) (scope : Nat) :
    (evalWithin depth expr scope).Deepens (evalWithin deeper expr scope) := by
  induction depth generalizing deeper expr scope with
  | zero => exact fun _ ends => absurd rfl ends
  | succ depth ih =>
    obtain ⟨deeper, rfl⟩ : ∃ less, deeper = less + 1 := ⟨deeper - 1, by omega⟩
    have less : depth ≤ deeper := by omega
    exact .locate expr.mark ((Rule.apply_plan expr scope).deepens (ih less) (showWithin_deepens less))

/-- An evaluation that does not run out of its depth ends in the same way if it may go deeper: with the same value, or
the same fault at the same place, in the same store. -/
theorem evalWithin_same_deeper {depth deeper : Nat} (le : depth ≤ deeper) {expr : Expr} {scope : Nat} {store : Store}
    (ends : (evalWithin depth expr scope store).1 ≠ .error .tooDeep) :
    evalWithin deeper expr scope store = evalWithin depth expr scope store :=
  evalWithin_deepens le expr scope store ends

/-- A function that prints its argument, calls itself and divides by zero in the second call. Eight levels are enough
for that, seven are not. -/
theorem evalWithin_same_deeper_call :
    let number := Expr.name .absent "n"
    let zero := Expr.literal .absent .int "0"
    let less := Expr.join .absent (.arithmetic .sub) number (.literal .absent .int "1")
    let body := Expr.block .absent [.print .absent number true,
      .conditional .absent (.join .absent (.equality .eq) number zero)
        (.join (.spot ⟨2, 7⟩) (.arithmetic .div) number zero) (.call .absent "f" [less])]
    let start := (Store.empty.addRoot [("f", .function "f" ["n"] body)] Store.standardSink .dynamic).2
    let expr := Expr.call .absent "f" [.literal .absent .int "1"]
    (evalWithin 7 expr 0 start).1 = .error .tooDeep ∧
      (evalWithin 8 expr 0 start).1 = .error (.fault .zeroDivision (.spot ⟨2, 7⟩)) ∧
      (evalWithin 8 expr 0 start).2.sinks = #["1\n0\n"] ∧
      evalWithin 6000 expr 0 start = evalWithin 8 expr 0 start := by
  intro number zero less body start expr
  have cut : (evalWithin 7 expr 0 start).1 = .error .tooDeep := rfl
  have fails : (evalWithin 8 expr 0 start).1 = .error (.fault .zeroDivision (.spot ⟨2, 7⟩)) := rfl
  have written : (evalWithin 8 expr 0 start).2.sinks = #["1\n0\n"] := rfl
  exact ⟨cut, fails, written, evalWithin_same_deeper (by decide) (by rw [fails]; simp)⟩

end Corvid
