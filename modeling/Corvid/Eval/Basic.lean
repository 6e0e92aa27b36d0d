import Corvid.Fault
import Corvid.Store.Render

/-!
Evaluations: steps that change the store and end in a value or stop without one. What was done to the store
before a stop stays done.
-/
namespace Corvid

def Eval (α : Type) : Type := Store → Except Halt α × Store

namespace Eval

@[inline] def pure {α : Type} (a : α) : Eval α := fun store => (.ok a, store)

@[inline] def bind {α β : Type} (first : Eval α) (next : α → Eval β) : Eval β := fun store =>
  match first store with
  | (.ok a, after) => next a after
  | (.error halt, after) => (.error halt, after)

instance : Monad Eval where
  pure := Eval.pure
  bind := Eval.bind

/-- Stops. -/
@[inline] def stop {α : Type} (halt : Halt) : Eval α := fun store => (.error halt, store)

/-- Stops with a fault whose place is not known yet. -/
@[inline] def fail {α : Type} (fault : Fault) : Eval α := stop (.fault fault .absent)

/-- Looks at the store. -/
@[inline] def read {α : Type} (view : Store → α) : Eval α := fun store => (.ok (view store), store)

/-- Changes the store. -/
@[inline] def change (update : Store → Store) : Eval Unit := fun store => (.ok (), update store)

/-- Makes something new in the store and gives its handle. -/
@[inline] def create (make : Store → Nat × Store) : Eval Nat := fun store =>
  match make store with
  | (handle, after) => (.ok handle, after)

/-- A result that does not depend on the store. -/
@[inline] def ofExcept {α : Type} : Except Fault α → Eval α
  | .ok a => Eval.pure a
  | .error fault => fail fault

/-- A tag that no NaN has had before. -/
def drawTag : Eval Nat := fun store => (.ok store.nans, { store with nans := store.nans + 1 })

/-- Gives a fault the place of the node around it, unless it has one already. -/
@[inline] def locate {α : Type} (mark : Mark) (inner : Eval α) : Eval α := fun store =>
  match inner store with
  | (.error (.fault fault place), after) => (.error (.fault fault (place.orElse mark)), after)
  | result => result

end Eval

end Corvid
