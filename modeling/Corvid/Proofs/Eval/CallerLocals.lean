import Corvid.Proofs.Eval.Shared
import Corvid.Proofs.Store.Frames

/-!
What a function can see of its caller. Where every scope has the global policy, the scope of a call is directly inside
the root, so a body looks names up in its own scope and in the root and nowhere else. Two stores that differ in the
variables of all other scopes are the same to it.
-/
namespace Corvid

namespace Store

/-- The stores differ in nothing but what is bound in scopes other than the root and what has been written, and every
scope has the global policy. -/
structure SameButLocals (root : Nat) (first second : Store) : Prop where
  containers : second.containers = first.containers
  nans : second.nans = first.nans
  frames : second.scopes.map Scope.frame = first.scopes.map Scope.frame
  everywhere : ∀ scope ∈ first.scopes, scope.scoping = .global
  bindings : second.bindingsOf root = first.bindingsOf root

/-- The same text has been written behind what each sink held in the one store and in the other. -/
def SameWritten (first second after after' : Store) : Prop :=
  ∀ (sink : Nat) (text text' : String), first.sinks[sink]? = some text → second.sinks[sink]? = some text' →
    ∃ more, after.sinks[sink]? = some (text ++ more) ∧ after'.sinks[sink]? = some (text' ++ more)

theorem SameWritten.refl (first second : Store) : SameWritten first second first second := by
  intro sink text text' known known'
  exact ⟨"", by rw [known, String.append_empty], by rw [known', String.append_empty]⟩

theorem SameWritten.append {first second after after' : Store} (written : SameWritten first second after after')
    (target : Nat) (more : String) :
    SameWritten first second (after.append target more) (after'.append target more) := by
  intro sink text text' known known'
  obtain ⟨before, there, there'⟩ := written sink text text' known known'
  simp only [Store.append, Array.getElem?_modify, there, there']
  split
  · exact ⟨before ++ more, by simp [String.append_assoc]⟩
  · exact ⟨before, rfl, rfl⟩

end Store

/-- Two stores that differ below a root. -/
structure Apart where
  root : Nat
  first : Store
  second : Store
  same : Store.SameButLocals root first second
  inside : root < first.scopes.size
  top : first.parentOf root = none

namespace Apart

variable (apart : Apart)

/-- Two stores that came from the given ones by calls from below the root: the scopes that were there are as they
were, and the new ones are the same in both and directly inside the root. -/
structure Called (size : Nat) (store store' : Store) : Prop where
  shares : Store.Shares (fun _ => True) (fun _ _ => True) store store'
  written : Store.SameWritten apart.first apart.second store store'
  size_eq : store.scopes.size = size
  size_eq' : store'.scopes.size = size
  grown : apart.first.scopes.size ≤ size
  before : ∀ index : Nat, index < apart.first.scopes.size → store.scopes[index]? = apart.first.scopes[index]?
  before' : ∀ index : Nat, index < apart.first.scopes.size → store'.scopes[index]? = apart.second.scopes[index]?
  after : ∀ index : Nat, apart.first.scopes.size ≤ index → store'.scopes[index]? = store.scopes[index]?
  calls : ∀ (index : Nat) (found : Scope), apart.first.scopes.size ≤ index → store.scopes[index]? = some found →
    found.parent = some apart.root ∧ found.scoping = .global

variable {apart}

theorem frame_eq (apart : Apart) (index : Nat) :
    apart.second.scopes[index]?.map Scope.frame = apart.first.scopes[index]?.map Scope.frame := by
  simpa using congrArg (fun frames => frames[index]?) apart.same.frames

theorem size_eq (apart : Apart) : apart.second.scopes.size = apart.first.scopes.size := by
  simpa using congrArg Array.size apart.same.frames

theorem called_origin (apart : Apart) : apart.Called apart.first.scopes.size apart.first apart.second where
  shares := ⟨apart.same.containers, apart.same.nans, fun _ _ item _ => by cases item <;> trivial,
    fun _ _ entry _ => by cases entry.2 <;> trivial⟩
  written := .refl _ _
  size_eq := rfl
  size_eq' := apart.size_eq
  grown := Nat.le_refl _
  before _ _ := rfl
  before' _ _ := rfl
  after index beyond := by
    rw [Array.getElem?_eq_none beyond, Array.getElem?_eq_none (apart.size_eq ▸ beyond)]
  calls index found beyond known := by
    rw [Array.getElem?_eq_none beyond] at known
    cases known

namespace Called

variable {size : Nat} {store store' : Store} (called : apart.Called size store store')

include called

theorem root_frame : store'.scopes[apart.root]?.map Scope.frame = store.scopes[apart.root]?.map Scope.frame := by
  rw [called.before apart.root apart.inside, called.before' apart.root apart.inside, apart.frame_eq]

theorem top : store.parentOf apart.root = none := by
  rw [← apart.top, Store.parentOf, Store.parentOf, called.before apart.root apart.inside]

theorem top' : store'.parentOf apart.root = none := by
  rw [Store.parentOf_eq_of_frame called.root_frame, called.top]

theorem bindings : store'.bindingsOf apart.root = store.bindingsOf apart.root := by
  have same := apart.same.bindings
  rw [Store.bindingsOf, Store.bindingsOf] at same ⊢
  rw [called.before apart.root apart.inside, called.before' apart.root apart.inside, same]

theorem everywhere : store.scopingOf apart.root = .global := by
  rw [Store.scopingOf, called.before apart.root apart.inside, Array.getElem?_eq_getElem apart.inside]
  exact apart.same.everywhere _ (Array.getElem_mem apart.inside)

/-- A scope of a call is there in both stores. -/
theorem exists_scope {scope : Nat} (new : apart.first.scopes.size ≤ scope) (inside : scope < size) :
    ∃ found, store.scopes[scope]? = some found ∧ store'.scopes[scope]? = some found ∧
      found.parent = some apart.root ∧ found.scoping = .global := by
  have bound : scope < store.scopes.size := called.size_eq ▸ inside
  have known : store.scopes[scope]? = some store.scopes[scope] := Array.getElem?_eq_getElem bound
  exact ⟨_, known, (called.after scope new).trans known, called.calls scope _ new known⟩

/-- A body finds the same values in both stores. -/
theorem lookup_eq {scope : Nat} (new : apart.first.scopes.size ≤ scope) (inside : scope < size) (name : String) :
    store'.lookup scope name = store.lookup scope name := by
  obtain ⟨found, known, known', outward, _⟩ := called.exists_scope new inside
  have older : apart.root < scope := Nat.lt_of_lt_of_le apart.inside new
  rw [Store.lookup_of_child known outward called.top older, Store.lookup_of_child known' outward called.top' older,
    called.bindings]

/-- A new scope directly inside the root. -/
theorem push {scope : Scope} (outward : scope.parent = some apart.root) (everywhere : scope.scoping = .global) :
    apart.Called (size + 1) (store.addScope scope).2 (store'.addScope scope).2 where
  shares := called.shares.of_same rfl rfl called.shares.nans
  written := called.written
  size_eq := by simp [Store.addScope, called.size_eq]
  size_eq' := by simp [Store.addScope, called.size_eq']
  grown := Nat.le_succ_of_le called.grown
  before index inside := by
    have old : index ≠ store.scopes.size := by have := called.size_eq; have := called.grown; omega
    rw [Store.addScope, Array.getElem?_push, if_neg old]
    exact called.before index inside
  before' index inside := by
    have old : index ≠ store'.scopes.size := by have := called.size_eq'; have := called.grown; omega
    rw [Store.addScope, Array.getElem?_push, if_neg old]
    exact called.before' index inside
  after index new := by
    rw [Store.addScope, Store.addScope, Array.getElem?_push, Array.getElem?_push, called.size_eq, called.size_eq',
      called.after index new]
  calls index found new there := by
    obtain earlier | ⟨_, rfl⟩ := Store.scopes_addScope there
    · exact called.calls index found new earlier
    · exact ⟨outward, everywhere⟩

/-- Binding a name in the scope of a call. -/
theorem bind {scope : Nat} (new : apart.first.scopes.size ≤ scope) (name : String) (value : Value) :
    apart.Called size (store.bind scope name value) (store'.bind scope name value) where
  shares := called.shares.of_same rfl rfl called.shares.nans
  written := called.written
  size_eq := by simp [Store.bind, Store.updateScope, called.size_eq]
  size_eq' := by simp [Store.bind, Store.updateScope, called.size_eq']
  grown := called.grown
  before index inside := by
    rw [Store.bind, Store.updateScope, Array.getElem?_modify, if_neg (by omega)]
    exact called.before index inside
  before' index inside := by
    rw [Store.bind, Store.updateScope, Array.getElem?_modify, if_neg (by omega)]
    exact called.before' index inside
  after index new := by
    simp only [Store.bind, Store.updateScope, Array.getElem?_modify, called.after index new]
  calls index found new there := by
    rw [Store.bind, Store.updateScope, Array.getElem?_modify] at there
    split at there
    · obtain ⟨earlier, known, rfl⟩ := Option.map_eq_some_iff.mp there
      exact called.calls index earlier new known
    · exact called.calls index found new there

/-- A call from a scope below the root is evaluated directly inside the root. -/
theorem call {scope : Nat} (everywhere : store.scopingOf scope = .global)
    (everywhere' : store'.scopingOf scope = .global) (below : store.root scope = apart.root)
    (below' : store'.root scope = apart.root) (bindings : Bindings) :
    apart.Called (size + 1) (store.addCall scope bindings).2 (store'.addCall scope bindings).2 ∧
      (store.addCall scope bindings).1 = size ∧ (store'.addCall scope bindings).1 = size := by
  have frame := called.root_frame
  rw [Store.addCall_of_global everywhere, Store.addCall_of_global everywhere', below, below',
    Store.sinkOf_eq_of_frame frame, Store.scopingOf_eq_of_frame frame]
  exact ⟨called.push rfl called.everywhere, called.size_eq, called.size_eq'⟩

theorem call_inner {scope : Nat} (new : apart.first.scopes.size ≤ scope) (inside : scope < size) (bindings : Bindings) :
    apart.Called (size + 1) (store.addCall scope bindings).2 (store'.addCall scope bindings).2 ∧
      (store.addCall scope bindings).1 = size ∧ (store'.addCall scope bindings).1 = size := by
  obtain ⟨found, known, known', outward, policy⟩ := called.exists_scope new inside
  apply called.call
  · simp [Store.scopingOf, known, policy]
  · simp [Store.scopingOf, known', policy]
  · exact Store.root_of_child known outward called.top
  · exact Store.root_of_child known' outward called.top'

end Called

/-- Everything is alike that is the same. -/
theorem alike_iff {left right : Value} :
    left.Alike (.diagonal (fun _ => True) fun _ _ => True) right ↔ left = right := by
  rw [Value.alike_diagonal_iff]
  exact ⟨And.left, fun same => ⟨same, by cases left <;> trivial⟩⟩

/-- The body of a function that is called from below the root runs alike from both stores. -/
def simulation (apart : Apart) : Simulation where
  World := Nat
  later := (· ≤ ·)
  pairing _ := .diagonal (fun _ => True) fun _ _ => True
  stores := apart.Called
  admits size _ scope scope' := scope' = scope ∧ apart.first.scopes.size ≤ scope ∧ scope < size
  excused := False
  refl := Nat.le_refl
  trans := Nat.le_trans
  extended _ := Pairing.diagonal_extends fun _ => id
  kept later admitted := ⟨admitted.1, admitted.2.1, Nat.lt_of_lt_of_le admitted.2.2 later⟩
  operand admitted _ := admitted
  declared _ := trivial
  lookup := by
    rintro size _ scope _ store store' name called ⟨rfl, new, inside⟩ _
    rw [called.lookup_eq new inside]
    cases store.lookup _ name with
    | none => exact .none
    | some value => exact .some (alike_iff.mpr rfl)
  items called paired := called.shares.items_alike paired
  entries called paired := called.shares.entries_alike paired
  bind := by
    rintro size _ scope _ store store' name value _ called ⟨rfl, new, _⟩ _ alike
    obtain rfl := alike_iff.mp alike
    exact ⟨size, Nat.le_refl _, called.bind new name value⟩
  allocate := by
    intro size store store' container container' called alike
    have shares : Store.Shares (fun _ => True) (fun _ _ => True) _ _ :=
      called.shares.allocate (fun _ => (or_iff_left_of_imp fun _ => trivial).symm) alike
    refine ⟨size, Nat.le_refl _, { called with shares }, ?_, trivial⟩
    simp only [Store.allocate, called.shares.containers]
  setItem called _ paired alike := ⟨_, Nat.le_refl _, { called with shares := called.shares.setItem paired alike }⟩
  setEntry called _ paired same alike :=
    ⟨_, Nat.le_refl _, { called with shares := called.shares.setEntry paired same alike }⟩
  write := by
    rintro size _ _ _ _ scope store store' text called ⟨rfl, new, inside⟩
    obtain ⟨found, known, known', _⟩ := called.exists_scope new inside
    have sink : store'.sinkOf scope = store.sinkOf scope := by rw [Store.sinkOf, Store.sinkOf, known, known']
    refine ⟨size, Nat.le_refl _, { called with shares := ?_, written := ?_ }⟩
    · exact called.shares.of_same rfl rfl called.shares.nans
    · rw [Store.write, Store.write, sink]
      exact called.written.append _ text
  draw called := by
    refine ⟨_, Nat.le_refl _, { called with shares := called.shares.of_same rfl rfl ?_ }, ?_⟩
    · exact congrArg Nat.succ called.shares.nans
    · exact called.shares.nans.symm
  call := by
    rintro size _ _ _ scope _ store store' parameters body values _ called ⟨rfl, new, inside⟩ _ alikes _
    obtain ⟨rfl, _⟩ := all_alike_diagonal_iff.mp alikes
    obtain ⟨later, first, second⟩ := called.call_inner new inside (Bindings.ofPairs (parameters.zip values))
    refine ⟨size + 1, Nat.le_succ size, later, second.trans first.symm, ?_, ?_⟩
    · exact first ▸ called.grown
    · exact first ▸ Nat.lt_succ_self size

/-- The first call. -/
theorem call_outer (apart : Apart) {caller : Nat} (inside : caller < apart.first.scopes.size)
    (below : apart.first.root caller = apart.root) (bindings : Bindings) :
    apart.Called (apart.first.scopes.size + 1) (apart.first.addCall caller bindings).2
        (apart.second.addCall caller bindings).2 ∧
      (apart.first.addCall caller bindings).1 = apart.first.scopes.size ∧
      (apart.second.addCall caller bindings).1 = apart.first.scopes.size := by
  have everywhere : apart.first.scopingOf caller = .global := by
    rw [Store.scopingOf, Array.getElem?_eq_getElem inside]
    exact apart.same.everywhere _ (Array.getElem_mem inside)
  apply apart.called_origin.call everywhere _ below
  · rw [Store.root_eq_of_frames apart.frame_eq, below]
  · rw [Store.scopingOf_eq_of_frame (apart.frame_eq caller), everywhere]

end Apart

/-- Under the global policy, a function's body that is called from below a root has the same result from two stores
that differ only in variables of other scopes than the root, writes the same text, leaves the same containers and makes
the same new scopes. The scopes that were there stay as they were. -/
theorem evalWithin_blind_to_locals {first second : Store} {root caller : Nat}
    (same : Store.SameButLocals root first second) (rooted : root < first.scopes.size ∧ first.parentOf root = none)
    (inside : caller < first.scopes.size) (below : first.root caller = root) (depth : Nat) (parameters : List String)
    (body : Expr) (values : List Value) :
    let bindings := Bindings.ofPairs (parameters.zip values)
    let start := first.addCall caller bindings
    let start' := second.addCall caller bindings
    let ended := evalWithin depth body start.1 start.2
    let ended' := evalWithin depth body start'.1 start'.2
    ended'.1 = ended.1 ∧ Store.SameWritten first second ended.2 ended'.2 ∧
      ended'.2.containers = ended.2.containers ∧ ended'.2.scopes.size = ended.2.scopes.size ∧
      (∀ index : Nat, first.scopes.size ≤ index → ended'.2.scopes[index]? = ended.2.scopes[index]?) ∧
      ∀ index : Nat, index < first.scopes.size →
        ended.2.scopes[index]? = first.scopes[index]? ∧ ended'.2.scopes[index]? = second.scopes[index]? := by
  intro bindings start start' ended ended'
  let apart : Apart := ⟨root, first, second, same, rooted.1, rooted.2⟩
  obtain ⟨called, new, new'⟩ := apart.call_outer inside below bindings
  have admitted : apart.simulation.admits (first.scopes.size + 1) body start.1 start'.1 :=
    ⟨new'.trans new.symm, new ▸ Nat.le_refl _, new ▸ Nat.lt_succ_self _⟩
  obtain ⟨size, _, related, agree⟩ := Simulation.evalWithin_agree id depth admitted called
  have called : apart.Called size ended.2 ended'.2 := related
  have result : ended.1 = ended'.1 := (agree.mono Apart.alike_iff.mp).eq
  refine ⟨result.symm, called.written, called.shares.containers, ?_, called.after, ?_⟩
  · rw [called.size_eq, called.size_eq']
  · exact fun index old => ⟨called.before index old, called.before' index old⟩

/-- A body that prints a variable of the root, which the caller shadows in one of the stores, calls a function of the
root and then asks for a variable of the caller. -/
theorem evalWithin_blind_to_locals_shadowed :
    let printed (name : String) := Expr.print .absent (.name .absent name) true
    let body := Expr.block .absent
      [printed "x", .assign .absent "x" (.call .absent "g" [.name .absent "p"]), .name .absent "y"]
    let global := Scope.mk [("x", .text "a"), ("g", .function "g" ["q"] (printed "q"))] none Store.standardSink .global
    let first := Store.mk #[] #[global, ⟨[("y", .int 5)], some 0, 0, .global⟩] #[""] 0
    let second := Store.mk #[] #[global, ⟨[("x", .bool true)], some 0, 0, .global⟩] #["> "] 0
    let bindings := Bindings.ofPairs (["p"].zip [.text "b"])
    let ended := evalWithin 9 body (first.addCall 1 bindings).1 (first.addCall 1 bindings).2
    let ended' := evalWithin 9 body (second.addCall 1 bindings).1 (second.addCall 1 bindings).2
    Store.SameButLocals 0 first second ∧ first.root 1 = 0 ∧ ended'.1 = ended.1 ∧
      ended.1 = .error (.fault (.unbound "y") .absent) ∧ Store.SameWritten first second ended.2 ended'.2 ∧
      ended'.2.scopes[3]? = ended.2.scopes[3]? := by
  intro printed body global first second bindings ended ended'
  have frames : second.scopes.map Scope.frame = first.scopes.map Scope.frame := by simp [first, second, Scope.frame]
  have same : Store.SameButLocals 0 first second := ⟨rfl, rfl, frames, by simp [first, global], rfl⟩
  have below : first.root 1 = 0 := rfl
  have stops : ended.1 = .error (.fault (.unbound "y") .absent) := rfl
  obtain ⟨result, written, _, _, scopes, _⟩ :=
    evalWithin_blind_to_locals same ⟨by decide, rfl⟩ (by decide) below 9 ["p"] body [.text "b"]
  exact ⟨same, below, result, stops, written, scopes 3 (by decide)⟩

end Corvid
