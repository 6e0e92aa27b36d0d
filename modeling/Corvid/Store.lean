import Corvid.Scoping
import Corvid.Value

/-!
The store: containers, scopes and output. Handles of containers, scopes and sinks are indexes, and nothing is
ever removed. A scope's parent is older than the scope itself, so the way from a scope to its root is no
longer than its index says.
-/
namespace Corvid

/-- The pairs of a dictionary, in the order in which their keys were first stored. -/
abbrev Entries := List (Key × Value)

namespace Entries

def find? (entries : Entries) (key : Key) : Option Value :=
  match entries with
  | [] => none
  | (known, value) :: rest => if known.same key then some value else Entries.find? rest key

/-- Stores a value. A key that is there already keeps its place and its first form. -/
def set (entries : Entries) (key : Key) (value : Value) : Entries :=
  match entries with
  | [] => [(key, value)]
  | (known, old) :: rest =>
    if known.same key then (known, value) :: rest else (known, old) :: Entries.set rest key value

end Entries

inductive Container where
  | list (items : List Value)
  | dict (entries : Entries)

/-- Names bound to values, each name once. -/
abbrev Bindings := List (String × Value)

namespace Bindings

def find? (bindings : Bindings) (name : String) : Option Value :=
  match bindings with
  | [] => none
  | (known, value) :: rest => if known = name then some value else Bindings.find? rest name

def set (bindings : Bindings) (name : String) (value : Value) : Bindings :=
  match bindings with
  | [] => [(name, value)]
  | (known, old) :: rest =>
    if known = name then (known, value) :: rest else (known, old) :: Bindings.set rest name value

/-- Bindings made in order: of two for one name the later wins. -/
def ofPairs (pairs : List (String × Value)) : Bindings :=
  pairs.foldl (fun bindings pair => bindings.set pair.1 pair.2) []

/-- The bindings in the order of their names. -/
def sorted (bindings : Bindings) : Bindings :=
  bindings.mergeSort fun left right => !decide (right.1 < left.1)

end Bindings

structure Scope where
  bindings : Bindings
  parent : Option Nat
  /-- Where text printed in this scope goes. -/
  sink : Nat
  scoping : Scoping

structure Store where
  containers : Array Container
  scopes : Array Scope
  /-- The text written to each sink. -/
  sinks : Array String
  /-- The tag of the next NaN. -/
  nans : Nat

namespace Store

/-- The sink of scopes that were given none. -/
def standardSink : Nat := 0

/-- A store with nothing in it but the standard sink. -/
def empty : Store := ⟨#[], #[], #[""], 0⟩

/-! Containers -/

/-- A new container and its handle. -/
def allocate (store : Store) (container : Container) : Nat × Store :=
  (store.containers.size, { store with containers := store.containers.push container })

/-- The items of a list; none for a handle that is no list. -/
def items (store : Store) (handle : Nat) : List Value :=
  match store.containers[handle]? with
  | some (.list items) => items
  | _ => []

/-- The entries of a dictionary; none for a handle that is no dictionary. -/
def entries (store : Store) (handle : Nat) : Entries :=
  match store.containers[handle]? with
  | some (.dict entries) => entries
  | _ => []

def setContainer (store : Store) (handle : Nat) (container : Container) : Store :=
  { store with containers := store.containers.setIfInBounds handle container }

def setItem (store : Store) (handle index : Nat) (value : Value) : Store :=
  store.setContainer handle (.list ((store.items handle).set index value))

def setEntry (store : Store) (handle : Nat) (key : Key) (value : Value) : Store :=
  store.setContainer handle (.dict ((store.entries handle).set key value))

/-! Scopes -/

/-- Looks a name up from a scope outward, through `steps` scopes at most. -/
def findFrom (scopes : Array Scope) (name : String) : (steps scope : Nat) → Option Value
  | 0, _ => none
  | steps + 1, scope =>
    match scopes[scope]? with
    | none => none
    | some found =>
      match found.bindings.find? name with
      | some value => some value
      | none =>
        match found.parent with
        | none => none
        | some parent => findFrom scopes name steps parent

/-- The value of a name, as a scope sees it. -/
def lookup (store : Store) (scope : Nat) (name : String) : Option Value :=
  findFrom store.scopes name (scope + 1) scope

/-- Goes outward from a scope through `steps` scopes at most. -/
def rootFrom (scopes : Array Scope) : (steps scope : Nat) → Nat
  | 0, scope => scope
  | steps + 1, scope =>
    match scopes[scope]? with
    | none => scope
    | some found =>
      match found.parent with
      | none => scope
      | some parent => rootFrom scopes steps parent

/-- The outermost scope around a scope. -/
def root (store : Store) (scope : Nat) : Nat := rootFrom store.scopes (scope + 1) scope

/-- Changes one scope. -/
def updateScope (store : Store) (scope : Nat) (change : Scope → Scope) : Store :=
  { store with scopes := store.scopes.modify scope change }

/-- Binds a name in a scope itself. -/
def bind (store : Store) (scope : Nat) (name : String) (value : Value) : Store :=
  store.updateScope scope fun found => { found with bindings := found.bindings.set name value }

def setScoping (store : Store) (scope : Nat) (scoping : Scoping) : Store :=
  store.updateScope scope fun found => { found with scoping }

def bindingsOf (store : Store) (scope : Nat) : Bindings :=
  match store.scopes[scope]? with
  | some found => found.bindings
  | none => []

def parentOf (store : Store) (scope : Nat) : Option Nat :=
  match store.scopes[scope]? with
  | some found => found.parent
  | none => none

def scopingOf (store : Store) (scope : Nat) : Scoping :=
  match store.scopes[scope]? with
  | some found => found.scoping
  | none => .dynamic

def sinkOf (store : Store) (scope : Nat) : Nat :=
  match store.scopes[scope]? with
  | some found => found.sink
  | none => standardSink

/-- A new scope and its handle. -/
def addScope (store : Store) (scope : Scope) : Nat × Store :=
  (store.scopes.size, { store with scopes := store.scopes.push scope })

/-- A scope without a parent. -/
def addRoot (store : Store) (bindings : Bindings) (sink : Nat) (scoping : Scoping) : Nat × Store :=
  store.addScope ⟨bindings, none, sink, scoping⟩

/-- A scope inside another, with the sink and the policy of that other one where it is given none. -/
def addNested (store : Store) (parent : Nat) (bindings : Bindings) (sink : Option Nat)
    (scoping : Option Scoping) : Nat × Store :=
  store.addScope
    ⟨bindings, some parent, sink.getD (store.sinkOf parent), scoping.getD (store.scopingOf parent)⟩

/-- A scope inside another that takes everything from it. -/
def addChild (store : Store) (parent : Nat) (bindings : Bindings) : Nat × Store :=
  store.addNested parent bindings none none

/-- The scope of a function's body that is called from a scope: inside the caller's scope or inside its root,
as the caller's policy says. -/
def addCall (store : Store) (caller : Nat) (bindings : Bindings) : Nat × Store :=
  match store.scopingOf caller with
  | .dynamic => store.addChild caller bindings
  | .global => store.addChild (store.root caller) bindings

/-! Output -/

/-- A new sink and its handle. -/
def addSink (store : Store) : Nat × Store :=
  (store.sinks.size, { store with sinks := store.sinks.push "" })

/-- The text written to a sink so far. -/
def written (store : Store) (sink : Nat) : String := (store.sinks[sink]?).getD ""

/-- Writes to a sink. -/
def append (store : Store) (sink : Nat) (text : String) : Store :=
  { store with sinks := store.sinks.modify sink (· ++ text) }

/-- Writes to the sink of a scope. -/
def write (store : Store) (scope : Nat) (text : String) : Store :=
  store.append (store.sinkOf scope) text

end Store

end Corvid
