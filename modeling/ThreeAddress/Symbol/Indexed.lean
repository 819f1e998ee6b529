import Mathlib.Data.List.Basic
import ThreeAddress.Symbol.Table

/-!
# Scopes with an index

A scope once more: a row of entities, and beside it an index which tells at what place of the row a name stands.  A
table is a row of such scopes, the global one first and the innermost one last.  Nothing in the data keeps row and
index together, or a table from having no scope.

* `IndexedScope`, `IndexedTable` — the data;
* `IndexedScope.lookup?`, `IndexedScope.define`, `IndexedScope.replace` — steps that read the row at an indexed place;
* `IndexedTable.define`, `IndexedTable.lookup?`, `IndexedTable.setState` — steps in the innermost scope, or in the
  innermost one that knows a name;
* `IndexedTable.defineGlobal`, `IndexedTable.lookupGlobal?`, `IndexedTable.setGlobalState` — steps in the first scope.

The outer `none` of a step says that it went astray: it looked at a place where nothing is.
-/

namespace ThreeAddress

/-! ### Scopes -/

/-- Entities in a row, and the place of each name in it. -/
structure IndexedScope where
  entities : Array Entity
  index : Std.HashMap String Nat

namespace IndexedScope

/-- A scope without entities. -/
def empty : IndexedScope := ⟨#[], ∅⟩

/-- What a name means in this scope.  If the index has a place for it, the row has to reach there. -/
def lookup? (s : IndexedScope) (name : String) : Option (Option Entity) :=
  match s.index[name]? with
  | none => some none
  | some i => s.entities[i]?.map some

/-- Whether the index has a place for a name. -/
def contains (s : IndexedScope) (name : String) : Bool := s.index.contains name

/-- Define an entity behind the others; if its name is taken, the answer is what it means. -/
def define (s : IndexedScope) (e : Entity) : Option (Except Entity IndexedScope) := do
  match ← s.lookup? e.name with
  | some existing => return .error existing
  | none => return .ok ⟨s.entities.push e, s.index.insert e.name s.entities.size⟩

/-- Put an entity in the place of the one of its name, and say whether there is one. -/
def replace (s : IndexedScope) (e : Entity) : Option (Bool × IndexedScope) :=
  match s.index[e.name]? with
  | none => some (false, s)
  | some i => if h : i < s.entities.size then some (true, { s with entities := s.entities.set i e }) else none

/-- Change the state of a name, if it is defined: what it means is looked up, and a copy is put in its place. -/
def setState (s : IndexedScope) (name : String) (state : EntityState) : Option IndexedScope := do
  match ← s.lookup? name with
  | none => return s
  | some e => return (← s.replace (e.withState state)).2

end IndexedScope

/-! ### Tables -/

/-- The scopes that are open, the global one first. -/
structure IndexedTable where
  scopes : List IndexedScope

namespace IndexedTable

/-- Only the global scope, without entities. -/
def empty : IndexedTable := ⟨[.empty]⟩

/-- Open a scope. -/
def push (t : IndexedTable) : IndexedTable := ⟨t.scopes ++ [.empty]⟩

/-- Close the innermost scope, unless it is the only one. -/
def pop? (t : IndexedTable) : Option IndexedScope × IndexedTable :=
  if 1 < t.scopes.length then (t.scopes.getLast?, ⟨t.scopes.dropLast⟩) else (none, t)

/-- Define an entity in the innermost scope.  Without any scope it is refused itself. -/
def define (t : IndexedTable) (e : Entity) : Option (Except Entity IndexedTable) :=
  match t.scopes.getLast? with
  | none => some (.error e)
  | some s => do
    return (← s.define e).map fun s' => ⟨t.scopes.dropLast ++ [s']⟩

/-- Define an entity in the global scope. -/
def defineGlobal (t : IndexedTable) (e : Entity) : Option (Except Entity IndexedTable) := do
  let g ← t.scopes.head?
  return (← g.define e).map fun g' => ⟨g' :: t.scopes.tail⟩

/-- What a name means in the first of some scopes that knows it. -/
def firstMeaning (name : String) : List IndexedScope → Option (Option Entity)
  | [] => some none
  | s :: outer => do
    match ← s.lookup? name with
    | some e => return some e
    | none => firstMeaning name outer

/-- What a name means: the scopes are searched from the innermost one on. -/
def lookup? (t : IndexedTable) (name : String) : Option (Option Entity) := firstMeaning name t.scopes.reverse

/-- What a name means in the global scope. -/
def lookupGlobal? (t : IndexedTable) (name : String) : Option (Option Entity) := do
  (← t.scopes.head?).lookup? name

/-- Whether a name is defined in the innermost scope. -/
def declaredHere (t : IndexedTable) (name : String) : Bool := t.scopes.getLast?.any (·.contains name)

/-- Change the state of a name in the first of some scopes that knows it. -/
def setStateFirst (name : String) (state : EntityState) : List IndexedScope → Option (List IndexedScope)
  | [] => some []
  | s :: outer => do
    if s.contains name then return (← s.setState name state) :: outer
    else return s :: (← setStateFirst name state outer)

/-- Change the state of what a name means. -/
def setState (t : IndexedTable) (name : String) (state : EntityState) : Option IndexedTable := do
  return ⟨(← setStateFirst name state t.scopes.reverse).reverse⟩

/-- Change the state of a name in the global scope. -/
def setGlobalState (t : IndexedTable) (name : String) (state : EntityState) : Option IndexedTable := do
  let g ← t.scopes.head?
  return ⟨(← g.setState name state) :: t.scopes.tail⟩

end IndexedTable

end ThreeAddress
