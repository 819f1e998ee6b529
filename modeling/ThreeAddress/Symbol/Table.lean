import ThreeAddress.Symbol.Entity

/-!
# Scopes and symbol tables

* `Scope` — entities in the order of their definition, each name at most once;
* `SymbolTable` — the global scope, which is always there, and the scopes opened inside it, innermost
  first.

A name means its innermost definition; a second definition in one scope is refused and changes nothing.
-/

namespace ThreeAddress

/-! ### Scopes -/

/-- Entities in the order of their definition. -/
structure Scope where
  entities : List Entity
deriving DecidableEq

namespace Scope

/-- A scope without entities. -/
def empty : Scope := ⟨[]⟩

/-- The number of entities. -/
def size (s : Scope) : Nat := s.entities.length

/-- What a name means in this scope. -/
def lookup? (s : Scope) (name : String) : Option Entity := s.entities.find? (·.name == name)

/-- Whether a name is defined in this scope. -/
def contains (s : Scope) (name : String) : Bool := s.entities.any (·.name == name)

/-- Define an entity behind the others; if its name is taken, the answer is what it means. -/
def define (s : Scope) (e : Entity) : Except Entity Scope :=
  match s.lookup? e.name with
  | some existing => .error existing
  | none => .ok ⟨s.entities ++ [e]⟩

/-- Put an entity in the place of the one of its name, if there is one. -/
def replace (s : Scope) (e : Entity) : Scope :=
  ⟨s.entities.map fun old => if old.name = e.name then e else old⟩

/-- Change the state of a name, if it is defined. -/
def setState (s : Scope) (name : String) (state : EntityState) : Scope :=
  ⟨s.entities.map fun e => if e.name = name then e.withState state else e⟩

end Scope

/-! ### Symbol tables -/

/-- The scopes that are open: those inside the global one, innermost first, and the global one. -/
structure SymbolTable where
  inner : List Scope
  globals : Scope
deriving DecidableEq

namespace SymbolTable

/-- Only the global scope, without entities. -/
def empty : SymbolTable := ⟨[], .empty⟩

/-- The number of open scopes. -/
def depth (t : SymbolTable) : Nat := t.inner.length + 1

/-- Whether only the global scope is open. -/
def isGlobal (t : SymbolTable) : Bool := t.inner.isEmpty

/-- Open a scope. -/
def push (t : SymbolTable) : SymbolTable := { t with inner := .empty :: t.inner }

/-- Close the innermost scope.  The global scope is never closed. -/
def pop? (t : SymbolTable) : Option (Scope × SymbolTable) :=
  match t.inner with
  | [] => none
  | s :: outer => some (s, { t with inner := outer })

/-- The innermost scope. -/
def current (t : SymbolTable) : Scope :=
  match t.inner with
  | [] => t.globals
  | s :: _ => s

/-- Define an entity in the innermost scope. -/
def define (t : SymbolTable) (e : Entity) : Except Entity SymbolTable :=
  match t.inner with
  | [] => (t.globals.define e).map fun g => { t with globals := g }
  | s :: outer => (s.define e).map fun s' => { t with inner := s' :: outer }

/-- Define an entity in the global scope. -/
def defineGlobal (t : SymbolTable) (e : Entity) : Except Entity SymbolTable :=
  (t.globals.define e).map fun g => { t with globals := g }

/-- What a name means: its innermost definition. -/
def lookup? (t : SymbolTable) (name : String) : Option Entity :=
  match t.inner.findSome? (·.lookup? name) with
  | some e => some e
  | none => t.globals.lookup? name

/-- What a name means in the global scope. -/
def lookupGlobal? (t : SymbolTable) (name : String) : Option Entity := t.globals.lookup? name

/-- Whether a name is defined in the innermost scope. -/
def declaredHere (t : SymbolTable) (name : String) : Bool := t.current.contains name

/-- Change the state of a name in the innermost of some scopes that defines it. -/
def setStateIn (name : String) (state : EntityState) : List Scope → Option (List Scope)
  | [] => none
  | s :: outer =>
    if s.contains name then some (s.setState name state :: outer)
    else (setStateIn name state outer).map (s :: ·)

/-- Change the state of a name in the global scope. -/
def setGlobalState (t : SymbolTable) (name : String) (state : EntityState) : SymbolTable :=
  { t with globals := t.globals.setState name state }

/-- Change the state of what a name means. -/
def setState (t : SymbolTable) (name : String) (state : EntityState) : SymbolTable :=
  match setStateIn name state t.inner with
  | some inner => { t with inner := inner }
  | none => t.setGlobalState name state

end SymbolTable

end ThreeAddress
