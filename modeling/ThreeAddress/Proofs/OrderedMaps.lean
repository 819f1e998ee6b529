import Mathlib.Data.List.Nodup
import ThreeAddress.Symbol.Entity

/-!
# Maps in order and stacks of them

A map from names to entities that remembers in which order its names were bound, and a stack of such maps that is never
empty.  Both are said by what a name means, without regard to how it is found.

* `EntityMap` — the bound names in order, and what each name means;
* `EntityMap.bind`, `EntityMap.change` — a free name is bound behind the others, or a bound one gets another meaning in
  its place;
* `MapStack` — the maps, innermost first; the last one is the global one;
* `MapStack.push`, `MapStack.pop?`, `MapStack.define`, `MapStack.setState` and the like — what can be done to a stack.
-/

namespace ThreeAddress

/-! ### Maps -/

/-- Names in the order in which they were bound, and what they mean.  An entity is bound under its own name. -/
structure EntityMap where
  names : List String
  meaning : String → Option Entity
  distinct : names.Nodup
  bound : ∀ x, (meaning x).isSome ↔ x ∈ names
  named : ∀ x e, meaning x = some e → e.name = x

namespace EntityMap

/-- Nothing is bound. -/
def empty : EntityMap := ⟨[], fun _ => none, .nil, by simp, by simp⟩

/-- The entities in the order of their names. -/
def toList (m : EntityMap) : List Entity := m.names.filterMap m.meaning

theorem meaning_eq_none_iff (m : EntityMap) (x : String) : m.meaning x = none ↔ x ∉ m.names := by
  rw [← m.bound, Option.not_isSome_iff_eq_none]

/-- Bind an entity whose name is free; it comes last. -/
def bind (m : EntityMap) (e : Entity) (h : m.meaning e.name = none) : EntityMap where
  names := m.names ++ [e.name]
  meaning x := if x = e.name then some e else m.meaning x
  distinct := by
    have hfree := (m.meaning_eq_none_iff e.name).1 h
    exact m.distinct.append (List.nodup_singleton _) (by simpa using hfree)
  bound x := by
    by_cases hx : x = e.name
    · simp [hx]
    · simp [hx, m.bound x]
  named x e' he := by
    by_cases hx : x = e.name
    · rw [if_pos hx, Option.some.injEq] at he
      rw [← he, hx]
    · rw [if_neg hx] at he
      exact m.named x e' he

/-- Change what one name means, if it is bound.  All names keep their places, and all others their meanings. -/
def change (m : EntityMap) (name : String) (f : Entity → Entity) (hf : ∀ e, e.name = name → (f e).name = name) :
    EntityMap where
  names := m.names
  meaning x := if x = name then (m.meaning x).map f else m.meaning x
  distinct := m.distinct
  bound x := by
    by_cases hx : x = name
    · simp [hx, m.bound name]
    · simp [hx, m.bound x]
  named x e he := by
    by_cases hx : x = name
    · rw [if_pos hx] at he
      obtain ⟨old, hold, rfl⟩ := Option.map_eq_some_iff.1 he
      rw [hx]
      exact hf old (hx ▸ m.named x old hold)
    · rw [if_neg hx] at he
      exact m.named x e he

/-- Bind an entity; if its name is taken, the answer is what it means. -/
def define (m : EntityMap) (e : Entity) : Except Entity EntityMap :=
  match h : m.meaning e.name with
  | some existing => .error existing
  | none => .ok (m.bind e h)

/-- Put an entity in the place of the one that its name means. -/
def replace (m : EntityMap) (e : Entity) : EntityMap := m.change e.name (fun _ => e) fun _ _ => rfl

/-- Change the state of what a name means; all else about it stays. -/
def setState (m : EntityMap) (name : String) (state : EntityState) : EntityMap :=
  m.change name (·.withState state) fun _ h => h

end EntityMap

/-! ### Stacks -/

/-- Maps one inside the other, innermost first.  There is always one. -/
structure MapStack where
  maps : List EntityMap
  nonempty : maps ≠ []

namespace MapStack

/-- One map in which nothing is bound. -/
def empty : MapStack := ⟨[.empty], List.cons_ne_nil _ _⟩

/-- The innermost map. -/
def top (t : MapStack) : EntityMap := t.maps.head t.nonempty

/-- The outermost map. -/
def global (t : MapStack) : EntityMap := t.maps.getLast t.nonempty

/-- Put a map in which nothing is bound on top. -/
def push (t : MapStack) : MapStack := ⟨.empty :: t.maps, List.cons_ne_nil _ _⟩

/-- Take the innermost map off, unless it is the only one. -/
def pop? (t : MapStack) : Option EntityMap × MapStack :=
  if h : t.maps.tail = [] then (none, t) else (some t.top, ⟨t.maps.tail, h⟩)

/-- Change the map at some place. -/
def modify (t : MapStack) (place : Nat) (f : EntityMap → EntityMap) : MapStack where
  maps := t.maps.modify place f
  nonempty := by
    rw [← List.length_pos_iff, List.length_modify, List.length_pos_iff]
    exact t.nonempty

/-- The place of the outermost map. -/
def globalPlace (t : MapStack) : Nat := t.maps.length - 1

/-- The place of the innermost map that binds a name. -/
def placeOf (t : MapStack) (name : String) : Nat := t.maps.findIdx fun m => (m.meaning name).isSome

/-- Bind an entity in the innermost map. -/
def define (t : MapStack) (e : Entity) : Except Entity MapStack :=
  (t.top.define e).map fun m => t.modify 0 fun _ => m

/-- Bind an entity in the outermost map. -/
def defineGlobal (t : MapStack) (e : Entity) : Except Entity MapStack :=
  (t.global.define e).map fun m => t.modify t.globalPlace fun _ => m

/-- What a name means: its innermost binding. -/
def meaning (t : MapStack) (name : String) : Option Entity := t.maps.findSome? (·.meaning name)

/-- Change the state in the innermost binding of a name. -/
def setState (t : MapStack) (name : String) (state : EntityState) : MapStack :=
  t.modify (t.placeOf name) (·.setState name state)

/-- Change the state of a name in the outermost map, if it is bound there. -/
def setGlobalState (t : MapStack) (name : String) (state : EntityState) : MapStack :=
  t.modify t.globalPlace (·.setState name state)

end MapStack

end ThreeAddress
