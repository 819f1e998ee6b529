import Mathlib.Data.List.Forall2
import ThreeAddress.Proofs.TableSteps
import ThreeAddress.Symbol.Indexed

/-!
# An index stays with its row

In a scope with an index, the index has a place for a name exactly if the entity at that place has the name.  Every
step keeps this, so none goes astray, and each comes to what it comes to where the entities are searched.

* `IndexedScope.Indexes`, `IndexedTable.Indexes` — an index fits its row, and the row holds the entities of a scope;
* `IndexedScope.Indexes.lookup`, `IndexedScope.Indexes.define`, `IndexedScope.Indexes.replace`,
  `IndexedScope.Indexes.setState` — the steps in a scope;
* `SymbolTable.scopes_setState` — the innermost scope that knows a name is the one that changes;
* `IndexedTable.Indexes.define`, `IndexedTable.Indexes.setState` and the like — the steps in a table.
-/

namespace ThreeAddress

/-- Entities of other names are left alone. -/
theorem Scope.map_eq_self {s : Scope} {x : String} (hx : s.lookup? x = none) (f : Entity → Entity) :
    (s.entities.map fun e => if e.name = x then f e else e) = s.entities := by
  refine (List.map_congr_left fun e he => if_neg fun hname => ?_).trans (List.map_id _)
  simpa [hname] using List.find?_eq_none.1 hx e he

/-! ### Rows with an index as lists -/

namespace IndexedScope

variable {s : IndexedScope} {p : Scope} {e : Entity} {x : String}

/-- The row holds the entities of a scope, and the index has a place for a name exactly if the entity there has that
name.  So no two entities have one name. -/
structure Indexes (s : IndexedScope) (p : Scope) : Prop where
  row : s.entities.toList = p.entities
  places : ∀ x i, s.index[x]? = some i ↔ ∃ e : Entity, p.entities[i]? = some e ∧ e.name = x

theorem indexes_empty : empty.Indexes .empty := ⟨rfl, fun x i => by simp [empty, Scope.empty]⟩

namespace Indexes

theorem getElem?_row (h : s.Indexes p) (i : Nat) : s.entities[i]? = p.entities[i]? := by
  rw [← h.row, Array.getElem?_toList]

theorem size_row (h : s.Indexes p) : s.entities.size = p.entities.length := by
  rw [← h.row, Array.length_toList]

/-- An entity is what its name means. -/
theorem lookup_of_mem (h : s.Indexes p) (he : e ∈ p.entities) : p.lookup? e.name = some e := by
  have hsome : (p.entities.find? (·.name == e.name)).isSome := by
    rw [List.find?_isSome]
    exact ⟨e, he, by simp⟩
  obtain ⟨e', he'⟩ := Option.isSome_iff_exists.1 hsome
  obtain ⟨i, hi⟩ := List.getElem?_of_mem he
  obtain ⟨j, hj⟩ := List.getElem?_of_mem (List.mem_of_find?_eq_some he')
  have hname : e'.name = e.name := by simpa using List.find?_some he'
  have hplace := (h.places e.name i).2 ⟨e, hi, rfl⟩
  rw [(h.places e.name j).2 ⟨e', hj, hname⟩, Option.some.injEq] at hplace
  rw [hplace, hi, Option.some.injEq] at hj
  rw [Scope.lookup?, he', hj]

/-- A name has a place, with an entity there that it means; or it has none, and means nothing. -/
theorem index_cases (h : s.Indexes p) (x : String) :
    (s.index[x]? = none ∧ p.lookup? x = none) ∨
      ∃ i e, s.index[x]? = some i ∧ p.entities[i]? = some e ∧ e.name = x ∧ p.lookup? x = some e := by
  cases hi : s.index[x]? with
  | none =>
    refine .inl ⟨rfl, List.find?_eq_none.2 fun e he hx => ?_⟩
    obtain ⟨i, hplace⟩ := List.getElem?_of_mem he
    rw [(h.places x i).2 ⟨e, hplace, by simpa using hx⟩] at hi
    cases hi
  | some i =>
    obtain ⟨e, he, hname⟩ := (h.places x i).1 hi
    exact .inr ⟨i, e, rfl, he, hname, hname ▸ h.lookup_of_mem (List.mem_of_getElem? he)⟩

theorem lookup (h : s.Indexes p) (x : String) : s.lookup? x = some (p.lookup? x) := by
  rcases h.index_cases x with ⟨hi, hx⟩ | ⟨i, e, hi, he, -, hx⟩
  · rw [IndexedScope.lookup?, hi, hx]
  · rw [IndexedScope.lookup?, hi, hx]
    simp only [h.getElem?_row, he, Option.map_some]

theorem contains (h : s.Indexes p) (x : String) : s.contains x = p.contains x := by
  rw [IndexedScope.contains, ← Std.HashMap.isSome_getElem?_eq_contains, p.contains_eq]
  rcases h.index_cases x with ⟨hi, hx⟩ | ⟨i, e, hi, -, -, hx⟩
  · rw [hi, hx]
    rfl
  · rw [hi, hx]
    rfl

/-- Both take up an entity, or both refuse it for the same one. -/
theorem define (h : s.Indexes p) (e : Entity) :
    (∃ old, s.define e = some (.error old) ∧ p.define e = .error old) ∨
      ∃ s' p', s.define e = some (.ok s') ∧ p.define e = .ok p' ∧ s'.Indexes p' := by
  rw [IndexedScope.define, h.lookup, Scope.define]
  cases hx : p.lookup? e.name with
  | some old => exact .inl ⟨old, rfl, rfl⟩
  | none =>
    have hfree : ∀ e' ∈ p.entities, e'.name ≠ e.name := by
      intro e' he' hname
      simpa [hname] using List.find?_eq_none.1 hx e' he'
    refine .inr ⟨_, _, rfl, rfl, ?_, fun x i => ?_⟩
    · rw [Array.toList_push, h.row]
    · rw [Std.HashMap.getElem?_insert, List.getElem?_append]
      by_cases hname : e.name = x
      · -- a free name has its first place behind the row
        subst hname
        simp only [beq_self_eq_true, if_true, Option.some.injEq, h.size_row]
        constructor
        · rintro rfl
          exact ⟨e, by simp, rfl⟩
        · rintro ⟨e', he', hname'⟩
          split at he'
          · exact absurd hname' (hfree e' (List.mem_of_getElem? he'))
          · rw [List.getElem?_singleton] at he'
            split at he'
            · omega
            · cases he'
      · rw [if_neg (by simpa using hname), h.places]
        refine exists_congr fun e' => and_congr_left fun hname' => ?_
        split
        · exact Iff.rfl
        · rename_i hi
          rw [List.getElem?_eq_none (by omega), List.getElem?_singleton]
          refine iff_of_false (by simp) ?_
          split
          · rw [Option.some.injEq]
            rintro rfl
            exact hname hname'
          · simp

/-- An entity goes to the place of the one of its name. -/
theorem entities_replace (h : s.Indexes p) {i : Nat} (hi : s.index[e.name]? = some i) :
    (p.replace e).entities = p.entities.set i e := by
  obtain ⟨old, hold, hname⟩ := (h.places e.name i).1 hi
  refine List.ext_getElem? fun j => ?_
  rw [Scope.replace, List.getElem?_map, List.getElem?_set]
  by_cases hij : i = j
  · subst hij
    rw [if_pos rfl, if_pos (List.getElem?_eq_some_iff.1 hold).1, hold, Option.map_some, if_pos hname]
  · rw [if_neg hij]
    cases he' : p.entities[j]? with
    | none => rfl
    | some e' =>
      have hother : e'.name ≠ e.name := fun hname' =>
        hij (Option.some.inj (hi.symm.trans ((h.places e.name j).2 ⟨e', he', hname'⟩)))
      rw [Option.map_some, if_neg hother]

/-- Both put an entity in the place of that of its name, if there is one. -/
theorem replace (h : s.Indexes p) (e : Entity) :
    ∃ s', s.replace e = some (p.contains e.name, s') ∧ s'.Indexes (p.replace e) := by
  rw [p.contains_eq]
  rcases h.index_cases e.name with ⟨hi, hx⟩ | ⟨i, old, hi, hold, hname, hx⟩
  · refine ⟨s, by rw [IndexedScope.replace, hi, hx]; rfl, ?_⟩
    have hsame : p.replace e = p := congrArg Scope.mk (Scope.map_eq_self hx _)
    rw [hsame]
    exact h
  · have hlt : i < s.entities.size := h.size_row ▸ (List.getElem?_eq_some_iff.1 hold).1
    have hset : s.replace e = some (true, { s with entities := s.entities.set i e }) := by
      rw [IndexedScope.replace, hi]
      exact dif_pos hlt
    refine ⟨{ s with entities := s.entities.set i e }, by rw [hset, hx]; rfl, ?_, fun x j => (h.places x j).trans ?_⟩
    · rw [h.entities_replace hi, Array.toList_set, h.row]
    · -- the entity that comes has the name of the one that goes
      rw [h.entities_replace hi, List.getElem?_set]
      by_cases hij : i = j
      · subst hij
        rw [if_pos rfl, if_pos (List.getElem?_eq_some_iff.1 hold).1, hold]
        simp [hname]
      · rw [if_neg hij]

/-- A copy in another state is put in the place of what a name means. -/
theorem setState (h : s.Indexes p) (x : String) (state : EntityState) :
    ∃ s', s.setState x state = some s' ∧ s'.Indexes (p.setState x state) := by
  rw [IndexedScope.setState, h.lookup]
  cases hx : p.lookup? x with
  | none =>
    have hsame : p.setState x state = p := congrArg Scope.mk (Scope.map_eq_self hx _)
    exact ⟨s, rfl, hsame.symm ▸ h⟩
  | some e =>
    obtain ⟨s', hs', hr⟩ := h.replace (e.withState state)
    have hsame : p.setState x state = p.replace (e.withState state) := by
      refine congrArg Scope.mk (List.map_congr_left fun e' he' => ?_)
      have hname : (e.withState state).name = x := (Scope.exists_of_lookup hx).1
      rw [hname]
      by_cases hx' : e'.name = x
      · have hmean := h.lookup_of_mem he'
        rw [hx', hx, Option.some.injEq] at hmean
        rw [if_pos hx', if_pos hx', hmean]
      · rw [if_neg hx', if_neg hx']
    exact ⟨s', by simp [hs'], hsame.symm ▸ hr⟩

end Indexes

end IndexedScope

/-! ### Scopes of a table, innermost first -/

namespace SymbolTable

variable (t : SymbolTable) (x : String) (state : EntityState)

theorem reverse_scopes : t.scopes.reverse = t.inner ++ [t.globals] := by simp [scopes]

theorem lookup?_eq : t.lookup? x = t.scopes.reverse.findSome? (·.lookup? x) := by
  rw [lookup?, reverse_scopes, List.findSome?_append, List.findSome?_singleton]
  cases t.inner.findSome? (·.lookup? x) <;> rfl

/-- The innermost scope that knows a name is the one that changes. -/
theorem scopes_setState : (t.setState x state).scopes.reverse =
    t.scopes.reverse.modify (t.scopes.reverse.findIdx (·.contains x)) (·.setState x state) := by
  obtain ⟨inner, globals⟩ := t
  simp only [reverse_scopes]
  unfold setState
  dsimp only
  induction inner with
  | nil =>
    rw [setStateIn, List.nil_append, List.findIdx_cons]
    cases hx : globals.contains x with
    | true => rfl
    | false =>
      have hnone : globals.lookup? x = none := by
        rwa [globals.contains_eq, Option.isSome_eq_false_iff, Option.isNone_iff_eq_none] at hx
      exact congrArg (fun es => [Scope.mk es]) (Scope.map_eq_self hnone _)
  | cons s outer ih =>
    rw [setStateIn, List.cons_append, List.findIdx_cons]
    cases hx : s.contains x with
    | true => rfl
    | false =>
      rw [if_neg Bool.false_ne_true, cond_false, List.modify_succ_cons, ← ih]
      cases setStateIn x state outer <;> rfl

/-- The table with another innermost scope. -/
def withCurrent (s : Scope) : SymbolTable :=
  match t.inner with
  | [] => { t with globals := s }
  | _ :: outer => { t with inner := s :: outer }

theorem define_eq (e : Entity) : t.define e = (t.current.define e).map t.withCurrent := by
  obtain ⟨_ | ⟨s, outer⟩, globals⟩ := t <;> rfl

end SymbolTable

/-! ### Tables with an index -/

namespace IndexedTable

variable {i : IndexedTable} {t : SymbolTable} {is : List IndexedScope} {ss : List Scope}

/-- Each scope of a table is indexed by one of the other. -/
def Indexes (i : IndexedTable) (t : SymbolTable) : Prop := List.Forall₂ IndexedScope.Indexes i.scopes t.scopes

theorem indexes_empty : empty.Indexes .empty := .cons IndexedScope.indexes_empty .nil

/-- Scopes up to the innermost one. -/
theorem forall₂_concat {s : Scope} (h : List.Forall₂ IndexedScope.Indexes is (ss ++ [s])) :
    ∃ js j, is = js ++ [j] ∧ List.Forall₂ IndexedScope.Indexes js ss ∧ j.Indexes s := by
  have hrev := List.forall₂_reverse_iff.2 h
  rw [List.reverse_append] at hrev
  obtain ⟨j, js, hj, hjs, heq⟩ := List.forall₂_cons_right_iff.1 hrev
  refine ⟨js.reverse, j, ?_, List.forall₂_reverse_iff.1 (by rwa [List.reverse_reverse]), hj⟩
  rw [← List.reverse_reverse is, heq, List.reverse_cons]

theorem concat {j : IndexedScope} {s : Scope} (h : List.Forall₂ IndexedScope.Indexes is ss) (hj : j.Indexes s) :
    List.Forall₂ IndexedScope.Indexes (is ++ [j]) (ss ++ [s]) :=
  List.rel_append h (.cons hj .nil)

/-- The first scope that knows a name. -/
theorem firstMeaning_eq (h : List.Forall₂ IndexedScope.Indexes is ss) (x : String) :
    firstMeaning x is = some (ss.findSome? (·.lookup? x)) := by
  induction h with
  | nil => rfl
  | @cons j s is ss hj _ ih =>
    rw [firstMeaning, hj.lookup, List.findSome?_cons]
    cases s.lookup? x with
    | some e => rfl
    | none => exact ih

/-- The first scope that knows a name is changed in both. -/
theorem setStateFirst_indexes (h : List.Forall₂ IndexedScope.Indexes is ss) (x : String) (state : EntityState) :
    ∃ js, setStateFirst x state is = some js ∧
      List.Forall₂ IndexedScope.Indexes js (ss.modify (ss.findIdx (·.contains x)) (·.setState x state)) := by
  induction h with
  | nil => exact ⟨[], rfl, .nil⟩
  | @cons j s is ss hj hmore ih =>
    rw [setStateFirst, hj.contains, List.findIdx_cons]
    cases s.contains x with
    | true =>
      obtain ⟨j', hj', hr⟩ := hj.setState x state
      exact ⟨j' :: is, by simp [hj'], .cons hr hmore⟩
    | false =>
      obtain ⟨js, hjs, hr⟩ := ih
      exact ⟨j :: js, by simp [hjs], .cons hj hr⟩

namespace Indexes

theorem reverse (h : i.Indexes t) : List.Forall₂ IndexedScope.Indexes i.scopes.reverse t.scopes.reverse :=
  List.forall₂_reverse_iff.2 h

/-- Both hold the same entities, scope by scope. -/
theorem entities_eq (h : i.Indexes t) :
    i.scopes.reverse.map (·.entities.toList) = t.scopes.reverse.map Scope.entities := by
  have hrows := h.reverse
  generalize i.scopes.reverse = is, t.scopes.reverse = ss at hrows ⊢
  induction hrows with
  | nil => rfl
  | cons hj _ ih => rw [List.map_cons, List.map_cons, hj.row, ih]

theorem of_reverse (h : List.Forall₂ IndexedScope.Indexes is t.scopes.reverse) : Indexes ⟨is.reverse⟩ t :=
  List.forall₂_reverse_iff.1 (by rwa [List.reverse_reverse])

/-- The first scope of the row is the global one. -/
theorem globals (h : i.Indexes t) : ∃ g upper, i.scopes = g :: upper ∧ g.Indexes t.globals ∧
    List.Forall₂ IndexedScope.Indexes upper t.inner.reverse := by
  obtain ⟨g, upper, hg, hupper, heq⟩ := List.forall₂_cons_right_iff.1 h
  exact ⟨g, upper, heq, hg, hupper⟩

/-- The last scope of the row is the innermost one, and may be put in its place. -/
theorem current (h : i.Indexes t) : ∃ lower c, i.scopes = lower ++ [c] ∧ c.Indexes t.current ∧
    ∀ {c' : IndexedScope} {s' : Scope}, c'.Indexes s' → Indexes ⟨lower ++ [c']⟩ (t.withCurrent s') := by
  obtain ⟨inner, globals⟩ := t
  cases inner with
  | nil =>
    obtain ⟨g, upper, heq, hg, hupper⟩ := h.globals
    cases hupper
    exact ⟨[], g, heq, hg, fun hc' => .cons hc' .nil⟩
  | cons s outer =>
    rw [Indexes, SymbolTable.scopes_cons] at h
    obtain ⟨lower, c, heq, hlower, hc⟩ := forall₂_concat h
    refine ⟨lower, c, heq, hc, fun {c' s'} hc' => ?_⟩
    rw [Indexes, SymbolTable.withCurrent, SymbolTable.scopes_cons]
    exact concat hlower hc'

theorem push (h : i.Indexes t) : i.push.Indexes t.push := by
  have hpush := concat h IndexedScope.indexes_empty
  simpa [Indexes, SymbolTable.scopes, SymbolTable.push, IndexedTable.push] using hpush

/-- Both close a scope of the same entities, or none. -/
theorem pop (h : i.Indexes t) :
    (i.pop? = (none, i) ∧ t.pop? = none) ∨
      ∃ c i' s t', i.pop? = (some c, i') ∧ t.pop? = some (s, t') ∧ c.Indexes s ∧ i'.Indexes t' := by
  obtain ⟨inner, globals⟩ := t
  cases inner with
  | nil =>
    obtain ⟨g, upper, heq, -, hupper⟩ := h.globals
    cases hupper
    exact .inl ⟨by rw [pop?, heq]; rfl, rfl⟩
  | cons s outer =>
    rw [Indexes, SymbolTable.scopes_cons] at h
    obtain ⟨lower, c, heq, hlower, hc⟩ := forall₂_concat h
    have hopen : 1 < i.scopes.length := by
      have hlen := hlower.length_eq
      rw [List.length_cons] at hlen
      rw [heq, List.length_append, List.length_singleton]
      omega
    refine .inr ⟨c, ⟨lower⟩, s, ⟨outer, globals⟩, ?_, rfl, hc, hlower⟩
    rw [pop?, if_pos hopen, heq, List.getLast?_concat, List.dropLast_concat]

/-- Both take up an entity in the innermost scope, or both refuse it for the same one. -/
theorem define (h : i.Indexes t) (e : Entity) :
    (∃ old, i.define e = some (.error old) ∧ t.define e = .error old) ∨
      ∃ i' t', i.define e = some (.ok i') ∧ t.define e = .ok t' ∧ i'.Indexes t' := by
  obtain ⟨lower, c, heq, hc, hput⟩ := h.current
  rcases hc.define e with ⟨old, hi, ht⟩ | ⟨c', s', hi, ht, hc'⟩
  · exact .inl ⟨old, by simp [IndexedTable.define, heq, hi, Except.map], by rw [t.define_eq, ht]; rfl⟩
  · exact .inr ⟨⟨lower ++ [c']⟩, t.withCurrent s', by simp [IndexedTable.define, heq, hi, Except.map],
      by rw [t.define_eq, ht]; rfl, hput hc'⟩

/-- Both take up an entity in the global scope, or both refuse it for the same one. -/
theorem defineGlobal (h : i.Indexes t) (e : Entity) :
    (∃ old, i.defineGlobal e = some (.error old) ∧ t.defineGlobal e = .error old) ∨
      ∃ i' t', i.defineGlobal e = some (.ok i') ∧ t.defineGlobal e = .ok t' ∧ i'.Indexes t' := by
  obtain ⟨g, upper, heq, hg, hupper⟩ := h.globals
  rcases hg.define e with ⟨old, hi, ht⟩ | ⟨g', s', hi, ht, hg'⟩
  · exact .inl ⟨old, by simp [IndexedTable.defineGlobal, heq, hi, Except.map],
      by rw [SymbolTable.defineGlobal, ht]; rfl⟩
  · exact .inr ⟨⟨g' :: upper⟩, ⟨t.inner, s'⟩, by simp [IndexedTable.defineGlobal, heq, hi, Except.map],
      by rw [SymbolTable.defineGlobal, ht]; rfl, .cons hg' hupper⟩

theorem lookup (h : i.Indexes t) (x : String) : i.lookup? x = some (t.lookup? x) := by
  rw [IndexedTable.lookup?, firstMeaning_eq h.reverse, t.lookup?_eq]

theorem lookupGlobal (h : i.Indexes t) (x : String) : i.lookupGlobal? x = some (t.lookupGlobal? x) := by
  obtain ⟨g, upper, heq, hg, -⟩ := h.globals
  rw [IndexedTable.lookupGlobal?, heq]
  exact hg.lookup x

theorem declaredHere (h : i.Indexes t) (x : String) : i.declaredHere x = t.declaredHere x := by
  obtain ⟨lower, c, heq, hc, -⟩ := h.current
  rw [IndexedTable.declaredHere, heq, List.getLast?_concat, SymbolTable.declaredHere, ← hc.contains]
  rfl

theorem setState (h : i.Indexes t) (x : String) (state : EntityState) :
    ∃ i', i.setState x state = some i' ∧ i'.Indexes (t.setState x state) := by
  obtain ⟨js, hjs, hr⟩ := setStateFirst_indexes h.reverse x state
  rw [← t.scopes_setState] at hr
  exact ⟨⟨js.reverse⟩, by rw [IndexedTable.setState, hjs]; rfl, of_reverse hr⟩

theorem setGlobalState (h : i.Indexes t) (x : String) (state : EntityState) :
    ∃ i', i.setGlobalState x state = some i' ∧ i'.Indexes (t.setGlobalState x state) := by
  obtain ⟨g, upper, heq, hg, hupper⟩ := h.globals
  obtain ⟨g', hg', hr⟩ := hg.setState x state
  exact ⟨⟨g' :: upper⟩, by simp [IndexedTable.setGlobalState, heq, hg'], .cons hr hupper⟩

end Indexes

end IndexedTable

end ThreeAddress
